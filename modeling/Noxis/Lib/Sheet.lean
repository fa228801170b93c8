import Mathlib.Logic.Basic
import Mathlib.Tactic.Common

/-!
# A sheet that a cursor writes on

The sheet of a display shows a character at each place, or none that it knows of; the cursor is a place.

* `Sheet.Ends`    what stands in front of the cursor;
* `Sheet.Puts`    a character was written at the cursor, and the sheet moved up by `d` places;
* `Sheet.Erases`  the place in front of the cursor was cleared, and the cursor is there;
* `Puts.ends_append_iff`, `Erases.ends`, `Erases.not_ends`   what stands there afterwards.
-/

namespace Noxis

/-- where the cursor is, and which characters can be read at a place -/
structure Sheet (α : Type*) where
  pos : Nat
  reads : Nat → α → Prop

variable {α : Type*} {s t : Sheet α} {d : Nat} {x y : α} {l : List α}

/-- the places in front of the cursor read `l` -/
def Sheet.Ends (s : Sheet α) (l : List α) : Prop :=
  ∃ p, p + l.length = s.pos ∧ ∀ i y, l[i]? = some y → s.reads (p + i) y

/-- `x` was written at the cursor of `s`, and the sheet then moved up by `d` places -/
structure Sheet.Puts (s t : Sheet α) (d : Nat) (x : α) : Prop where
  pos : t.pos + d = s.pos + 1
  new : d ≤ s.pos → t.reads (s.pos - d) x
  old : ∀ q y, d ≤ q → q < s.pos → s.reads q y → t.reads (q - d) y

/-- the place in front of the cursor of `s` was cleared, and the cursor moved back there -/
structure Sheet.Erases (s t : Sheet α) : Prop where
  pos : t.pos + 1 = s.pos
  old : ∀ q y, q < t.pos → s.reads q y → t.reads q y

theorem Sheet.Ends.length_le (h : s.Ends l) : l.length ≤ s.pos := by
  obtain ⟨p, hp, -⟩ := h
  omega

theorem Sheet.ends_nil (s : Sheet α) : s.Ends [] :=
  ⟨s.pos, rfl, fun i y hy => by cases hy⟩

/-- **the text grows by the character exactly if it was not moved off the sheet** -/
theorem Sheet.Puts.ends_append_iff (hp : Puts s t d x) (h : s.Ends l) :
    t.Ends (l ++ [x]) ↔ d + l.length ≤ s.pos := by
  have hpos := hp.pos
  constructor
  · intro ht
    have hle := ht.length_le
    rw [List.length_append, List.length_singleton] at hle
    omega
  · intro hd
    obtain ⟨p, hlen, hread⟩ := h
    refine ⟨p - d, ?_, fun i y hy => ?_⟩
    · rw [List.length_append, List.length_singleton]
      omega
    by_cases hi : i < l.length
    · rw [List.getElem?_append_left hi] at hy
      have hq := hp.old (p + i) y (by omega) (by omega) (hread i y hy)
      rwa [show p - d + i = p + i - d by omega]
    · rw [List.getElem?_append_right (by omega)] at hy
      have hi' : i = l.length := by
        have hlt := (List.getElem?_eq_some_iff.mp hy).1
        rw [List.length_singleton] at hlt
        omega
      subst hi'
      rw [Nat.sub_self, List.getElem?_cons_zero] at hy
      cases hy
      have hnew := hp.new (by omega)
      rwa [show p - d + l.length = s.pos - d by omega]

theorem Sheet.Erases.ends (he : Erases s t) (h : s.Ends (l ++ [x])) : t.Ends l := by
  obtain ⟨p, hlen, hread⟩ := h
  rw [List.length_append, List.length_singleton] at hlen
  have hpos := he.pos
  refine ⟨p, by omega, fun i y hy => ?_⟩
  have hi : i < l.length := (List.getElem?_eq_some_iff.mp hy).1
  exact he.old (p + i) y (by omega) (hread i y (by rwa [List.getElem?_append_left hi]))

/-- two characters before the cursor, of which the first cannot be read as the second: they do not
stand there any more -/
theorem Sheet.Erases.not_ends (he : Erases s t) (h : s.Ends (l ++ [x, y]))
    (hne : ∀ q, t.reads q x → ¬ t.reads q y) : ¬ t.Ends (l ++ [x, y]) := by
  intro ht
  obtain ⟨p, hlen, hread⟩ := h
  obtain ⟨p', hlen', hread'⟩ := ht
  have hpos := he.pos
  have hx : (l ++ [x, y])[l.length]? = some x := by
    rw [List.getElem?_append_right (Nat.le_refl _), Nat.sub_self, List.getElem?_cons_zero]
  have hy : (l ++ [x, y])[l.length + 1]? = some y := by
    rw [List.getElem?_append_right (by omega), Nat.add_sub_cancel_left]
    rfl
  have hlast : (l ++ [x, y]).length = l.length + 2 := List.length_append
  have hkept := he.old (p + l.length) x (by omega) (hread _ x hx)
  have hread1 := hread' _ y hy
  rw [show p' + (l.length + 1) = p + l.length by omega] at hread1
  exact hne _ hkept hread1

end Noxis
