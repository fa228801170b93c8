import Mathlib.Data.List.Sort
import Mathlib.Data.List.Nodup
import Mathlib.Logic.Function.Basic

/-!
# Layers: a stack kept as numbers

A stack of layers is a list, the bottom one first.  Code often has no list but a number for each
layer, and the order of the numbers is the stack.

* `raise l a`        `a` is taken out of the stack and put on top
* `Numbered z l k`   the numbers `z` along `l` are `k, k + 1, …`
* `number z l k`     the numbers `z`, written anew along `l` from `k` on
* `topmost p l`      the highest layer with the property `p`
-/

namespace Noxis.Layers

variable {α : Type} {z z' : α → Int} {l l' : List α} {a : α} {k : Int}

/-! ## moving a layer -/

/-- `a` on top, the others in their order; a layer that is not there stays out -/
def raise [DecidableEq α] (l : List α) (a : α) : List α :=
  if a ∈ l then l.erase a ++ [a] else l

theorem raise_of_mem [DecidableEq α] (h : a ∈ l) : raise l a = l.erase a ++ [a] := if_pos h

theorem raise_of_notMem [DecidableEq α] (h : a ∉ l) : raise l a = l := if_neg h

/-- to raise what is on top already changes nothing -/
theorem raise_append_self [DecidableEq α] (h : a ∉ l) : raise (l ++ [a]) a = l ++ [a] := by
  have hmem : a ∈ l ++ [a] := List.mem_append_right l (List.mem_singleton_self a)
  rw [raise_of_mem hmem, List.erase_append_right _ h, List.erase_cons_head, List.append_nil]

/-! ## numbers along a list -/

/-- the numbers along the list are `k, k + 1, …` -/
def Numbered (z : α → Int) : List α → Int → Prop
  | [], _ => True
  | a :: l, k => z a = k ∧ Numbered z l (k + 1)

theorem Numbered.congr (h : Numbered z l k) (hz : ∀ a ∈ l, z' a = z a) : Numbered z' l k := by
  induction l generalizing k with
  | nil => trivial
  | cons b l ih =>
    refine ⟨(hz b List.mem_cons_self).trans h.1, ih h.2 fun a ha => ?_⟩
    exact hz a (List.mem_cons_of_mem b ha)

theorem Numbered.le_of_mem (h : Numbered z l k) (ha : a ∈ l) : k ≤ z a := by
  induction l generalizing k with
  | nil => cases ha
  | cons b l ih =>
    rcases List.mem_cons.mp ha with rfl | ha
    · exact h.1.ge
    · have hle := ih h.2 ha
      omega

/-- the numbers rise along the list -/
theorem Numbered.pairwise (h : Numbered z l k) : l.Pairwise fun a b => z a < z b := by
  induction l generalizing k with
  | nil => exact List.Pairwise.nil
  | cons b l ih =>
    refine List.Pairwise.cons (fun a ha => ?_) (ih h.2)
    have hle := h.2.le_of_mem ha
    have hb := h.1
    omega

theorem Numbered.append (h : Numbered z l k) (ha : z a = k + l.length) :
    Numbered z (l ++ [a]) k := by
  induction l generalizing k with
  | nil => exact ⟨by rw [ha, List.length_nil]; omega, trivial⟩
  | cons b l ih =>
    refine ⟨h.1, ih h.2 ?_⟩
    rw [ha, List.length_cons]
    omega

theorem Numbered.map_eq (h : Numbered z l k) :
    l.map z = (List.range l.length).map fun i : Nat => k + (i : Int) := by
  induction l generalizing k with
  | nil => rfl
  | cons b l ih =>
    rw [List.map_cons, ih h.2, h.1, List.length_cons, List.range_succ_eq_map, List.map_cons,
      List.map_map]
    refine congrArg₂ List.cons (by omega) (List.map_congr_left fun i _ => ?_)
    show k + 1 + (i : Int) = k + ((i + 1 : Nat) : Int)
    omega

/-- the numbers `z`, written anew along the list -/
def number [DecidableEq α] (z : α → Int) : List α → Int → α → Int
  | [], _ => z
  | a :: l, k => number (Function.update z a k) l (k + 1)

theorem number_of_notMem [DecidableEq α] (h : a ∉ l) : number z l k a = z a := by
  induction l generalizing z k with
  | nil => rfl
  | cons b l ih =>
    rw [number, ih fun ha => h (List.mem_cons_of_mem b ha)]
    exact Function.update_of_ne (fun hab => h (List.mem_cons.mpr (.inl hab))) _ _

theorem numbered_number [DecidableEq α] (h : l.Nodup) : Numbered (number z l k) l k := by
  induction l generalizing z k with
  | nil => trivial
  | cons b l ih =>
    obtain ⟨hb, hl⟩ := List.nodup_cons.mp h
    refine ⟨?_, ih hl⟩
    rw [number, number_of_notMem hb, Function.update_self]

/-! ## the order of the numbers -/

/-- a list that is sorted by the numbers is the only one with its members -/
theorem eq_of_sorted (hs : l.Pairwise fun a b => z a ≤ z b)
    (hs' : l'.Pairwise fun a b => z a < z b) (hp : l.Perm l') : l = l' := by
  -- no two layers of `l'` have one number
  have hn : (l'.map z).Nodup := List.pairwise_map.mpr (hs'.imp fun hlt => hlt.ne)
  refine hp.eq_of_pairwise (fun a b ha hb hab hba => ?_) hs (hs'.imp fun hlt => hlt.le)
  exact List.inj_on_of_nodup_map hn (hp.mem_iff.mp ha) hb (le_antisymm hab hba)

/-- the highest layer with a property -/
def topmost (p : α → Bool) (l : List α) : Option α := (l.filter p).getLast?

/-- the highest layer is the one with the largest number -/
theorem topmost_eq_some {p : α → Bool} (hs : l.Pairwise fun a b => z a < z b) (ha : a ∈ l)
    (hp : p a = true) (hmax : ∀ b ∈ l, p b = true → z b ≤ z a) : topmost p l = some a := by
  have hmem : a ∈ l.filter p := List.mem_filter.mpr ⟨ha, hp⟩
  obtain ⟨s, t, hst⟩ := List.append_of_mem hmem
  have hfs : (l.filter p).Pairwise fun a b => z a < z b := hs.filter p
  rw [topmost, hst]
  cases t with
  | nil => exact List.getLast?_concat
  | cons b t =>
    -- a layer above would have a larger number
    have hb : b ∈ l.filter p := by
      rw [hst]
      exact List.mem_append_right s (List.mem_cons_of_mem a List.mem_cons_self)
    have hle := hmax b (List.mem_filter.mp hb).1 (List.mem_filter.mp hb).2
    rw [hst, List.pairwise_append] at hfs
    have hlt := List.rel_of_pairwise_cons hfs.2.1 (List.mem_cons_self (a := b) (l := t))
    omega

theorem topmost_eq_none {p : α → Bool} (h : ∀ a ∈ l, ¬ p a = true) : topmost p l = none := by
  rw [topmost, List.getLast?_eq_none_iff]
  exact List.filter_eq_nil_iff.mpr h

end Noxis.Layers
