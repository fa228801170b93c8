import Mathlib.Algebra.GroupWithZero.Nat
import Mathlib.Data.List.Chain
import Mathlib.Data.List.Range
import Mathlib.Logic.Function.Iterate
import Mathlib.Tactic.Common

/-!
# Weighted rotations

`turn next w` is one step of a rotation in which everybody has `w` steps before `next` gets its turn;
the state is who has the turn and how many steps are left after this one.

* `turn_iterate`   along a list that `next` follows and closes, the steps are those of the list, every
                   element `w` times (`round`), over and over;
* `isChain_filter` the numbers of an interval that meet a test follow one another, and the end of the
                   interval.
-/

namespace Noxis.Rotation

variable {α : Type*}

def turn (next : α → α) (w : α → Nat) (x : α × Nat) : α × Nat :=
  if x.2 = 0 then (next x.1, w (next x.1) - 1) else (x.1, x.2 - 1)

/-- one round: every element of `l` with its weight -/
def round (w : α → Nat) (l : List α) : List α := l.flatMap fun a => List.replicate (w a) a

section
variable {next : α → α} {w : α → Nat} {l : List α} {a b : α} {k : Nat}

theorem round_cons : round w (a :: l) = List.replicate (w a) a ++ round w l := rfl

theorem mem_round (h : b ∈ round w l) : b ∈ l := by
  obtain ⟨a, ha, hb⟩ := List.mem_flatMap.mp h
  rw [(List.mem_replicate.mp hb).2]
  exact ha

theorem length_round : (round w l).length = (l.map w).sum := by
  induction l with
  | nil => rfl
  | cons a l ih => rw [round_cons, List.length_append, List.length_replicate, ih, List.map_cons,
      List.sum_cons]

/-- inside a turn -/
theorem turn_within (h : k < w a) : (turn next w)^[k] (a, w a - 1) = (a, w a - 1 - k) := by
  induction k with
  | zero => rfl
  | succ k ih =>
    rw [Function.iterate_succ_apply', ih (by omega)]
    unfold turn
    rw [if_neg (by simp only; omega)]
    exact congrArg (Prod.mk a) (by simp only; omega)

/-- the turn goes on to `next` -/
theorem turn_over (h : 0 < w a) :
    (turn next w)^[w a] (a, w a - 1) = (next a, w (next a) - 1) := by
  obtain ⟨n, hn⟩ : ∃ n, w a = n + 1 := ⟨w a - 1, by omega⟩
  have hin : (turn next w)^[n] (a, w a - 1) = (a, w a - 1 - n) := turn_within (by omega)
  rw [hn, Function.iterate_succ_apply', ← hn, hin]
  unfold turn
  rw [if_pos (by simp only; omega)]

/-- the steps along a list -/
theorem turn_chain (hw : ∀ x ∈ a :: l, 0 < w x)
    (hc : List.IsChain (fun x y => next x = y) (a :: l ++ [b])) :
    (turn next w)^[(round w (a :: l)).length] (a, w a - 1) = (b, w b - 1) ∧
    ∀ k (hk : k < (round w (a :: l)).length),
      ((turn next w)^[k] (a, w a - 1)).1 = (round w (a :: l))[k] := by
  induction l generalizing a with
  | nil =>
    have ha : 0 < w a := hw a List.mem_cons_self
    have hnext : next a = b := (List.isChain_cons_cons.mp hc).1
    have hlen : (round w [a]).length = w a := by
      rw [length_round]
      simp only [List.map_cons, List.map_nil, List.sum_cons, List.sum_nil, Nat.add_zero]
    refine ⟨by rw [hlen, turn_over ha, hnext], fun k hk => ?_⟩
    rw [turn_within (by omega)]
    exact (List.mem_singleton.mp (mem_round (List.getElem_mem _))).symm
  | cons a' l ih =>
    have ha : 0 < w a := hw a List.mem_cons_self
    obtain ⟨hnext, hc'⟩ := List.isChain_cons_cons.mp hc
    obtain ⟨hend, hstep⟩ := ih (fun x hx => hw x (List.mem_cons_of_mem _ hx)) hc'
    have hover : (turn next w)^[w a] (a, w a - 1) = (a', w a' - 1) := by
      rw [turn_over ha, hnext]
    have hlen : (round w (a :: a' :: l)).length = (round w (a' :: l)).length + w a := by
      rw [round_cons, List.length_append, List.length_replicate, Nat.add_comm]
    refine ⟨?_, fun k hk => ?_⟩
    · rw [hlen, Function.iterate_add_apply, hover, hend]
    · by_cases hka : k < w a
      · rw [turn_within hka]
        simp only [round_cons, List.getElem_append, List.length_replicate, dif_pos hka,
          List.getElem_replicate]
      · obtain ⟨j, rfl⟩ : ∃ j, k = j + w a := ⟨k - w a, by omega⟩
        have hj : j < (round w (a' :: l)).length := by omega
        rw [Function.iterate_add_apply, hover, hstep j hj]
        simp only [round_cons, List.getElem_append, List.length_replicate, dif_neg hka,
          Nat.add_sub_cancel]

/-- **The steps of a closed list are its rounds.** -/
theorem turn_iterate (hw : ∀ x ∈ a :: l, 0 < w x)
    (hc : List.IsChain (fun x y => next x = y) (a :: l ++ [a])) (k : Nat) :
    (round w (a :: l))[k % (round w (a :: l)).length]? =
      some ((turn next w)^[k] (a, w a - 1)).1 := by
  obtain ⟨hend, hstep⟩ := turn_chain hw hc
  have hpos : 0 < (round w (a :: l)).length := by
    have ha : 0 < w a := hw a List.mem_cons_self
    rw [round_cons, List.length_append, List.length_replicate]
    omega
  have hround : ∀ m, (turn next w)^[(round w (a :: l)).length * m] (a, w a - 1) = (a, w a - 1) := by
    intro m
    rw [Function.iterate_mul]
    exact Function.iterate_fixed hend m
  have hlt := Nat.mod_lt k hpos
  have hk : (turn next w)^[k] (a, w a - 1) =
      (turn next w)^[k % (round w (a :: l)).length] (a, w a - 1) := by
    conv_lhs => rw [← Nat.mod_add_div k (round w (a :: l)).length, Function.iterate_add_apply, hround]
  rw [hk, hstep _ hlt, List.getElem?_eq_getElem hlt]

end

/-! ## the numbers that meet a test -/

/-- `x` meets `p`, and `y` is the first number behind it that does -/
structure Next (p : Nat → Prop) (x y : Nat) : Prop where
  here : p x
  lt : x < y
  holds : p y
  first : ∀ j, x < j → j < y → ¬ p j

section
variable {p : Nat → Prop} [DecidablePred p]

/-- what is left of an interval, and its end -/
theorem isChain_filter_first (s n : Nat) (hp : p (s + n)) :
    ∃ y l, (List.range' s n).filter p ++ [s + n] = y :: l ∧ List.IsChain (Next p) (y :: l) ∧
      s ≤ y ∧ p y ∧ ∀ j, s ≤ j → j < y → ¬ p j := by
  induction n generalizing s with
  | zero => exact ⟨s, [], rfl, .singleton _, le_rfl, hp, fun j h1 h2 => absurd h1 (by omega)⟩
  | succ n ih =>
    have hend : s + 1 + n = s + (n + 1) := by omega
    obtain ⟨y, l, hl, hc, hy, hpy, hfirst⟩ := ih (s + 1) (by rw [hend]; exact hp)
    rw [hend] at hl
    rw [List.range'_succ]
    by_cases hs : p s
    · rw [List.filter_cons_of_pos (by simpa using hs), List.cons_append, hl]
      refine ⟨s, y :: l, rfl, ?_, le_rfl, hs, fun j h1 h2 => absurd h1 (by omega)⟩
      exact List.isChain_cons_cons.mpr ⟨⟨hs, by omega, hpy, fun j h1 h2 => hfirst j h1 h2⟩, hc⟩
    · rw [List.filter_cons_of_neg (by simpa using hs), hl]
      refine ⟨y, l, rfl, hc, by omega, hpy, fun j h1 h2 => ?_⟩
      by_cases hj : j = s
      · rw [hj]
        exact hs
      · exact hfirst j (by omega) h2

/-- **The numbers of an interval that meet a test follow one another.** -/
theorem isChain_filter (s n : Nat) (hp : p (s + n)) :
    List.IsChain (Next p) ((List.range' s n).filter p ++ [s + n]) := by
  obtain ⟨y, l, hl, hc, -⟩ := isChain_filter_first s n hp
  rw [hl]
  exact hc

end

end Noxis.Rotation
