import Mathlib.Data.List.Basic
import Mathlib.Logic.Function.Basic
import Mathlib.Tactic.Common

/-!
# Rings of cells

A ring has `n` cells; a queue stands in it from the cell `tail` on and goes on at cell 0 behind the
last one.

* `Holds n buf tail l`   the cells from `tail` on have the queue `l` in them
* `Holds.push`           a new last element, into the cell behind the queue
* `Holds.pop`            the first element is taken
* `contents`             the queue of a ring that counts its elements
-/

namespace Noxis.Ring

variable {α : Type*} {n tail : Nat} {buf buf' : Nat → α} {l : List α} {a : α}

/-- the cells from `tail` on have the queue `l` in them -/
def Holds (n : Nat) (buf : Nat → α) (tail : Nat) (l : List α) : Prop :=
  ∀ j (h : j < l.length), buf ((tail + j) % n) = l[j]

theorem Holds.nil (n : Nat) (buf : Nat → α) (tail : Nat) : Holds n buf tail [] :=
  fun _ h => absurd h (Nat.not_lt_zero _)

/-- two places of one ring are the same only a whole turn apart -/
theorem mod_ne {i j : Nat} (hij : i < j) (hj : j < i + n) : i % n ≠ j % n := by
  intro h
  have h1 := Nat.div_add_mod i n
  have h2 := Nat.div_add_mod j n
  have hlt : n * (i / n) < n * (j / n) := by omega
  have hdiv : i / n + 1 ≤ j / n := Nat.lt_of_mul_lt_mul_left hlt
  have hmul : n * (i / n + 1) ≤ n * (j / n) := Nat.mul_le_mul_left n hdiv
  rw [Nat.mul_add, Nat.mul_one] at hmul
  omega

/-- cells outside of the queue may change -/
theorem Holds.congr (h : Holds n buf tail l)
    (hb : ∀ j < l.length, buf' ((tail + j) % n) = buf ((tail + j) % n)) : Holds n buf' tail l :=
  fun j hj => (hb j hj).trans (h j hj)

/-- a new element goes into the cell behind the queue -/
theorem Holds.push (h : Holds n buf tail l) (hl : l.length < n) (a : α) :
    Holds n (Function.update buf ((tail + l.length) % n) a) tail (l ++ [a]) := by
  intro j hj
  rw [List.length_append, List.length_singleton] at hj
  by_cases hlt : j < l.length
  · rw [Function.update_of_ne (mod_ne (by omega) (by omega)), List.getElem_append_left hlt]
    exact h j hlt
  · obtain rfl : j = l.length := by omega
    rw [Function.update_self, List.getElem_append_right (Nat.le_refl _)]
    simp only [Nat.sub_self, List.getElem_cons_zero]

/-- the first element is in the cell at `tail` -/
theorem Holds.head (h : Holds n buf tail (a :: l)) (ht : tail < n) : buf tail = a := by
  have h0 := h 0 (Nat.succ_pos _)
  rwa [Nat.add_zero, Nat.mod_eq_of_lt ht] at h0

/-- the rest of the queue starts one cell further on -/
theorem Holds.pop (h : Holds n buf tail (a :: l)) : Holds n buf ((tail + 1) % n) l := by
  intro j hj
  have hj1 := h (j + 1) (Nat.succ_lt_succ hj)
  rw [Nat.mod_add_mod, Nat.add_assoc, Nat.add_comm 1 j]
  exact hj1

/-- the queue of `count` elements from `tail` on -/
def contents (n : Nat) (buf : Nat → α) (tail count : Nat) : List α :=
  (List.range count).map fun j => buf ((tail + j) % n)

theorem Holds.contents_eq (h : Holds n buf tail l) : contents n buf tail l.length = l := by
  unfold contents
  refine List.ext_getElem ?_ fun j h1 h2 => ?_
  · rw [List.length_map, List.length_range]
  · rw [List.getElem_map, List.getElem_range]
    exact h j h2

end Noxis.Ring
