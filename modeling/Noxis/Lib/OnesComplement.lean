import Noxis.Lib.Bytes

/-!
# One's complement sums of 16-bit words

* `wordSum b o n`   the big-endian words of the `n` bytes from offset `o` on, an odd tail padded;
* `fold s`          `s` with its carries added back in.

A sum is zero only if all its bytes are (`fold_eq_zero`), and with the complement of its fold added
it folds to 65535 (`fold_complement`).
-/

namespace Noxis

def wordSum (b : Buffer) : Nat → Nat → Nat
  | _, 0 => 0
  | o, 1 => (b o).toNat * 256
  | o, n + 2 => (b o).toNat * 256 + (b (o + 1)).toNat + wordSum b (o + 2) n

def fold (s : Nat) : Nat :=
  if s / 65536 = 0 then s else fold (s % 65536 + s / 65536)
termination_by s
decreasing_by omega

section
variable {b b' : Buffer} {o n s : Nat}

theorem wordSum_congr (h : ∀ i < n, b (o + i) = b' (o + i)) : wordSum b o n = wordSum b' o n := by
  fun_induction wordSum b' o n with
  | case1 o => rfl
  | case2 o =>
    unfold wordSum
    rw [show b o = b' o from h 0 (by omega)]
  | case3 o n ih =>
    have hrest : ∀ i < n, b (o + 2 + i) = b' (o + 2 + i) := by
      intro i hi
      rw [show o + 2 + i = o + (i + 2) by omega]
      exact h (i + 2) (by omega)
    simp only [wordSum]
    rw [show b o = b' o from h 0 (by omega), h 1 (by omega), ih hrest]

theorem wordSum_append (b : Buffer) (o m n : Nat) :
    wordSum b o (2 * m + n) = wordSum b o (2 * m) + wordSum b (o + 2 * m) n := by
  induction m generalizing o with
  | zero => simp only [wordSum, Nat.mul_zero, Nat.zero_add, Nat.add_zero]
  | succ m ih =>
    rw [show 2 * (m + 1) + n = 2 * m + n + 2 by omega, show 2 * (m + 1) = 2 * m + 2 by omega,
      wordSum, wordSum, ih, show o + (2 * m + 2) = o + 2 + 2 * m by omega]
    omega

theorem fold_lt (s : Nat) : fold s < 65536 := by
  fun_induction fold s with
  | case1 s h => omega
  | case2 s h ih => exact ih

theorem fold_mod (s : Nat) : fold s % 65535 = s % 65535 := by
  fun_induction fold s with
  | case1 s h => rfl
  | case2 s h ih =>
    rw [ih]
    omega

theorem fold_eq_zero : fold s = 0 ↔ s = 0 := by
  fun_induction fold s with
  | case1 s h => rfl
  | case2 s h ih =>
    rw [ih]
    omega

/-- **A sum with its own complement is all ones.** -/
theorem fold_complement (s : Nat) : fold (s + (65535 - fold s)) = 65535 := by
  have hlt := fold_lt s
  have hmod := fold_mod s
  have hlt' := fold_lt (s + (65535 - fold s))
  have hmod' := fold_mod (s + (65535 - fold s))
  have hne : fold (s + (65535 - fold s)) ≠ 0 := by
    intro h0
    have hs := fold_eq_zero.mp h0
    have hz : fold s = 0 := fold_eq_zero.mpr (by omega)
    omega
  omega

end

end Noxis
