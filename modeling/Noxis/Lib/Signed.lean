import Mathlib.Tactic.Ring

/-!
# Signed 32-bit integers

* `int n`          what 32 bits keep of a value, as a signed integer
* `int_of_range`   a value of the range is kept
* `int_high`       a value in the half above the range becomes negative
* `int_add_mul`    multiples of `2 ^ 32` are lost
* `chr n`          what a `char` keeps of it
-/

namespace Noxis.Signed

/-- an `int`: the value in the range of 32 signed bits -/
def int (n : Int) : Int := n.bmod (2 ^ 32)

/-- a `char`, as the character of its code -/
def chr (n : Int) : Char := Char.ofNat (n % 256).toNat

/-- the value is in the range -/
def Fits (n : Int) : Prop := -2 ^ 31 ≤ n ∧ n < 2 ^ 31

instance (n : Int) : Decidable (Fits n) := inferInstanceAs (Decidable (_ ∧ _))

variable {n : Int}

theorem int_of_range (h : -2 ^ 31 ≤ n) (h' : n < 2 ^ 31) : int n = n := by
  unfold int
  exact Int.bmod_eq_of_le (by omega) (by omega)

theorem Fits.int_eq (h : Fits n) : int n = n := int_of_range h.1 h.2

theorem int_add_mul (n k : Int) : int (n + 2 ^ 32 * k) = int n := by
  unfold int
  exact Int.add_mul_bmod_self_left n (2 ^ 32) k

theorem int_add (a b : Int) : int (int a + b) = int (a + b) := Int.bmod_add_bmod

theorem int_mul (a b : Int) : int (int a * b) = int (a * b) := Int.bmod_mul_bmod

theorem int_lt (n : Int) : int n < 2 ^ 31 := Int.bmod_lt (by decide)

theorem le_int (n : Int) : -2 ^ 31 ≤ int n := Int.le_bmod (by decide)

/-- above the range the sign bit is set -/
theorem int_high (h : 2 ^ 31 ≤ n) (h' : n < 2 ^ 32) : int n = n - 2 ^ 32 := by
  have hn : int (n - 2 ^ 32) = int n := by
    rw [← int_add_mul (n - 2 ^ 32) 1]
    congr 1
    ring
  rw [← hn]
  exact int_of_range (by omega) (by omega)

end Noxis.Signed
