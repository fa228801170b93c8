import Mathlib.Algebra.Order.Round
import Mathlib.Analysis.Real.Sqrt
import Mathlib.Tactic.Linarith

/-!
# The midpoint circle

The points of a circle of radius `r` around 0, one in each row, with an error term in integers.

* `Nearest r x y`       `x` is the nearest integer to the circle in the row `y`
* `decision r x y`      where the midpoint before the next two points is
* `walk r`              the point of each row, by the sign of the decision
* `nearest_iff_walk`    **up to the diagonal the walk is at the nearest points**
-/

namespace Noxis.Midpoint

/-! ## nearest points -/

/-- the circle of radius `r` is less than a half away from `x`, in the row `y` -/
def Nearest (r x y : ℤ) : Prop :=
  (2 * x - 1) ^ 2 + 4 * y ^ 2 < 4 * r ^ 2 ∧ 4 * r ^ 2 < (2 * x + 1) ^ 2 + 4 * y ^ 2

/-- the midpoint of `x - 1` and `x` in the next row is inside if this is negative -/
def decision (r x y : ℤ) : ℤ := (y + 1) ^ 2 + x ^ 2 - x - r ^ 2

section
variable {r x x' y y' : ℤ}

theorem nearest_iff : Nearest r x y ↔ x ^ 2 - x + y ^ 2 < r ^ 2 ∧ r ^ 2 ≤ x ^ 2 + x + y ^ 2 := by
  have h1 : (2 * x - 1) ^ 2 = 4 * (x ^ 2 - x) + 1 := by ring
  have h2 : (2 * x + 1) ^ 2 = 4 * (x ^ 2 + x) + 1 := by ring
  unfold Nearest
  rw [h1, h2]
  omega

theorem nearest_start (hr : 1 ≤ r) : Nearest r r 0 := by
  rw [nearest_iff]
  constructor <;> nlinarith

/-- a midpoint inside: the same column -/
theorem Nearest.stay (hy : 0 ≤ y) (h : Nearest r x y) (hd : decision r x y < 0) :
    Nearest r x (y + 1) := by
  rw [nearest_iff] at *
  unfold decision at hd
  have hsq : (y + 1) ^ 2 = y ^ 2 + 2 * y + 1 := by ring
  omega

/-- a midpoint outside: the next column, which is right as long as the diagonal is not passed -/
theorem Nearest.down (h : Nearest r x y) (hd : 0 ≤ decision r x y) (hxy : y + 2 ≤ x) :
    Nearest r (x - 1) (y + 1) := by
  rw [nearest_iff] at *
  unfold decision at hd
  have hy : (y + 1) ^ 2 = y ^ 2 + 2 * y + 1 := by ring
  have hx : (x - 1) ^ 2 = x ^ 2 - 2 * x + 1 := by ring
  omega

theorem decision_stay : decision r x (y + 1) = decision r x y + (2 * (y + 1) + 1) := by
  unfold decision
  ring

theorem decision_down :
    decision r (x - 1) (y + 1) = decision r x y + (2 * (y + 1 - (x - 1)) + 1) := by
  unfold decision
  ring

/-- the decision is small at a nearest point -/
theorem Nearest.decision_bounds (h : Nearest r x y) :
    2 * y + 1 - 2 * x ≤ decision r x y ∧ decision r x y ≤ 2 * y := by
  rw [nearest_iff] at h
  have hy : (y + 1) ^ 2 = y ^ 2 + 2 * y + 1 := by ring
  unfold decision
  omega

/-- what is nearest is not beyond a point outside, in the same row or a lower one -/
theorem Nearest.le_of_outside (h : Nearest r x y) (ho : r ^ 2 ≤ x' ^ 2 + x' + y' ^ 2)
    (hx' : -1 ≤ x') (hy' : 0 ≤ y') (hy : y' ≤ y) : x ≤ x' := by
  rw [nearest_iff] at h
  by_contra hlt
  have hyy : y' ^ 2 ≤ y ^ 2 := pow_le_pow_left₀ hy' hy 2
  have hxx : 0 ≤ (x - x' - 1) * (x + x') := by
    by_cases heq : x = x' + 1
    · rw [heq, show x' + 1 - x' - 1 = 0 by omega, zero_mul]
    · exact mul_nonneg (by omega) (by omega)
  have hprod : (x - x' - 1) * (x + x') = x ^ 2 - x - (x' ^ 2 + x') := by ring
  omega

/-- **the nearest point** is the root, rounded -/
theorem Nearest.round_sqrt (h : Nearest r x y) (hx : 0 ≤ x) :
    round (√((r : ℝ) ^ 2 - (y : ℝ) ^ 2)) = x := by
  have h1 : ((2 * x - 1 : ℤ) : ℝ) ^ 2 + 4 * (y : ℝ) ^ 2 < 4 * (r : ℝ) ^ 2 := by exact_mod_cast h.1
  have h2 : 4 * (r : ℝ) ^ 2 < ((2 * x + 1 : ℤ) : ℝ) ^ 2 + 4 * (y : ℝ) ^ 2 := by exact_mod_cast h.2
  have hx' : (0 : ℝ) ≤ x := by exact_mod_cast hx
  push_cast at h1 h2
  rw [round_eq_iff]
  constructor
  · have habs : |(x : ℝ) - 1 / 2| ≤ √((r : ℝ) ^ 2 - (y : ℝ) ^ 2) := by
      apply Real.abs_le_sqrt
      nlinarith
    exact (le_abs_self _).trans habs
  · rw [Real.sqrt_lt' (by linarith)]
    nlinarith

end

/-! ## the walk -/

/-- the column in each row -/
def walk (r : ℤ) : ℕ → ℤ
  | 0 => r
  | n + 1 => if decision r (walk r n) n < 0 then walk r n else walk r n - 1

section
variable {r x : ℤ} {m n : ℕ}

theorem walk_stay (h : decision r (walk r n) n < 0) : walk r (n + 1) = walk r n := if_pos h

theorem walk_down (h : ¬ decision r (walk r n) n < 0) : walk r (n + 1) = walk r n - 1 := if_neg h

theorem walk_succ (r : ℤ) (n : ℕ) : walk r n - 1 ≤ walk r (n + 1) ∧ walk r (n + 1) ≤ walk r n := by
  by_cases h : decision r (walk r n) n < 0
  · rw [walk_stay h]
    omega
  · rw [walk_down h]
    omega

theorem walk_antitone (r : ℤ) : Antitone (walk r) := antitone_nat_of_succ_le fun n => (walk_succ r n).2

theorem walk_le (r : ℤ) (n : ℕ) : walk r n ≤ r := walk_antitone r (Nat.zero_le n)

/-- up to the diagonal the walk is at nearest points -/
theorem walk_nearest (hr : 1 ≤ r) (h : n ≤ walk r n) : Nearest r (walk r n) n := by
  induction n with
  | zero => exact nearest_start hr
  | succ n ih =>
    obtain ⟨hle, hle'⟩ := walk_succ r n
    push_cast at h ⊢
    have hn := ih (by omega)
    by_cases hd : decision r (walk r n) n < 0
    · rw [walk_stay hd]
      exact hn.stay (by omega) hd
    · rw [walk_down hd] at h ⊢
      exact hn.down (by omega) (by omega)

/-- also the first point behind the diagonal is not inside -/
theorem walk_outside (hr : 1 ≤ r) (h : n ≤ walk r n) :
    r ^ 2 ≤ walk r (n + 1) ^ 2 + walk r (n + 1) + ((n + 1 : ℕ) : ℤ) ^ 2 := by
  have hn := walk_nearest hr h
  push_cast
  by_cases hd : decision r (walk r n) n < 0
  · rw [walk_stay hd]
    exact (nearest_iff.mp (hn.stay (by omega) hd)).2
  · rw [walk_down hd]
    have hx : (walk r n - 1) ^ 2 = walk r n ^ 2 - 2 * walk r n + 1 := by ring
    unfold decision at hd
    omega

/-- the rows of the walk up to the diagonal are the first ones -/
theorem exists_rows (r : ℤ) : ∃ k : ℕ, ∀ n : ℕ, n < k ↔ n ≤ walk r n := by
  have hex : ∃ n : ℕ, walk r n < n := ⟨r.toNat + 1, by have := walk_le r (r.toNat + 1); omega⟩
  refine ⟨Nat.find hex, fun n => ⟨fun h => ?_, fun h => ?_⟩⟩
  · exact Int.not_lt.mp (Nat.find_min hex h)
  · by_contra hge
    have hend := Nat.find_spec hex
    have hle := walk_antitone r (Nat.le_of_not_lt hge)
    omega

/-- **the nearest points** up to the diagonal are those of the walk -/
theorem nearest_iff_walk (hr : 1 ≤ r) (hx : n ≤ x) : Nearest r x n ↔ walk r n = x := by
  refine ⟨fun h => ?_, fun h => ?_⟩
  · obtain ⟨k, hk⟩ := exists_rows r
    by_cases hn : n < k
    · have hw := walk_nearest hr ((hk n).mp hn)
      have hpos := (hk n).mp hn
      refine Int.le_antisymm ?_ ?_
      · exact hw.le_of_outside (nearest_iff.mp h).2 (by omega) (by omega) (le_refl _)
      · exact h.le_of_outside (nearest_iff.mp hw).2 (by omega) (by omega) (le_refl _)
    · -- the first row `k` behind the diagonal is outside, and so is every point below it
      have hk0 : 0 < k := (hk 0).mpr (by show (0 : ℤ) ≤ r; omega)
      obtain ⟨m, rfl⟩ : ∃ m, k = m + 1 := ⟨k - 1, by omega⟩
      have hm := (hk m).mp (Nat.lt_succ_self m)
      have hend : ¬ ((m + 1 : ℕ) : ℤ) ≤ walk r (m + 1) := fun h => Nat.lt_irrefl _ ((hk _).mpr h)
      have hle := h.le_of_outside (walk_outside hr hm) (by have := walk_succ r m; omega)
        (by omega) (by omega)
      omega
  · rw [← h] at hx ⊢
    exact walk_nearest hr hx

end
end Noxis.Midpoint
