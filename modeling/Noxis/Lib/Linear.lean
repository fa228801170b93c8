import Noxis.Lib.Bytes

/-!
# Linear memory with 32-bit addresses

An address behind the last one is the first one again.

* `Within lo hi a n`   the `n` bytes from address `a` on lie between `lo` and `hi`
* `copy m d s n`       a loop that copies `n` bytes, one after the other

A copy of bytes that do not overlap is `physCopy` (`copy_eq`).
-/

namespace Noxis.Linear

variable {m : Buffer} {lo hi a d s n : Nat}

def Within (lo hi a n : Nat) : Prop := ∀ i < n, lo ≤ (a + i) % 2 ^ 32 ∧ (a + i) % 2 ^ 32 < hi

theorem within_zero : Within lo hi a 0 := fun i hi => absurd hi (Nat.not_lt_zero i)

/-- nothing wraps within bounds that are below the last address -/
theorem within_iff (ha : a < 2 ^ 32) (hn : 0 < n) (hhi : hi < 2 ^ 32) :
    Within lo hi a n ↔ lo ≤ a ∧ a + n ≤ hi := by
  constructor
  · intro h
    have h0 := h 0 hn
    rw [Nat.add_zero, Nat.mod_eq_of_lt ha] at h0
    refine ⟨h0.1, ?_⟩
    -- else the byte at `hi` is among them
    by_contra hgt
    have hlast := (h (hi - a) (by omega)).2
    rw [Nat.add_sub_cancel' h0.2.le, Nat.mod_eq_of_lt hhi] at hlast
    exact Nat.lt_irrefl hi hlast
  · rintro ⟨hlo, hle⟩ i hi
    rw [Nat.mod_eq_of_lt (by omega)]
    omega

/-- `n` bytes from `s` to `d` -/
def copy (m : Buffer) (d s : Nat) : Nat → Buffer
  | 0 => m
  | n + 1 =>
    let m := copy m d s n
    Function.update m ((d + n) % 2 ^ 32) (m ((s + n) % 2 ^ 32))

/-- bytes in another place stay -/
theorem copy_not_mem (hd : d + n ≤ 2 ^ 32) {b : Nat} (hb : ¬ (d ≤ b ∧ b < d + n)) :
    copy m d s n b = m b := by
  induction n with
  | zero => rfl
  | succ n ih =>
    have hlast : (d + n) % 2 ^ 32 = d + n := Nat.mod_eq_of_lt (by omega)
    show Function.update (copy m d s n) ((d + n) % 2 ^ 32) _ b = m b
    rw [hlast, Function.update_of_ne (by omega)]
    exact ih (by omega) (by omega)

/-- **Bytes that do not overlap are copied as they were.** -/
theorem copy_eq (hd : d + n ≤ 2 ^ 32) (hs : s + n ≤ 2 ^ 32) (hdis : s + n ≤ d ∨ d + n ≤ s) :
    copy m d s n = physCopy m d m s n := by
  induction n with
  | zero =>
    funext a
    rw [physCopy_not_mem (by omega)]
    rfl
  | succ n ih =>
    have hrest := ih (by omega) (by omega) (by omega)
    funext a
    show Function.update (copy m d s n) ((d + n) % 2 ^ 32) (copy m d s n ((s + n) % 2 ^ 32)) a = _
    rw [hrest, Nat.mod_eq_of_lt (by omega), Nat.mod_eq_of_lt (by omega)]
    have hsrc : physCopy m d m s n (s + n) = m (s + n) := physCopy_not_mem (by omega)
    by_cases ha : a = d + n
    · subst ha
      rw [Function.update_self, hsrc, physCopy_mem (Nat.lt_succ_self n)]
    · rw [Function.update_of_ne ha]
      unfold physCopy
      by_cases hin : d ≤ a ∧ a < d + n
      · rw [if_pos hin, if_pos (by omega)]
      · rw [if_neg hin, if_neg (by omega)]

end Noxis.Linear
