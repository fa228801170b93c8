import Mathlib.Data.Nat.Find
import Mathlib.Tactic.Common

/-!
# Waiting: a loop that polls

* `wait again found`   polls while `again` holds, until the event is `found`
* `wait_iff`           how a wait ends, and at which poll
* `Polls missed`       when the polls come: at most `missed` ticks are missed between two of them
* `Polls.skip`         polls at every tick, up to one gap
-/

namespace Noxis.Wait

/-! ## the loop -/

/-- the poll that ends the wait, and whether the event was found -/
def wait (again found : Nat → Bool) : (fuel i : Nat) → Option (Bool × Nat)
  | 0, _ => none
  | fuel + 1, i =>
    if again i then if found i then some (true, i) else wait again found fuel (i + 1)
    else some (false, i)

section
variable {again found : Nat → Bool} {i n : Nat}

/-- polls that do not end the wait -/
theorem wait_skip (fuel : Nat) (h : ∀ j, i ≤ j → j < i + n → again j = true ∧ found j = false) :
    wait again found (n + fuel) i = wait again found fuel (i + n) := by
  induction n generalizing i with
  | zero => rw [Nat.zero_add, Nat.add_zero]
  | succ n ih =>
    obtain ⟨ha, hf⟩ := h i (by omega) (by omega)
    rw [show n + 1 + fuel = n + fuel + 1 by omega, wait, if_pos ha, hf]
    rw [if_neg Bool.false_ne_true, ih fun j hj hj' => h j (by omega) (by omega)]
    congr 1
    omega

/-- **the end of a wait**: the first poll that finds the event or does not hold any more -/
theorem wait_iff {b : Bool} : (∃ fuel, wait again found fuel i = some (b, n)) ↔
    i ≤ n ∧ (∀ j, i ≤ j → j < n → again j = true ∧ found j = false) ∧
    again n = b ∧ (b = true → found n = true) := by
  constructor
  · rintro ⟨fuel, h⟩
    induction fuel generalizing i with
    | zero => cases h
    | succ fuel ih =>
      rw [wait] at h
      by_cases ha : again i = true
      · rw [if_pos ha] at h
        by_cases hf : found i = true
        · rw [if_pos hf] at h
          cases h
          exact ⟨Nat.le_refl _, fun j hj hj' => absurd hj (by omega), ha, fun _ => hf⟩
        · rw [if_neg hf] at h
          obtain ⟨hle, hskip, hend⟩ := ih h
          refine ⟨by omega, fun j hj hj' => ?_, hend⟩
          rcases Nat.eq_or_lt_of_le hj with rfl | hlt
          · exact ⟨ha, by simpa using hf⟩
          · exact hskip j hlt hj'
      · rw [if_neg ha] at h
        cases h
        refine ⟨Nat.le_refl _, fun j hj hj' => absurd hj (by omega), by simpa using ha, ?_⟩
        intro hb
        cases hb
  · rintro ⟨hle, hskip, ha, hf⟩
    refine ⟨n - i + 1, ?_⟩
    rw [wait_skip 1 fun j hj hj' => hskip j hj (by omega), show i + (n - i) = n by omega, wait, ha]
    cases b with
    | false => rfl
    | true => rw [if_pos rfl, if_pos (hf rfl)]

end

/-! ## polls in time -/

/-- the ticks that have passed when the calls come: the first call is at the start, the calls go on
for ever, and between two of them at most `missed` ticks are missed -/
structure Polls (missed : Nat) where
  tick : Nat → Nat
  start : tick 0 = 0
  mono : ∀ i, tick i ≤ tick (i + 1)
  close : ∀ i, tick (i + 1) ≤ tick i + missed + 1
  goesOn : ∀ n, ∃ i, n ≤ tick i

variable {missed n m : Nat}

/-- the first call from tick `n` on misses no more than that -/
theorem Polls.exists_first (p : Polls missed) (hn : 0 < n) :
    ∃ i, 0 < i ∧ n ≤ p.tick i ∧ p.tick i ≤ n + missed ∧ ∀ j < i, p.tick j < n := by
  have hex := p.goesOn n
  have hpos : 0 < Nat.find hex := by
    by_contra h0
    have hs := Nat.find_spec hex
    rw [show Nat.find hex = 0 by omega, p.start] at hs
    omega
  refine ⟨Nat.find hex, hpos, Nat.find_spec hex, ?_, fun j hj => ?_⟩
  · have hlt := Nat.find_min hex (m := Nat.find hex - 1) (by omega)
    have hc := p.close (Nat.find hex - 1)
    rw [show Nat.find hex - 1 + 1 = Nat.find hex by omega] at hc
    omega
  · exact Nat.lt_of_not_ge (Nat.find_min hex hj)

/-- polls at every tick, with one gap from the last tick before `n` to `m` -/
def Polls.skip (n m : Nat) (hn : 0 < n) (hm : n ≤ m) (h : m ≤ n + missed) : Polls missed where
  tick i := if i < n then i else i + (m - n)
  start := if_pos hn
  mono i := by
    by_cases hi : i + 1 < n
    · rw [if_pos hi, if_pos (by omega)]
      omega
    · rw [if_neg hi]
      split
      · omega
      · omega
  close i := by
    by_cases hi : i + 1 < n
    · rw [if_pos hi, if_pos (by omega)]
      omega
    · rw [if_neg hi]
      split
      · omega
      · omega
  goesOn k := by
    refine ⟨n + k, ?_⟩
    rw [if_neg (by omega)]
    omega

theorem Polls.skip_lt {hn : 0 < n} {hm : n ≤ m} {h : m ≤ n + missed} {i : Nat} (hi : i < n) :
    (Polls.skip n m hn hm h).tick i = i := if_pos hi

theorem Polls.skip_gap {hn : 0 < n} {hm : n ≤ m} {h : m ≤ n + missed} :
    (Polls.skip n m hn hm h).tick n = m := by
  show (if n < n then n else n + (m - n)) = m
  rw [if_neg (by omega)]
  omega

end Noxis.Wait
