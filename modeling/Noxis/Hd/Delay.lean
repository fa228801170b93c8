import Noxis.Lib.Signed
import Noxis.Lib.Wait

/-!
# 25-osfs11: delays in ticks

`clock_handler` of kernel/clock.c counts the ticks and starts again at `MAX_TICKS`; `milli_delay`
and `waitfor` of kernel/hd.c compare a difference of two counts, in milliseconds, with a time.

* `clockHandler`       the counter at a tick
* `milliDelay`         the call of `get_ticks` that ends the delay
* `waitfor`            what it returns, and at which call
* `InTime`             when the counter and the product with 1000 do not wrap too early
* `delays_iff`         **a wait ends at the first call after its time exactly then**
-/

namespace Noxis.Delay
open Signed Wait

def HZ : Int := 100
def MAX_TICKS : Int := 0x7FFFABCD

/-- `ticks` after `clock_handler` -/
def clockHandler (ticks : Int) : Int := if int (ticks + 1) ≥ MAX_TICKS then 0 else int (ticks + 1)

/-- `(get_ticks() - t) * 1000 / HZ` -/
def millis (t now : Int) : Int := (int (int (now - t) * 1000)).tdiv HZ

/-- `milli_delay`, with what each call of `get_ticks` returns: the call that ends it -/
def milliDelay (getTicks : Nat → Int) (milliSec : Int) (fuel : Nat) : Option Nat :=
  let t := getTicks 0
  (wait (fun i => decide (millis t (getTicks i) < milliSec)) (fun _ => false) fuel 1).map (·.2)

/-- `waitfor`, with the status register at each turn: what it returns, and the call of `get_ticks`
that was the last one -/
def waitfor (getTicks : Nat → Int) (status : Nat → BitVec 8) (mask val : BitVec 32) (timeout : Int)
    (fuel : Nat) : Option (Int × Nat) :=
  let t := getTicks 0
  (wait (fun i => decide (millis t (getTicks i) < timeout))
    (fun i => decide ((status i).setWidth 32 &&& mask = val)) fuel 1).map
    fun r => (if r.1 then 1 else 0, r.2)

/-! ## the counter -/

section
variable {t d : Int} {n missed : Nat}

/-- a counter that starts at `t`, after `n` ticks -/
def ticksAt (t : Int) (n : Nat) : Int := clockHandler^[n] t

theorem clockHandler_eq (h0 : 0 ≤ t) (h : t < MAX_TICKS) : clockHandler t = (t + 1) % MAX_TICKS := by
  unfold MAX_TICKS at h
  unfold clockHandler MAX_TICKS
  rw [int_of_range (by omega) (by omega)]
  split <;> omega

theorem ticksAt_eq (h0 : 0 ≤ t) (h : t < MAX_TICKS) (n : Nat) : ticksAt t n = (t + n) % MAX_TICKS := by
  induction n with
  | zero =>
    show t = (t + 0) % MAX_TICKS
    rw [Int.add_zero, Int.emod_eq_of_lt h0 h]
  | succ n ih =>
    have hstep : ticksAt t (n + 1) = clockHandler (ticksAt t n) := Function.iterate_succ_apply' _ _ _
    rw [hstep, ih, clockHandler_eq (Int.emod_nonneg _ (by decide)) (Int.emod_lt_of_pos _ (by decide))]
    rw [Int.emod_add_emod, Int.add_assoc]
    rfl

/-- what a wait that began at `t` sees after `n` ticks, times 10 -/
def shown (t : Int) (n : Nat) : Int := int (int (ticksAt t n - t) * 1000)

/-- as long as the counter has not started again -/
theorem shown_before (h0 : 0 ≤ t) (h : t + n < MAX_TICKS) : shown t n = int (1000 * n) := by
  unfold MAX_TICKS at h
  have ht : ticksAt t n = t + n := by
    rw [ticksAt_eq h0 (by unfold MAX_TICKS; omega)]
    exact Int.emod_eq_of_lt (by omega) h
  have hsub : int (t + n - t) = n := by
    rw [show t + n - t = (n : Int) by omega]
    exact int_of_range (by omega) (by omega)
  unfold shown
  rw [ht, hsub, Int.mul_comm]

/-- after it has started again, 215.55 seconds are added to the time that has passed -/
theorem shown_after (h0 : 0 ≤ t) (ht : t < MAX_TICKS) (h : MAX_TICKS ≤ t + n)
    (h' : t + n < 2 * MAX_TICKS) : shown t n = int (1000 * n + 21555000) := by
  have hn : ticksAt t n = t + n - MAX_TICKS := by
    rw [ticksAt_eq h0 ht, ← Int.sub_emod_right]
    exact Int.emod_eq_of_lt (by omega) (by omega)
  unfold MAX_TICKS at ht h h' hn
  have hsub : int (t + n - 2147462093 - t) = n - 2147462093 := by
    rw [show t + n - 2147462093 - t = (n : Int) - 2147462093 by omega]
    exact int_of_range (by omega) (by omega)
  have hmul : ((n : Int) - 2147462093) * 1000 = 1000 * n + 21555000 + 2 ^ 32 * (-500) := by omega
  unfold shown
  rw [hn, hsub, hmul, int_add_mul]

theorem shown_zero (t : Int) : shown t 0 = 0 := by
  unfold shown
  rw [show ticksAt t 0 = t from rfl, Int.sub_self]
  rfl

theorem millis_lt_iff (hd : 1 ≤ d) : millis t (ticksAt t n) < d ↔ shown t n < 100 * d := by
  unfold millis shown HZ
  generalize int (int (ticksAt t n - t) * 1000) = x
  by_cases hx : 0 ≤ x
  · rw [Int.tdiv_eq_ediv_of_nonneg hx]
    omega
  · have hneg : (-x).tdiv 100 = -x.tdiv 100 := Int.neg_tdiv x 100
    rw [Int.tdiv_eq_ediv_of_nonneg (by omega)] at hneg
    omega

end

/-! ## the end of a wait -/

/-- what the calls of `get_ticks` return, in a wait that begins when the counter is `t` -/
def getTicks {missed : Nat} (p : Polls missed) (t : Int) (i : Nat) : Int := ticksAt t (p.tick i)

/-- `n` ticks are at least `d` milliseconds -/
def Elapsed (d : Int) (n : Nat) : Prop := d * HZ ≤ 1000 * n

/-- `d` milliseconds in ticks -/
def due (d : Int) : Nat := ((d * HZ + 999) / 1000).toNat

/-- the call `i` is the first one of the loop after `d` milliseconds -/
def FirstAfter {missed : Nat} (p : Polls missed) (d : Int) (i : Nat) : Prop :=
  0 < i ∧ Elapsed d (p.tick i) ∧ ∀ j, 0 < j → j < i → ¬ Elapsed d (p.tick j)

/-- the drive has the status that `waitfor` waits for -/
def Ready (status : Nat → BitVec 8) (mask val : BitVec 32) (i : Nat) : Prop :=
  (status i).setWidth 32 &&& mask = val

instance (status : Nat → BitVec 8) (mask val : BitVec 32) (i : Nat) :
    Decidable (Ready status mask val i) := inferInstanceAs (Decidable (_ = _))

/-- `milli_delay` ends with the first call after its time -/
def DelayRight (missed : Nat) (t d : Int) : Prop :=
  ∀ p : Polls missed, ∃ i, FirstAfter p d i ∧ ∃ fuel, milliDelay (getTicks p t) d fuel = some i

/-- `waitfor` gives up with the first call after its time, if the drive is not ready before -/
def WaitforRight (missed : Nat) (t d : Int) : Prop :=
  ∀ (p : Polls missed) (status : Nat → BitVec 8) (mask val : BitVec 32), ∃ i, FirstAfter p d i ∧
    ((∀ j, 0 < j → j < i → ¬ Ready status mask val j) →
      ∃ fuel, waitfor (getTicks p t) status mask val d fuel = some (0, i)) ∧
    ∀ j, 0 < j → j < i → Ready status mask val j →
      (∀ k, 0 < k → k < j → ¬ Ready status mask val k) →
      ∃ fuel, waitfor (getTicks p t) status mask val d fuel = some (1, j)

/-- neither the product with 1000 nor the counter wraps within the calls that can be the last one,
but that the counter may start again at the first tick after the time -/
def InTime (missed : Nat) (t d : Int) : Prop :=
  t + due d + missed < MAX_TICKS ∧ due d + missed ≤ 2147483 ∨
  t + due d ≤ MAX_TICKS ∧ due d + missed ≤ 2125928

section
variable {t d : Int} {n missed : Nat}

theorem elapsed_iff : Elapsed d n ↔ due d ≤ n := by
  unfold Elapsed due HZ
  omega

theorem due_pos (hd : 1 ≤ d) : 0 < due d := by
  unfold due HZ
  omega

theorem exists_firstAfter (p : Polls missed) (hd : 1 ≤ d) : ∃ i, FirstAfter p d i ∧
    due d ≤ p.tick i ∧ p.tick i ≤ due d + missed := by
  obtain ⟨i, hi, hle, hclose, hfirst⟩ := p.exists_first (due_pos hd)
  refine ⟨i, ⟨hi, elapsed_iff.mpr hle, fun j _ hj he => ?_⟩, hle, hclose⟩
  exact absurd (elapsed_iff.mp he) (by have := hfirst j hj; omega)

theorem FirstAfter.unique {p : Polls missed} {i j : Nat} (hi : FirstAfter p d i)
    (hj : FirstAfter p d j) : i = j := by
  rcases Nat.lt_trichotomy i j with h | h | h
  · exact absurd hi.2.1 (hj.2.2 i hi.1 h)
  · exact h
  · exact absurd hj.2.1 (hi.2.2 j hj.1 h)

/-- the condition of the loop, at every call up to the first one after the time -/
def Exact (missed : Nat) (t d : Int) : Prop := ∀ (p : Polls missed) (i : Nat), FirstAfter p d i →
  (∀ j, 0 < j → j < i → shown t (p.tick j) < 100 * d) ∧ ¬ shown t (p.tick i) < 100 * d

/-- the condition of the loop at the call `i` -/
def again (p : Polls missed) (t d : Int) (i : Nat) : Bool :=
  decide (millis (getTicks p t 0) (getTicks p t i) < d)

theorem again_eq (p : Polls missed) (hd : 1 ≤ d) (i : Nat) :
    again p t d i = decide (shown t (p.tick i) < 100 * d) := by
  have h0 : getTicks p t 0 = t := by
    unfold getTicks
    rw [p.start]
    rfl
  unfold again
  rw [h0, decide_eq_decide]
  exact millis_lt_iff hd

/-- a wait that ends without the event -/
theorem wait_again_iff {p : Polls missed} {i : Nat} (found : Nat → Bool) (hd : 1 ≤ d) (hi : 0 < i) :
    (∃ fuel, wait (again p t d) found fuel 1 = some (false, i)) ↔
      (∀ j, 0 < j → j < i → shown t (p.tick j) < 100 * d ∧ found j = false) ∧
      ¬ shown t (p.tick i) < 100 * d := by
  rw [wait_iff]
  constructor
  · rintro ⟨-, hskip, hend, -⟩
    refine ⟨fun j hj hji => ?_, ?_⟩
    · obtain ⟨ha, hf⟩ := hskip j hj hji
      rw [again_eq p hd] at ha
      exact ⟨of_decide_eq_true ha, hf⟩
    · rw [again_eq p hd] at hend
      exact of_decide_eq_false hend
  · rintro ⟨hskip, hend⟩
    refine ⟨hi, fun j hj hji => ?_, ?_, ?_⟩
    · rw [again_eq p hd]
      exact ⟨decide_eq_true (hskip j hj hji).1, (hskip j hj hji).2⟩
    · rw [again_eq p hd]
      exact decide_eq_false hend
    · intro h
      cases h

theorem delayRight_iff (hd : 1 ≤ d) : DelayRight missed t d ↔ Exact missed t d := by
  have hiff (p : Polls missed) (i : Nat) : (∃ fuel, milliDelay (getTicks p t) d fuel = some i) ↔
      ∃ fuel, wait (again p t d) (fun _ => false) fuel 1 = some (false, i) := by
    constructor
    · rintro ⟨fuel, h⟩
      obtain ⟨⟨b, n⟩, hw, rfl⟩ := Option.map_eq_some_iff.mp h
      cases b with
      | false => exact ⟨fuel, hw⟩
      | true => exact absurd ((wait_iff.mp ⟨fuel, hw⟩).2.2.2 rfl) Bool.false_ne_true
    · rintro ⟨fuel, h⟩
      exact ⟨fuel, Option.map_eq_some_iff.mpr ⟨_, h, rfl⟩⟩
  constructor
  · intro h p i hi
    obtain ⟨j, hj, hends⟩ := h p
    cases hi.unique hj
    obtain ⟨hskip, hend⟩ := (wait_again_iff _ hd hi.1).mp ((hiff p i).mp hends)
    exact ⟨fun j hj hji => (hskip j hj hji).1, hend⟩
  · intro h p
    obtain ⟨i, hi, -⟩ := exists_firstAfter p hd
    obtain ⟨hskip, hend⟩ := h p i hi
    refine ⟨i, hi, (hiff p i).mpr ((wait_again_iff _ hd hi.1).mpr ⟨fun j hj hji => ?_, hend⟩)⟩
    exact ⟨hskip j hj hji, rfl⟩

theorem waitforRight_iff (hd : 1 ≤ d) : WaitforRight missed t d ↔ Exact missed t d := by
  constructor
  · intro h p i hi
    obtain ⟨j, hj, hends, -⟩ := h p (fun _ => 0) 0 1
    cases hi.unique hj
    have hnot (j : Nat) : ¬ Ready (fun _ => 0) 0 1 j := by
      show ¬ (0 : BitVec 8).setWidth 32 &&& 0 = (1 : BitVec 32)
      decide
    obtain ⟨fuel, hfuel⟩ := hends fun j _ _ => hnot j
    obtain ⟨⟨b, n⟩, hw, hr⟩ := Option.map_eq_some_iff.mp hfuel
    cases b with
    | false =>
      cases hr
      obtain ⟨hskip, hend⟩ := (wait_again_iff _ hd hi.1).mp ⟨fuel, hw⟩
      exact ⟨fun j hj hji => (hskip j hj hji).1, hend⟩
    | true => cases hr
  · intro h p status mask val
    obtain ⟨i, hi, -⟩ := exists_firstAfter p hd
    obtain ⟨hskip, hend⟩ := h p i hi
    refine ⟨i, hi, fun hnot => ?_, fun j hj hji hr hnot => ?_⟩
    · obtain ⟨fuel, hw⟩ := (wait_again_iff
        (fun i => decide (Ready status mask val i)) hd hi.1).mpr
          ⟨fun j hj hji => ⟨hskip j hj hji, decide_eq_false (hnot j hj hji)⟩, hend⟩
      exact ⟨fuel, Option.map_eq_some_iff.mpr ⟨_, hw, rfl⟩⟩
    · have hagain (k : Nat) (hk : 0 < k) (hki : k < i) : again p t d k = true := by
        rw [again_eq p hd]
        exact decide_eq_true (hskip k hk hki)
      have hwait : ∃ fuel, wait (again p t d) (fun i => decide (Ready status mask val i)) fuel 1 =
          some (true, j) := wait_iff.mpr
        ⟨hj, fun k hk hkj => ⟨hagain k hk (hkj.trans hji), decide_eq_false (hnot k hk hkj)⟩,
          hagain j hj hji, fun _ => decide_eq_true hr⟩
      obtain ⟨fuel, hw⟩ := hwait
      exact ⟨fuel, Option.map_eq_some_iff.mpr ⟨_, hw, rfl⟩⟩

/-! ## when it is the right call -/

/-- the polls at every tick, but for one gap from the time to `m` -/
theorem firstAfter_skip {m : Nat} {hd : 0 < due d} {hm : due d ≤ m} {h : m ≤ due d + missed} :
    FirstAfter (Polls.skip (due d) m hd hm h) d (due d) := by
  refine ⟨hd, ?_, fun j _ hj he => ?_⟩
  · rw [Polls.skip_gap]
    exact elapsed_iff.mpr hm
  · rw [Polls.skip_lt hj] at he
    exact absurd (elapsed_iff.mp he) (by omega)

/-- the schedules together: each tick before the time, and each that can be the first after it -/
theorem exact_iff_ticks (hd : 1 ≤ d) : Exact missed t d ↔
    (∀ n, 0 < n → n < due d → shown t n < 100 * d) ∧
    ∀ n, due d ≤ n → n ≤ due d + missed → ¬ shown t n < 100 * d := by
  have hpos := due_pos hd
  constructor
  · refine fun h => ⟨fun n hn hlt => ?_, fun n hn hle => ?_⟩
    · have hskip := (h (Polls.skip (due d) (due d) hpos (by omega) (by omega)) _ firstAfter_skip).1
      have hs := hskip n hn hlt
      rwa [Polls.skip_lt hlt] at hs
    · have hend := (h (Polls.skip (due d) n hpos hn hle) _ firstAfter_skip).2
      rwa [Polls.skip_gap] at hend
  · rintro ⟨hbefore, hafter⟩ p i hi
    obtain ⟨k, hk, hle, hclose⟩ := exists_firstAfter p hd
    cases hi.unique hk
    refine ⟨fun j hj hji => ?_, hafter _ hle hclose⟩
    have hlt : p.tick j < due d := by
      by_contra hge
      exact hi.2.2 j hj hji (elapsed_iff.mpr (by omega))
    rcases Nat.eq_zero_or_pos (p.tick j) with h0 | h0
    · rw [h0, shown_zero]
      omega
    · exact hbefore _ h0 hlt

/-- the product of `m` ticks with 1000, which is negative from 2147484 on -/
theorem int_thousand_lt_iff {m : Nat} (hd : 1 ≤ d) (hm : m ≤ due d + 21555 ∨ m ≤ 4294967) :
    int (1000 * m) < 100 * d ↔ m < due d ∨ 2147484 ≤ m := by
  have hlt := int_lt (1000 * (m : Int))
  unfold due HZ at *
  rcases Nat.lt_or_ge m 2147484 with hs | hs
  · rw [int_of_range (by omega) (by omega)]
    omega
  · rcases Nat.lt_or_ge m 4294968 with hb | hb
    · rw [int_high (by omega) (by omega)]
      omega
    · omega

theorem shown_before_iff (hd : 1 ≤ d) (h0 : 0 ≤ t) (h : t + n < MAX_TICKS)
    (hn : n ≤ due d ∨ n ≤ 4294967) : shown t n < 100 * d ↔ n < due d ∨ 2147484 ≤ n := by
  rw [shown_before h0 h]
  exact int_thousand_lt_iff hd (by omega)

theorem shown_after_iff (hd : 1 ≤ d) (h0 : 0 ≤ t) (ht : t < MAX_TICKS) (h : MAX_TICKS ≤ t + n)
    (h' : t + n < 2 * MAX_TICKS) (hn : n ≤ due d ∨ n ≤ 4273412) :
    shown t n < 100 * d ↔ n + 21555 < due d ∨ 2125929 ≤ n := by
  have hsum : 1000 * (n : Int) + 21555000 = 1000 * ((n + 21555 : Nat) : Int) := by omega
  rw [shown_after h0 ht h h', hsum, int_thousand_lt_iff hd (by omega)]
  omega

theorem exact_iff_inTime (hd : 1 ≤ d) (hd' : d < 2 ^ 31) (h0 : 0 ≤ t) (ht : t < MAX_TICKS) :
    Exact missed t d ↔ InTime missed t d := by
  have hdue : due d ≤ 214748365 := by
    unfold due HZ
    omega
  have hpos := due_pos hd
  have hmax : MAX_TICKS = 2147462093 := rfl
  rw [exact_iff_ticks hd]
  constructor
  · rintro ⟨hbefore, hafter⟩
    have hstart : t + due d ≤ MAX_TICKS := by
      by_contra hgt
      have h1 := hbefore (due d - 1) (by omega) (by omega)
      have h2 := hafter (due d) (by omega) (by omega)
      rw [shown_after_iff hd h0 ht (by omega) (by omega) (by omega)] at h1 h2
      omega
    have hmul : due d + missed ≤ 2147483 := by
      by_contra hgt
      have h2 := hafter (max (due d) 2147484) (by omega) (by omega)
      by_cases hlt : t + (max (due d) 2147484 : Nat) < MAX_TICKS
      · rw [shown_before_iff hd h0 hlt (by omega)] at h2
        omega
      · rw [shown_after_iff hd h0 ht (by omega) (by omega) (by omega)] at h2
        omega
    by_cases hlt : t + due d + missed < MAX_TICKS
    · exact .inl ⟨hlt, hmul⟩
    · refine .inr ⟨hstart, ?_⟩
      by_contra hgt
      have h2 := hafter (max (max (due d) 2125929) (MAX_TICKS - t).toNat) (by omega) (by omega)
      rw [shown_after_iff hd h0 ht (by omega) (by omega) (by omega)] at h2
      omega
  · intro h
    refine ⟨fun n hn hlt => ?_, fun n hn hle => ?_⟩
    · have hbefore : t + n < MAX_TICKS := by
        rcases h with h | h <;> omega
      rw [shown_before_iff hd h0 hbefore (by omega)]
      omega
    · rcases h with ⟨h1, h2⟩ | ⟨h1, h2⟩
      · rw [shown_before_iff hd h0 (by omega) (by omega)]
        omega
      · by_cases hlt : t + n < MAX_TICKS
        · rw [shown_before_iff hd h0 hlt (by omega)]
          omega
        · rw [shown_after_iff hd h0 ht (by omega) (by omega) (by omega)]
          omega

end

/-- **The waits**: `milli_delay` ends, and `waitfor` gives up, with the first call after the time,
exactly if neither the counter nor the product wraps too early. -/
theorem delays_iff (missed : Nat) (t d : Int) (h0 : 0 ≤ t) (ht : t < MAX_TICKS) (hd : 1 ≤ d)
    (hd' : d < 2 ^ 31) :
    (DelayRight missed t d ↔ InTime missed t d) ∧ (WaitforRight missed t d ↔ InTime missed t d) :=
  ⟨(delayRight_iff hd).trans (exact_iff_inTime hd hd' h0 ht),
    (waitforRight_iff hd).trans (exact_iff_inTime hd hd' h0 ht)⟩

theorem delays_iff_start : (DelayRight 0 0 1000 ↔ InTime 0 0 1000) ∧
    (WaitforRight 0 0 1000 ↔ InTime 0 0 1000) :=
  delays_iff 0 0 1000 (by decide) (by decide) (by decide) (by decide)

/-- a second that begins at the last count before 0 is over at the next tick; six hours never end -/
theorem delays_fail :
    (∃ p : Polls 0, (∀ i, p.tick i = i) ∧ milliDelay (getTicks p (MAX_TICKS - 1)) 1000 2 = some 1) ∧
    ¬ DelayRight 0 (MAX_TICKS - 1) 1000 ∧ ¬ WaitforRight 0 (MAX_TICKS - 1) 1000 ∧
    ¬ DelayRight 0 0 21600000 ∧ ¬ WaitforRight 0 0 21600000 := by
  have h1 : ¬ Exact 0 (MAX_TICKS - 1) 1000 := by
    rw [exact_iff_inTime (by decide) (by decide) (by decide) (by decide)]
    unfold InTime
    decide
  have h2 : ¬ Exact 0 0 21600000 := by
    rw [exact_iff_inTime (by decide) (by decide) (by decide) (by decide)]
    unfold InTime
    decide
  refine ⟨⟨Polls.skip 1 1 (by decide) (by decide) (by decide), fun i => ?_, by decide⟩, ?_, ?_, ?_, ?_⟩
  · show (if i < 1 then i else i + (1 - 1)) = i
    split <;> rfl
  · rwa [delayRight_iff (by decide)]
  · rwa [waitforRight_iff (by decide)]
  · rwa [delayRight_iff (by decide)]
  · rwa [waitforRight_iff (by decide)]

end Noxis.Delay
