import Noxis.Fixes.Yield
import Mathlib.Algebra.Order.Floor.Div
import Mathlib.GroupTheory.GroupAction.Ring

/-!
# 23-fixes/cpu/task.c: task_sleep()

`task_sleep` computes `wake_tick` from the milliseconds and the tick counter, and `scheduler_tick`
compares it with the counter later.  A `Watch` counts the timer ticks since each call itself.

* `Nap`           a call of `task_sleep`, and the timer ticks since then
* `Lasts`         a nap of a number of ticks
* `naps_last`     naps last `ms / 20` ticks, rounded up and one at least, if the counter does not wrap
-/

namespace Noxis.Fixes
open Run

/-- a call of `task_sleep`: the counter and the milliseconds, and the timer ticks since then -/
structure Nap where
  start : Nat
  ms : Nat
  elapsed : Nat

/-- the system, and the last nap of each task -/
structure Watch where
  sys : Sys
  naps : Slot → Option Nap

/-- the naps when the operation calls `scheduler_tick` -/
def Op.naps (s : Sys) (naps : Slot → Option Nap) : Op → Slot → Option Nap
  | .sleep ms _ =>
    match s.currentTask with
    | none => naps
    | some me =>
      if (taskSleep s ms).2 then Function.update naps me (some ⟨s.tick, ms, 0⟩) else naps
  | .tick true _ => fun i => (naps i).map fun nap => { nap with elapsed := nap.elapsed + 1 }
  | _ => naps

def Watch.step (L : Layout) (w : Watch) (o : Op) : Watch :=
  ⟨o.step L w.sys, o.naps w.sys w.naps⟩

def Watch.init (tick : Fin (2 ^ 32)) (freeMemAddr : Nat) (mem : Nat → Nat) : Watch :=
  ⟨afterInit tick freeMemAddr mem, fun _ => none⟩

/-- **a nap of `n` ticks**: `d` gets the CPU only when they have elapsed, and does get it if the
search comes to it then -/
def Lasts (n : Nat) (nap : Nap) (u : Sys) (r : Nat) (d : Slot) (t : Sys) : Prop :=
  (t.currentTask = some d → n ≤ nap.elapsed) ∧
    (LookedAt u r d → n ≤ nap.elapsed → t.currentTask = some d)

/-- a sleeper sleeps `ms / 20` ticks, rounded up -/
def SleepsOut (w : Watch) (o : Op) (t : Watch) : Prop :=
  ∀ u r d, o.calls w.sys = some (u, r) → (u.tasks d).state = .sleeping →
    ∃ nap, t.naps d = some nap ∧ Lasts (nap.ms ⌈/⌉ 20) nap u r d t.sys

/-- `ms + 19` fits in 32 bits, and the counter has wrapped as often as `wake_tick` -/
def Nap.Unwrapped (nap : Nap) : Prop :=
  nap.ms + 19 < 2 ^ 32 ∧
    (nap.start + max 1 (nap.ms ⌈/⌉ 20)) / 2 ^ 32 = (nap.start + nap.elapsed) / 2 ^ 32

/-- a sleeper sleeps at least one tick -/
def SleepsTick (w : Watch) (o : Op) (t : Watch) : Prop :=
  ∀ u r d, o.calls w.sys = some (u, r) → (u.tasks d).state = .sleeping →
    ∃ nap, t.naps d = some nap ∧
      (nap.Unwrapped → Lasts (max 1 (nap.ms ⌈/⌉ 20)) nap u r d t.sys)

/-! ## the numbers -/

theorem ticksNeeded_eq {ms : Nat} (h : ms + 19 < 2 ^ 32) : ticksNeeded ms = max 1 (ms ⌈/⌉ 20) := by
  rw [Nat.ceilDiv_eq_add_pred_div]
  unfold ticksNeeded
  simp only
  rw [Nat.mod_eq_of_lt h]
  by_cases h0 : (ms + 19) / 20 = 0
  · rw [if_pos h0]
    omega
  · rw [if_neg h0]
    omega

/-- the comparison with `wake_tick` is right when neither side has wrapped more often -/
theorem Nap.Unwrapped.wakes_iff {nap : Nap} (h : nap.Unwrapped) :
    (nap.start + ticksNeeded nap.ms) % 2 ^ 32 ≤ (nap.start + nap.elapsed) % 2 ^ 32 ↔
      max 1 (nap.ms ⌈/⌉ 20) ≤ nap.elapsed := by
  obtain ⟨hms, hround⟩ := h
  rw [ticksNeeded_eq hms]
  generalize max 1 (nap.ms ⌈/⌉ 20) = n at hround ⊢
  omega

/-! ## one call of scheduler_tick -/

section
variable {L : Layout} {s t u : Sys} {r : Nat} {c d i : Slot}

/-- a task does not fall asleep, and a sleeper keeps its `wake_tick` -/
def KeepsNaps (s t : Sys) : Prop := t.tick = s.tick ∧ ∀ d, (t.tasks d).state = .sleeping →
  (s.tasks d).state = .sleeping ∧ (t.tasks d).wakeTick = (s.tasks d).wakeTick

theorem KeepsNaps.of_eq (ht : t.tasks = s.tasks) (hk : t.tick = s.tick) : KeepsNaps s t := by
  refine ⟨hk, fun d hd => ?_⟩
  rw [ht] at hd ⊢
  exact ⟨hd, rfl⟩

theorem KeepsNaps.trans (h : KeepsNaps s t) (h' : KeepsNaps t u) : KeepsNaps s u := by
  refine ⟨h'.1.trans h.1, fun d hd => ?_⟩
  obtain ⟨ht, hw⟩ := h'.2 d hd
  obtain ⟨hs, hw'⟩ := h.2 d ht
  exact ⟨hs, hw.trans hw'⟩

theorem KeepsNaps.setTask (s : Sys) (i : Slot) (f : Task → Task)
    (hf : (f (s.tasks i)).state = .sleeping →
      (s.tasks i).state = .sleeping ∧ (f (s.tasks i)).wakeTick = (s.tasks i).wakeTick) :
    KeepsNaps s (s.setTask i f) := by
  refine ⟨rfl, fun d hd => ?_⟩
  by_cases hdi : d = i
  · subst hdi
    rw [Sys.setTask_same] at hd ⊢
    exact hf hd
  · rw [Sys.setTask_ne _ _ hdi] at hd ⊢
    exact ⟨hd, rfl⟩

theorem saveCurrent_keepsNaps (s : Sys) (r : Nat) : KeepsNaps s (saveCurrent s r) := by
  unfold saveCurrent
  cases s.currentTask with
  | none => exact .of_eq rfl rfl
  | some c =>
    refine KeepsNaps.setTask s c _ fun hd => ?_
    by_cases hr : (s.tasks c).state = .running
    · simp only [if_pos hr] at hd
      cases hd
    · simp only [if_neg hr] at hd
      exact ⟨hd, rfl⟩

/-- the search only wakes -/
theorem search_keepsNaps (tick : Nat) (cur : Option Slot) (n i : Nat) (s : Sys) :
    KeepsNaps s { s with tasks := (search tick cur n i s.tasks).1 } := by
  rcases search_cases tick cur n i s.tasks with ⟨o, heq, -⟩ | ⟨d, -, heq⟩
  · rw [heq]
    exact .of_eq rfl rfl
  · rw [heq]
    exact KeepsNaps.setTask s d (fun t => { t with state := .ready }) fun h => by cases h

/-- one slot gets the CPU, the others stay as they are -/
theorem KeepsNaps.of_running (hk : t.tick = s.tick) (hd : (t.tasks d).state = .running)
    (hne : ∀ i, i ≠ d → t.tasks i = s.tasks i) : KeepsNaps s t := by
  refine ⟨hk, fun i hi => ?_⟩
  by_cases hid : i = d
  · rw [hid, hd] at hi
    cases hi
  · rw [hne i hid] at hi ⊢
    exact ⟨hi, rfl⟩

theorem schedulerTick_keepsNaps (hc : s.currentTask = some c) (r : Nat) :
    KeepsNaps s (schedulerTick s r) := by
  have hsave := saveCurrent_keepsNaps s r
  have hcur := (saveCurrent_current s r).1.trans hc
  cases hq : quantumTask (saveCurrent s r) with
  | some q =>
    rw [schedulerTick_quantum hq]
    refine hsave.trans (KeepsNaps.of_running (d := q) rfl ?_ fun i hi => Sys.setTask_ne _ _ hi)
    rw [Sys.setTask_same]
  | none =>
    have hsearch := search_keepsNaps (saveCurrent s r).tick (saveCurrent s r).currentTask maxTasks 1
      (saveCurrent s r)
    cases hres : search (saveCurrent s r).tick (saveCurrent s r).currentTask maxTasks 1
      (saveCurrent s r).tasks with
    | mk ts o =>
      rw [hres] at hsearch
      cases o with
      | none =>
        rw [schedulerTick_idle hq hres]
        obtain ⟨-, hk, h0, hne⟩ := goIdle_spec (s := { saveCurrent s r with tasks := ts }) (r := r) hcur
        exact (hsave.trans hsearch).trans (KeepsNaps.of_running hk h0 hne)
      | some d =>
        rw [schedulerTick_next hq hres]
        obtain ⟨-, hd, hne⟩ := dispatch_spec { saveCurrent s r with tasks := ts } d r
        exact (hsave.trans hsearch).trans (KeepsNaps.of_running rfl hd hne)

/-- **When a sleeper is dispatched**: the search comes to it, and `wake_tick` is reached. -/
theorem schedulerTick_wakes (hc : s.currentTask = some c) (hd : d ≠ 0)
    (hsl : (s.tasks d).state = .sleeping) : (schedulerTick s r).currentTask = some d ↔
      LookedAt s r d ∧ (s.tasks d).wakeTick ≤ s.tick := by
  -- the frame of the caller is saved, its state stays
  have hsave : ((saveCurrent s r).tasks d).state = .sleeping ∧
      ((saveCurrent s r).tasks d).wakeTick = (s.tasks d).wakeTick := by
    by_cases hdc : d = c
    · subst hdc
      rw [saveCurrent_same hc]
      exact ⟨if_neg (by rw [hsl]; decide) |>.trans hsl, rfl⟩
    · rw [saveCurrent_ne hc hdc]
      exact ⟨hsl, rfl⟩
  have hcan : ((saveCurrent s r).tasks d).CanRun s.tick ↔ (s.tasks d).wakeTick ≤ s.tick := by
    unfold Task.CanRun
    rw [hsave.1, hsave.2]
    simp
  cases hq : quantumTask (saveCurrent s r) with
  | none => rw [schedulerTick_dispatches hc hd hq, hcan]
  | some q =>
    -- the quantum of another task goes on
    have hcur := (saveCurrent_current s r).1.trans hc
    obtain ⟨rfl, hready⟩ := quantumTask_spec hcur hq
    rw [schedulerTick_quantum hq]
    refine iff_of_false (fun h => ?_) fun h => ?_
    · have hqd : q = d := Option.some.inj (hcur.symm.trans h)
      rw [hqd, hsave.1] at hready
      cases hready
    · exact absurd (hq.symm.trans h.1.1) nofun

/-! ## the other operations -/

theorem slotStack_keepsNaps (s : Sys) (i : Slot) : KeepsNaps s (slotStack s i).2 := by
  unfold slotStack
  by_cases hb : (s.tasks i).stackBase ≠ 0
  · rw [if_pos hb]
    exact .of_eq rfl rfl
  · rw [if_neg hb]
    cases kmalloc s.freeMemAddr taskStackSize true with
    | mk stack free =>
      simp only
      by_cases h0 : stack = 0
      · rw [if_pos h0]
        exact .of_eq rfl rfl
      · rw [if_neg h0]
        exact KeepsNaps.setTask { s with freeMemAddr := free } i
          (fun t => { t with stackBase := stack }) fun h => ⟨h, rfl⟩

theorem taskCreatePrio_keepsNaps (L : Layout) (s : Sys) (name : List Char) (entry : Nat)
    (weight : Fin 256) : KeepsNaps s (taskCreatePrio L s name entry weight).1 := by
  unfold taskCreatePrio
  cases freeSlot s.tasks with
  | none => exact .of_eq rfl rfl
  | some i =>
    have hstack := slotStack_keepsNaps s i
    simp only
    by_cases h0 : (slotStack s i).1 = 0
    · rw [if_pos h0]
      exact hstack
    · rw [if_neg h0]
      exact hstack.trans (KeepsNaps.setTask { (slotStack s i).2 with mem := _ } i
        (newTask L i name entry weight (slotStack s i).1) fun h => by cases h)

theorem taskKill_keepsNaps (s : Sys) (id : Int) : KeepsNaps s (taskKill s id).1 := by
  unfold taskKill
  by_cases hid : 0 < id ∧ id < maxTasks
  · rw [dif_pos hid]
    by_cases hd : (s.tasks ⟨id.toNat, by omega⟩).state = .dead
    · simp only [if_pos hd]
      exact .of_eq rfl rfl
    · simp only [if_neg hd]
      exact KeepsNaps.setTask s _ (fun t => { t with killReq := true }) fun h => ⟨h, rfl⟩
  · rw [dif_neg hid]
    exact .of_eq rfl rfl

theorem taskExit_keepsNaps (s : Sys) : KeepsNaps s (taskExit s) := by
  unfold taskExit
  cases s.currentTask with
  | none => exact .of_eq rfl rfl
  | some me =>
    exact KeepsNaps.setTask s me (fun t => { t with state := .dead, killReq := false })
      fun h => by cases h

/-- a call that returns at once -/
theorem taskSleep_returns {ms : Nat} (h : (taskSleep s ms).2 = false) :
    taskSleep s ms = (s, false) := by
  unfold taskSleep at h ⊢
  cases hc : s.currentTask with
  | none => rfl
  | some me =>
    rw [hc] at h
    simp only at h ⊢
    by_cases hstay : me = 0 ∨ (s.tasks me).state = .dead
    · rw [if_pos hstay]
    · rw [if_neg hstay] at h
      cases h

theorem Op.calls_sleep {ms r' : Nat} (h : (Op.sleep ms r').calls s = some (u, r)) :
    taskSleep s ms = (u, true) ∧ r' = r := by
  change (if (taskSleep s ms).2 then some ((taskSleep s ms).1, r') else none) = some (u, r) at h
  by_cases hreach : (taskSleep s ms).2 = true
  · rw [if_pos hreach] at h
    cases h
    exact ⟨Prod.ext rfl hreach, rfl⟩
  · rw [if_neg hreach] at h
    cases h

/-- an operation that does not call `scheduler_tick` leaves the sleepers alone -/
theorem Op.step_keepsNaps {o : Op} (h : o.calls s = none) (naps : Slot → Option Nap) :
    KeepsNaps s (o.step L s) ∧ o.naps s naps = naps := by
  cases o with
  | run mem => exact ⟨.of_eq rfl rfl, rfl⟩
  | create name entry weight => exact ⟨taskCreatePrio_keepsNaps L s name entry weight, rfl⟩
  | kill id => exact ⟨taskKill_keepsNaps s id, rfl⟩
  | exit => exact ⟨taskExit_keepsNaps s, rfl⟩
  | tick timer r => cases h
  | sleep ms r =>
    have hfalse : (taskSleep s ms).2 = false := by
      unfold Op.calls at h
      by_cases hreach : (taskSleep s ms).2 = true
      · simp only [if_pos hreach] at h
        cases h
      · exact Bool.eq_false_iff.mpr hreach
    simp only [Op.step, Op.naps, taskSleep_returns hfalse]
    refine ⟨.of_eq rfl rfl, ?_⟩
    cases s.currentTask <;> simp

/-- the other operations enter `scheduler_tick` -/
theorem Op.step_calls {o : Op} (h : o.calls s = some (u, r)) :
    o.step L s = schedulerTick u r ∧ u.currentTask = s.currentTask := by
  cases o with
  | run mem => cases h
  | create name entry weight => cases h
  | kill id => cases h
  | exit => cases h
  | tick timer r =>
    cases h
    exact ⟨rfl, rfl⟩
  | sleep ms r' =>
    obtain ⟨hres, rfl⟩ := Op.calls_sleep h
    simp only [Op.step, hres]
    refine ⟨trivial, ?_⟩
    cases hc : s.currentTask with
    | none =>
      unfold taskSleep at hres
      rw [hc] at hres
      cases hres
    | some me =>
      rw [(taskSleep_reaches hc hres).2]
      exact hc

end

/-! ## the run -/

/-- every sleeper has its nap, and `wake_tick` is the end of it -/
structure Watch.Napping (w : Watch) : Prop where
  tick : w.sys.tick < 2 ^ 32
  naps : ∀ d, (w.sys.tasks d).state = .sleeping → d ≠ 0 ∧ ∃ nap, w.naps d = some nap ∧
    (w.sys.tasks d).wakeTick = (nap.start + ticksNeeded nap.ms) % 2 ^ 32 ∧
    w.sys.tick = (nap.start + nap.elapsed) % 2 ^ 32

section
variable {L : Layout} {w : Watch} {o : Op} {t u : Sys} {r : Nat} {c : Slot}

theorem Watch.Napping.keeps (h : w.Napping) (hk : KeepsNaps w.sys t) :
    Watch.Napping ⟨t, w.naps⟩ := by
  refine ⟨hk.1.trans_lt h.tick, fun d hd => ?_⟩
  obtain ⟨hs, hw⟩ := hk.2 d hd
  obtain ⟨h0, nap, hnap, hwake, htick⟩ := h.naps d hs
  exact ⟨h0, nap, hnap, hw.trans hwake, hk.1.trans htick⟩

/-- the timer, or the nap that begins -/
theorem Watch.Napping.calls (h : w.Napping) (hc : w.sys.currentTask = some c)
    (hcalls : o.calls w.sys = some (u, r)) : Watch.Napping ⟨u, o.naps w.sys w.naps⟩ := by
  cases o with
  | run mem => cases hcalls
  | create name entry weight => cases hcalls
  | kill id => cases hcalls
  | exit => cases hcalls
  | tick timer r =>
    cases hcalls
    cases timer with
    | false => exact ⟨h.tick, h.naps⟩
    | true =>
      refine ⟨Nat.mod_lt _ (by decide), fun d hd => ?_⟩
      obtain ⟨h0, nap, hnap, hwake, htick⟩ := h.naps d hd
      refine ⟨h0, { nap with elapsed := nap.elapsed + 1 }, ?_, hwake, ?_⟩
      · show (w.naps d).map _ = _
        rw [hnap]
        rfl
      · show (w.sys.tick + 1) % 2 ^ 32 = (nap.start + (nap.elapsed + 1)) % 2 ^ 32
        rw [htick]
        omega
  | sleep ms r' =>
    obtain ⟨hres, rfl⟩ := Op.calls_sleep hcalls
    obtain ⟨hc0, hu⟩ := taskSleep_reaches hc hres
    have hnaps : Op.naps w.sys w.naps (.sleep ms r') =
        Function.update w.naps c (some ⟨w.sys.tick, ms, 0⟩) := by
      unfold Op.naps
      simp only [hc, hres, if_true]
    have htick : u.tick = w.sys.tick := by rw [hu, Sys.setTask_tick]
    have hsame : (u.tasks c).wakeTick = (w.sys.tick + ticksNeeded ms) % 2 ^ 32 := by
      rw [hu, Sys.setTask_same]
    have hne : ∀ d, d ≠ c → u.tasks d = w.sys.tasks d := fun d hdc => by
      rw [hu, Sys.setTask_ne _ _ hdc]
    rw [hnaps]
    refine ⟨htick.trans_lt h.tick, fun d hd => ?_⟩
    by_cases hdc : d = c
    · subst hdc
      exact ⟨hc0, ⟨w.sys.tick, ms, 0⟩, Function.update_self .., hsame,
        htick.trans (Nat.mod_eq_of_lt h.tick).symm⟩
    · change (u.tasks d).state = .sleeping at hd
      rw [hne d hdc] at hd
      obtain ⟨h0, nap, hnap, hwake, hk⟩ := h.naps d hd
      refine ⟨h0, nap, (Function.update_of_ne hdc ..).trans hnap, ?_, htick.trans hk⟩
      rw [← hwake, ← hne d hdc]

/-- **One operation.** -/
theorem Watch.Napping.step (h : w.Napping) (hc : w.sys.currentTask = some c) :
    SleepsTick w o (w.step L o) ∧ (w.step L o).Napping := by
  cases hcalls : o.calls w.sys with
  | none =>
    obtain ⟨hk, hnaps⟩ := Op.step_keepsNaps (L := L) hcalls w.naps
    refine ⟨fun u r d hu => ?_, ?_⟩
    · rw [hcalls] at hu
      cases hu
    · unfold Watch.step
      rw [hnaps]
      exact h.keeps hk
  | some x =>
    obtain ⟨u, r⟩ := x
    obtain ⟨hstep, hcur⟩ := Op.step_calls (L := L) hcalls
    rw [hc] at hcur
    have hnap := h.calls hc hcalls
    unfold Watch.step
    rw [hstep]
    refine ⟨fun u' r' d hu hd => ?_, hnap.keeps (schedulerTick_keepsNaps hcur r)⟩
    rw [hcalls] at hu
    cases hu
    obtain ⟨h0, nap, hn, hwake, htick⟩ := hnap.naps d hd
    refine ⟨nap, hn, fun hround => ?_⟩
    -- the comparison of `scheduler_tick` is the one of the ticks
    have hiff : (u.tasks d).wakeTick ≤ u.tick ↔ max 1 (nap.ms ⌈/⌉ 20) ≤ nap.elapsed := by
      rw [show (u.tasks d).wakeTick = _ from hwake, show u.tick = _ from htick]
      exact hround.wakes_iff
    have hwakes := schedulerTick_wakes (r := r) hcur h0 hd
    exact ⟨fun ht => hiff.mp (hwakes.mp ht).2, fun hlook hn => hwakes.mpr ⟨hlook, hiff.mpr hn⟩⟩

end

/-- **Naps last**, in every run: a sleeper is dispatched only after its ticks, one at least, and at the
first look at its slot after them, as long as its sum and the counter do not wrap. -/
theorem naps_last (L : Layout) (tick : Fin (2 ^ 32)) (freeMemAddr : Nat) (mem : Nat → Nat)
    (ops : List Op) :
    Always (fun w o t => t = Watch.step L w o) SleepsTick (Watch.init tick freeMemAddr mem) ops := by
  refine Always.of_inv (I := fun w => CurrentOnly w.sys ∧ w.Napping) (fun w o t hw ht => ?_) ops _
    ⟨afterInit_currentOnly tick freeMemAddr mem, tick.isLt, fun d hd => ?_⟩
  · subst ht
    obtain ⟨c, hc, -⟩ := hw.1
    obtain ⟨hsleeps, hnap⟩ := hw.2.step (L := L) (o := o) hc
    exact ⟨hsleeps, (hw.1.step o).2, hnap⟩
  · by_cases h0 : d = 0
    · subst h0
      cases hd
    · have hblank : taskInit d = Task.blank := Function.update_of_ne h0 ..
      rw [show (Watch.init tick freeMemAddr mem).sys.tasks d = Task.blank from hblank] at hd
      cases hd

namespace Demo

/-- one task, and the timer has given it the CPU -/
def oneTask : List Op := [.create ['a'] 0x5000 1, .tick true 0x8FF00]

/-- the task is about to sleep; the counter was `tick` before the timer -/
def beforeNap (tick : Fin (2 ^ 32)) : Watch :=
  oneTask.foldl (Watch.step layout) (Watch.init tick 0x10000 fun _ => 0)

/-- after 40 ms: the idle task has the CPU at the first tick, the sleeper gets it at the second -/
example :
    ([.sleep 40 0x10F00, .tick true 0x8FF00].foldl (Watch.step layout) (beforeNap 0)).sys.currentTask
      = some 0 ∧
    ([.sleep 40 0x10F00, .tick true 0x8FF00, .tick true 0x8FF00].foldl (Watch.step layout)
      (beforeNap 0)).sys.currentTask = some 1 := by
  decide +kernel

/-- nothing else can run, so the yield of `task_sleep` looks at its caller -/
theorem beforeNap_lookedAt :
    LookedAt (taskSleep (beforeNap 0).sys 0).1 0x10F00 1 :=
  ⟨by decide +kernel, 31, by decide, by decide, by decide, by decide +kernel⟩

end Demo

/-- a sleep of 0 ms outlasts the first look at its slot; one of 20 ms is over at once when the counter
wraps, and one of `2 ^ 32 - 1` ms after a tick: **a nap need not last `ms / 20` ticks** -/
theorem sleeps_fails :
    (¬ Always (fun w o t => t = Watch.step Demo.layout w o) SleepsOut
      (Watch.init 0 0x10000 fun _ => 0) (Demo.oneTask ++ [.sleep 0 0x10F00])) ∧
    (¬ Always (fun w o t => t = Watch.step Demo.layout w o) SleepsOut
      (Watch.init 4294967294 0x10000 fun _ => 0) (Demo.oneTask ++ [.sleep 20 0x10F00])) ∧
    ¬ Always (fun w o t => t = Watch.step Demo.layout w o) SleepsOut
      (Watch.init 0 0x10000 fun _ => 0)
      (Demo.oneTask ++ [.sleep 4294967295 0x10F00, .tick true 0x8FF00]) := by
  refine ⟨fun h => ?_, fun h => ?_, fun h => ?_⟩
  · have hsleeps : SleepsOut (Demo.beforeNap 0) (.sleep 0 0x10F00)
        (Watch.step Demo.layout (Demo.beforeNap 0) (.sleep 0 0x10F00)) :=
      (((h _ rfl).2 _ rfl).2 _ rfl).1
    obtain ⟨nap, hnap, -, hwakes⟩ := hsleeps _ _ 1 rfl (by decide +kernel)
    cases hnap
    exact absurd (hwakes Demo.beforeNap_lookedAt (by decide)) (by decide +kernel)
  · have hsleeps : SleepsOut (Demo.beforeNap 4294967294) (.sleep 20 0x10F00)
        (Watch.step Demo.layout (Demo.beforeNap 4294967294) (.sleep 20 0x10F00)) :=
      (((h _ rfl).2 _ rfl).2 _ rfl).1
    obtain ⟨nap, hnap, hearly, -⟩ := hsleeps _ _ 1 rfl (by decide +kernel)
    cases hnap
    exact absurd (hearly (by decide +kernel)) (by decide)
  · have hsleeps : SleepsOut
        (Watch.step Demo.layout (Demo.beforeNap 0) (.sleep 4294967295 0x10F00)) (.tick true 0x8FF00)
        (Watch.step Demo.layout
          (Watch.step Demo.layout (Demo.beforeNap 0) (.sleep 4294967295 0x10F00))
          (.tick true 0x8FF00)) :=
      ((((h _ rfl).2 _ rfl).2 _ rfl).2 _ rfl).1
    obtain ⟨nap, hnap, hearly, -⟩ := hsleeps _ _ 1 rfl (by decide +kernel)
    cases hnap
    exact absurd (hearly (by decide +kernel)) (by decide)

end Noxis.Fixes
