import Noxis.Fixes.Current

/-!
# 23-fixes/cpu/task.c: task_yield()

`task_yield` enters `scheduler_tick` like the timer, and the slices that are left of the quantum are
looked at before the other tasks.

* `LookedAt`       the search of `scheduler_tick` comes to a slot
* `search_found`   the slot that is looked at is taken if it can run
* `gives_iff`      a yield goes to another task exactly if the quantum is used up
-/

namespace Noxis.Fixes
open Run

/-- `scheduler_tick` gets to the search, and the search to `d` -/
def LookedAt (s : Sys) (r : Nat) (d : Slot) : Prop :=
  quantumTask (saveCurrent s r) = none ∧
    ∃ k < 1 + maxTasks, 1 ≤ k ∧ TurnOf s.tick s.currentTask (saveCurrent s r).tasks d 1 k

/-- the state in which the operation calls `scheduler_tick`, and the frame it gives -/
def Op.calls (s : Sys) : Op → Option (Sys × Nat)
  | .sleep ms r => if (taskSleep s ms).2 then some ((taskSleep s ms).1, r) else none
  | .tick timer r => some ({ s with tick := if timer then (s.tick + 1) % 2 ^ 32 else s.tick }, r)
  | _ => none

/-- the operation executes `int 0x81`: it is a yield, or the yield of `task_sleep` -/
def Op.yields : Op → Bool
  | .tick timer _ => !timer
  | .sleep _ _ => true
  | _ => false

/-- a running task yields although another one can run -/
structure Yields (s : Sys) (o : Op) (c : Slot) : Prop where
  yields : o.yields = true
  calls : (o.calls s).isSome
  current : s.currentTask = some c
  running : (s.tasks c).state = .running
  other : ∃ j, j ≠ 0 ∧ j ≠ c ∧ (s.tasks j).CanRun s.tick

/-- **the yield gives up the CPU** -/
def GivesUp (s : Sys) (o : Op) (t : Sys) : Prop := ∀ c, Yields s o c → t.currentTask ≠ some c

/-- the task sleeps, or is the idle task, or has no slices left -/
def QuantumUsed (s : Sys) (o : Op) (_t : Sys) : Prop := ∀ c, Yields s o c →
  (∃ ms r, o = .sleep ms r) ∨ c = 0 ∨ (s.tasks c).quantumLeft = 0

/-! ## the search -/

section
variable {tick n i k : Nat} {cur : Option Slot} {ts ts' : Slot → Task} {c d : Slot}

/-- a slot that is looked at and can run is found -/
theorem search_found (hi : i ≤ k) (hk : k < i + n) (ht : TurnOf tick cur ts d i k)
    (hd : (ts d).CanRun tick) : (search tick cur n i ts).2 = some d := by
  induction n generalizing i with
  | zero => omega
  | succ n ih =>
    by_cases hki : k = i
    · subst hki
      rw [← ht.1] at hd ⊢
      exact search_stops hd
    · rw [search_passes (ht.2 i (by omega) le_rfl)]
      exact ih (by omega) (by omega) ⟨ht.1, fun j hj hij => ht.2 j hj (by omega)⟩

/-- the turn of the caller comes after the turn of every other slot -/
theorem exists_turn_before {j : Slot} (hj : j ≠ 0) (hjc : j ≠ c) (h1 : 1 ≤ k)
    (hk : searchIdx (some c) k = c) : ∃ m < k, 1 ≤ m ∧ searchIdx (some c) m = j := by
  have hc : c.val < 32 := c.isLt
  have hlt : j.val < 32 := j.isLt
  have hpos : j.val ≠ 0 := fun e => hj (Fin.ext e)
  have hne : j.val ≠ c.val := fun e => hjc (Fin.ext e)
  -- it is turn 32, or turn 31 for slot 1
  have hlast : 32 ≤ k ∨ c.val = 1 ∧ 31 ≤ k := by
    have hval := congrArg Fin.val hk
    rw [searchIdx_val] at hval
    by_cases h0 : (c.val + k) % 32 = 0
    · rw [if_pos h0] at hval
      omega
    · rw [if_neg h0] at hval
      omega
  refine ⟨_, ?_, ?_, searchIdx_turn c hj⟩
  · by_cases hcj : c.val < j.val
    · rw [if_pos hcj]
      omega
    · rw [if_neg hcj]
      omega
  · by_cases hcj : c.val < j.val
    · rw [if_pos hcj]
      omega
    · rw [if_neg hcj]
      omega

end

/-! ## scheduler_tick -/

section
variable {s u : Sys} {r : Nat} {c d j : Slot}

theorem saveCurrent_ne (hc : s.currentTask = some c) (hj : j ≠ c) :
    (saveCurrent s r).tasks j = s.tasks j := by
  unfold saveCurrent
  rw [hc]
  exact Sys.setTask_ne _ _ hj

/-- the frame is saved, and a RUNNING caller is READY -/
theorem saveCurrent_same (hc : s.currentTask = some c) : (saveCurrent s r).tasks c =
    { s.tasks c with
      regs := readRegs s.mem r
      state := if (s.tasks c).state = .running then .ready else (s.tasks c).state } := by
  unfold saveCurrent
  rw [hc]
  exact Sys.setTask_same ..

/-- who gets the CPU when no quantum goes on -/
theorem schedulerTick_search (hc : s.currentTask = some c)
    (hq : quantumTask (saveCurrent s r) = none) : (schedulerTick s r).currentTask =
      some ((search s.tick (some c) maxTasks 1 (saveCurrent s r).tasks).2.getD 0) := by
  obtain ⟨hcur, htick⟩ := saveCurrent_current s r
  rw [hc] at hcur
  rw [← htick, ← hcur]
  cases hres : search (saveCurrent s r).tick (saveCurrent s r).currentTask maxTasks 1
    (saveCurrent s r).tasks with
  | mk ts o =>
    cases o with
    | none =>
      rw [schedulerTick_idle hq hres]
      exact (goIdle_spec (s := { saveCurrent s r with tasks := ts }) hcur).1
    | some d =>
      rw [schedulerTick_next hq hres]
      exact (dispatch_spec _ d r).1

/-- **Who is dispatched** when no quantum goes on: the slot that is looked at and can run. -/
theorem schedulerTick_dispatches (hc : s.currentTask = some c) (hd : d ≠ 0)
    (hq : quantumTask (saveCurrent s r) = none) : (schedulerTick s r).currentTask = some d ↔
      LookedAt s r d ∧ ((saveCurrent s r).tasks d).CanRun s.tick := by
  rw [schedulerTick_search hc hq]
  constructor
  · intro h
    have hfound : (search s.tick (some c) maxTasks 1 (saveCurrent s r).tasks).2 = some d := by
      cases hres : (search s.tick (some c) maxTasks 1 (saveCurrent s r).tasks).2 with
      | none =>
        rw [hres] at h
        exact absurd (Option.some.inj h).symm hd
      | some e =>
        rw [hres] at h
        exact h
    obtain ⟨k, h1, h2, hturn, hrun⟩ := search_some hfound
    refine ⟨⟨hq, k, h2, h1, ?_⟩, hrun⟩
    rw [hc]
    exact hturn
  · rintro ⟨⟨-, k, h2, h1, hturn⟩, hrun⟩
    rw [hc] at hturn
    rw [search_found h1 h2 hturn hrun]
    rfl

/-- the search does not come back to the caller while another task can run -/
theorem schedulerTick_other (hc : s.currentTask = some c) (hq : quantumTask (saveCurrent s r) = none)
    (hj : j ≠ 0) (hjc : j ≠ c) (hrun : (s.tasks j).CanRun s.tick) :
    (schedulerTick s r).currentTask ≠ some c := by
  intro h
  rw [← saveCurrent_ne (r := r) hc hjc] at hrun
  by_cases hc0 : c = 0
  · -- the idle task runs on only if nobody is found
    rw [schedulerTick_search hc hq] at h
    obtain ⟨k, h1, h2, hk⟩ := exists_searchIdx c hj
    cases hres : search s.tick (some c) maxTasks 1 (saveCurrent s r).tasks with
    | mk ts o =>
      cases o with
      | none =>
        have hcan := (search_none hres).2 k h1 h2
        rw [hk] at hcan
        exact hcan hrun
      | some d =>
        rw [hres, hc0] at h
        exact search_ne_zero hres (Option.some.inj h)
  · obtain ⟨⟨-, k, -, h1, hk, hbefore⟩, -⟩ := (schedulerTick_dispatches hc hc0 hq).mp h
    rw [hc] at hk hbefore
    obtain ⟨m, hm, hm1, hmj⟩ := exists_turn_before hj hjc h1 hk
    have hno := hbefore m hm hm1
    rw [hmj] at hno
    exact hno hrun

/-- the quantum of a running caller goes on exactly if slices are left -/
theorem quantumTask_running (hc : s.currentTask = some c) (hrun : (s.tasks c).state = .running) :
    quantumTask (saveCurrent s r) =
      if c ≠ 0 ∧ 0 < (s.tasks c).quantumLeft then some c else none := by
  have hcur := (saveCurrent_current s r).1.trans hc
  unfold quantumTask
  rw [hcur]
  simp only
  rw [saveCurrent_same hc]
  simp only [hrun, if_true, true_and]

/-- the yield of `task_sleep` finds its caller SLEEPING -/
theorem quantumTask_sleeping (hc : s.currentTask = some c) (hsl : (s.tasks c).state = .sleeping) :
    quantumTask (saveCurrent s r) = none := by
  have hcur := (saveCurrent_current s r).1.trans hc
  unfold quantumTask
  rw [hcur]
  simp only
  rw [saveCurrent_same hc]
  simp only [hsl]
  rw [if_neg (fun h => by cases h.2.1)]

/-- `ticks_needed` -/
def ticksNeeded (ms : Nat) : Nat :=
  let n := (ms + 19) % 2 ^ 32 / 20
  if n = 0 then 1 else n

/-- `task_sleep`, when it reaches its yield -/
theorem taskSleep_reaches {ms : Nat} (hc : s.currentTask = some c) (h : taskSleep s ms = (u, true)) :
    c ≠ 0 ∧ u = s.setTask c fun t =>
      { t with wakeTick := (s.tick + ticksNeeded ms) % 2 ^ 32, state := .sleeping } := by
  unfold taskSleep at h
  rw [hc] at h
  simp only at h
  by_cases hstay : c = 0 ∨ (s.tasks c).state = .dead
  · rw [if_pos hstay] at h
    cases h
  · rw [if_neg hstay] at h
    cases h
    exact ⟨fun h0 => hstay (.inl h0), rfl⟩

end

section
variable {L : Layout} {s : Sys} {o : Op} {c : Slot}

/-- **One yield** -/
theorem Yields.goes_iff (h : Yields s o c) : (o.step L s).currentTask ≠ some c ↔
    (∃ ms r, o = .sleep ms r) ∨ c = 0 ∨ (s.tasks c).quantumLeft = 0 := by
  obtain ⟨hy, hcalls, hc, hrun, j, hj, hjc, hcan⟩ := h
  cases o with
  | run mem => cases hy
  | create name entry weight => cases hy
  | kill id => cases hy
  | exit => cases hy
  | sleep ms r =>
    refine iff_of_true ?_ (.inl ⟨ms, r, rfl⟩)
    cases hres : taskSleep s ms with
    | mk u reached =>
      cases reached with
      | false =>
        unfold Op.calls at hcalls
        simp only [hres] at hcalls
        cases hcalls
      | true =>
        obtain ⟨-, hu⟩ := taskSleep_reaches hc hres
        have hcu : u.currentTask = some c := by
          rw [hu]
          exact hc
        have hsl : (u.tasks c).state = .sleeping := by
          rw [hu, Sys.setTask_same]
        have hother : (u.tasks j).CanRun u.tick := by
          rw [hu, Sys.setTask_ne _ _ hjc]
          exact hcan
        simp only [Op.step, hres]
        exact schedulerTick_other hcu (quantumTask_sleeping hcu hsl) hj hjc hother
  | tick timer r =>
    cases timer with
    | true => cases hy
    | false =>
      show (schedulerTick s r).currentTask ≠ some c ↔ _
      have hquantum := quantumTask_running (r := r) hc hrun
      by_cases hleft : c ≠ 0 ∧ 0 < (s.tasks c).quantumLeft
      · -- the quantum goes on
        rw [if_pos hleft] at hquantum
        rw [schedulerTick_quantum hquantum]
        refine iff_of_false (fun h => h ((saveCurrent_current s r).1.trans hc)) ?_
        rintro (⟨ms, r', h⟩ | h0 | hq)
        · cases h
        · exact hleft.1 h0
        · omega
      · rw [if_neg hleft] at hquantum
        refine iff_of_true (schedulerTick_other hc hquantum hj hjc hcan) (.inr ?_)
        by_cases h0 : c = 0
        · exact .inl h0
        · exact .inr (by_contra fun hq => hleft ⟨h0, by omega⟩)

end

/-- **A yield goes to another task exactly if the quantum is used up**, in every run. -/
theorem gives_iff (L : Layout) (tick freeMemAddr : Nat) (mem : Nat → Nat) (ops : List Op) :
    Always (fun s o t => t = Op.step L s o) GivesUp (afterInit tick freeMemAddr mem) ops ↔
      Always (fun s o t => t = Op.step L s o) QuantumUsed (afterInit tick freeMemAddr mem) ops := by
  refine Always.iff_of_inv (I := fun _ => True) (fun s o t _ ht => ?_) (fun _ _ _ _ _ _ => trivial)
    ops _ trivial
  subst ht
  exact forall_congr' fun c => imp_congr_right fun h => h.goes_iff

namespace Demo

/-- two tasks, the first one with two slices -/
def twoSlices : List Op := [.create ['a'] 0x5000 2, .create ['b'] 0x6000 1, .tick true 0x8FF00]

def twoReady : Sys := twoSlices.foldl (Op.step layout) (afterInit 0 0x10000 fun _ => 0)

theorem twoReady_yields : Yields twoReady (.tick false 0x10F00) 1 :=
  ⟨rfl, rfl, by decide +kernel, by decide +kernel, 2, by decide, by decide, by decide +kernel⟩

end Demo

/-- task 1 yields with a slice left, and goes on: **a yield need not give up the CPU** -/
theorem gives_fails : ¬ ∀ (L : Layout) (tick freeMemAddr : Nat) (mem : Nat → Nat) (ops : List Op),
    Always (fun s o t => t = Op.step L s o) GivesUp (afterInit tick freeMemAddr mem) ops := by
  intro h
  have hrun := h Demo.layout 0 0x10000 (fun _ => 0) (Demo.twoSlices ++ [.tick false 0x10F00])
  have hgives : GivesUp Demo.twoReady (.tick false 0x10F00)
      (Op.step Demo.layout Demo.twoReady (.tick false 0x10F00)) :=
    ((hrun _ rfl).2 _ rfl).2 _ rfl |>.2 _ rfl |>.1
  exact hgives 1 Demo.twoReady_yields (by decide +kernel)

end Noxis.Fixes
