import Noxis.Fixes.Transparent

/-!
# 23-fixes: the running slot

Only the current slot is ever RUNNING (`CurrentOnly`); right after `scheduler_tick` it is, and it is
the idle task only if nobody else can run (`Scheduled`).  Both hold along every order of creations,
kills, sleeps, exits and ticks (`scheduled`).
-/

namespace Noxis.Fixes
open Run

/-- the operations on the task table -/
inductive Op where
  /-- the tasks compute -/
  | run (mem : Nat → Nat)
  | create (name : List Char) (entry : Nat) (weight : Fin 256)
  | kill (id : Int)
  /-- `task_sleep`, with the frame that its yield pushes -/
  | sleep (ms r : Nat)
  /-- the end of `task_trampoline` -/
  | exit
  /-- `scheduler_tick`, from the timer or from a yield -/
  | tick (timer : Bool) (r : Nat)

def Op.step (L : Layout) (s : Sys) : Op → Sys
  | .run mem => { s with mem := mem }
  | .create name entry weight => (taskCreatePrio L s name entry weight).1
  | .kill id => (taskKill s id).1
  | .sleep ms r =>
    match taskSleep s ms with
    | (s, false) => s
    | (s, true) => schedulerTick s r
  | .exit => taskExit s
  | .tick timer r =>
    schedulerTick { s with tick := if timer then (s.tick + 1) % 2 ^ 32 else s.tick } r

/-- whether the operation calls `scheduler_tick` -/
def Op.ticks (s : Sys) : Op → Bool
  | .sleep ms _ => (taskSleep s ms).2
  | .tick _ _ => true
  | _ => false

/-- no slot but the current one is RUNNING -/
def CurrentOnly (s : Sys) : Prop :=
  ∃ c, s.currentTask = some c ∧ ∀ i, i ≠ c → (s.tasks i).state ≠ .running

/-- **The property.**  Exactly one slot is RUNNING, the current one, and it is the idle task only if
every other slot is dead or sleeps on. -/
def Scheduled (s : Sys) : Prop :=
  ∃ c, s.currentTask = some c ∧ (∀ i, (s.tasks i).state = .running ↔ i = c) ∧
    (c = 0 → ∀ i, i ≠ 0 →
      (s.tasks i).state = .dead ∨ (s.tasks i).state = .sleeping ∧ s.tick < (s.tasks i).wakeTick)

/-- the state after `task_init` -/
def afterInit (tick freeMemAddr : Nat) (mem : Nat → Nat) : Sys :=
  { tasks := taskInit, currentTask := some 0, tick := tick, freeMemAddr := freeMemAddr, mem := mem }

theorem Scheduled.currentOnly {s : Sys} (h : Scheduled s) : CurrentOnly s := by
  obtain ⟨c, hc, hrun, -⟩ := h
  exact ⟨c, hc, fun i hi hr => hi ((hrun i).mp hr)⟩

/-! ## the search -/

/-- the search takes this task -/
def Task.CanRun (t : Task) (tick : Nat) : Prop :=
  t.state = .ready ∨ t.state = .sleeping ∧ t.wakeTick ≤ tick

instance Task.decidableCanRun (t : Task) (tick : Nat) : Decidable (t.CanRun tick) :=
  inferInstanceAs (Decidable (_ ∨ _))

/-- turn `k` of the search is reached, and is the turn of `d` -/
def TurnOf (tick : Nat) (cur : Option Slot) (ts : Slot → Task) (d : Slot) (i k : Nat) : Prop :=
  searchIdx cur k = d ∧ ∀ j < k, i ≤ j → ¬ (ts (searchIdx cur j)).CanRun tick

section
variable {tick n i : Nat} {cur : Option Slot} {ts ts' : Slot → Task} {d : Slot}

theorem search_passes (h : ¬ (ts (searchIdx cur i)).CanRun tick) :
    search tick cur (n + 1) i ts = search tick cur n (i + 1) ts := by
  rw [search]
  cases hs : (ts (searchIdx cur i)).state with
  | dead => rfl
  | running => rfl
  | ready => exact absurd (.inl hs) h
  | sleeping =>
    have hw : ¬ (ts (searchIdx cur i)).wakeTick ≤ tick := fun hw => h (.inr ⟨hs, hw⟩)
    simp only [if_neg hw]

theorem search_stops (h : (ts (searchIdx cur i)).CanRun tick) :
    (search tick cur (n + 1) i ts).2 = some (searchIdx cur i) := by
  rw [search]
  rcases h with hs | ⟨hs, hw⟩
  · simp only [hs]
  · simp only [hs, if_pos hw]

/-- the slot found can run, and no slot before it can -/
theorem search_some (h : (search tick cur n i ts).2 = some d) : ∃ k, i ≤ k ∧ k < i + n ∧
    TurnOf tick cur ts d i k ∧ (ts d).CanRun tick := by
  induction n generalizing i with
  | zero => cases h
  | succ n ih =>
    by_cases hi : (ts (searchIdx cur i)).CanRun tick
    · rw [search_stops hi] at h
      cases h
      exact ⟨i, le_rfl, by omega, ⟨rfl, fun j hj hij => absurd hij (by omega)⟩, hi⟩
    · rw [search_passes hi] at h
      obtain ⟨k, h1, h2, ⟨hk, hbefore⟩, hd⟩ := ih h
      refine ⟨k, by omega, by omega, ⟨hk, fun j hj hij => ?_⟩, hd⟩
      by_cases hji : j = i
      · rw [hji]
        exact hi
      · exact hbefore j hj (by omega)

/-- the search has looked at every slot in vain -/
theorem search_none (h : search tick cur n i ts = (ts', none)) :
    ts' = ts ∧ ∀ j, i ≤ j → j < i + n → ¬ (ts (searchIdx cur j)).CanRun tick := by
  induction n generalizing i with
  | zero =>
    cases h
    exact ⟨rfl, fun j h1 h2 => absurd h1 (by omega)⟩
  | succ n ih =>
    by_cases hi : (ts (searchIdx cur i)).CanRun tick
    · have hstop := search_stops (n := n) hi
      rw [h] at hstop
      cases hstop
    · rw [search_passes hi] at h
      obtain ⟨hts, hall⟩ := ih h
      refine ⟨hts, fun j h1 h2 => ?_⟩
      by_cases hj : j = i
      · rw [hj]
        exact hi
      · exact hall j (by omega) (by omega)

theorem searchIdx_ne_zero (cur : Option Slot) (i : Nat) : searchIdx cur i ≠ 0 := by
  have hne : ∀ k : Nat, (if k % maxTasks = 0 then 1
      else (⟨k % maxTasks, Nat.mod_lt _ (by decide)⟩ : Slot)) ≠ 0 := by
    intro k
    by_cases h : k % maxTasks = 0
    · rw [if_pos h]
      decide
    · rw [if_neg h]
      exact fun e => h (congrArg Fin.val e)
  exact hne _

/-- the search does not find the kernel -/
theorem search_ne_zero (h : search tick cur n i ts = (ts', some d)) : d ≠ 0 := by
  obtain ⟨k, -, -, ⟨hk, -⟩, -⟩ := search_some (show (search tick cur n i ts).2 = some d by rw [h])
  rw [← hk]
  exact searchIdx_ne_zero cur k

/-- the search makes no slot RUNNING -/
theorem search_running (j : Slot) :
    ((search tick cur n i ts).1 j).state = .running → (ts j).state = .running := by
  rcases search_cases tick cur n i ts with ⟨o, heq, -⟩ | ⟨d, -, heq⟩
  · rw [heq]
    exact id
  · rw [heq]
    intro h
    by_cases hj : j = d
    · subst hj
      simp only [Function.update_self] at h
      cases h
    · simp only [Function.update_of_ne hj] at h
      exact h

theorem searchIdx_val (c : Slot) (k : Nat) : (searchIdx (some c) k).val =
    if (c.val + k) % 32 = 0 then 1 else (c.val + k) % 32 := by
  unfold searchIdx
  show (if (c.val + k) % 32 = 0 then (1 : Slot) else ⟨(c.val + k) % 32, _⟩).val = _
  by_cases h : (c.val + k) % 32 = 0
  · rw [if_pos h, if_pos h]
    rfl
  · rw [if_neg h, if_neg h]

/-- the turn of a slot -/
theorem searchIdx_turn (c : Slot) {j : Slot} (hj : j ≠ 0) : searchIdx (some c)
    (if c.val < j.val then j.val - c.val else j.val + 32 - c.val) = j := by
  have hc : c.val < 32 := c.isLt
  have hlt : j.val < 32 := j.isLt
  have hpos : j.val ≠ 0 := fun e => hj (Fin.ext e)
  apply Fin.ext
  rw [searchIdx_val]
  by_cases hcj : c.val < j.val
  · rw [if_pos hcj, if_neg (by omega)]
    omega
  · rw [if_neg hcj, if_neg (by omega)]
    omega

/-- every slot but 0 has its turn -/
theorem exists_searchIdx (c : Slot) {j : Slot} (hj : j ≠ 0) :
    ∃ k, 1 ≤ k ∧ k < 1 + maxTasks ∧ searchIdx (some c) k = j := by
  have hc : c.val < 32 := c.isLt
  have hlt : j.val < 32 := j.isLt
  refine ⟨_, ?_, ?_, searchIdx_turn c hj⟩
  · by_cases hcj : c.val < j.val
    · rw [if_pos hcj]
      omega
    · rw [if_neg hcj]
      omega
  · show _ < 33
    by_cases hcj : c.val < j.val
    · rw [if_pos hcj]
      omega
    · rw [if_neg hcj]
      omega

end

/-! ## one operation -/

section
variable {L : Layout} {s : Sys} {r : Nat}

theorem CurrentOnly.setTask (h : CurrentOnly s) (i : Slot) (f : Task → Task)
    (hf : (f (s.tasks i)).state = .running → s.currentTask = some i ∨ (s.tasks i).state = .running) :
    CurrentOnly (s.setTask i f) := by
  obtain ⟨c, hc, hrun⟩ := h
  refine ⟨c, hc, fun j hj => ?_⟩
  by_cases hji : j = i
  · subst hji
    rw [Sys.setTask_same]
    intro hr
    rcases hf hr with hcur | hst
    · rw [hc] at hcur
      exact hj (Option.some.inj hcur).symm
    · exact hrun j hj hst
  · rw [Sys.setTask_ne _ _ hji]
    exact hrun j hj

/-- once the frame is saved, nobody is RUNNING -/
theorem saveCurrent_running (h : CurrentOnly s) (i : Slot) :
    ((saveCurrent s r).tasks i).state ≠ .running := by
  obtain ⟨c, hc, hrun⟩ := h
  unfold saveCurrent
  rw [hc]
  by_cases hi : i = c
  · subst hi
    rw [Sys.setTask_same]
    show (if (s.tasks i).state = .running then TaskState.ready else (s.tasks i).state) ≠ .running
    by_cases hr : (s.tasks i).state = .running
    · rw [if_pos hr]
      decide
    · rw [if_neg hr]
      exact hr
  · rw [Sys.setTask_ne _ _ hi]
    exact hrun i hi

/-- one slot is set RUNNING where nobody was -/
theorem running_iff {t : Sys} {d : Slot} (hnone : ∀ i, (s.tasks i).state ≠ .running)
    (hd : (t.tasks d).state = .running) (hne : ∀ i, i ≠ d → t.tasks i = s.tasks i) (i : Slot) :
    (t.tasks i).state = .running ↔ i = d := by
  by_cases hi : i = d
  · subst hi
    exact iff_of_true hd rfl
  · rw [hne i hi]
    exact iff_of_false (hnone i) hi

/-- the idle task gets the CPU, whoever had it -/
theorem goIdle_spec {c : Slot} (hc : s.currentTask = some c) :
    (goIdle s r).currentTask = some 0 ∧ (goIdle s r).tick = s.tick ∧
      ((goIdle s r).tasks 0).state = .running ∧ ∀ i, i ≠ 0 → (goIdle s r).tasks i = s.tasks i := by
  unfold goIdle
  by_cases h0 : c = 0
  · subst h0
    simp only [hc, if_true]
    refine ⟨hc, rfl, ?_, fun i hi => Sys.setTask_ne _ _ hi⟩
    rw [Sys.setTask_same]
  · simp only [hc, if_neg h0]
    refine ⟨trivial, rfl, ?_, fun i hi => Sys.setTask_ne _ _ hi⟩
    rw [Sys.setTask_same]

theorem dispatch_spec (s : Sys) (d : Slot) (r : Nat) :
    (dispatch s d r).currentTask = some d ∧ ((dispatch s d r).tasks d).state = .running ∧
      ∀ i, i ≠ d → (dispatch s d r).tasks i = s.tasks i := by
  unfold dispatch
  refine ⟨rfl, ?_, fun i hi => Function.update_of_ne hi ..⟩
  simp only
  rw [Sys.setTask_same]

/-- **A tick leaves exactly the current slot RUNNING.** -/
theorem schedulerTick_scheduled (h : CurrentOnly s) : Scheduled (schedulerTick s r) := by
  have hnone := saveCurrent_running (r := r) h
  obtain ⟨c, hc, -⟩ := h
  have hcur : (saveCurrent s r).currentTask = some c := (saveCurrent_current s r).1.trans hc
  cases hq : quantumTask (saveCurrent s r) with
  | some q =>
    obtain ⟨rfl, -⟩ := quantumTask_spec hcur hq
    have hq0 : q ≠ 0 := by
      rintro rfl
      unfold quantumTask at hq
      rw [hcur] at hq
      cases hq
    rw [schedulerTick_quantum hq]
    refine ⟨q, hcur, running_iff hnone ?_ fun i hi => Sys.setTask_ne _ _ hi, fun h0 => absurd h0 hq0⟩
    rw [Sys.setTask_same]
  | none =>
    cases hres : search (saveCurrent s r).tick (saveCurrent s r).currentTask maxTasks 1
      (saveCurrent s r).tasks with
    | mk ts o =>
      have hts : ∀ i, (ts i).state ≠ .running := by
        intro i hi
        have hrun : ((search (saveCurrent s r).tick (saveCurrent s r).currentTask maxTasks 1
            (saveCurrent s r).tasks).1 i).state = .running →
              ((saveCurrent s r).tasks i).state = .running := search_running i
        rw [hres] at hrun
        exact hnone i (hrun hi)
      cases o with
      | none =>
        rw [schedulerTick_idle hq hres]
        obtain ⟨rfl, hall⟩ := search_none hres
        -- the idle task gets the CPU, and every other slot was looked at
        have hidle : ∀ i, i ≠ 0 → ((saveCurrent s r).tasks i).state = .dead ∨
            ((saveCurrent s r).tasks i).state = .sleeping ∧
              (saveCurrent s r).tick < ((saveCurrent s r).tasks i).wakeTick := by
          intro i hi
          obtain ⟨k, h1, h2, hk⟩ := exists_searchIdx c hi
          have hcan := hall k h1 h2
          rw [hcur, hk] at hcan
          cases hst : ((saveCurrent s r).tasks i).state with
          | dead => exact .inl rfl
          | running => exact absurd hst (hnone i)
          | ready => exact absurd (.inl hst) hcan
          | sleeping => exact .inr ⟨rfl, Nat.lt_of_not_le fun hw => hcan (.inr ⟨hst, hw⟩)⟩
        obtain ⟨hcur', htick, h0, hne⟩ := goIdle_spec (s := saveCurrent s r) (r := r) hcur
        refine ⟨0, hcur', running_iff hnone h0 hne, fun _ i hi => ?_⟩
        rw [htick, hne i hi]
        exact hidle i hi
      | some d =>
        rw [schedulerTick_next hq hres]
        obtain ⟨hcur', hd, hne⟩ := dispatch_spec { saveCurrent s r with tasks := ts } d r
        exact ⟨d, hcur', running_iff hts hd hne, fun h0 => absurd h0 (search_ne_zero hres)⟩

theorem CurrentOnly.congr {s' : Sys} (h : CurrentOnly s) (hc : s'.currentTask = s.currentTask)
    (ht : s'.tasks = s.tasks) : CurrentOnly s' := by
  obtain ⟨c, hcur, hrun⟩ := h
  refine ⟨c, hc.trans hcur, ?_⟩
  rw [ht]
  exact hrun

theorem CurrentOnly.create (h : CurrentOnly s) (name : List Char) (entry : Nat)
    (weight : Fin 256) : CurrentOnly (taskCreatePrio L s name entry weight).1 := by
  unfold taskCreatePrio
  cases hslot : freeSlot s.tasks with
  | none => exact h
  | some slot =>
    have hstack : CurrentOnly (slotStack s slot).2 := by
      unfold slotStack
      by_cases hb : (s.tasks slot).stackBase ≠ 0
      · rw [if_pos hb]
        exact h
      · rw [if_neg hb]
        cases kmalloc s.freeMemAddr taskStackSize true with
        | mk stack free =>
          have hfree : CurrentOnly { s with freeMemAddr := free } := h.congr rfl rfl
          simp only
          by_cases h0 : stack = 0
          · rw [if_pos h0]
            exact hfree
          · rw [if_neg h0]
            exact hfree.setTask slot _ fun hr => .inr hr
    simp only
    by_cases h0 : (slotStack s slot).1 = 0
    · rw [if_pos h0]
      exact hstack
    · rw [if_neg h0]
      exact CurrentOnly.setTask (hstack.congr rfl rfl) slot _ fun hr => by cases hr

theorem CurrentOnly.kill (h : CurrentOnly s) (id : Int) : CurrentOnly (taskKill s id).1 := by
  unfold taskKill
  by_cases hid : 0 < id ∧ id < maxTasks
  · rw [dif_pos hid]
    by_cases hd : (s.tasks ⟨id.toNat, by omega⟩).state = .dead
    · simp only [if_pos hd]
      exact h
    · simp only [if_neg hd]
      exact h.setTask _ _ fun hr => .inr hr
  · rw [dif_neg hid]
    exact h

theorem CurrentOnly.exit (h : CurrentOnly s) : CurrentOnly (taskExit s) := by
  unfold taskExit
  cases s.currentTask with
  | none => exact h
  | some me => exact h.setTask me _ fun hr => by cases hr

theorem CurrentOnly.sleep (h : CurrentOnly s) (ms : Nat) : CurrentOnly (taskSleep s ms).1 := by
  unfold taskSleep
  cases s.currentTask with
  | none => exact h
  | some me =>
    by_cases hd : me = 0 ∨ (s.tasks me).state = .dead
    · simp only [if_pos hd]
      exact h
    · simp only [if_neg hd]
      exact h.setTask me _ fun hr => by cases hr

/-- every operation keeps the invariant, and a tick gives the property -/
theorem CurrentOnly.step (h : CurrentOnly s) (o : Op) :
    ((o.ticks s) → Scheduled (o.step L s)) ∧ CurrentOnly (o.step L s) := by
  cases o with
  | run mem => exact ⟨nofun, h.congr rfl rfl⟩
  | create name entry weight => exact ⟨nofun, h.create name entry weight⟩
  | kill id => exact ⟨nofun, h.kill id⟩
  | exit => exact ⟨nofun, h.exit⟩
  | sleep ms r =>
    have hs := h.sleep ms
    simp only [Op.ticks, Op.step]
    cases hres : taskSleep s ms with
    | mk t y =>
      rw [hres] at hs
      cases y with
      | false => exact ⟨nofun, hs⟩
      | true =>
        have ht := schedulerTick_scheduled (r := r) hs
        exact ⟨fun _ => ht, ht.currentOnly⟩
  | tick timer r =>
    have hs : CurrentOnly { s with tick := if timer then (s.tick + 1) % 2 ^ 32 else s.tick } :=
      h.congr rfl rfl
    have ht := schedulerTick_scheduled (r := r) hs
    exact ⟨fun _ => ht, ht.currentOnly⟩

end

theorem afterInit_currentOnly (tick freeMemAddr : Nat) (mem : Nat → Nat) :
    CurrentOnly (afterInit tick freeMemAddr mem) := by
  refine ⟨0, rfl, fun i hi hr => ?_⟩
  have hblank : taskInit i = Task.blank := Function.update_of_ne hi ..
  rw [show (afterInit tick freeMemAddr mem).tasks i = Task.blank from hblank] at hr
  cases hr

/-- **After `task_init`, every call of `scheduler_tick` leaves exactly the current slot RUNNING**, and
idles only if nobody else can run. -/
theorem scheduled (L : Layout) (tick freeMemAddr : Nat) (mem : Nat → Nat) (ops : List Op) :
    Always (fun s o t => t = Op.step L s o) (fun s o t => o.ticks s → Scheduled t)
      (afterInit tick freeMemAddr mem) ops := by
  refine Always.of_inv (I := CurrentOnly) (fun s o t hs ht => ?_) ops _
    (afterInit_currentOnly tick freeMemAddr mem)
  subst ht
  exact hs.step o

/-! ## the machine -/

/-- `task_sleep` does not look at the memory -/
theorem taskSleep_mem (s : Sys) (ms : Nat) (mem : Nat → Nat) :
    taskSleep { s with mem := mem } ms = ({ (taskSleep s ms).1 with mem := mem }, (taskSleep s ms).2) := by
  obtain ⟨tasks, cur, tick, free, mem'⟩ := s
  unfold taskSleep
  cases cur with
  | none => rfl
  | some me =>
    by_cases hd : me = 0 ∨ (tasks me).state = .dead
    · simp only [if_pos hd]
    · simp only [if_neg hd]
      rfl

/-- an event of the machine is a few of these operations -/
theorem step_ops {L : Layout} {m m' : Machine} {e : Event} (h : step L m e = some m') :
    ∃ ops : List Op, m'.sys = ops.foldl (Op.step L) m.sys := by
  cases e with
  | run cpu ws =>
    simp only [step] at h
    by_cases hok : runOk L m.sys cpu ws
    · rw [if_pos hok] at h
      cases h
      exact ⟨[.run (writeWords m.sys.mem ws)], rfl⟩
    · rw [if_neg hok] at h
      cases h
  | timer =>
    cases h
    exact ⟨[.run (pushFrame m.sys.mem m.cpu timerInt).1,
      .tick true (pushFrame m.sys.mem m.cpu timerInt).2], rfl⟩
  | yield =>
    cases h
    exact ⟨[.run (pushFrame m.sys.mem m.cpu schedInt).1,
      .tick false (pushFrame m.sys.mem m.cpu schedInt).2], rfl⟩
  | sleep ms =>
    simp only [step] at h
    cases hres : taskSleep m.sys ms with
    | mk s y =>
      rw [hres] at h
      cases y with
      | false =>
        cases h
        refine ⟨[.sleep ms 0], ?_⟩
        simp only [List.foldl_cons, List.foldl_nil, Op.step, hres]
      | true =>
        cases h
        -- the frame may as well be there before `task_sleep`
        refine ⟨[.run (pushFrame s.mem m.cpu schedInt).1,
          .sleep ms (pushFrame s.mem m.cpu schedInt).2], ?_⟩
        simp only [List.foldl_cons, List.foldl_nil, Op.step, taskSleep_mem, hres]
        rfl
  | create name entry weight =>
    cases h
    refine ⟨[.create name entry weight], ?_⟩
    show (create L m name entry weight).sys = (taskCreatePrio L m.sys name entry weight).1
    unfold create
    cases taskCreatePrio L m.sys name entry weight with
    | mk s o => cases o <;> rfl
  | kill id =>
    cases h
    exact ⟨[.kill id], rfl⟩
  | exit =>
    simp only [step] at h
    by_cases h0 : m.sys.currentTask = some 0
    · rw [if_pos h0] at h
      cases h
    · rw [if_neg h0] at h
      cases h
      exact ⟨[.exit], rfl⟩

end Noxis.Fixes
