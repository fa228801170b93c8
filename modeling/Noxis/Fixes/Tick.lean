import Noxis.Fixes.Task

/-!
# 23-fixes: the effect of one tick

`schedulerTick_spec`: with `c` the running slot, a tick picks a slot `d`, saves the frame at `r` in
the PCB of `c`, leaves the saved registers of all other slots, all stacks and the dead slots alone,
and writes the saved registers of `d` over the frame if `d` is not `c` itself.  Which slot that is
depends on the states in the table only: `pick`.
-/

namespace Noxis.Fixes

/-! ## what a tick keeps -/

/-- the PCBs `ts` and `ts'` agree in the saved registers, the stacks and in which slots (slot 0
apart) are dead -/
def SameSlots (ts ts' : Slot → Task) : Prop := ∀ i,
  (ts' i).regs = (ts i).regs ∧ (ts' i).stackBase = (ts i).stackBase ∧
  (ts' i).stackTop = (ts i).stackTop ∧
  (i ≠ 0 → ((ts' i).state = .dead ↔ (ts i).state = .dead))

theorem SameSlots.refl (ts : Slot → Task) : SameSlots ts ts :=
  fun _ => ⟨rfl, rfl, rfl, fun _ => Iff.rfl⟩

theorem SameSlots.trans {a b c : Slot → Task} (h : SameSlots a b) (h' : SameSlots b c) :
    SameSlots a c := fun i =>
  ⟨(h' i).1.trans (h i).1, (h' i).2.1.trans (h i).2.1, (h' i).2.2.1.trans (h i).2.2.1,
    fun hi => ((h' i).2.2.2 hi).trans ((h i).2.2.2 hi)⟩

theorem SameSlots.update (ts : Slot → Task) (i : Slot) (t : Task) (hr : t.regs = (ts i).regs)
    (hb : t.stackBase = (ts i).stackBase) (ht : t.stackTop = (ts i).stackTop)
    (hd : i ≠ 0 → (t.state = .dead ↔ (ts i).state = .dead)) :
    SameSlots ts (Function.update ts i t) := by
  intro j
  by_cases h : j = i
  · subst h
    rw [Function.update_self]
    exact ⟨hr, hb, ht, hd⟩
  · rw [Function.update_of_ne h]
    exact ⟨rfl, rfl, rfl, fun _ => Iff.rfl⟩

/-- **What the search leaves**: the table as it was, with a READY task if any, or a woken task -/
theorem search_cases (tick : Nat) (cur : Option Slot) (n i : Nat) (ts : Slot → Task) :
    (∃ o, search tick cur n i ts = (ts, o) ∧ ∀ d, o = some d → (ts d).state = .ready) ∨
    ∃ d, (ts d).state = .sleeping ∧ search tick cur n i ts =
      (Function.update ts d { ts d with state := .ready }, some d) := by
  induction n generalizing i with
  | zero => exact .inl ⟨none, rfl, nofun⟩
  | succ n ih =>
    rw [search]
    cases hs : (ts (searchIdx cur i)).state with
    | dead => exact ih (i + 1)
    | running => exact ih (i + 1)
    | ready =>
      refine .inl ⟨some (searchIdx cur i), rfl, fun d hd => ?_⟩
      cases hd
      exact hs
    | sleeping =>
      by_cases hw : (ts (searchIdx cur i)).wakeTick ≤ tick
      · simp only [if_pos hw]
        exact .inr ⟨searchIdx cur i, hs, rfl⟩
      · simp only [if_neg hw]
        exact ih (i + 1)

theorem search_spec (tick : Nat) (cur : Option Slot) (n i : Nat) (ts : Slot → Task) :
    SameSlots ts (search tick cur n i ts).1 ∧
    ∀ d, (search tick cur n i ts).2 = some d → ((search tick cur n i ts).1 d).state = .ready := by
  rcases search_cases tick cur n i ts with ⟨o, heq, hready⟩ | ⟨d, hsl, heq⟩
  · rw [heq]
    exact ⟨SameSlots.refl _, hready⟩
  · rw [heq]
    refine ⟨SameSlots.update _ _ _ rfl rfl rfl (fun _ => by simp [hsl]), fun e he => ?_⟩
    cases he
    simp only [Function.update_self]

/-- what one tick does, with `c` the running slot: the registers of `c` are saved, nothing else
about frames and stacks changes in the table, and if another slot `d` is picked its saved registers
are written over the frame -/
structure TickSpec (s t : Sys) (r : Nat) (c d : Slot) : Prop where
  cur : t.currentTask = some d
  pick : d = c ∨ d = 0 ∨ (s.tasks d).state ≠ .dead
  mem : t.mem = if d = c then s.mem else writeRegs s.mem r (s.tasks d).regs
  free : t.freeMemAddr = s.freeMemAddr
  saved : (t.tasks c).regs = readRegs s.mem r
  regs : ∀ i, i ≠ c → (t.tasks i).regs = (s.tasks i).regs
  base : ∀ i, (t.tasks i).stackBase = (s.tasks i).stackBase
  top : ∀ i, (t.tasks i).stackTop = (s.tasks i).stackTop
  dead : ∀ i, i ≠ 0 → ((t.tasks i).state = .dead ↔ (s.tasks i).state = .dead)

private theorem ite_mem (mem : Nat → Nat) {a k v : Nat} (h : v = mem a) :
    (if a = k then mem k else v) = mem a := by
  by_cases e : a = k
  · rw [if_pos e, e]
  · rw [if_neg e, h]

theorem writeRegs_readRegs (mem : Nat → Nat) (r : Nat) : writeRegs mem r (readRegs mem r) = mem := by
  funext a
  unfold writeRegs
  repeat apply ite_mem
  rfl

/-- a tick that changes the slots of the saved state no more than `SameSlots` and goes on with `d` -/
theorem TickSpec.of_saved {s t : Sys} {r : Nat} {c d : Slot} (hc : s.currentTask = some c)
    (hs : SameSlots (saveCurrent s r).tasks t.tasks) (hd : t.currentTask = some d)
    (hp : d = c ∨ d = 0 ∨ ((saveCurrent s r).tasks d).state ≠ .dead)
    (hm : t.mem = s.mem ∧ d = c ∨ t.mem = writeRegs s.mem r ((saveCurrent s r).tasks d).regs)
    (hf : t.freeMemAddr = s.freeMemAddr) : TickSpec s t r c d := by
  have hsave : saveCurrent s r = s.setTask c fun t =>
      { t with regs := readRegs s.mem r, state := if t.state = .running then .ready else t.state } := by
    unfold saveCurrent; rw [hc]
  have hne : ∀ i, i ≠ c → (saveCurrent s r).tasks i = s.tasks i := by
    intro i hi; rw [hsave, Sys.setTask_ne _ _ hi]
  have hcc : ((saveCurrent s r).tasks c).regs = readRegs s.mem r := by rw [hsave]; simp
  have hst : ∀ i, ((saveCurrent s r).tasks i).stackBase = (s.tasks i).stackBase ∧
      ((saveCurrent s r).tasks i).stackTop = (s.tasks i).stackTop ∧
      (((saveCurrent s r).tasks i).state = .dead ↔ (s.tasks i).state = .dead) := by
    intro i
    by_cases hi : i = c
    · subst hi
      rw [hsave]
      refine ⟨by simp, by simp, ?_⟩
      rw [Sys.setTask_same]
      cases h : (s.tasks i).state <;> simp
    · rw [hne i hi]
      exact ⟨rfl, rfl, Iff.rfl⟩
  refine ⟨hd, ?_, ?_, hf, ?_, ?_, ?_, ?_, ?_⟩
  · rcases hp with h | h | h
    · exact .inl h
    · exact .inr (.inl h)
    · exact .inr (.inr (fun h' => h ((hst d).2.2.mpr h')))
  · rcases hm with ⟨h, hdc⟩ | h
    · rw [if_pos hdc, h]
    · by_cases hdc : d = c
      · rw [if_pos hdc, h, hdc, hcc, writeRegs_readRegs]
      · rw [if_neg hdc, h, hne d hdc]
  · rw [(hs c).1, hcc]
  · intro i hi
    rw [(hs i).1, hne i hi]
  · intro i
    rw [(hs i).2.1, (hst i).1]
  · intro i
    rw [(hs i).2.2.1, (hst i).2.1]
  · intro i hi
    exact ((hs i).2.2.2 hi).trans (hst i).2.2

/-- the running task has slices left in its quantum -/
theorem schedulerTick_quantum {s : Sys} {r : Nat} {q : Slot}
    (hq : quantumTask (saveCurrent s r) = some q) :
    schedulerTick s r = (saveCurrent s r).setTask q fun t =>
      { t with
        quantumLeft := t.quantumLeft - 1, ticks := (t.ticks + 1) % 2 ^ 32, state := .running } := by
  simp only [schedulerTick, hq]

/-- the search finds nothing -/
theorem schedulerTick_idle {s : Sys} {r : Nat} {ts : Slot → Task}
    (hq : quantumTask (saveCurrent s r) = none)
    (hs : search (saveCurrent s r).tick (saveCurrent s r).currentTask maxTasks 1
      (saveCurrent s r).tasks = (ts, none)) :
    schedulerTick s r = goIdle { saveCurrent s r with tasks := ts } r := by
  simp only [schedulerTick, hq, hs]

/-- the search finds `d` -/
theorem schedulerTick_next {s : Sys} {r : Nat} {ts : Slot → Task} {d : Slot}
    (hq : quantumTask (saveCurrent s r) = none)
    (hs : search (saveCurrent s r).tick (saveCurrent s r).currentTask maxTasks 1
      (saveCurrent s r).tasks = (ts, some d)) :
    schedulerTick s r = dispatch { saveCurrent s r with tasks := ts } d r := by
  simp only [schedulerTick, hq, hs]

theorem quantumTask_spec {s : Sys} {c q : Slot} (hc : s.currentTask = some c)
    (hq : quantumTask s = some q) : q = c ∧ (s.tasks c).state = .ready := by
  unfold quantumTask at hq
  rw [hc] at hq
  simp only at hq
  split at hq
  · next h => cases hq; exact ⟨rfl, h.2.1⟩
  · cases hq

/-- **Everything a tick does to slots, stacks and frames.** -/
theorem schedulerTick_spec (s : Sys) (r : Nat) (c : Slot) (hc : s.currentTask = some c) :
    ∃ d, TickSpec s (schedulerTick s r) r c d := by
  have hcur : (saveCurrent s r).currentTask = some c := by
    unfold saveCurrent; rw [hc]; exact hc
  have hmem : (saveCurrent s r).mem = s.mem := by unfold saveCurrent; rw [hc]; rfl
  have hfree : (saveCurrent s r).freeMemAddr = s.freeMemAddr := by
    unfold saveCurrent; rw [hc]; rfl
  cases hq : quantumTask (saveCurrent s r) with
  | some q =>
    obtain ⟨rfl, hr⟩ := quantumTask_spec hcur hq
    rw [schedulerTick_quantum hq]
    refine ⟨q, TickSpec.of_saved hc ?_ hcur (.inl rfl) (.inl ⟨hmem, rfl⟩) hfree⟩
    exact SameSlots.update _ _ _ rfl rfl rfl (fun _ => by rw [hr]; simp)
  | none =>
    obtain ⟨hss, hready⟩ := search_spec (saveCurrent s r).tick (saveCurrent s r).currentTask
      maxTasks 1 (saveCurrent s r).tasks
    cases hres : search (saveCurrent s r).tick (saveCurrent s r).currentTask maxTasks 1
      (saveCurrent s r).tasks with
    | mk ts o =>
      rw [hres] at hss hready
      cases o with
      | none =>
        rw [schedulerTick_idle hq hres]
        simp only [goIdle, hcur]
        by_cases h0 : c = 0
        · subst h0
          rw [if_pos rfl]
          refine ⟨0, TickSpec.of_saved hc ?_ rfl (.inl rfl) (.inl ⟨hmem, rfl⟩) hfree⟩
          exact hss.trans (SameSlots.update _ _ _ rfl rfl rfl (fun h => absurd rfl h))
        · rw [if_neg h0]
          refine ⟨0, TickSpec.of_saved hc ?_ rfl (.inr (.inl rfl)) (.inr ?_) hfree⟩
          · exact hss.trans (SameSlots.update _ _ _ rfl rfl rfl (fun h => absurd rfl h))
          · rw [← (hss 0).1, ← hmem]
            simp [Sys.setTask]
      | some d =>
        rw [schedulerTick_next hq hres]
        have hd : (ts d).state = .ready := hready d rfl
        refine ⟨d, TickSpec.of_saved hc ?_ rfl ?_ (.inr ?_) hfree⟩
        · exact hss.trans (SameSlots.update _ _ _ rfl rfl rfl (fun _ => by simp [hd]))
        · by_cases h0 : d = 0
          · exact .inr (.inl h0)
          · refine .inr (.inr (fun h => ?_))
            have h1 : (ts d).state = .dead := ((hss d).2.2.2 h0).mpr h
            rw [hd] at h1
            cases h1
        · rw [← (hss d).1, ← hmem]
          simp [dispatch, Sys.setTask]

/-! ## which slot is picked -/

/-- the slot a tick goes on with, from the states, quanta and wake ticks alone -/
def pick (s : Sys) : Option Slot :=
  match quantumTask (saveCurrent s 0) with
  | some c => some c
  | none =>
    match (search s.tick s.currentTask maxTasks 1 (saveCurrent s 0).tasks).2 with
    | some d => some d
    | none => s.currentTask.map fun _ => 0

theorem search_congr (tick : Nat) (cur : Option Slot) (n i : Nat) (ts ts' : Slot → Task)
    (h : ∀ j, (ts' j).state = (ts j).state ∧ (ts' j).wakeTick = (ts j).wakeTick) :
    (search tick cur n i ts').2 = (search tick cur n i ts).2 := by
  induction n generalizing i with
  | zero => rfl
  | succ n ih =>
    rw [search, search, (h (searchIdx cur i)).1, (h (searchIdx cur i)).2]
    cases (ts (searchIdx cur i)).state with
    | dead => exact ih (i + 1)
    | running => exact ih (i + 1)
    | ready => rfl
    | sleeping =>
      by_cases hw : (ts (searchIdx cur i)).wakeTick ≤ tick
      · rw [if_pos hw, if_pos hw]
      · rw [if_neg hw, if_neg hw]
        exact ih (i + 1)

theorem saveCurrent_pick (s : Sys) (r r' : Nat) (j : Slot) :
    ((saveCurrent s r').tasks j).state = ((saveCurrent s r).tasks j).state ∧
    ((saveCurrent s r').tasks j).wakeTick = ((saveCurrent s r).tasks j).wakeTick ∧
    ((saveCurrent s r').tasks j).quantumLeft = ((saveCurrent s r).tasks j).quantumLeft := by
  unfold saveCurrent
  cases s.currentTask with
  | none => exact ⟨rfl, rfl, rfl⟩
  | some c =>
    by_cases hj : j = c
    · subst hj
      simp
    · simp only
      rw [Sys.setTask_ne _ _ hj, Sys.setTask_ne _ _ hj]
      exact ⟨rfl, rfl, rfl⟩

theorem saveCurrent_current (s : Sys) (r : Nat) :
    (saveCurrent s r).currentTask = s.currentTask ∧ (saveCurrent s r).tick = s.tick := by
  unfold saveCurrent
  cases h : s.currentTask with
  | none => exact ⟨h, rfl⟩
  | some c => exact ⟨h, rfl⟩

theorem quantumTask_pick (s : Sys) (r r' : Nat) :
    quantumTask (saveCurrent s r') = quantumTask (saveCurrent s r) := by
  unfold quantumTask
  rw [(saveCurrent_current s r').1, (saveCurrent_current s r).1]
  cases s.currentTask with
  | none => rfl
  | some c =>
    obtain ⟨h1, -, h3⟩ := saveCurrent_pick s r r' c
    simp only [h1, h3]

theorem goIdle_current (s : Sys) (r : Nat) :
    (goIdle s r).currentTask = s.currentTask.map fun _ => 0 := by
  unfold goIdle
  cases h : s.currentTask with
  | none => exact h
  | some c =>
    by_cases h0 : c = 0
    · subst h0
      exact h
    · simp only [if_neg h0]
      rfl

/-- a tick goes on with `pick` -/
theorem schedulerTick_pick (s : Sys) (r : Nat) : (schedulerTick s r).currentTask = pick s := by
  obtain ⟨hcur, htick⟩ := saveCurrent_current s r
  unfold pick
  rw [quantumTask_pick s r 0]
  cases hq : quantumTask (saveCurrent s r) with
  | some q =>
    rw [schedulerTick_quantum hq]
    show (saveCurrent s r).currentTask = some q
    unfold quantumTask at hq
    cases hc : (saveCurrent s r).currentTask with
    | none => rw [hc] at hq; cases hq
    | some c =>
      rw [hc] at hq
      simp only at hq
      split at hq
      · exact hq
      · cases hq
  | none =>
    have hsame := search_congr s.tick s.currentTask maxTasks 1 (saveCurrent s r).tasks
      (saveCurrent s 0).tasks fun j =>
        ⟨(saveCurrent_pick s r 0 j).1, (saveCurrent_pick s r 0 j).2.1⟩
    simp only
    rw [hsame]
    cases hres : search (saveCurrent s r).tick (saveCurrent s r).currentTask maxTasks 1
      (saveCurrent s r).tasks with
    | mk ts o =>
      rw [htick, hcur] at hres
      rw [hres]
      rw [← htick, ← hcur] at hres
      cases o with
      | none =>
        rw [schedulerTick_idle hq hres]
        show (goIdle _ r).currentTask = _
        rw [goIdle_current]
        show (saveCurrent s r).currentTask.map _ = _
        rw [hcur]
      | some d => rw [schedulerTick_next hq hres]; rfl

end Noxis.Fixes
