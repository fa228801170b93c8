import Noxis.Lib.Run
import Noxis.Fixes.Stacks
import Noxis.Fixes.Tick

/-!
# 23-fixes: what the context switch delivers

`Inv L H m c` describes every state of the machine, `c` the running slot: the stacks are disjoint,
the running code has room for a frame, and every other task that can get the CPU is `Suspended`: its
PCB holds the context it was interrupted with.  What need NOT be on its stack are the three words
that `iret` pops: `*r = tasks[next].regs` wrote those of the task that replaced it over them.

* `Inv.step`           an event keeps the invariant, unless it hands out the slot that is running
                       (`HandsOutRunning`);
* `interrupt_ctx`      the context the CPU gets;
* `transparent_iff`    a run is transparent exactly if every interrupt resumes the interrupted task,
                       one that was replaced by nobody since it was created, or one that was
                       replaced by a task with the same `eip`, `cs` and `eflags`.
-/

namespace Noxis.Fixes
open Run

/-! ## suspended tasks -/

/-- the context that a saved frame stands for -/
def Registers.ctx (x : Registers) : Ctx :=
  { eip := x.eip, cs := x.cs, eflags := x.eflags, esp := x.useless + 20, eax := x.eax, ecx := x.ecx
    edx := x.edx, ebx := x.ebx, ebp := x.ebp, esi := x.esi, edi := x.edi }

/-- the three words at `a` -/
def retAt (mem : Nat → Nat) (a : Nat) : RetWords := ⟨mem a, mem (a + 4), mem (a + 8)⟩

/-- `x` with the words that `iret` pops replaced -/
def Ctx.withRet (x : Ctx) (w : RetWords) : Ctx := { x with eip := w.eip, cs := w.cs, eflags := w.eflags }

theorem Ctx.withRet_eq (x : Ctx) (w : RetWords) : x.withRet w = x ↔ w = x.ret := by
  constructor
  · intro h
    have h1 := congrArg Ctx.eip h
    have h2 := congrArg Ctx.cs h
    have h3 := congrArg Ctx.eflags h
    cases w
    simp only [Ctx.withRet] at h1 h2 h3
    rw [h1, h2, h3]; rfl
  · rintro rfl; rfl

/-- task `t` waits for the CPU: its PCB holds the context it expects, and above the saved `esp` are
either its own three words or those of the task that replaced it -/
structure Suspended (L : Layout) (m : Machine) (t : Slot) : Prop where
  ctx : (m.sys.tasks t).regs.ctx = m.expect t
  lo : stackLo L m.sys t + 56 ≤ (m.expect t).esp
  hi : (m.expect t).esp ≤ stackHi L m.sys t
  words : retAt m.sys.mem ((m.sys.tasks t).regs.useless + 8) = (m.taken t).getD (m.expect t).ret

section
variable {L : Layout} {H : Nat} {m m' : Machine} {c d t : Slot}

theorem stackLo_congr {s s' : Sys} (h : (s'.tasks t).stackBase = (s.tasks t).stackBase) :
    stackLo L s' t = stackLo L s t := by unfold stackLo; rw [h]

theorem stackHi_congr {s s' : Sys} (h : (s'.tasks t).stackBase = (s.tasks t).stackBase) :
    stackHi L s' t = stackHi L s t := by unfold stackHi; rw [h]

/-- nothing on the stack of `t` changed -/
theorem Suspended.congr (h : Suspended L m t)
    (hr : (m'.sys.tasks t).regs = (m.sys.tasks t).regs)
    (hb : (m'.sys.tasks t).stackBase = (m.sys.tasks t).stackBase)
    (he : m'.expect t = m.expect t) (ho : m'.taken t = m.taken t)
    (hm : ∀ a, stackLo L m.sys t ≤ a → a < stackHi L m.sys t → m'.sys.mem a = m.sys.mem a) :
    Suspended L m' t := by
  have hlo := h.lo
  have hhi := h.hi
  have hesp : (m.expect t).esp = (m.sys.tasks t).regs.useless + 20 := by rw [← h.ctx]; rfl
  refine ⟨by rw [hr, he, h.ctx], by rw [stackLo_congr hb, he]; exact hlo,
    by rw [stackHi_congr hb, he]; exact hhi, ?_⟩
  rw [hr, he, ho, ← h.words]
  unfold retAt
  rw [hm _ (by omega) (by omega), hm _ (by omega) (by omega), hm _ (by omega) (by omega)]

/-! ## the invariant -/

structure Inv (L : Layout) (H : Nat) (m : Machine) (c : Slot) : Prop where
  cur : m.sys.currentTask = some c
  stk : Stacks L H m.sys
  live : ∀ i, i ≠ 0 → (i = c ∨ (m.sys.tasks i).state ≠ .dead) → (m.sys.tasks i).stackBase ≠ 0
  lo : stackLo L m.sys c + 56 ≤ m.cpu.ctx.esp
  hi : m.cpu.ctx.esp ≤ stackHi L m.sys c
  susp : ∀ t, t ≠ c → (t = 0 ∨ (m.sys.tasks t).state ≠ .dead) → Suspended L m t
  ran : m.fresh c = false
  new : ∀ t, m.fresh t = true → m.taken t = none ∧
    m.expect t = startCtx L (m.sys.tasks t).stackTop ∧
    (m.sys.tasks t).regs = startRegs L (m.sys.tasks t).stackTop

/-- the stack of another task that can get the CPU is not the running one -/
theorem Inv.apart (h : Inv L H m c) (ht : t ≠ c) (hl : t = 0 ∨ (m.sys.tasks t).state ≠ .dead) :
    stackHi L m.sys t ≤ stackLo L m.sys c ∨ stackHi L m.sys c ≤ stackLo L m.sys t :=
  h.stk.apart ht (fun h0 => h.live t h0 (.inr (hl.resolve_left h0)))
    (fun h0 => h.live c h0 (.inl rfl))

/-- a step of the running code: memory off the running stack, and what the other PCBs say about
frames and stacks, stays -/
theorem Inv.quiet (h : Inv L H m c) (hcur : m'.sys.currentTask = some c)
    (hslots : ∀ i, (m'.sys.tasks i).regs = (m.sys.tasks i).regs ∧
      (m'.sys.tasks i).stackBase = (m.sys.tasks i).stackBase ∧
      (m'.sys.tasks i).stackTop = (m.sys.tasks i).stackTop)
    (hdead : ∀ i, i ≠ 0 → i ≠ c →
      ((m'.sys.tasks i).state = .dead ↔ (m.sys.tasks i).state = .dead))
    (hfree : m'.sys.freeMemAddr = m.sys.freeMemAddr)
    (hlo : stackLo L m.sys c + 56 ≤ m'.cpu.ctx.esp) (hhi : m'.cpu.ctx.esp ≤ stackHi L m.sys c)
    (he : m'.expect = m.expect) (ho : m'.taken = m.taken) (hf : m'.fresh = m.fresh)
    (hm : ∀ a, a < stackLo L m.sys c ∨ stackHi L m.sys c ≤ a → m'.sys.mem a = m.sys.mem a) :
    Inv L H m' c := by
  have hb : ∀ i, (m'.sys.tasks i).stackBase = (m.sys.tasks i).stackBase := fun i => (hslots i).2.1
  refine ⟨hcur, h.stk.congr hb hfree, fun i h0 hi => ?_, ?_, ?_, fun t ht hl => ?_,
    by rw [hf]; exact h.ran, fun t ht => ?_⟩
  · rw [hb i]
    refine h.live i h0 ?_
    by_cases hic : i = c
    · exact .inl hic
    · exact .inr fun hd => (hi.resolve_left hic) ((hdead i h0 hic).mpr hd)
  · rw [stackLo_congr (hb c)]; exact hlo
  · rw [stackHi_congr (hb c)]; exact hhi
  · have hl' : t = 0 ∨ (m.sys.tasks t).state ≠ .dead := by
      by_cases h0 : t = 0
      · exact .inl h0
      · exact .inr fun hd => (hl.resolve_left h0) ((hdead t h0 ht).mpr hd)
    have hap := h.apart ht hl'
    exact (h.susp t ht hl').congr (hslots t).1 (hb t) (by rw [he]) (by rw [ho])
      fun a ha ha' => hm a (by omega)
  · rw [ho, he, (hslots t).2.2, (hslots t).1]
    exact h.new t (by rw [← hf]; exact ht)

/-- the running code changes one PCB `i`, in no field that a context switch uses -/
theorem Inv.setTask (h : Inv L H m c) (i : Slot) (f : Task → Task)
    (hr : (f (m.sys.tasks i)).regs = (m.sys.tasks i).regs)
    (hb : (f (m.sys.tasks i)).stackBase = (m.sys.tasks i).stackBase)
    (ht : (f (m.sys.tasks i)).stackTop = (m.sys.tasks i).stackTop)
    (hd : i ≠ c → ((f (m.sys.tasks i)).state = .dead ↔ (m.sys.tasks i).state = .dead)) :
    Inv L H { m with sys := m.sys.setTask i f } c := by
  refine h.quiet h.cur (fun j => ?_) (fun j _ hjc => ?_) rfl h.lo h.hi rfl rfl rfl fun _ _ => rfl
  · show (((m.sys.setTask i f).tasks j).regs = _) ∧ _ ∧ _
    by_cases hj : j = i
    · subst hj
      rw [Sys.setTask_same]
      exact ⟨hr, hb, ht⟩
    · rw [Sys.setTask_ne _ _ hj]
      exact ⟨rfl, rfl, rfl⟩
  · show ((m.sys.setTask i f).tasks j).state = .dead ↔ _
    by_cases hj : j = i
    · subst hj
      rw [Sys.setTask_same]
      exact hd hjc
    · rw [Sys.setTask_ne _ _ hj]

/-! ## interrupts -/

/-- the stub gives the CPU the frame at `r`, with the three words above the saved `esp` -/
theorem popFrame_ctx (mem : Nat → Nat) (r : Nat) :
    (popFrame mem r).ctx =
      (readRegs mem r).ctx.withRet (retAt mem ((readRegs mem r).useless + 8)) := by
  simp [popFrame, readRegs, Registers.ctx, Ctx.withRet, retAt, Nat.add_assoc]

theorem retAt_writeRegs (mem : Nat → Nat) (r : Nat) (x : Registers) :
    retAt (writeRegs mem r x) (r + 44) = x.ret := by
  simp [retAt, writeRegs, Registers.ret, Nat.add_assoc]

theorem frameOf_ctx {cpu : Cpu} (intNo : Nat) (h : 56 ≤ cpu.ctx.esp) :
    (frameOf cpu intNo).ctx = cpu.ctx := by
  have he : cpu.ctx.esp - 20 + 20 = cpu.ctx.esp := by omega
  simp [frameOf, Registers.ctx, he]

/-- an interrupt of `c` is one tick on the state with the frame pushed -/
theorem interrupt_tick (h : Inv L H m c) (intNo : Nat) :
    ∃ d, pick (enter m intNo) = some d ∧
      TickSpec (enter m intNo) (interrupt m intNo).sys (m.cpu.ctx.esp - 56) c d := by
  have hr : (pushFrame m.sys.mem m.cpu intNo).2 = m.cpu.ctx.esp - 56 := pushFrame_snd ..
  obtain ⟨d, hd⟩ := schedulerTick_spec (enter m intNo) (m.cpu.ctx.esp - 56) c h.cur
  refine ⟨d, ?_, ?_⟩
  · rw [← schedulerTick_pick _ (m.cpu.ctx.esp - 56)]
    exact hd.cur
  · show TickSpec _ (schedulerTick (enter m intNo) (pushFrame m.sys.mem m.cpu intNo).2) _ c d
    rw [hr]
    exact hd

/-- the context the CPU gets back when the interrupt of `c` goes on with `d` -/
def delivered (m : Machine) (c d : Slot) : Ctx :=
  if d = c then m.cpu.ctx
  else (m.expect d).withRet ((m.taken d).getD (m.expect d).ret)

theorem enter_mem (h : Inv L H m c) (intNo : Nat) :
    (enter m intNo).mem = writeRegs m.sys.mem (m.cpu.ctx.esp - 56) (frameOf m.cpu intNo) :=
  pushFrame_fst _ _ _ (by have := h.lo; omega)

/-- off the running stack, an interrupt changes no memory -/
theorem interrupt_mem (h : Inv L H m c) {intNo : Nat}
    (hs : TickSpec (enter m intNo) (interrupt m intNo).sys (m.cpu.ctx.esp - 56) c d) {a : Nat}
    (ha : a < stackLo L m.sys c ∨ stackHi L m.sys c ≤ a) :
    (interrupt m intNo).sys.mem a = m.sys.mem a := by
  have hlo := h.lo
  have hhi := h.hi
  have ha' : a < m.cpu.ctx.esp - 56 ∨ m.cpu.ctx.esp - 56 + 56 ≤ a := by omega
  have he : (enter m intNo).mem a = m.sys.mem a := by
    rw [enter_mem h, writeRegs_frame _ _ _ _ ha']
  rw [hs.mem]
  by_cases hd : d = c
  · rw [if_pos hd, he]
  · rw [if_neg hd, writeRegs_frame _ _ _ _ ha', he]

/-- a slot that is picked can get the CPU -/
theorem TickSpec.runnable {intNo r : Nat} {s : Sys} (hs : TickSpec (enter m intNo) s r c d)
    (hd : d ≠ c) : d = 0 ∨ (m.sys.tasks d).state ≠ .dead := hs.pick.resolve_left hd

/-- **The context an interrupt delivers.** -/
theorem interrupt_ctx (h : Inv L H m c) {intNo : Nat}
    (hs : TickSpec (enter m intNo) (interrupt m intNo).sys (m.cpu.ctx.esp - 56) c d) :
    (interrupt m intNo).cpu.ctx = delivered m c d := by
  have hroom : 56 ≤ m.cpu.ctx.esp := by have := h.lo; omega
  have hr : (pushFrame m.sys.mem m.cpu intNo).2 = m.cpu.ctx.esp - 56 := pushFrame_snd ..
  have hpop : (interrupt m intNo).cpu.ctx =
      (popFrame (interrupt m intNo).sys.mem (m.cpu.ctx.esp - 56)).ctx := by
    show (popFrame _ (pushFrame m.sys.mem m.cpu intNo).2).ctx = _
    rw [hr]; rfl
  rw [hpop, popFrame_ctx]
  unfold delivered
  by_cases hd : d = c
  · -- the frame is the one that was pushed
    have hm : (interrupt m intNo).sys.mem =
        writeRegs m.sys.mem (m.cpu.ctx.esp - 56) (frameOf m.cpu intNo) := by
      rw [hs.mem, if_pos hd, enter_mem h]
    have hsp : (frameOf m.cpu intNo).useless + 8 = m.cpu.ctx.esp - 56 + 44 := by
      show m.cpu.ctx.esp - 20 + 8 = _
      omega
    rw [if_pos hd, hm, readRegs_writeRegs, hsp, retAt_writeRegs, frameOf_ctx intNo hroom]
    rfl
  · -- the frame is the PCB of `d`, the three words are on the stack of `d`
    have hl := hs.runnable hd
    have hsus := h.susp d hd hl
    have hap := h.apart hd hl
    have hm : (interrupt m intNo).sys.mem =
        writeRegs (enter m intNo).mem (m.cpu.ctx.esp - 56) (m.sys.tasks d).regs := by
      rw [hs.mem, if_neg hd]; rfl
    have hesp : (m.expect d).esp = (m.sys.tasks d).regs.useless + 20 := by rw [← hsus.ctx]; rfl
    have hlo := hsus.lo
    have hhi := hsus.hi
    have hwords : retAt (interrupt m intNo).sys.mem ((m.sys.tasks d).regs.useless + 8) =
        retAt m.sys.mem ((m.sys.tasks d).regs.useless + 8) := by
      unfold retAt
      rw [interrupt_mem h hs (by omega), interrupt_mem h hs (by omega),
        interrupt_mem h hs (by omega)]
    have hread : readRegs (interrupt m intNo).sys.mem (m.cpu.ctx.esp - 56) =
        (m.sys.tasks d).regs := by rw [hm, readRegs_writeRegs]
    rw [if_neg hd, hread, hsus.ctx, hwords, hsus.words]

/-- the `ds` that comes with another task -/
theorem interrupt_ds {intNo : Nat} (hd : d ≠ c)
    (hs : TickSpec (enter m intNo) (interrupt m intNo).sys (m.cpu.ctx.esp - 56) c d) :
    (interrupt m intNo).cpu.ds = (m.sys.tasks d).regs.ds % 2 ^ 16 := by
  have hr : (pushFrame m.sys.mem m.cpu intNo).2 = m.cpu.ctx.esp - 56 := pushFrame_snd ..
  have hm : (interrupt m intNo).sys.mem =
      writeRegs (enter m intNo).mem (m.cpu.ctx.esp - 56) (m.sys.tasks d).regs := by
    rw [hs.mem, if_neg hd]; rfl
  show (interrupt m intNo).sys.mem (pushFrame m.sys.mem m.cpu intNo).2 % 2 ^ 16 = _
  rw [hr, hm]
  show (readRegs (writeRegs _ _ (m.sys.tasks d).regs) _).ds % 2 ^ 16 = _
  rw [readRegs_writeRegs]

theorem interrupt_expect (h : Inv L H m c) (intNo : Nat) :
    (interrupt m intNo).expect = Function.update m.expect c m.cpu.ctx := by
  unfold interrupt
  simp only [h.cur, h.ran, Bool.false_eq_true, if_false]

theorem interrupt_taken (h : Inv L H m c) {intNo r : Nat}
    (hs : TickSpec (enter m intNo) (interrupt m intNo).sys r c d) :
    (interrupt m intNo).taken = if d = c then m.taken
      else Function.update m.taken c (some (m.sys.tasks d).regs.ret) := by
  have hcur : (schedulerTick (enter m intNo) (pushFrame m.sys.mem m.cpu intNo).2).currentTask =
    some d := hs.cur
  unfold interrupt
  simp only [h.cur, hcur]
  by_cases hd : d = c
  · rw [if_pos hd, if_pos hd]
  · rw [if_neg hd, if_neg hd]
    exact congrArg (fun r => Function.update m.taken c (some r.ret)) (hs.regs d hd)

theorem interrupt_fresh {intNo r : Nat}
    (hs : TickSpec (enter m intNo) (interrupt m intNo).sys r c d) :
    (interrupt m intNo).fresh = Function.update m.fresh d false := by
  have hcur : (schedulerTick (enter m intNo) (pushFrame m.sys.mem m.cpu intNo).2).currentTask =
    some d := hs.cur
  unfold interrupt
  simp only [hcur]

/-- the task that loses the CPU is suspended with the context it had -/
theorem interrupt_suspends (h : Inv L H m c) {intNo : Nat} (hd : d ≠ c)
    (hs : TickSpec (enter m intNo) (interrupt m intNo).sys (m.cpu.ctx.esp - 56) c d) :
    Suspended L (interrupt m intNo) c := by
  have hlo := h.lo
  have hhi := h.hi
  have hregs : ((interrupt m intNo).sys.tasks c).regs = frameOf m.cpu intNo := by
    rw [hs.saved, enter_mem h, readRegs_writeRegs]
  have hb : ((interrupt m intNo).sys.tasks c).stackBase = (m.sys.tasks c).stackBase := hs.base c
  have hexp : (interrupt m intNo).expect c = m.cpu.ctx := by
    rw [interrupt_expect h, Function.update_self]
  have htaken : (interrupt m intNo).taken c = some (m.sys.tasks d).regs.ret := by
    rw [interrupt_taken h hs, if_neg hd, Function.update_self]
  have hsp : (frameOf m.cpu intNo).useless + 8 = m.cpu.ctx.esp - 56 + 44 := by
    show m.cpu.ctx.esp - 20 + 8 = _
    omega
  refine ⟨?_, ?_, ?_, ?_⟩
  · rw [hregs, hexp, frameOf_ctx intNo (by omega)]
  · rw [stackLo_congr hb, hexp]; exact hlo
  · rw [stackHi_congr hb, hexp]; exact hhi
  · rw [hregs, htaken, hs.mem, if_neg hd, hsp, retAt_writeRegs]
    rfl

/-- an interrupt goes on with a slot for which the invariant holds -/
theorem Inv.interrupt (h : Inv L H m c) {intNo : Nat}
    (hs : TickSpec (enter m intNo) (interrupt m intNo).sys (m.cpu.ctx.esp - 56) c d) :
    Inv L H (Noxis.Fixes.interrupt m intNo) d := by
  have hb : ∀ i, ((Noxis.Fixes.interrupt m intNo).sys.tasks i).stackBase =
      (m.sys.tasks i).stackBase := hs.base
  have hdead : ∀ i, i ≠ 0 → (((Noxis.Fixes.interrupt m intNo).sys.tasks i).state = .dead ↔
      (m.sys.tasks i).state = .dead) := hs.dead
  have hesp : stackLo L m.sys d + 56 ≤ (delivered m c d).esp ∧
      (delivered m c d).esp ≤ stackHi L m.sys d := by
    unfold delivered
    by_cases hd : d = c
    · rw [if_pos hd, hd]
      exact ⟨h.lo, h.hi⟩
    · rw [if_neg hd]
      have hsus := h.susp d hd (hs.runnable hd)
      exact ⟨hsus.lo, hsus.hi⟩
  refine ⟨hs.cur, h.stk.congr hb hs.free, fun i h0 hi => ?_, ?_, ?_, fun t ht hl => ?_, ?_,
    fun t ht => ?_⟩
  · rw [hb i]
    refine h.live i h0 ?_
    rcases hi with rfl | hi
    · by_cases hd : i = c
      · exact .inl hd
      · exact .inr ((hs.runnable hd).resolve_left h0)
    · exact .inr fun hd => hi ((hdead i h0).mpr hd)
  · rw [stackLo_congr (hb d), interrupt_ctx h hs]; exact hesp.1
  · rw [stackHi_congr (hb d), interrupt_ctx h hs]; exact hesp.2
  · by_cases htc : t = c
    · subst htc
      exact interrupt_suspends h (Ne.symm ht) hs
    · have hl' : t = 0 ∨ (m.sys.tasks t).state ≠ .dead := by
        by_cases h0 : t = 0
        · exact .inl h0
        · exact .inr fun hd => (hl.resolve_left h0) ((hdead t h0).mpr hd)
      have hap := h.apart htc hl'
      refine (h.susp t htc hl').congr (hs.regs t htc) (hb t) ?_ ?_
        fun a ha ha' => interrupt_mem h hs (by omega)
      · rw [interrupt_expect h, Function.update_of_ne htc]
      · rw [interrupt_taken h hs]
        by_cases hd : d = c
        · rw [if_pos hd]
        · rw [if_neg hd, Function.update_of_ne htc]
  · rw [interrupt_fresh hs, Function.update_self]
  · rw [interrupt_fresh hs] at ht
    have htd : t ≠ d := by
      rintro rfl
      rw [Function.update_self] at ht
      cases ht
    rw [Function.update_of_ne htd] at ht
    have htc : t ≠ c := by
      rintro rfl
      rw [h.ran] at ht
      cases ht
    obtain ⟨ho, he, hregs⟩ := h.new t ht
    rw [interrupt_expect h, Function.update_of_ne htc, he, interrupt_taken h hs,
      show ((Noxis.Fixes.interrupt m intNo).sys.tasks t).stackTop = (m.sys.tasks t).stackTop from
        hs.top t,
      show ((Noxis.Fixes.interrupt m intNo).sys.tasks t).regs = (m.sys.tasks t).regs from
        hs.regs t htc]
    refine ⟨?_, rfl, hregs⟩
    by_cases hd : d = c
    · rw [if_pos hd, ho]
    · rw [if_neg hd, Function.update_of_ne htc, ho]

/-! ## creation, and the other events -/

/-- the running task is dead and its slot is the first free one, so `task_create_prio` takes it -/
def HandsOutRunning (s : Sys) : Prop :=
  ∃ c, s.currentTask = some c ∧ c ≠ 0 ∧ (s.tasks c).state = .dead ∧
    ∀ i, i ≠ 0 → i < c → (s.tasks i).state ≠ .dead

/-- no creation takes the slot that is running -/
def KeepsRunning (s : Machine) (e : Event) (_t : Machine) : Prop :=
  match e with
  | .create _ _ _ => ¬ HandsOutRunning s.sys
  | _ => True

instance (s : Sys) : Decidable (HandsOutRunning s) :=
  inferInstanceAs (Decidable (∃ c, s.currentTask = some c ∧ c ≠ 0 ∧ (s.tasks c).state = .dead ∧
    ∀ i, i ≠ 0 → i < c → (s.tasks i).state ≠ .dead))

instance (s : Machine) (e : Event) (t : Machine) : Decidable (KeepsRunning s e t) :=
  match e with
  | .create _ _ _ => inferInstanceAs (Decidable (¬ HandsOutRunning s.sys))
  | .run _ _ => isTrue trivial
  | .timer => isTrue trivial
  | .yield => isTrue trivial
  | .sleep _ => isTrue trivial
  | .kill _ => isTrue trivial
  | .exit => isTrue trivial

theorem freeSlot_spec {ts : Slot → Task} {i : Slot} (h : freeSlot ts = some i) :
    i ≠ 0 ∧ (ts i).state = .dead ∧ ∀ j, j ≠ 0 → j < i → (ts j).state ≠ .dead := by
  unfold freeSlot at h
  obtain ⟨hp, as, bs, hl, hno⟩ := List.find?_eq_some_iff_append.mp h
  have hdead : i ≠ 0 ∧ (ts i).state = .dead := by simpa using hp
  refine ⟨hdead.1, hdead.2, fun j h0 hj hd => ?_⟩
  have hsort : (as ++ i :: bs).Pairwise (· < ·) := hl ▸ List.pairwise_lt_finRange _
  have hmem : j ∈ as ++ i :: bs := hl ▸ List.mem_finRange j
  rcases List.mem_append.mp hmem with hm | hm
  · have hc := hno j hm
    simp [h0, hd] at hc
  · rcases List.mem_cons.mp hm with rfl | hm
    · exact lt_irrefl _ hj
    · have hlt := (List.pairwise_append.mp hsort).2.1
      exact lt_asymm hj ((List.pairwise_cons.mp hlt).1 j hm)

theorem freeSlot_isSome {ts : Slot → Task} {i : Slot} (h0 : i ≠ 0) (hd : (ts i).state = .dead) :
    ∃ k, freeSlot ts = some k := by
  have h : (freeSlot ts).isSome := by
    unfold freeSlot
    rw [List.find?_isSome]
    exact ⟨i, List.mem_finRange i, by simp [h0, hd]⟩
  exact Option.isSome_iff_exists.mp h

/-- the first free slot is the running one exactly if the running task is dead and none before it -/
theorem freeSlot_running {s : Sys} {c : Slot} (hc : s.currentTask = some c) :
    freeSlot s.tasks = some c ↔ HandsOutRunning s := by
  constructor
  · intro h
    exact ⟨c, hc, freeSlot_spec h⟩
  · rintro ⟨c', hc', h0, hd, hmin⟩
    rw [hc] at hc'
    cases hc'
    obtain ⟨k, hk⟩ := freeSlot_isSome h0 hd
    obtain ⟨hk0, hkd, hkmin⟩ := freeSlot_spec hk
    rcases lt_trichotomy k c with hlt | rfl | hlt
    · exact absurd hkd (hmin k hk0 hlt)
    · exact hk
    · exact absurd hd (hkmin c h0 hlt)

theorem startFrame_frame (L : Layout) (mem : Nat → Nat) {top a : Nat}
    (h : a + 20 < top ∨ top ≤ a) (ht : 20 ≤ top) : startFrame L mem top a = mem a := by
  unfold startFrame
  repeat rw [if_neg (by omega)]

theorem startFrame_ret (L : Layout) (mem : Nat → Nat) {top : Nat} (ht : 20 ≤ top) :
    retAt (startFrame L mem top) (top - 20 + 8) = ⟨L.trampoline, kernelCs, 0x202⟩ := by
  obtain ⟨k, rfl⟩ : ∃ k, top = k + 20 := ⟨top - 20, by omega⟩
  simp [retAt, startFrame]

theorem startRegs_ctx (L : Layout) {top : Nat} (ht : 20 ≤ top) :
    (startRegs L top).ctx = startCtx L top := by
  have he : top - 20 + 20 = top := by omega
  simp [startRegs, Registers.ctx, startCtx, Registers.zero, he]

/-- what the machine does when `task_create_prio` finds the free slot `i` -/
theorem create_some (h : Inv L H m c) (name : List Char) (entry : Nat) (weight : Fin 256)
    {i : Slot} (hi : freeSlot m.sys.tasks = some i) :
    ∃ s stack, SlotStackSpec L H m.sys i stack s ∧
      create L m name entry weight =
        { m with
          sys := ({ s with mem := startFrame L s.mem (stack + taskStackSize) }).setTask i
            (newTask L i name entry weight stack)
          expect := Function.update m.expect i (startCtx L (stack + taskStackSize))
          taken := Function.update m.taken i none
          fresh := Function.update m.fresh i true } := by
  have hs := slotStack_spec h.stk (freeSlot_spec hi).1
  refine ⟨_, _, hs, ?_⟩
  have htc : taskCreatePrio L m.sys name entry weight =
      (({ (slotStack m.sys i).2 with
            mem := startFrame L (slotStack m.sys i).2.mem
              ((slotStack m.sys i).1 + taskStackSize) }).setTask i
          (newTask L i name entry weight (slotStack m.sys i).1), some i) := by
    simp only [taskCreatePrio, hi, hs.nonzero, if_false]
  simp only [create, htc, Sys.setTask_same]
  rfl

theorem taskCreatePrio_slot (h : Inv L H m c) (name : List Char) (entry : Nat)
    (weight : Fin 256) : (taskCreatePrio L m.sys name entry weight).2 = freeSlot m.sys.tasks := by
  unfold taskCreatePrio
  cases hi : freeSlot m.sys.tasks with
  | none => rfl
  | some i => simp only [(slotStack_spec h.stk (freeSlot_spec hi).1).nonzero, if_false]

theorem create_none {name : List Char} {entry : Nat} {weight : Fin 256}
    (hi : freeSlot m.sys.tasks = none) : create L m name entry weight = m := by
  simp only [create, taskCreatePrio, hi]

/-- creation keeps the invariant if it does not take the running slot -/
theorem Inv.create (h : Inv L H m c) (name : List Char) (entry : Nat) (weight : Fin 256)
    (hr : ¬ HandsOutRunning m.sys) : Inv L H (Noxis.Fixes.create L m name entry weight) c := by
  cases hi : freeSlot m.sys.tasks with
  | none => rw [create_none hi]; exact h
  | some i =>
    obtain ⟨s, stack, hs, heq⟩ := create_some h name entry weight hi
    have hic : c ≠ i := by
      rintro rfl
      exact hr ((freeSlot_running h.cur).mp hi)
    have hi0 : i ≠ 0 := (freeSlot_spec hi).1
    rw [heq]
    set s' := ({ s with mem := startFrame L s.mem (stack + taskStackSize) }).setTask i
      (newTask L i name entry weight stack) with hs'
    have hself : s'.tasks i = newTask L i name entry weight stack (s.tasks i) := by
      rw [hs', Sys.setTask_same]
    have hoth : ∀ j, j ≠ i → s'.tasks j = m.sys.tasks j := fun j hj => by
      rw [hs', Sys.setTask_ne _ _ hj]
      exact hs.other j hj
    have hbi : (s'.tasks i).stackBase = stack := by rw [hself]; exact hs.base
    have hstk : Stacks L H s' := by
      refine hs.stk.congr (fun j => ?_) rfl
      by_cases hj : j = i
      · subst hj
        rw [hbi, hs.base]
      · rw [hoth j hj, hs.other j hj]
    have hlive : ∀ j, j ≠ 0 → (j = c ∨ (s'.tasks j).state ≠ .dead) →
        (s'.tasks j).stackBase ≠ 0 := by
      intro j h0 hj
      by_cases hji : j = i
      · rw [hji, hbi]; exact hs.nonzero
      · rw [hoth j hji] at hj ⊢
        exact h.live j h0 hj
    -- the new frame is on the stack of the slot, so every other stack keeps its words
    have hmem : ∀ t, t ≠ i → (t ≠ 0 → (s'.tasks t).stackBase ≠ 0) → ∀ a, stackLo L m.sys t ≤ a →
        a < stackHi L m.sys t → s'.mem a = m.sys.mem a := by
      intro t ht hb a ha ha'
      have hap := hstk.apart ht hb fun _ => by rw [hbi]; exact hs.nonzero
      have hlo : stackLo L s' t = stackLo L m.sys t := stackLo_congr (by rw [hoth t ht])
      have hhi : stackHi L s' t = stackHi L m.sys t := stackHi_congr (by rw [hoth t ht])
      have hlo' : stackLo L s' i = stack := by unfold stackLo; rw [if_neg hi0, hbi]
      have hhi' : stackHi L s' i = stack + taskStackSize := by
        unfold stackHi; rw [if_neg hi0, hbi]
      rw [hlo, hhi, hlo', hhi'] at hap
      rw [← hs.mem]
      exact startFrame_frame L s.mem (by unfold taskStackSize at *; omega)
        (by unfold taskStackSize; omega)
    have hlc : stackLo L s' c = stackLo L m.sys c := stackLo_congr (by rw [hoth c hic])
    have hhc : stackHi L s' c = stackHi L m.sys c := stackHi_congr (by rw [hoth c hic])
    refine ⟨hs.cur.trans h.cur, hstk, hlive, hlc.symm ▸ h.lo, hhc.symm ▸ h.hi,
      fun t ht hl => ?_, ?_, fun t ht => ?_⟩
    · by_cases hti : t = i
      · subst hti
        have htop : 20 ≤ stack + taskStackSize := by unfold taskStackSize; omega
        have hreg : (s'.tasks t).regs = startRegs L (stack + taskStackSize) := by rw [hself]; rfl
        have hexp : Function.update m.expect t (startCtx L (stack + taskStackSize)) t =
            startCtx L (stack + taskStackSize) := Function.update_self ..
        have htaken : Function.update m.taken t none t = none := Function.update_self ..
        refine ⟨?_, ?_, ?_, ?_⟩
        · show (s'.tasks t).regs.ctx = Function.update m.expect t _ t
          rw [hreg, startRegs_ctx L htop, hexp]
        · show stackLo L s' t + 56 ≤ (Function.update m.expect t _ t).esp
          rw [hexp]
          unfold stackLo
          rw [if_neg hi0, hbi]
          show stack + 56 ≤ stack + taskStackSize
          unfold taskStackSize; omega
        · show (Function.update m.expect t _ t).esp ≤ stackHi L s' t
          rw [hexp]
          unfold stackHi
          rw [if_neg hi0, hbi]
          exact le_refl _
        · show retAt s'.mem ((s'.tasks t).regs.useless + 8) =
            (Function.update m.taken t none t).getD (Function.update m.expect t _ t).ret
          rw [hreg, hexp, htaken]
          exact startFrame_ret L s.mem htop
      · have hl' : t = 0 ∨ (m.sys.tasks t).state ≠ .dead := by
          rw [← hoth t hti]; exact hl
        exact (h.susp t ht hl').congr (by rw [hoth t hti]) (by rw [hoth t hti])
          (Function.update_of_ne hti ..) (Function.update_of_ne hti ..)
          (hmem t hti fun h0 => hlive t h0 (.inr (hl.resolve_left h0)))
    · show Function.update m.fresh i true c = false
      rw [Function.update_of_ne hic]
      exact h.ran
    · show Function.update m.taken i none t = none ∧
        Function.update m.expect i (startCtx L (stack + taskStackSize)) t =
          startCtx L (s'.tasks t).stackTop ∧
        (s'.tasks t).regs = startRegs L (s'.tasks t).stackTop
      by_cases hti : t = i
      · subst hti
        rw [Function.update_self, Function.update_self, hself]
        exact ⟨rfl, rfl, rfl⟩
      · have ht' : m.fresh t = true := by
          rw [← ht]
          exact (Function.update_of_ne hti ..).symm
        rw [Function.update_of_ne hti, Function.update_of_ne hti, hoth t hti]
        exact h.new t ht'

theorem writeWords_frame (ws : List (Nat × Nat)) (mem : Nat → Nat) (a : Nat)
    (h : ∀ w ∈ ws, w.1 ≠ a) : writeWords mem ws a = mem a := by
  induction ws generalizing mem with
  | nil => rfl
  | cons w ws ih =>
    show writeWords (Function.update mem w.1 w.2) ws a = mem a
    rw [ih _ fun w' hw' => h w' (List.mem_cons_of_mem _ hw'),
      Function.update_of_ne (Ne.symm (h w (List.mem_cons_self ..)))]

theorem runOk_spec {s : Sys} {cpu : Cpu} {ws : List (Nat × Nat)} (hc : s.currentTask = some c) :
    runOk L s cpu ws = true ↔ (∀ w ∈ ws, stackLo L s c ≤ w.1 ∧ w.1 < stackHi L s c) ∧
      stackLo L s c + 56 ≤ cpu.ctx.esp ∧ cpu.ctx.esp ≤ stackHi L s c := by
  unfold runOk
  rw [hc]
  simp [List.all_eq_true, and_assoc]

/-- the part of `task_sleep` before its yield keeps the invariant -/
theorem Inv.taskSleep (h : Inv L H m c) (ms : Nat) :
    Inv L H { m with sys := (taskSleep m.sys ms).1 } c := by
  unfold Noxis.Fixes.taskSleep
  rw [h.cur]
  by_cases hg : c = 0 ∨ (m.sys.tasks c).state = .dead
  · simp only [hg, if_true]
    exact h
  · simp only [hg, if_false]
    exact h.setTask c _ rfl rfl rfl fun hne => absurd rfl hne

/-- `task_kill` keeps the invariant -/
theorem Inv.taskKill (h : Inv L H m c) (id : Int) :
    Inv L H { m with sys := (taskKill m.sys id).1 } c := by
  unfold Noxis.Fixes.taskKill
  by_cases hid : 0 < id ∧ id < maxTasks
  · rw [dif_pos hid]
    simp only
    split
    · exact h
    · exact h.setTask _ (fun t => { t with killReq := true }) rfl rfl rfl fun _ => Iff.rfl
  · rw [dif_neg hid]
    exact h

/-- a task that returns stays on its stack -/
theorem Inv.taskExit (h : Inv L H m c) : Inv L H { m with sys := taskExit m.sys } c := by
  unfold Noxis.Fixes.taskExit
  rw [h.cur]
  exact h.setTask c _ rfl rfl rfl fun hne => absurd rfl hne

/-- the events that end in `scheduler_tick`: the machine then, and the interrupt -/
def schedules (m : Machine) : Event → Option (Machine × Nat)
  | .timer => some (m, timerInt)
  | .yield => some (m, schedInt)
  | .sleep ms =>
    if (taskSleep m.sys ms).2 then some ({ m with sys := (taskSleep m.sys ms).1 }, schedInt)
    else none
  | _ => none

/-- an event that reaches the scheduler is an interrupt of a machine with the same contexts, on
which the invariant holds -/
theorem step_schedules (h : Inv L H m c) {e : Event} {u : Machine} {intNo : Nat}
    (hs : schedules m e = some (u, intNo)) :
    step L m e = some (interrupt u intNo) ∧ Inv L H u c ∧ u.cpu = m.cpu ∧ u.expect = m.expect ∧
      u.taken = m.taken ∧ u.fresh = m.fresh := by
  cases e with
  | timer => cases hs; exact ⟨rfl, h, rfl, rfl, rfl, rfl⟩
  | yield => cases hs; exact ⟨rfl, h, rfl, rfl, rfl, rfl⟩
  | sleep ms =>
    have hinv := h.taskSleep ms
    simp only [schedules] at hs
    cases hb : Noxis.Fixes.taskSleep m.sys ms with
    | mk s b =>
      rw [hb] at hs hinv
      cases b with
      | false => cases hs
      | true =>
        cases hs
        refine ⟨?_, hinv, rfl, rfl, rfl, rfl⟩
        rw [Noxis.Fixes.step, hb]
  | run cpu ws => cases hs
  | create name entry weight => cases hs
  | kill id => cases hs
  | exit => cases hs

/-- **Step rule.**  Every event keeps the invariant, a creation that takes the running slot apart. -/
theorem Inv.step (h : Inv L H m c) {e : Event} (hr : KeepsRunning m e m')
    (hst : Noxis.Fixes.step L m e = some m') : ∃ d, Inv L H m' d := by
  cases hsch : schedules m e with
  | some x =>
    obtain ⟨u, intNo⟩ := x
    obtain ⟨hstep, hu, -⟩ := step_schedules h hsch
    rw [hstep] at hst
    cases hst
    obtain ⟨d, -, hd⟩ := interrupt_tick hu intNo
    exact ⟨d, hu.interrupt hd⟩
  | none =>
    cases e with
    | timer => cases hsch
    | yield => cases hsch
    | run cpu ws =>
      have hok : runOk L m.sys cpu ws = true := by
        by_contra hno
        simp [Noxis.Fixes.step, hno] at hst
      simp only [Noxis.Fixes.step, hok, if_true, Option.some.injEq] at hst
      subst hst
      obtain ⟨hw, hlo, hhi⟩ := (runOk_spec h.cur).mp hok
      refine ⟨c, h.quiet h.cur (fun _ => ⟨rfl, rfl, rfl⟩) (fun _ _ _ => Iff.rfl) rfl hlo hhi rfl rfl
        rfl fun a ha => writeWords_frame ws _ a fun w hm => ?_⟩
      have hin := hw w hm
      omega
    | sleep ms =>
      have hinv := h.taskSleep ms
      simp only [schedules] at hsch
      simp only [Noxis.Fixes.step] at hst
      cases hb : Noxis.Fixes.taskSleep m.sys ms with
      | mk s b =>
        rw [hb] at hsch hst hinv
        cases b with
        | true => cases hsch
        | false =>
          cases hst
          exact ⟨c, hinv⟩
    | create name entry weight =>
      cases hst
      exact ⟨c, h.create name entry weight hr⟩
    | kill id =>
      cases hst
      exact ⟨c, h.taskKill id⟩
    | exit =>
      by_cases h0 : m.sys.currentTask = some 0
      · simp [Noxis.Fixes.step, h0] at hst
      · simp only [Noxis.Fixes.step, h0, if_false, Option.some.injEq] at hst
        subst hst
        exact ⟨c, h.taskExit⟩

/-- the state that `task_init` leaves, on the kernel stack, with room for all stacks that `kmalloc`
can be asked for -/
structure Init (L : Layout) (m : Machine) : Prop where
  tasks : m.sys.tasks = taskInit
  cur : m.sys.currentTask = some 0
  lo : L.kernelLo + 56 ≤ m.cpu.ctx.esp
  hi : m.cpu.ctx.esp ≤ L.kernelHi
  taken : m.taken = fun _ => none
  fresh : m.fresh = fun _ => false
  pos : 0 < pageUp m.sys.freeMemAddr
  bound : pageUp m.sys.freeMemAddr + 31 * taskStackSize < 2 ^ 32
  kernel : L.kernelHi ≤ pageUp m.sys.freeMemAddr ∨
    pageUp m.sys.freeMemAddr + 31 * taskStackSize ≤ L.kernelLo

theorem taskInit_of_ne {i : Slot} (h : i ≠ 0) : taskInit i = Task.blank :=
  Function.update_of_ne h ..

theorem Init.inv (h : Init L m) : Inv L (pageUp m.sys.freeMemAddr) m 0 := by
  have hblank : ∀ i, i ≠ 0 → m.sys.tasks i = Task.blank := fun i hi => by
    rw [h.tasks, taskInit_of_ne hi]
  have hnone : stackSlots m.sys = ∅ := by
    ext i
    rw [mem_stackSlots]
    constructor
    · rintro ⟨h0, hb⟩
      rw [hblank i h0] at hb
      exact absurd rfl hb
    · intro hi
      exact absurd hi (Finset.notMem_empty i)
  have hdead : ∀ i, i ≠ 0 → (m.sys.tasks i).state = .dead := fun i hi => by rw [hblank i hi]; rfl
  refine ⟨h.cur, ⟨?_, ?_, ?_, h.pos, h.bound, h.kernel⟩, ?_, h.lo, h.hi, ?_, by rw [h.fresh], ?_⟩
  · rw [hnone, Finset.card_empty]; rfl
  · intro i hi
    rw [hnone] at hi
    exact absurd hi (Finset.notMem_empty i)
  · intro i j _ hi
    rw [hnone] at hi
    exact absurd hi (Finset.notMem_empty i)
  · rintro i h0 (hi | hi)
    · exact absurd hi h0
    · exact absurd (hdead i h0) hi
  · rintro t ht (h0 | hl)
    · exact absurd h0 ht
    · exact absurd (hdead t ht) hl
  · intro t ht
    rw [h.fresh] at ht
    cases ht

end

end Noxis.Fixes
