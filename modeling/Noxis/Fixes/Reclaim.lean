import Noxis.Fixes.Transparent

/-!
# 23-fixes: slots and stacks that are used again

`task_create_prio` takes the first DEAD slot.  A task that returned is DEAD but stays on its stack
until the next tick, so a creation from an interrupt on that stack may take the running slot
(`HandsOutRunning`); `reclaimed_iff` says that nothing else goes wrong.
-/

namespace Noxis.Fixes
open Run

/-- a creation does not take the running slot, and the first time a new task gets the CPU it gets
its start frame -/
def Reclaimed (L : Layout) (s : Machine) (e : Event) (t : Machine) : Prop :=
  (∀ n a w, e = .create n a w → ∀ i, (taskCreatePrio L s.sys n a w).2 = some i →
    s.sys.currentTask ≠ some i) ∧
  ((schedules s e).isSome → ∀ d, t.sys.currentTask = some d → s.fresh d = true →
    t.cpu = { ctx := startCtx L (t.sys.tasks d).stackTop, ds := 0x10 })

section
variable {L : Layout} {H : Nat} {m m' : Machine} {c d : Slot}

/-- a new task starts with its synthetic frame -/
theorem interrupt_new (h : Inv L H m c) {intNo : Nat}
    (hs : TickSpec (enter m intNo) (interrupt m intNo).sys (m.cpu.ctx.esp - 56) c d)
    (hn : m.fresh d = true) :
    (interrupt m intNo).cpu =
      { ctx := startCtx L ((interrupt m intNo).sys.tasks d).stackTop, ds := 0x10 } := by
  have hdc : d ≠ c := by
    rintro rfl
    rw [h.ran] at hn
    cases hn
  obtain ⟨ho, he, hregs⟩ := h.new d hn
  have htop : ((interrupt m intNo).sys.tasks d).stackTop = (m.sys.tasks d).stackTop := hs.top d
  have hctx : (interrupt m intNo).cpu.ctx = startCtx L (m.sys.tasks d).stackTop := by
    rw [interrupt_ctx h hs]
    unfold delivered
    rw [if_neg hdc, ho, Option.getD_none, (Ctx.withRet_eq _ _).mpr rfl, he]
  have hds : (interrupt m intNo).cpu.ds = 0x10 := by
    rw [interrupt_ds hdc hs, hregs]
    rfl
  rw [htop, ← hctx, ← hds]

/-- one step reclaims safely exactly if it does not take the running slot -/
theorem reclaimed_step (h : Inv L H m c) {e : Event} (hst : step L m e = some m') :
    Reclaimed L m e m' ↔ KeepsRunning m e m' := by
  have hsched : (schedules m e).isSome → ∀ d, m'.sys.currentTask = some d → m.fresh d = true →
      m'.cpu = { ctx := startCtx L (m'.sys.tasks d).stackTop, ds := 0x10 } := by
    intro hsome d hd hn
    obtain ⟨⟨u, intNo⟩, hsch⟩ := Option.isSome_iff_exists.mp hsome
    obtain ⟨hstep, hu, -, -, -, hf⟩ := step_schedules h hsch
    rw [hstep] at hst
    cases hst
    obtain ⟨d', -, hs⟩ := interrupt_tick hu intNo
    rw [hs.cur] at hd
    cases hd
    exact interrupt_new hu hs (by rw [hf]; exact hn)
  cases e with
  | create n a w =>
    have hslot := taskCreatePrio_slot h n a w
    constructor
    · intro hr hh
      refine hr.1 n a w rfl c ?_ h.cur
      rw [hslot]
      exact (freeSlot_running h.cur).mpr hh
    · intro hk
      refine ⟨fun n' a' w' he i hi hc => ?_, hsched⟩
      cases he
      rw [hslot] at hi
      exact hk ((freeSlot_running hc).mp hi)
  | _ => exact ⟨fun _ => trivial, fun _ => ⟨fun _ _ _ he => (nomatch he), hsched⟩⟩

/-- **Slots are reclaimed safely exactly along the runs that never create on the dead running
slot.** -/
theorem reclaimed_iff (h : Init L m) (es : List Event) :
    Always (stepOf (step L)) (Reclaimed L) m es ↔ Always (stepOf (step L)) KeepsRunning m es :=
  Always.iff_of_inv (I := fun m' => ∃ c, Inv L (pageUp m.sys.freeMemAddr) m' c)
    (fun _ _ _ ⟨_, hi⟩ hst => reclaimed_step hi hst)
    (fun _ _ _ ⟨_, hi⟩ hst hk => hi.step hk hst) es m ⟨0, h.inv⟩

end

theorem reclaimed_iff_twoTasks :
    Always (stepOf (step Demo.layout)) (Reclaimed Demo.layout) Demo.boot Demo.twoTasks ↔
      Always (stepOf (step Demo.layout)) KeepsRunning Demo.boot Demo.twoTasks :=
  reclaimed_iff Demo.boot_init Demo.twoTasks

/-- a task returns and, before the next tick, another one is created: **it gets the running slot** -/
theorem reclaimed_fails : ¬ ∀ (L : Layout) (m : Machine) (es : List Event), Init L m →
    Always (stepOf (step L)) (Reclaimed L) m es := by
  intro h
  refine Always.not_of_exec (e := .create ['b'] 0x6000 1)
    [.create ['a'] 0x5000 1, .timer, .run Demo.busy [], .exit]
    (fun t _ => decide ((taskCreatePrio Demo.layout t.sys ['b'] 0x6000 1).2 = some 1) &&
      decide (t.sys.currentTask = some 1))
    (fun t u _ hb ht => ?_) (by decide +kernel) (h Demo.layout Demo.boot _ Demo.boot_init)
  simp only [Bool.and_eq_true, decide_eq_true_eq] at hb
  exact ht.1 _ _ _ rfl 1 hb.1 hb.2

end Noxis.Fixes
