import Noxis.Fixes.Switch

/-!
# 23-fixes: when the context switch is transparent

`Transparent` says of one step that the stub returns into a task with the context which that task
expects.  It does not hold of every run: `transparent_fails` is a run of two tasks after which the
first one gets the `eip` of the second.
-/

namespace Noxis.Fixes
open Run

/-- an event that reaches the scheduler returns into a task with the context it had at its own last
interruption, or with its start if it has never run -/
def Transparent (s : Machine) (e : Event) (t : Machine) : Prop :=
  (schedules s e).isSome → ∀ d, t.sys.currentTask = some d → t.cpu.ctx = t.expect d

/-- the task that the scheduler picks is the interrupted one, or was replaced by nobody since it was
created, or was replaced by a task with the same `eip`, `cs` and `eflags` -/
def Undisturbed (s : Machine) (e : Event) (_t : Machine) : Prop :=
  ∀ u intNo, schedules s e = some (u, intNo) → ∀ d, pick (enter u intNo) = some d →
    s.sys.currentTask = some d ∨ s.taken d = none ∨ s.taken d = some (s.expect d).ret

section
variable {L : Layout} {H : Nat} {m m' : Machine} {c d : Slot}

/-- the context delivered is the one expected exactly if the three words are -/
theorem delivered_eq (m : Machine) (c d : Slot) :
    delivered m c d = Function.update m.expect c m.cpu.ctx d ↔
      d = c ∨ m.taken d = none ∨ m.taken d = some (m.expect d).ret := by
  unfold delivered
  by_cases hd : d = c
  · subst hd
    rw [if_pos rfl, Function.update_self]
    exact ⟨fun _ => .inl rfl, fun _ => rfl⟩
  · rw [if_neg hd, Function.update_of_ne hd, Ctx.withRet_eq]
    cases m.taken d with
    | none => simp
    | some w => simp [hd]

/-- one step is transparent exactly if it is undisturbed -/
theorem transparent_step (h : Inv L H m c) {e : Event} (hst : step L m e = some m') :
    Transparent m e m' ↔ Undisturbed m e m' := by
  unfold Transparent Undisturbed
  cases hsch : schedules m e with
  | none => simp
  | some x =>
    obtain ⟨u, intNo⟩ := x
    obtain ⟨hstep, hu, hcpu, hexp, htaken, -⟩ := step_schedules h hsch
    rw [hstep] at hst
    cases hst
    obtain ⟨d, hp, hd⟩ := interrupt_tick hu intNo
    have hctx : (interrupt u intNo).cpu.ctx = delivered m c d := by
      rw [interrupt_ctx hu hd]
      unfold delivered
      rw [hcpu, hexp, htaken]
    have hexp' : (interrupt u intNo).expect d = Function.update m.expect c m.cpu.ctx d := by
      rw [interrupt_expect hu, hexp, hcpu]
    have hcur : (interrupt u intNo).sys.currentTask = some d := hd.cur
    have hkey : (interrupt u intNo).cpu.ctx = (interrupt u intNo).expect d ↔
        m.sys.currentTask = some d ∨ m.taken d = none ∨ m.taken d = some (m.expect d).ret := by
      rw [hctx, hexp', delivered_eq, h.cur, Option.some_inj]
      exact or_congr eq_comm Iff.rfl
    constructor
    · intro ht u' intNo' hu' d' hd'
      cases hu'
      rw [hp] at hd'
      cases hd'
      exact hkey.mp (ht rfl d hcur)
    · intro ht _ d' hd'
      rw [hcur] at hd'
      cases hd'
      exact hkey.mpr (ht u intNo rfl d hp)

/-- **The context switch is transparent exactly along the undisturbed runs.** -/
theorem transparent_iff (h : Init L m) (es : List Event)
    (hr : Always (stepOf (step L)) KeepsRunning m es) :
    Always (stepOf (step L)) Transparent m es ↔ Always (stepOf (step L)) Undisturbed m es :=
  Always.congr_inv_of (I := fun m' => ∃ c, Inv L (pageUp m.sys.freeMemAddr) m' c)
    (fun _ _ _ ⟨_, hi⟩ hst _ => transparent_step hi hst)
    (fun _ _ _ ⟨_, hi⟩ hst hk => hi.step hk hst) es m ⟨0, h.inv⟩ hr

end

/-! ## a run that is not transparent -/

namespace Demo

def layout : Layout := { trampoline := 0x2000, kernelLo := 0x8F000, kernelHi := 0x90000 }

def idleCtx : Ctx :=
  { eip := 0x1100, cs := kernelCs, eflags := 0x202, esp := 0x8FF00, eax := 0, ecx := 0, edx := 0
    ebx := 0, ebp := 0, esi := 0, edi := 0 }

/-- the machine after `task_init`, with an empty heap -/
def boot : Machine :=
  { sys := { tasks := taskInit, currentTask := some 0, tick := 0, freeMemAddr := 0x10000
             mem := fun _ => 0 }
    cpu := { ctx := idleCtx, ds := 0x10 }
    expect := fun _ => idleCtx
    taken := fun _ => none
    fresh := fun _ => false }

theorem boot_init : Init layout boot :=
  ⟨rfl, rfl, by decide, by decide, rfl, rfl, by decide, by decide, .inr (by decide)⟩

/-- a point inside the code of the first task -/
def busy : Cpu := { ctx := { idleCtx with eip := 0x5000, esp := 0x10F00 }, ds := 0x10 }

/-- two tasks are created, the first one runs, the timer gives the CPU to the second one -/
def twoTasks : List Event :=
  [.create ['a'] 0x5000 1, .create ['b'] 0x6000 1, .timer, .run busy [], .timer]

end Demo

theorem transparent_iff_twoTasks :
    Always (stepOf (step Demo.layout)) Transparent Demo.boot Demo.twoTasks ↔
      Always (stepOf (step Demo.layout)) Undisturbed Demo.boot Demo.twoTasks :=
  transparent_iff Demo.boot_init Demo.twoTasks (by decide +kernel)

/-- the first task gets the `eip` of the second: **the switch is not transparent** -/
theorem transparent_fails : ¬ ∀ (L : Layout) (m : Machine) (es : List Event), Init L m →
    Always (stepOf (step L)) Transparent m es := by
  intro h
  refine Always.not_of_exec (e := .timer) Demo.twoTasks
    (fun _ u => decide (u.sys.currentTask = some 1) && decide (u.cpu.ctx.eip ≠ (u.expect 1).eip))
    (fun t u _ hb ht => ?_) (by decide +kernel) (h Demo.layout Demo.boot _ Demo.boot_init)
  simp only [Bool.and_eq_true, decide_eq_true_eq] at hb
  exact hb.2 (congrArg Ctx.eip (ht rfl 1 hb.1))

end Noxis.Fixes
