import Noxis.Fixes.Task

/-!
# 23-fixes/cpu/interrupt.asm: the machine under the scheduler

`irq_common_stub` at the level of the words it moves: the CPU and the stub push the frame on the
stack of the interrupted task, `scheduler_tick` gets the pointer to it, and the way out pops the
registers from that frame, loads `esp` from its `useless` word and lets `iret` take `eip`, `cs` and
`eflags` from the stack it then stands on.

`Machine` adds to `Sys` the registers of the CPU and three records of the past, which no step reads:

* `expect t`   the context the task in slot `t` had at its own last interruption, or, if it has never
               run, the start that `task_create_prio` gave it;
* `taken t`    what replaced `t`: the `eip`, `cs`, `eflags` of the task that got the CPU when `t`
               last lost it (`none` if `t` has not lost it since it was created);
* `fresh t`    `t` was created and no interrupt has resumed it yet.

The running code is anything that stays on its own stack (`Event.run`); that includes the handlers
that run on top of the interrupted task, such as the shell in the keyboard IRQ.
-/

namespace Noxis.Fixes

/-- the registers that a context switch has to preserve -/
structure Ctx where
  eip : Nat
  cs : Nat
  eflags : Nat
  esp : Nat
  eax : Nat
  ecx : Nat
  edx : Nat
  ebx : Nat
  ebp : Nat
  esi : Nat
  edi : Nat
  deriving DecidableEq, Repr

structure Cpu where
  ctx : Ctx
  ds : Nat
  deriving DecidableEq, Repr

/-- the three words that `iret` pops -/
structure RetWords where
  eip : Nat
  cs : Nat
  eflags : Nat
  deriving DecidableEq, Repr

def Registers.ret (x : Registers) : RetWords := ⟨x.eip, x.cs, x.eflags⟩
def Ctx.ret (x : Ctx) : RetWords := ⟨x.eip, x.cs, x.eflags⟩

/-! ## the way in and the way out of the stub -/

/-- push one word: the memory and `esp` -/
def push (ms : (Nat → Nat) × Nat) (v : Nat) : (Nat → Nat) × Nat :=
  (Function.update ms.1 (ms.2 - 4) v, ms.2 - 4)

/-- the frame of interrupt `intNo`: the CPU's words, the stub's two, `pusha`, `push eax` with
`ax = ds`; the second part is `r` -/
def pushFrame (mem : Nat → Nat) (cpu : Cpu) (intNo : Nat) : (Nat → Nat) × Nat :=
  let x := cpu.ctx
  let ms := push (push (push (mem, x.esp) x.eflags) x.cs) x.eip
  let ms := push (push ms 0) intNo
  let sp := ms.2
  let ms := push (push (push (push ms x.eax) x.ecx) x.edx) x.ebx
  let ms := push (push (push (push ms sp) x.ebp) x.esi) x.edi
  push ms (x.eax - x.eax % 2 ^ 16 + cpu.ds)

/-- from `pop ebx` to `iret`, with the frame at `r` -/
def popFrame (mem : Nat → Nat) (r : Nat) : Cpu :=
  let sp := mem (r + 44 - 28) + 8
  { ds := mem r % 2 ^ 16
    ctx :=
      { edi := mem (r + 4), esi := mem (r + 8), ebp := mem (r + 12), ebx := mem (r + 20)
        edx := mem (r + 24), ecx := mem (r + 28), eax := mem (r + 32)
        eip := mem sp, cs := mem (sp + 4), eflags := mem (sp + 8), esp := sp + 12 } }

/-- the frame that `pushFrame` leaves -/
def frameOf (cpu : Cpu) (intNo : Nat) : Registers :=
  { ds := cpu.ctx.eax - cpu.ctx.eax % 2 ^ 16 + cpu.ds, edi := cpu.ctx.edi, esi := cpu.ctx.esi
    ebp := cpu.ctx.ebp, useless := cpu.ctx.esp - 20, ebx := cpu.ctx.ebx, edx := cpu.ctx.edx
    ecx := cpu.ctx.ecx, eax := cpu.ctx.eax, intNo := intNo, errCode := 0, eip := cpu.ctx.eip
    cs := cpu.ctx.cs, eflags := cpu.ctx.eflags }

theorem pushFrame_snd (mem : Nat → Nat) (cpu : Cpu) (intNo : Nat) :
    (pushFrame mem cpu intNo).2 = cpu.ctx.esp - 56 := by
  simp only [pushFrame, push]
  omega

theorem pushFrame_fst (mem : Nat → Nat) (cpu : Cpu) (intNo : Nat) (h : 56 ≤ cpu.ctx.esp) :
    (pushFrame mem cpu intNo).1 = writeRegs mem (cpu.ctx.esp - 56) (frameOf cpu intNo) := by
  obtain ⟨k, hk⟩ : ∃ k, cpu.ctx.esp = k + 56 := ⟨cpu.ctx.esp - 56, by omega⟩
  funext a
  simp [pushFrame, push, writeRegs, frameOf, hk, Function.update_apply]

/-! ## the machine -/

structure Machine where
  sys : Sys
  cpu : Cpu
  expect : Slot → Ctx
  taken : Slot → Option RetWords
  fresh : Slot → Bool

inductive Event where
  /-- the running code computes: new registers, words written on its own stack -/
  | run (cpu : Cpu) (ws : List (Nat × Nat))
  | timer
  | yield
  | sleep (ms : Nat)
  | create (name : List Char) (entry : Nat) (weight : Fin 256)
  | kill (id : Int)
  /-- the end of `task_trampoline`, which the kernel task does not run -/
  | exit

/-- lowest address of the stack of a slot -/
def stackLo (L : Layout) (s : Sys) (c : Slot) : Nat :=
  if c = 0 then L.kernelLo else (s.tasks c).stackBase

/-- first address past the stack of a slot -/
def stackHi (L : Layout) (s : Sys) (c : Slot) : Nat :=
  if c = 0 then L.kernelHi else (s.tasks c).stackBase + taskStackSize

/-- the context that the synthetic frame of a new task stands for -/
def startCtx (L : Layout) (top : Nat) : Ctx :=
  { eip := L.trampoline, cs := kernelCs, eflags := 0x202, esp := top, eax := 0, ecx := 0, edx := 0
    ebx := 0, ebp := 0, esi := 0, edi := 0 }

/-- `int_no` of the timer IRQ and of `task_yield` -/
def timerInt : Nat := 32
def schedInt : Nat := 0x81

/-- the state on which an interrupt calls `scheduler_tick`: the frame is pushed, the timer has
counted its tick -/
def enter (m : Machine) (intNo : Nat) : Sys :=
  { m.sys with
    mem := (pushFrame m.sys.mem m.cpu intNo).1
    tick := if intNo = timerInt then (m.sys.tick + 1) % 2 ^ 32 else m.sys.tick }

/-- an interrupt that reaches `scheduler_tick`, from the push of the frame to `iret`.  If the running
slot is `fresh`, the code that is interrupted is not the task the slot was given to. -/
def interrupt (m : Machine) (intNo : Nat) : Machine :=
  let r := (pushFrame m.sys.mem m.cpu intNo).2
  let sys := schedulerTick (enter m intNo) r
  { sys := sys
    cpu := popFrame sys.mem r
    expect := match m.sys.currentTask with
      | none => m.expect
      | some c => if m.fresh c then m.expect else Function.update m.expect c m.cpu.ctx
    taken := match m.sys.currentTask, sys.currentTask with
      | some c, some d =>
        if d = c then m.taken else Function.update m.taken c (some (sys.tasks d).regs.ret)
      | _, _ => m.taken
    fresh := match sys.currentTask with
      | none => m.fresh
      | some d => Function.update m.fresh d false }

/-- the words `ws` go to memory, the first one first -/
def writeWords (mem : Nat → Nat) (ws : List (Nat × Nat)) : Nat → Nat :=
  ws.foldl (fun mem w => Function.update mem w.1 w.2) mem

/-- the running code may do this: its writes are on its own stack, and there is room for a frame -/
def runOk (L : Layout) (s : Sys) (cpu : Cpu) (ws : List (Nat × Nat)) : Bool :=
  match s.currentTask with
  | none => false
  | some c =>
    (ws.all fun w => decide (stackLo L s c ≤ w.1) && decide (w.1 < stackHi L s c)) &&
    decide (stackLo L s c + 56 ≤ cpu.ctx.esp) && decide (cpu.ctx.esp ≤ stackHi L s c)

/-- `task_create_prio` called by the running code -/
def create (L : Layout) (m : Machine) (name : List Char) (entry : Nat) (weight : Fin 256) :
    Machine :=
  match taskCreatePrio L m.sys name entry weight with
  | (s, none) => { m with sys := s }
  | (s, some slot) =>
    { m with
      sys := s
      expect := Function.update m.expect slot (startCtx L (s.tasks slot).stackTop)
      taken := Function.update m.taken slot none
      fresh := Function.update m.fresh slot true }

def step (L : Layout) (m : Machine) : Event → Option Machine
  | .run cpu ws =>
    if runOk L m.sys cpu ws then
      some { m with cpu := cpu, sys := { m.sys with mem := writeWords m.sys.mem ws } }
    else none
  | .timer => some (interrupt m timerInt)
  | .yield => some (interrupt m schedInt)
  | .sleep ms =>
    match taskSleep m.sys ms with
    | (s, false) => some { m with sys := s }
    | (s, true) => some (interrupt { m with sys := s } schedInt)
  | .create name entry weight => some (create L m name entry weight)
  | .kill id => some { m with sys := (taskKill m.sys id).1 }
  | .exit =>
    if m.sys.currentTask = some 0 then none else some { m with sys := taskExit m.sys }

end Noxis.Fixes
