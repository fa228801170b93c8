import Mathlib.Algebra.GroupWithZero.Nat
import Mathlib.Logic.Function.Basic
import Mathlib.Data.Fin.Basic
import Mathlib.Tactic.Common

/-!
# 23-fixes/cpu/task.c: the task table and the scheduler

The C code as it computes, on the state it works on:

* `Registers`        `registers_t`, the frame that `interrupt.asm` pushes;
* `Task`             `task_t`; the unsigned fields are naturals, wrapped where the code adds to them;
* `Sys`              the task table, `current_task`, `tick`, the bump pointer of `kmalloc` and the
                     memory, a 32-bit word at each (4-aligned) address;
* `schedulerTick`    takes the POINTER `r` to the frame: `*r` is read from and written to the memory.

A function pointer is its address; `Layout` has the addresses that the link fixes.
-/

namespace Noxis.Fixes

/-- how many tasks may exist at once, the kernel/idle task in slot 0 included -/
abbrev maxTasks : Nat := 32
def taskStackSize : Nat := 4096
def kernelCs : Nat := 0x08

abbrev Slot := Fin maxTasks

instance neZero_maxTasks : NeZero maxTasks := ⟨by decide⟩

/-- a weight is one byte -/
instance neZero_weight : NeZero 256 := ⟨by decide⟩

inductive TaskState where
  | dead | ready | running | sleeping
  deriving DecidableEq, Repr

/-- `registers_t`, in the order of the words in memory -/
structure Registers where
  ds : Nat
  edi : Nat
  esi : Nat
  ebp : Nat
  useless : Nat
  ebx : Nat
  edx : Nat
  ecx : Nat
  eax : Nat
  intNo : Nat
  errCode : Nat
  eip : Nat
  cs : Nat
  eflags : Nat
  deriving DecidableEq, Repr

def Registers.zero : Registers := ⟨0, 0, 0, 0, 0, 0, 0, 0, 0, 0, 0, 0, 0, 0⟩

structure Task where
  id : Nat
  name : List Char
  state : TaskState
  ticks : Nat
  killReq : Bool
  wakeTick : Nat
  entry : Nat
  stackTop : Nat
  weight : Nat
  quantumLeft : Nat
  stackBase : Nat
  regs : Registers
  deriving DecidableEq, Repr

structure Sys where
  tasks : Slot → Task
  /-- `none` is the `-1` of the code -/
  currentTask : Option Slot
  tick : Nat
  freeMemAddr : Nat
  mem : Nat → Nat

/-- addresses fixed by the link: `task_trampoline` and the kernel stack that slot 0 runs on -/
structure Layout where
  trampoline : Nat
  kernelLo : Nat
  kernelHi : Nat

def Sys.setTask (s : Sys) (i : Slot) (f : Task → Task) : Sys :=
  { s with tasks := Function.update s.tasks i (f (s.tasks i)) }

@[simp] theorem Sys.setTask_same (s : Sys) (i : Slot) (f : Task → Task) :
    (s.setTask i f).tasks i = f (s.tasks i) := Function.update_self ..

theorem Sys.setTask_ne (s : Sys) {i j : Slot} (f : Task → Task) (h : j ≠ i) :
    (s.setTask i f).tasks j = s.tasks j := Function.update_of_ne h ..

@[simp] theorem Sys.setTask_current (s : Sys) (i : Slot) (f : Task → Task) :
    (s.setTask i f).currentTask = s.currentTask := rfl
@[simp] theorem Sys.setTask_tick (s : Sys) (i : Slot) (f : Task → Task) :
    (s.setTask i f).tick = s.tick := rfl
@[simp] theorem Sys.setTask_free (s : Sys) (i : Slot) (f : Task → Task) :
    (s.setTask i f).freeMemAddr = s.freeMemAddr := rfl
@[simp] theorem Sys.setTask_mem (s : Sys) (i : Slot) (f : Task → Task) :
    (s.setTask i f).mem = s.mem := rfl

/-! ## frames in memory -/

/-- `*r` -/
def readRegs (mem : Nat → Nat) (r : Nat) : Registers :=
  { ds := mem r, edi := mem (r + 4), esi := mem (r + 8), ebp := mem (r + 12),
    useless := mem (r + 16), ebx := mem (r + 20), edx := mem (r + 24), ecx := mem (r + 28),
    eax := mem (r + 32), intNo := mem (r + 36), errCode := mem (r + 40), eip := mem (r + 44),
    cs := mem (r + 48), eflags := mem (r + 52) }

/-- `*r = x` -/
def writeRegs (mem : Nat → Nat) (r : Nat) (x : Registers) : Nat → Nat := fun a =>
  if a = r then x.ds else if a = r + 4 then x.edi else if a = r + 8 then x.esi
  else if a = r + 12 then x.ebp else if a = r + 16 then x.useless else if a = r + 20 then x.ebx
  else if a = r + 24 then x.edx else if a = r + 28 then x.ecx else if a = r + 32 then x.eax
  else if a = r + 36 then x.intNo else if a = r + 40 then x.errCode else if a = r + 44 then x.eip
  else if a = r + 48 then x.cs else if a = r + 52 then x.eflags else mem a

theorem readRegs_writeRegs (mem : Nat → Nat) (r : Nat) (x : Registers) :
    readRegs (writeRegs mem r x) r = x := by
  simp [readRegs, writeRegs]

theorem writeRegs_frame (mem : Nat → Nat) (r : Nat) (x : Registers) (a : Nat)
    (h : a < r ∨ r + 56 ≤ a) : writeRegs mem r x a = mem a := by
  unfold writeRegs
  repeat rw [if_neg (by omega)]

/-! ## kmalloc -/

/-- `kmalloc (size, align, _)`: the address and the new `free_mem_addr` -/
def kmalloc (freeMemAddr size : Nat) (align : Bool) : Nat × Nat :=
  let a := if align && freeMemAddr % 0x1000 != 0 then
      (freeMemAddr - freeMemAddr % 0x1000 + 0x1000) % 2 ^ 32 else freeMemAddr
  (a, (a + size) % 2 ^ 32)

/-! ## task_init, task_create_prio, task_kill, the end of a task -/

/-- copy at most 15 characters -/
def setName (n : List Char) : List Char := (n.takeWhile (· ≠ '\x00')).take 15

/-- a slot of the zeroed table -/
def Task.blank : Task :=
  { id := 0, name := [], state := .dead, ticks := 0, killReq := false, wakeTick := 0, entry := 0,
    stackTop := 0, weight := 0, quantumLeft := 0, stackBase := 0, regs := .zero }

/-- the task table that `task_init` leaves: slot 0 is the kernel, every other slot is free -/
def taskInit : Slot → Task :=
  Function.update (fun _ => Task.blank) 0
    { Task.blank with name := setName "kernel".toList, state := .running }

/-- the first dead slot, slot 0 excluded -/
def freeSlot (tasks : Slot → Task) : Option Slot :=
  (List.finRange maxTasks).find? fun i => decide (i ≠ 0) && decide ((tasks i).state = .dead)

/-- the five words at the top of a new stack; `sp` ends at the `int_no` word -/
def startFrame (L : Layout) (mem : Nat → Nat) (top : Nat) : Nat → Nat := fun a =>
  if a = top - 4 then 0x202 else if a = top - 8 then kernelCs
  else if a = top - 12 then L.trampoline else if a = top - 16 then 0
  else if a = top - 20 then 0 else mem a

/-- the registers that `task_create_prio` writes in the PCB -/
def startRegs (L : Layout) (top : Nat) : Registers :=
  { Registers.zero with
    ds := 0x10, useless := top - 20, eip := L.trampoline, cs := kernelCs, eflags := 0x202 }

/-- the stack of a slot: the one it had before, or a fresh one (0: out of memory) -/
def slotStack (s : Sys) (slot : Slot) : Nat × Sys :=
  if (s.tasks slot).stackBase ≠ 0 then ((s.tasks slot).stackBase, s)
  else
    let (stack, free) := kmalloc s.freeMemAddr taskStackSize true
    let s := { s with freeMemAddr := free }
    if stack = 0 then (0, s)
    else (stack, s.setTask slot fun t => { t with stackBase := stack })

/-- the record that `task_create_prio` writes in the slot -/
def newTask (L : Layout) (slot : Slot) (name : List Char) (entry : Nat) (weight : Fin 256)
    (stack : Nat) (t : Task) : Task :=
  let w := if weight = 0 then 1 else weight.val
  { t with
    id := slot.val, name := setName name, state := .ready, ticks := 0, killReq := false,
    wakeTick := 0, entry := entry, stackTop := stack + taskStackSize, weight := w,
    quantumLeft := w, regs := startRegs L (stack + taskStackSize) }

/-- `task_create_prio`: the slot handed out, `none` for `-1` -/
def taskCreatePrio (L : Layout) (s : Sys) (name : List Char) (entry : Nat) (weight : Fin 256) :
    Sys × Option Slot :=
  match freeSlot s.tasks with
  | none => (s, none)
  | some slot =>
    let (stack, s) := slotStack s slot
    if stack = 0 then (s, none)
    else
      (({ s with mem := startFrame L s.mem (stack + taskStackSize) }).setTask slot
        (newTask L slot name entry weight stack), some slot)

/-- `task_kill`: the task is only asked to exit -/
def taskKill (s : Sys) (id : Int) : Sys × Int :=
  if h : 0 < id ∧ id < maxTasks then
    let i : Slot := ⟨id.toNat, by omega⟩
    if (s.tasks i).state = .dead then (s, -1)
    else (s.setTask i fun t => { t with killReq := true }, 0)
  else (s, -1)

/-- the end of `task_trampoline`: the slot of the running task is marked dead, its code goes on in
the `hlt` loop -/
def taskExit (s : Sys) : Sys :=
  match s.currentTask with
  | none => s
  | some me => s.setTask me fun t => { t with state := .dead, killReq := false }

/-- `task_sleep` up to its `task_yield`; the flag tells whether the yield is reached -/
def taskSleep (s : Sys) (ms : Nat) : Sys × Bool :=
  match s.currentTask with
  | none => (s, false)
  | some me =>
    if me = 0 ∨ (s.tasks me).state = .dead then (s, false)
    else
      let n := (ms + 19) % 2 ^ 32 / 20
      let n := if n = 0 then 1 else n
      (s.setTask me fun t => { t with wakeTick := (s.tick + n) % 2 ^ 32, state := .sleeping }, true)

/-! ## scheduler_tick -/

/-- part 1: the interrupted context goes to the PCB; a RUNNING task becomes READY -/
def saveCurrent (s : Sys) (r : Nat) : Sys :=
  match s.currentTask with
  | none => s
  | some c => s.setTask c fun t =>
      { t with
        regs := readRegs s.mem r
        state := if t.state = .running then .ready else t.state }

/-- part 2: the weighted task that still has slices left in its quantum -/
def quantumTask (s : Sys) : Option Slot :=
  match s.currentTask with
  | none => none
  | some c =>
    if c ≠ 0 ∧ (s.tasks c).state = .ready ∧ 0 < (s.tasks c).quantumLeft then some c else none

/-- `idx` of turn `i` of the search; the kernel slot is skipped -/
def searchIdx (cur : Option Slot) (i : Nat) : Slot :=
  let k := match cur with
    | none => i - 1
    | some c => c.val + i
  if k % maxTasks = 0 then 1 else ⟨k % maxTasks, Nat.mod_lt _ (by decide)⟩

/-- part 3, `n` turns of the loop left at turn `i`: the next READY task, SLEEPING tasks whose tick
has come are woken on the way -/
def search (tick : Nat) (cur : Option Slot) :
    Nat → Nat → (Slot → Task) → (Slot → Task) × Option Slot
  | 0, _, tasks => (tasks, none)
  | n + 1, i, tasks =>
    let idx := searchIdx cur i
    match (tasks idx).state with
    | .dead => search tick cur n (i + 1) tasks
    | .running => search tick cur n (i + 1) tasks
    | .ready => (tasks, some idx)
    | .sleeping =>
      if (tasks idx).wakeTick ≤ tick then
        (Function.update tasks idx { tasks idx with state := .ready }, some idx)
      else search tick cur n (i + 1) tasks

/-- nothing is runnable: the kernel/idle task gets the CPU -/
def goIdle (s : Sys) (r : Nat) : Sys :=
  match s.currentTask with
  | none => s
  | some c =>
    if c = 0 then s.setTask 0 fun t => { t with state := .running }
    else
      let s := s.setTask 0 fun t => { t with state := .running, ticks := (t.ticks + 1) % 2 ^ 32 }
      { s with currentTask := some 0, mem := writeRegs s.mem r (s.tasks 0).regs }

/-- part 4: the next task gets a fresh quantum of `weight` slices and the frame -/
def dispatch (s : Sys) (next : Slot) (r : Nat) : Sys :=
  let s := s.setTask next fun t =>
    { t with
      state := .running, ticks := (t.ticks + 1) % 2 ^ 32, quantumLeft := (t.weight + 255) % 256 }
  { s with currentTask := some next, mem := writeRegs s.mem r (s.tasks next).regs }

def schedulerTick (s : Sys) (r : Nat) : Sys :=
  let s := saveCurrent s r
  match quantumTask s with
  | some c => s.setTask c fun t =>
      { t with quantumLeft := t.quantumLeft - 1, ticks := (t.ticks + 1) % 2 ^ 32, state := .running }
  | none =>
    match search s.tick s.currentTask maxTasks 1 s.tasks with
    | (tasks, none) => goIdle { s with tasks := tasks } r
    | (tasks, some next) => dispatch { s with tasks := tasks } next r

end Noxis.Fixes
