import Mathlib.Algebra.GroupWithZero.Nat
import Mathlib.Logic.Function.Basic
import Mathlib.Data.Fin.Basic
import Mathlib.Tactic.Common

/-!
# 25-osfs11/include/sys/proc.h: the process table

* `Flags`     the bits of `p_flags`;
* `Proc`      a record of `proc_table`;
* `Msg`       `MESSAGE`, the members of its union that the tasks use;
* `Kernel`    the process table, `p_proc_ready`, and the `MESSAGE` at each linear address.

`Kernel.copies` is a record of the past which no code reads: every `phys_copy` of a message from one
process to another.

The kernel functions return `Except Fault`: a failed assertion, the panic at a deadlock, an index off
the table, a walk along the links that does not end, a scheduler that finds nobody.
-/

namespace Noxis.Ipc

abbrev nrTasks : Nat := 8
abbrev nrProcs : Nat := 32
def nrNativeProcs : Nat := 4

abbrev Pid := Fin (nrTasks + nrProcs)

instance neZero_pid : NeZero (nrTasks + nrProcs) := ⟨by decide⟩

def taskTty : Pid := 0
def taskSys : Pid := 1
def taskHd : Pid := 2
def taskFs : Pid := 3
def taskMm : Pid := 4
/-- `INIT`, the first native process after the tasks -/
def init : Pid := 8

/-- the bits of `p_flags` -/
structure Flags where
  sending : Bool
  receiving : Bool
  waiting : Bool
  hanging : Bool
  freeSlot : Bool
  deriving DecidableEq, Repr

def Flags.zero : Flags := ⟨false, false, false, false, false⟩
def Flags.SENDING : Flags := ⟨true, false, false, false, false⟩
def Flags.RECEIVING : Flags := ⟨false, true, false, false, false⟩
def Flags.FREE_SLOT : Flags := ⟨false, false, false, false, true⟩

/-- the values of `src_dest` and of `p_recvfrom` -/
inductive Who where
  | noTask | any | interrupt
  | proc (p : Pid)
  deriving DecidableEq, Repr

/-- `struct stackframe` -/
structure StackFrame where
  gs : Nat
  fs : Nat
  es : Nat
  ds : Nat
  edi : Nat
  esi : Nat
  ebp : Nat
  kernelEsp : Nat
  ebx : Nat
  edx : Nat
  ecx : Nat
  eax : Nat
  retaddr : Nat
  eip : Nat
  cs : Nat
  eflags : Nat
  esp : Nat
  ss : Nat
  deriving DecidableEq, Repr

/-- what a segment descriptor says: base, limit in bytes or in 4 KiB units -/
structure Desc where
  base : Nat
  limit : Nat
  limit4k : Bool
  deriving DecidableEq, Repr

/-- the bytes of a segment -/
def Desc.size (d : Desc) : Nat := (d.limit + 1) * (if d.limit4k then 4096 else 1)

structure Proc where
  regs : StackFrame
  ldtSel : Nat
  /-- `ldts[INDEX_LDT_C]` and `ldts[INDEX_LDT_RW]` -/
  ldtC : Desc
  ldtRw : Desc
  ticks : Nat
  priority : Nat
  name : List Char
  flags : Flags
  /-- a pointer into the process's own segment, 0 for none -/
  msg : Nat
  recvFrom : Who
  sendTo : Option Pid
  hasIntMsg : Bool
  qSending : Option Pid
  nextSending : Option Pid
  parent : Option Pid
  exitStatus : Int
  deriving DecidableEq, Repr

/-! ## messages -/

/-- `enum msgtype` -/
def HARD_INT : Int := 1
def WAIT : Int := 15
def FORK : Int := 16
def EXIT : Int := 17
def SYSCALL_RET : Int := 18

/-- `MESSAGE`: `i1` is RETVAL, STATUS, FD and FLAGS, `i2` is PID and CNT, `i3` is PROC_NR -/
structure Msg where
  source : Who
  type : Int
  i1 : Int
  i2 : Int
  i3 : Int
  i4 : Int
  l1 : Nat
  l2 : Nat
  p1 : Nat
  p2 : Nat
  deriving DecidableEq, Repr

/-- a `MESSAGE` after `reset_msg` -/
def Msg.reset : Msg := ⟨.proc 0, 0, 0, 0, 0, 0, 0, 0, 0, 0⟩

inductive Fault where
  | assert | deadlock | badIndex | diverge | noReady
  deriving DecidableEq, Repr

/-! ## the kernel's state -/

/-- one copy of a message: from the buffer `src` of the sender to the buffer `dst` of the receiver,
pointers in their own segments -/
structure Copy where
  sender : Pid
  src : Nat
  receiver : Pid
  dst : Nat
  deriving DecidableEq, Repr

structure Kernel where
  procs : Pid → Proc
  /-- `p_proc_ready` -/
  ready : Pid
  /-- the `MESSAGE` at each linear address -/
  mem : Nat → Msg
  /-- `p_flags` and `p_sendto` of `proc_table[INTERRUPT]`, ten records before the table -/
  below : Flags × Option Pid
  copies : List Copy

def Kernel.set (k : Kernel) (p : Pid) (f : Proc → Proc) : Kernel :=
  { k with procs := Function.update k.procs p (f (k.procs p)) }

@[simp] theorem Kernel.set_same (k : Kernel) (p : Pid) (f : Proc → Proc) :
    (k.set p f).procs p = f (k.procs p) := Function.update_self ..

theorem Kernel.set_ne (k : Kernel) {p q : Pid} (f : Proc → Proc) (h : q ≠ p) :
    (k.set p f).procs q = k.procs q := Function.update_of_ne h ..

/-- a part of every record, after one record has changed -/
theorem Kernel.proj_set {β : Type} (g : Proc → β) (k : Kernel) (p : Pid) (f : Proc → Proc) :
    (fun q => g ((k.set p f).procs q)) =
      Function.update (fun q => g (k.procs q)) p (g (f (k.procs p))) := by
  funext q
  by_cases h : q = p
  · subst h
    rw [Kernel.set_same, Function.update_self]
  · rw [Kernel.set_ne _ _ h, Function.update_of_ne h]

/-- a part of the records that a change leaves alone -/
theorem Kernel.proj_set_eq {β : Type} (g : Proc → β) (k : Kernel) (p : Pid) (f : Proc → Proc)
    (hg : g (f (k.procs p)) = g (k.procs p)) :
    (fun q => g ((k.set p f).procs q)) = fun q => g (k.procs q) := by
  rw [Kernel.proj_set, hg]
  exact Function.update_eq_self ..

@[simp] theorem Kernel.set_ready (k : Kernel) (p : Pid) (f : Proc → Proc) :
    (k.set p f).ready = k.ready := rfl
@[simp] theorem Kernel.set_mem (k : Kernel) (p : Pid) (f : Proc → Proc) :
    (k.set p f).mem = k.mem := rfl
@[simp] theorem Kernel.set_below (k : Kernel) (p : Pid) (f : Proc → Proc) :
    (k.set p f).below = k.below := rfl
@[simp] theorem Kernel.set_copies (k : Kernel) (p : Pid) (f : Proc → Proc) :
    (k.set p f).copies = k.copies := rfl

/-! ## faults -/

/-- `assert` -/
def check (p : Prop) [Decidable p] : Except Fault Unit :=
  if p then .ok () else .error .assert

section
variable {β : Type} {p : Prop} [Decidable p] {f : Unit → Except Fault β} {b : β}

/-- what follows an assertion runs only if the assertion holds -/
@[simp] theorem check_bind_ok : (check p >>= f) = .ok b ↔ p ∧ f () = .ok b := by
  unfold check
  by_cases h : p
  · rw [if_pos h]
    exact ⟨fun e => ⟨h, e⟩, fun e => e.2⟩
  · rw [if_neg h]
    exact ⟨fun e => (nomatch e), fun e => absurd e.1 h⟩

theorem bind_ok {α : Type} {x : Except Fault α} {g : α → Except Fault β} :
    (x >>= g) = .ok b ↔ ∃ a, x = .ok a ∧ g a = .ok b := by
  cases x with
  | error e => exact ⟨fun h => (nomatch h), fun ⟨_, h, _⟩ => (nomatch h)⟩
  | ok a => exact ⟨fun h => ⟨a, rfl, h⟩, fun ⟨_, ha, h⟩ => by cases ha; exact h⟩

end

end Noxis.Ipc
