import Noxis.Ipc.Proc
import Noxis.Lib.Chain

/-!
# 25-osfs11/kernel/proc.c: schedule, sys_sendrec, inform_int

The C code as it computes.  `sys_sendrec` runs with interrupts disabled, so each of these functions
is one transition.  The loops over the links of the process table have one turn more than there are
records (`fuel`); a loop that needs more does not end.
-/

namespace Noxis.Ipc

/-- turns of a loop that follows links of the process table -/
def fuel : Nat := nrTasks + nrProcs + 1

/-! ## schedule -/

/-- the first runnable process with the most ticks, if one has any -/
def mostTicks (procs : Pid → Proc) : Option Pid :=
  ((List.finRange (nrTasks + nrProcs)).foldl (fun best p =>
    if (procs p).flags = .zero ∧ best.1 < (procs p).ticks then ((procs p).ticks, some p) else best)
    ((0, none) : Nat × Option Pid)).2

/-- every runnable process gets its priority as ticks -/
def recharge (procs : Pid → Proc) : Pid → Proc := fun p =>
  if (procs p).flags = .zero then { procs p with ticks := (procs p).priority } else procs p

def schedule (k : Kernel) : Except Fault Kernel :=
  match mostTicks k.procs with
  | some p => .ok { k with ready := p }
  | none =>
    match mostTicks (recharge k.procs) with
    | some p => .ok { k with procs := recharge k.procs, ready := p }
    | none => .error .noReady

/-! ## va2la, block, unblock, deadlock -/

/-- tasks and native processes live in a flat segment -/
def va2la (k : Kernel) (pid : Pid) (va : Nat) : Except Fault Nat := do
  let la := ((k.procs pid).ldtRw.base + va) % 2 ^ 32
  check (pid.val < nrTasks + nrNativeProcs → la = va)
  .ok la

def block (k : Kernel) (p : Pid) : Except Fault Kernel := do
  check ((k.procs p).flags ≠ .zero)
  schedule k

def unblock (k : Kernel) (p : Pid) : Except Fault Unit :=
  check ((k.procs p).flags = .zero)

/-- follow `p_sendto` from `p` through the SENDING processes until it is `src` -/
def deadlockFrom (procs : Pid → Proc) (src : Pid) : Nat → Pid → Except Fault Bool
  | 0, _ => .error .diverge
  | n + 1, p =>
    if (procs p).flags.sending then
      match (procs p).sendTo with
      | none => .error .badIndex
      | some q => if q = src then .ok true else deadlockFrom procs src n q
    else .ok false

/-- the chain that it prints before it returns 1 is left out -/
def deadlock (k : Kernel) (src dest : Pid) : Except Fault Bool :=
  deadlockFrom k.procs src fuel dest

/-- `phys_copy (va2la (receiver, dst), va2la (sender, src), sizeof (MESSAGE))` -/
def copyMsg (k : Kernel) (receiver : Pid) (dst : Nat) (sender : Pid) (src : Nat) :
    Except Fault Kernel := do
  let la ← va2la k receiver dst
  let la' ← va2la k sender src
  .ok { k with
    mem := Function.update k.mem la (k.mem la')
    copies := k.copies ++ [⟨sender, src, receiver, dst⟩] }

/-! ## msg_send -/

/-- the receiver is waiting for this sender -/
def wants (k : Kernel) (dest sender : Pid) : Prop :=
  (k.procs dest).flags.receiving = true ∧
  ((k.procs dest).recvFrom = .proc sender ∨ (k.procs dest).recvFrom = .any)

instance (k : Kernel) (dest sender : Pid) : Decidable (wants k dest sender) :=
  inferInstanceAs (Decidable (_ ∧ _))

/-- the hand-over to a receiver that waits -/
def handOver (k : Kernel) (sender dest : Pid) (m : Nat) : Except Fault Kernel := do
  check ((k.procs dest).msg ≠ 0)
  check (m ≠ 0)
  let k ← copyMsg k dest (k.procs dest).msg sender m
  let k := k.set dest fun p =>
    { p with msg := 0, flags := { p.flags with receiving := false }, recvFrom := .noTask }
  unblock k dest
  check ((k.procs dest).sendTo = none)
  check ((k.procs sender).flags = .zero)
  check ((k.procs sender).msg = 0)
  check ((k.procs sender).recvFrom = .noTask)
  check ((k.procs sender).sendTo = none)
  .ok k

/-- append the sender to the sending queue -/
def enqueue (k : Kernel) (sender dest : Pid) : Except Fault Kernel :=
  match (k.procs dest).qSending with
  | some h =>
    match lastOf (fun p => (k.procs p).nextSending) fuel h with
    | some z => .ok ((k.set z fun p => { p with nextSending := some sender }).set sender
        fun p => { p with nextSending := none })
    | none => .error .diverge
  | none => .ok ((k.set dest fun p => { p with qSending := some sender }).set sender
      fun p => { p with nextSending := none })

/-- the sender blocks in the queue of a receiver that does not wait for it -/
def queueUp (k : Kernel) (sender dest : Pid) (m : Nat) : Except Fault Kernel := do
  let k := k.set sender fun p => { p with flags := { p.flags with sending := true } }
  check ((k.procs sender).flags = .SENDING)
  let k := k.set sender fun p => { p with sendTo := some dest, msg := m }
  let k ← enqueue k sender dest
  let k ← block k sender
  check ((k.procs sender).flags = .SENDING)
  check ((k.procs sender).msg ≠ 0)
  check ((k.procs sender).recvFrom = .noTask)
  check ((k.procs sender).sendTo = some dest)
  .ok k

def msgSend (k : Kernel) (sender dest : Pid) (m : Nat) : Except Fault Kernel := do
  check (sender ≠ dest)
  let dl ← deadlock k sender dest
  if dl then .error .deadlock
  else if wants k dest sender then handOver k sender dest m
  else queueUp k sender dest m

/-! ## msg_receive -/

/-- the interrupt that was waiting for the receiver -/
def takeInt (k : Kernel) (me : Pid) (m : Nat) : Except Fault Kernel := do
  check (m ≠ 0)
  let la ← va2la k me m
  let k := { k with
    mem := Function.update k.mem la { Msg.reset with source := .interrupt, type := HARD_INT } }
  let k := k.set me fun p => { p with hasIntMsg := false }
  check ((k.procs me).flags = .zero)
  check ((k.procs me).msg = 0)
  check ((k.procs me).sendTo = none)
  .ok k

/-- the assertions about the receiver and the process it will take the message from -/
def checkPair (k : Kernel) (me src : Pid) : Except Fault Unit := do
  check ((k.procs me).flags = .zero)
  check ((k.procs me).msg = 0)
  check ((k.procs me).recvFrom = .noTask)
  check ((k.procs me).sendTo = none)
  check ((k.procs me).qSending ≠ none)
  check ((k.procs src).flags = .SENDING)
  check ((k.procs src).msg ≠ 0)
  check ((k.procs src).recvFrom = .noTask)
  check ((k.procs src).sendTo = some me)

/-- `copyok`: the process to take the message from, and `prev` -/
def choose (k : Kernel) (me : Pid) : Who → Except Fault (Option (Option Pid × Pid))
  | .any =>
    match (k.procs me).qSending with
    | none => .ok none
    | some h => do
      checkPair k me h
      .ok (some (none, h))
  | .proc src =>
    if (k.procs src).flags.sending = true ∧ (k.procs src).sendTo = some me then do
      check ((k.procs me).qSending ≠ none)
      match findFrom (fun p => (k.procs p).nextSending) src fuel none (k.procs me).qSending with
      | none => .error .diverge
      | some (prev, _) => do
        checkPair k me src
        .ok (some (prev, src))
    else .ok none
  | .interrupt =>
    -- `&proc_table[src]` with a negative `src`
    if k.below.1.sending = true ∧ k.below.2 = some me then .error .badIndex else .ok none
  | .noTask => .error .badIndex

/-- take the sender out of the queue -/
def dequeue (k : Kernel) (me src : Pid) (prev : Option Pid) : Except Fault Kernel :=
  if (k.procs me).qSending = some src then do
    check (prev = none)
    .ok ((k.set me fun p => { p with qSending := (k.procs src).nextSending }).set src
      fun p => { p with nextSending := none })
  else
    match prev with
    | none => .error .assert
    | some z => .ok ((k.set z fun p => { p with nextSending := (k.procs src).nextSending }).set src
        fun p => { p with nextSending := none })

/-- copy the message and unblock the sender -/
def takeMsg (k : Kernel) (me src : Pid) (prev : Option Pid) (m : Nat) : Except Fault Kernel := do
  let k ← dequeue k me src prev
  check (m ≠ 0)
  check ((k.procs src).msg ≠ 0)
  let k ← copyMsg k me m src (k.procs src).msg
  let k := k.set src fun p =>
    { p with msg := 0, sendTo := none, flags := { p.flags with sending := false } }
  unblock k src
  .ok k

/-- nobody is sending: the receiver blocks -/
def waitFor (k : Kernel) (me : Pid) (src : Who) (m : Nat) : Except Fault Kernel := do
  let k := k.set me fun p =>
    { p with flags := { p.flags with receiving := true }, msg := m, recvFrom := src }
  check ((k.procs me).flags = .RECEIVING)
  check ((k.procs me).msg ≠ 0)
  check ((k.procs me).recvFrom ≠ .noTask)
  check ((k.procs me).sendTo = none)
  check ((k.procs me).hasIntMsg = false)
  block k me

def msgReceive (k : Kernel) (me : Pid) (src : Who) (m : Nat) : Except Fault Kernel := do
  check (src ≠ .proc me)
  if (k.procs me).hasIntMsg = true ∧ (src = .any ∨ src = .interrupt) then takeInt k me m
  else
    match ← choose k me src with
    | some (prev, p) => takeMsg k me p prev m
    | none => waitFor k me src m

/-! ## sys_sendrec, inform_int -/

inductive IpcFunction where
  | SEND | RECEIVE
  deriving DecidableEq, Repr

def sysSendrec (k : Kernel) (function : IpcFunction) (srcDest : Who) (m : Nat) (p : Pid) :
    Except Fault Kernel := do
  check (srcDest ≠ .noTask)
  let la ← va2la k p m
  let k := { k with mem := Function.update k.mem la { k.mem la with source := .proc p } }
  check (srcDest ≠ .proc p)
  match function, srcDest with
  | .SEND, .proc dest => msgSend k p dest m
  | .SEND, _ => .error .badIndex
  | .RECEIVE, src => msgReceive k p src m

def informInt (k : Kernel) (task : Pid) : Except Fault Kernel :=
  if (k.procs task).flags.receiving = true ∧
      ((k.procs task).recvFrom = .interrupt ∨ (k.procs task).recvFrom = .any) then do
    let la := (k.procs task).msg
    let k := { k with
      mem := Function.update k.mem la { k.mem la with source := .interrupt, type := HARD_INT } }
    let k := k.set task fun p =>
      { p with
        msg := 0, hasIntMsg := false, flags := { p.flags with receiving := false }
        recvFrom := .noTask }
    unblock k task
    check ((k.procs task).msg = 0)
    check ((k.procs task).recvFrom = .noTask)
    check ((k.procs task).sendTo = none)
    .ok k
  else .ok (k.set task fun p => { p with hasIntMsg := true })

end Noxis.Ipc
