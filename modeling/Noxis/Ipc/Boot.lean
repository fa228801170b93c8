import Noxis.Ipc.Deliver
import Noxis.Ipc.Mm

/-!
# 25-osfs11/kernel/main.c: the process table at the start

`bootProc` is the record that `kernel_main` leaves.  The selectors and entry points in `regs`, which
only `restart` reads, stay zero here.
-/

namespace Noxis.Ipc
open Run

def StackFrame.zero : StackFrame := ⟨0, 0, 0, 0, 0, 0, 0, 0, 0, 0, 0, 0, 0, 0, 0, 0, 0, 0⟩

/-- a record of zeroed memory: the number 0 is a process -/
def Proc.zero : Proc :=
  { regs := .zero, ldtSel := 0, ldtC := ⟨0, 0, false⟩, ldtRw := ⟨0, 0, false⟩, ticks := 0
    priority := 0, name := [], flags := .zero, msg := 0, recvFrom := .proc 0, sendTo := some 0
    hasIntMsg := false, qSending := none, nextSending := none, parent := some 0, exitStatus := 0 }

/-- the names in `task_table` and `user_proc_table` -/
def taskName (i : Pid) : List Char :=
  (["TTY", "SYS", "HD", "FS", "MM", "GFX", "DESKTOP", "NET", "INIT", "TestA", "TestB",
    "TestC"].getD i.val "").toList

/-- the record of process `i`; `kernelMap` is `k_base + k_limit` -/
def bootProc (kernelMap : Nat) (i : Pid) : Proc :=
  if nrTasks + nrNativeProcs ≤ i.val then { Proc.zero with flags := .FREE_SLOT }
  else
    let prio := if i.val < nrTasks then 15 else 5
    let seg : Desc := if i = init then ⟨0, kernelMap / 4096, true⟩ else ⟨0, 0xFFFFF, true⟩
    { Proc.zero with
      ldtC := seg, ldtRw := seg, ticks := prio, priority := prio, name := taskName i, parent := none
      recvFrom := .noTask, sendTo := none }

def boot (kernelMap : Nat) : Kernel :=
  { procs := bootProc kernelMap, ready := taskTty, mem := fun _ => Msg.reset
    below := (.zero, none), copies := [] }

theorem bootProc_flags (n : Nat) (p : Pid) :
    (bootProc n p).flags.sending = false ∧ (bootProc n p).flags.receiving = false ∧
      (bootProc n p).qSending = none := by
  unfold bootProc
  by_cases h : nrTasks + nrNativeProcs ≤ p.val
  · rw [if_pos h]
    exact ⟨rfl, rfl, rfl⟩
  · rw [if_neg h]
    exact ⟨rfl, rfl, rfl⟩

/-- the world at the start -/
def bootWorld : World :=
  { k := boot 0x80000, now := 0, lastSend := fun p => ⟨0, p, 0, p⟩
    lastRecv := fun p => ⟨0, p, .noTask, 0⟩, sends := [], log := [] }

theorem bootWorld_init : Init bootWorld :=
  ⟨fun p => ⟨(bootProc_flags _ p).1, (bootProc_flags _ p).2.1⟩, fun p => (bootProc_flags _ p).2.2,
    rfl, rfl⟩

/-- two processes queue up at the file system, which then asks for the second one -/
def twoSenders : List Call :=
  [.send init taskFs 0x1000, .send taskTty taskFs 0x2000, .receive taskFs (some taskTty) 0x3000,
    .receive taskFs none 0x3000]

/-- the run really takes its four steps -/
example : ((exec step bootWorld twoSenders).map fun w => w.log.map fun x => x.send.time) =
    some [1, 0] := by decide +kernel

namespace Mm

/-- a layout: the native processes have the first megabyte, the rest below PROCS_BASE is free -/
def someLayout : Layout :=
  { mmMsg := 0x200000, mmLocal := 0x200100, memorySize := 0x2000000
    low := fun a => if a < 0x100000 then some init else none }

/-- the machine at the start, MM at the top of its loop -/
def bootMachine : Machine := { k := boot 0x80000, ram := fun _ => 0, todo := [], snap := none }

/-- the tasks wait for requests -/
def tasksWait : List Event :=
  List.replicate 4 (.call .RECEIVE .any 0x1000) ++ [.mm] ++
    List.replicate 3 (.call .RECEIVE .any 0x1000)

end Mm

end Noxis.Ipc
