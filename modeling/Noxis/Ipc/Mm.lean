import Noxis.Lib.Run
import Noxis.Ipc.Sendrec

/-!
# 25-osfs11/mm: fork, exit and wait among preemptible processes

One CPU: `p_proc_ready` runs.  `MM` is a process like the others; between any two of its micro-steps
(`Micro`) the clock may tick and another process may run.  `Machine.todo` is the rest of the request
that MM is working on; an empty list is the top of the loop in `task_mm`.

* `microStep`   one statement of `do_fork`, `do_exit`, `do_wait`, `cleanup` or `task_mm`;
* `step`        MM goes on, another process computes or makes a system call, the clock ticks, an
                interrupt notifies a task.

`Machine.snap` is a record of the past which no step reads: what the parent was when its record was
last duplicated.  Requests other than FORK, EXIT and WAIT are left out.
-/

namespace Noxis.Ipc.Mm
open Run

def procsBase : Nat := 0xA00000
def procImageSizeDefault : Nat := 0x100000

/-- a pid that `NO_TASK` stands for in a message -/
def noTaskNumber : Int := 60

/-- addresses and sizes fixed outside of MM -/
structure Layout where
  /-- `&mm_msg`, and the message on MM's stack -/
  mmMsg : Nat
  mmLocal : Nat
  memorySize : Nat
  /-- the task or native process that an address below PROCS_BASE belongs to -/
  low : Nat → Option Pid

/-- the only process that writes to an address: the images of forked processes lie one behind the
other from PROCS_BASE on -/
def owner (L : Layout) (a : Nat) : Option Pid :=
  if a < procsBase then L.low a
  else if h : nrTasks + nrNativeProcs + (a - procsBase) / procImageSizeDefault < nrTasks + nrProcs
  then some ⟨_, h⟩ else none

/-- what is left to do of the current request -/
inductive Micro where
  /-- `switch (msgtype)` -/
  | dispatch
  /-- the reply of `task_mm` -/
  | reply (src : Pid)
  /-- `do_fork`: find a free slot, `*p = proc_table[pid]` -/
  | dup (pid : Pid)
  /-- `p->ldt_sel`, `p->p_parent`, `p->name` -/
  | settle (pid child : Pid) (ldtSel : Nat)
  /-- the caller's segments, `alloc_mem` -/
  | alloc (pid child : Pid)
  /-- `phys_copy`, `n` bytes left -/
  | image (dst src n : Nat)
  | initDescC (child : Pid) (base : Nat)
  | initDescRw (child : Pid) (base : Nat)
  /-- `send_recv (BOTH, TASK_FS, &msg2fs)` in two system calls -/
  | tellFs (type : Int) (pid : Pid)
  | hearFs
  /-- `mm_msg.PID`, the message to the child -/
  | birth (child : Pid)
  /-- `do_exit`: the status, and the parent -/
  | exitMark (pid parent : Pid) (status : Int)
  /-- `do_exit`: the children from number `i` on -/
  | exitKids (pid : Pid) (i : Nat)
  /-- `do_wait`: the children from number `i` on -/
  | waitScan (pid : Pid) (i children : Nat)
  /-- `cleanup`: the message to the parent, then `FREE_SLOT` -/
  | cleanup (p : Pid)
  | free (p : Pid)
  deriving DecidableEq, Repr

/-- what a process was when it was duplicated -/
structure Snap where
  parent : Pid
  child : Pid
  regs : StackFrame
  ram : Nat → Nat

structure Machine where
  k : Kernel
  /-- the bytes of memory; a `MESSAGE` is in `k.mem` -/
  ram : Nat → Nat
  todo : List Micro
  snap : Option Snap

def Machine.setMsg (m : Machine) (a : Nat) (f : Msg → Msg) : Machine :=
  { m with k := { m.k with mem := Function.update m.k.mem a (f (m.k.mem a)) } }

def Machine.setProc (m : Machine) (p : Pid) (f : Proc → Proc) : Machine :=
  { m with k := m.k.set p f }

/-- a system call of MM itself; then `todo` is left -/
def Machine.call (m : Machine) (fn : IpcFunction) (who : Who) (buf : Nat) (todo : List Micro) :
    Option Machine :=
  match sysSendrec m.k fn who buf taskMm with
  | .error _ => none
  | .ok k => some { m with k := k, todo := todo }

theorem Machine.call_some {m m' : Machine} {fn : IpcFunction} {who : Who} {buf : Nat}
    {todo : List Micro} : m.call fn who buf todo = some m' ↔
      ∃ k, sysSendrec m.k fn who buf taskMm = .ok k ∧ m' = { m with k := k, todo := todo } := by
  unfold Machine.call
  cases sysSendrec m.k fn who buf taskMm with
  | error e => exact ⟨fun h => (nomatch h), fun ⟨_, h, _⟩ => (nomatch h)⟩
  | ok k =>
    exact ⟨fun h => ⟨k, rfl, (Option.some.inj h).symm⟩, fun ⟨_, h, h'⟩ => by cases h; rw [h']⟩

/-- the first record whose flags are `FREE_SLOT` -/
def freeRecord (k : Kernel) : Option Pid :=
  (List.finRange (nrTasks + nrProcs)).find? fun i => decide ((k.procs i).flags = .FREE_SLOT)

theorem freeRecord_flags {k : Kernel} {child : Pid} (h : freeRecord k = some child) :
    (k.procs child).flags = .FREE_SLOT := by
  have := List.find?_some h
  exact of_decide_eq_true this

/-- where `alloc_mem` puts a process -/
def childBase (pid : Pid) : Nat :=
  procsBase + (pid.val - (nrTasks + nrNativeProcs)) * procImageSizeDefault

/-- `alloc_mem`: `none` is a failed assertion or a panic -/
def allocMem (L : Layout) (pid : Pid) (memsize : Nat) : Option Nat :=
  if pid.val < nrTasks + nrNativeProcs ∨ procImageSizeDefault < memsize ∨
      L.memorySize ≤ childBase pid + memsize then none
  else some (childBase pid)

/-- `"%s_%d"` -/
def childName (name : List Char) (child : Pid) : List Char :=
  name ++ '_' :: (Nat.toDigits 10 child.val)

def imageDesc (base : Nat) : Desc := ⟨base, (procImageSizeDefault - 1) / 4096, true⟩

/-- the top of the loop: `send_recv (RECEIVE, ANY, &mm_msg)` -/
def hear (L : Layout) (m : Machine) : Option Machine :=
  (m.setMsg L.mmMsg fun _ => Msg.reset).call .RECEIVE .any L.mmMsg [.dispatch]

/-- one micro-step; `rest` is what follows it -/
def microStep (L : Layout) (m : Machine) (rest : List Micro) : Micro → Option Machine
  | .dispatch =>
    match (m.k.mem L.mmMsg).source with
    | .proc src =>
      if (m.k.mem L.mmMsg).type = FORK then some { m with todo := [.dup src, .reply src] }
      else if (m.k.mem L.mmMsg).type = EXIT then
        match (m.k.procs src).parent with
        | none => none
        | some parent => some { m with
            todo := [.tellFs EXIT src, .hearFs, .exitMark src parent (m.k.mem L.mmMsg).i1,
              .exitKids src 0] }
      else if (m.k.mem L.mmMsg).type = WAIT then some { m with todo := [.waitScan src 0 0] }
      else none
    | _ => none
  | .reply src =>
    (m.setMsg L.mmMsg fun x => { x with type := SYSCALL_RET }).call .SEND (.proc src) L.mmMsg rest
  | .dup pid =>
    match freeRecord m.k with
    | none => some { m.setMsg L.mmMsg fun x => { x with i1 := -1 } with todo := rest }
    | some child =>
      if child.val < nrTasks + nrNativeProcs then none
      else
        some { m.setProc child fun _ => m.k.procs pid with
          todo := .settle pid child (m.k.procs child).ldtSel :: .alloc pid child :: rest
          snap := some ⟨pid, child, (m.k.procs pid).regs, m.ram⟩ }
  | .settle pid child ldtSel =>
    some { m.setProc child fun p =>
        { p with
          ldtSel := ldtSel, parent := some pid, name := childName (m.k.procs pid).name child } with
      todo := rest }
  | .alloc pid child =>
    let c := (m.k.procs pid).ldtC
    let d := (m.k.procs pid).ldtRw
    if c.base = d.base ∧ c.limit = d.limit then
      match allocMem L child c.size with
      | none => none
      | some base =>
        some { m with
          todo := .image base c.base c.size :: .initDescC child base :: .initDescRw child base ::
            .tellFs FORK child :: .hearFs :: .birth child :: rest }
    else none
  | .image _ _ 0 => some { m with todo := rest }
  | .image dst src (n + 1) =>
    some { m with
      ram := Function.update m.ram dst (m.ram src)
      todo := .image (dst + 1) (src + 1) n :: rest }
  | .initDescC child base =>
    some { m.setProc child fun p => { p with ldtC := imageDesc base } with todo := rest }
  | .initDescRw child base =>
    some { m.setProc child fun p => { p with ldtRw := imageDesc base } with todo := rest }
  | .tellFs type pid =>
    (m.setMsg L.mmLocal fun x => { x with type := type, i2 := pid.val }).call .SEND (.proc taskFs)
      L.mmLocal rest
  | .hearFs => m.call .RECEIVE (.proc taskFs) L.mmLocal rest
  | .birth child =>
    ((m.setMsg L.mmMsg fun x => { x with i2 := child.val, i1 := 0 }).setMsg L.mmLocal fun x =>
      { x with type := SYSCALL_RET, i1 := 0, i2 := 0 }).call .SEND (.proc child) L.mmLocal rest
  | .exitMark pid parent status =>
    let m := m.setProc pid fun p => { p with exitStatus := status }
    if (m.k.procs parent).flags.waiting then
      some { m.setProc parent fun p => { p with flags := { p.flags with waiting := false } } with
        todo := .cleanup pid :: rest }
    else
      some { m.setProc pid fun p => { p with flags := { p.flags with hanging := true } } with
        todo := rest }
  | .exitKids pid i =>
    if h : i < nrTasks + nrProcs then
      if (m.k.procs ⟨i, h⟩).parent = some pid then
        let m := m.setProc ⟨i, h⟩ fun p => { p with parent := some init }
        if (m.k.procs init).flags.waiting = true ∧ (m.k.procs ⟨i, h⟩).flags.hanging = true then
          some { m.setProc init fun p => { p with flags := { p.flags with waiting := false } } with
            todo := .cleanup ⟨i, h⟩ :: .exitKids pid (i + 1) :: rest }
        else some { m with todo := .exitKids pid (i + 1) :: rest }
      else some { m with todo := .exitKids pid (i + 1) :: rest }
    else some { m with todo := rest }
  | .waitScan pid i children =>
    if h : i < nrTasks + nrProcs then
      if (m.k.procs ⟨i, h⟩).parent = some pid then
        if (m.k.procs ⟨i, h⟩).flags.hanging then some { m with todo := [.cleanup ⟨i, h⟩] }
        else some { m with todo := .waitScan pid (i + 1) (children + 1) :: rest }
      else some { m with todo := .waitScan pid (i + 1) children :: rest }
    else if 0 < children then
      some { m.setProc pid fun p => { p with flags := { p.flags with waiting := true } } with
        todo := rest }
    else
      (m.setMsg L.mmLocal fun x => { x with type := SYSCALL_RET, i2 := noTaskNumber }).call .SEND
        (.proc pid) L.mmLocal rest
  | .cleanup p =>
    match (m.k.procs p).parent with
    | none => none
    | some parent =>
      (m.setMsg L.mmLocal fun x =>
        { x with type := SYSCALL_RET, i2 := p.val, i1 := (m.k.procs p).exitStatus }).call .SEND
          (.proc parent) L.mmLocal (.free p :: rest)
  | .free p =>
    some { m.setProc p fun x => { x with flags := .FREE_SLOT } with todo := rest }

/-! ## the system -/

inductive Event where
  /-- the running process, not MM, computes: new registers, bytes and messages of its own memory -/
  | compute (regs : StackFrame) (ws : List (Nat × Nat)) (ms : List (Nat × Msg))
  /-- the running process, not MM, makes a system call -/
  | call (fn : IpcFunction) (who : Who) (buf : Nat)
  /-- MM runs -/
  | mm
  /-- `clock_handler`; `key` is `key_pressed` -/
  | clock (key : Bool)
  /-- the handler of another interrupt calls `inform_int` -/
  | irq (t : Pid)

def informKey (k : Kernel) (key : Bool) : Except Fault Kernel :=
  if key then informInt k taskTty else .ok k

/-- `clock_handler`, outside of a system call -/
def clockHandler (k : Kernel) (key : Bool) : Except Fault Kernel := do
  let k ← informKey (k.set k.ready fun p => { p with ticks := p.ticks - 1 }) key
  if 0 < (k.procs k.ready).ticks then .ok k else schedule k

def step (L : Layout) (m : Machine) : Event → Option Machine
  | .compute regs ws ms =>
    if m.k.ready ≠ taskMm ∧ (m.k.procs m.k.ready).flags = .zero ∧
        (∀ w ∈ ws, owner L w.1 = some m.k.ready) ∧ (∀ x ∈ ms, owner L x.1 = some m.k.ready) then
      some { m with
        k := { m.k.set m.k.ready (fun p => { p with regs := regs }) with
          mem := ms.foldl (fun mem x => Function.update mem x.1 x.2) m.k.mem }
        ram := ws.foldl (fun ram w => Function.update ram w.1 w.2) m.ram }
    else none
  | .call fn who buf =>
    if m.k.ready ≠ taskMm ∧ (m.k.procs m.k.ready).flags = .zero then
      match sysSendrec m.k fn who buf m.k.ready with
      | .error _ => none
      | .ok k =>
        some { m with k := k.set m.k.ready fun p => { p with regs := { p.regs with eax := 0 } } }
    else none
  | .mm =>
    if m.k.ready = taskMm ∧ (m.k.procs taskMm).flags = .zero then
      match m.todo with
      | [] => hear L m
      | a :: rest => microStep L m rest a
    else none
  | .clock key =>
    match clockHandler m.k key with
    | .error _ => none
    | .ok k => some { m with k := k }
  | .irq t =>
    match informInt m.k t with
    | .error _ => none
    | .ok k => some { m with k := k }

end Noxis.Ipc.Mm
