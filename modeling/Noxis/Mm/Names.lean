import Noxis.Mm.Exec
import Noxis.Ipc.Wait

/-!
# 25-osfs11: the names of the processes

`do_fork` makes the name of a child from the name of its parent and the child's number, `do_exec`
copies the path of the program.  Both write to `name[16]` without a look at the length.

* `State`, `step`   the names, along the requests to MM
* `Fits`            every name has a place in its field
* `names_fit_iff`   **when that holds along a run**
-/

namespace Noxis.Mm.Names

open Ipc (Pid nrTasks nrNativeProcs init)
open Ipc.Wait (Request)
open Fs (cString)
open Run

/-- the size of `name` in `struct proc` -/
def NAME_SIZE : Nat := 16

/-- MM's process table, and the strings that are stored in the records of `proc_table` -/
structure State where
  procs : Ipc.Wait.State
  name : Pid → List Byte

inductive Event where
  | request (r : Request)
  /-- EXEC, with the memory that it is made in -/
  | exec (pid : Pid) (s : Mm.State) (msg : Msg) (files : Files)

/-! ## the code -/

/-- `i2a` to the base 10 -/
def i2a (val : Nat) : List Byte :=
  if val / 10 = 0 then [BitVec.ofNat 8 (val % 10 + 0x30)]
  else i2a (val / 10) ++ [BitVec.ofNat 8 (val % 10 + 0x30)]
termination_by val
decreasing_by omega

/-- `sprintf(p->name, "%s_%d", …)` -/
def childName (parent : List Byte) (child : Pid) : List Byte := parent ++ [0x5F] ++ i2a child.val

/-- the names after a request that MM has answered -/
def State.renamed (s : State) : Request → Pid → List Byte
  | .fork pid =>
    match s.procs.freeSlot with
    | none => s.name
    | some child => Function.update s.name child (childName (s.name pid) child)
  | _ => s.name

def State.doExec (s : State) (pid : Pid) (t : Mm.State) (msg : Msg) (files : Files) : Out :=
  Mm.doExec pid { t with name := s.name pid } msg files

def step (s : State) : Event → Option State
  | .request r => (Ipc.Wait.step s.procs r).map fun procs => ⟨procs, s.renamed r⟩
  | .exec pid t msg files =>
    let out := s.doExec pid t msg files
    if s.procs.able pid ∧ out.result ≠ none then
      some { s with name := Function.update s.name pid out.state.name }
    else none

def ascii (l : List Char) : List Byte := l.map fun c => BitVec.ofNat 8 c.toNat

/-- `task_table` and `user_proc_table` -/
def bootNames : List (List Byte) :=
  [ascii ['T', 'T', 'Y'], ascii ['S', 'Y', 'S'], ascii ['H', 'D'], ascii ['F', 'S'],
    ascii ['M', 'M'], ascii ['G', 'F', 'X'], ascii ['D', 'E', 'S', 'K', 'T', 'O', 'P'],
    ascii ['N', 'E', 'T'], ascii ['I', 'N', 'I', 'T'], ascii ['T', 'e', 's', 't', 'A'],
    ascii ['T', 'e', 's', 't', 'B'], ascii ['T', 'e', 's', 't', 'C']]

def boot : State := ⟨Ipc.Wait.boot, fun i => bootNames.getD i.val []⟩

/-! ## when the names fit -/

/-- every string fits into its field, with its 0 -/
def Fits (s : State) : Prop := ∀ p, (s.name p).length + 1 ≤ NAME_SIZE

/-- a parent's name leaves room for three characters more, and a path that replaces a program is no
longer than a name -/
def Short (s : State) : Event → Prop
  | .request (.fork pid) => s.procs.freeSlot ≠ none → (s.name pid).length ≤ 12
  | .request _ => True
  | .exec pid t msg files => (s.doExec pid t msg files).result = some 0 →
      (cString msg.name).length ≤ 15

variable {s t : State} {pid child : Pid} {e : Event}

/-- forked processes have two digits -/
theorem length_childName (h : nrTasks + nrNativeProcs ≤ child.val) (parent : List Byte) :
    (childName parent child).length = parent.length + 3 := by
  have hlt := child.isLt
  unfold nrTasks nrNativeProcs at h
  unfold nrTasks Ipc.nrProcs at hlt
  have hdigits : (i2a child.val).length = 2 := by
    rw [i2a, if_neg (by omega), i2a, if_pos (by omega)]
    rfl
  rw [childName, List.length_append, List.length_append, hdigits, List.length_singleton]

/-- one name changes -/
theorem Fits.update_iff (h : Fits s) (p : Pid) (name : List Byte) :
    (∀ q, (Function.update s.name p name q).length + 1 ≤ NAME_SIZE) ↔ name.length + 1 ≤ NAME_SIZE := by
  constructor
  · intro hall
    have hp := hall p
    rwa [Function.update_self] at hp
  · intro hname q
    by_cases hq : q = p
    · rw [hq, Function.update_self]
      exact hname
    · rw [Function.update_of_ne hq]
      exact h q

/-- `do_exec` stores the path, or leaves the record alone -/
theorem doExec_name (src : Pid) (m : Mm.State) (msg : Msg) (files : Files)
    (h : (Mm.doExec src m msg files).result ≠ none) :
    ((Mm.doExec src m msg files).result = some 0 →
      (Mm.doExec src m msg files).state.name = cString msg.name) ∧
    ((Mm.doExec src m msg files).result ≠ some 0 →
      (Mm.doExec src m msg files).state.name = m.name) := by
  revert h
  unfold Mm.doExec
  rw [if_pos msg.name_lt]
  dsimp only
  cases files.stat (cString msg.name) with
  | none => exact fun _ => ⟨nofun, fun _ => rfl⟩
  | some bytes =>
    dsimp only
    by_cases hopen : files.opens (cString msg.name) = true
    · rw [if_neg (not_not.mpr hopen)]
      by_cases hlen : bytes.length < MMBUF_SIZE
      · rw [if_pos hlen]
        split
        · exact fun h => absurd rfl h
        · unfold setupArgs
          dsimp only
          split
          · exact fun h => absurd rfl h
          · exact fun _ => ⟨fun _ => rfl, fun h => absurd rfl h⟩
      · rw [if_neg hlen]
        exact fun h => absurd rfl h
    · rw [if_pos hopen]
      exact fun _ => ⟨nofun, fun _ => rfl⟩

/-- **One event.** -/
theorem step_fits_iff (h : Fits s) (ht : step s e = some t) : Fits t ↔ Short s e := by
  cases e with
  | request r =>
    obtain ⟨procs, hstep, rfl⟩ := Option.map_eq_some_iff.mp ht
    cases r with
    | fork pid =>
      obtain ⟨-, hfork⟩ := Option.ite_none_right_eq_some.mp hstep
      cases hslot : s.procs.freeSlot with
      | none =>
        have hname : s.renamed (.fork pid) = s.name := by
          unfold State.renamed
          simp only [hslot]
        show (∀ p, (s.renamed (.fork pid) p).length + 1 ≤ NAME_SIZE) ↔
          (s.procs.freeSlot ≠ none → _)
        rw [hname, hslot]
        exact ⟨fun _ hno => absurd rfl hno, fun _ => h⟩
      | some child =>
        have hchild : nrTasks + nrNativeProcs ≤ child.val := by
          unfold Ipc.Wait.State.doFork at hfork
          simp only [hslot] at hfork
          by_contra hlt
          rw [if_pos (not_le.mp hlt)] at hfork
          exact nomatch hfork
        have hname : s.renamed (.fork pid) =
            Function.update s.name child (childName (s.name pid) child) := by
          unfold State.renamed
          simp only [hslot]
        show (∀ p, (s.renamed (.fork pid) p).length + 1 ≤ NAME_SIZE) ↔
          (s.procs.freeSlot ≠ none → (s.name pid).length ≤ 12)
        rw [hname, h.update_iff, length_childName hchild, hslot]
        unfold NAME_SIZE
        constructor
        · intro hle _
          omega
        · intro hle
          have hshort := hle nofun
          omega
    | exit _ _ _ => exact ⟨fun _ => trivial, fun _ => h⟩
    | wait _ => exact ⟨fun _ => trivial, fun _ => h⟩
  | exec pid m msg files =>
    obtain ⟨⟨-, hres⟩, ht⟩ := Option.ite_none_right_eq_some.mp ht
    rw [← Option.some.inj ht]
    obtain ⟨hdone, herr⟩ := doExec_name pid { m with name := s.name pid } msg files hres
    show (∀ q, (Function.update s.name pid (s.doExec pid m msg files).state.name q).length + 1 ≤
      NAME_SIZE) ↔ ((s.doExec pid m msg files).result = some 0 → (cString msg.name).length ≤ 15)
    rw [h.update_iff]
    by_cases h0 : (s.doExec pid m msg files).result = some 0
    · rw [show (s.doExec pid m msg files).state.name = cString msg.name from hdone h0]
      unfold NAME_SIZE
      constructor
      · intro hle _
        omega
      · intro hle
        have hshort := hle h0
        omega
    · rw [show (s.doExec pid m msg files).state.name = s.name pid from herr h0]
      exact ⟨fun _ h1 => absurd h1 h0, fun _ => h pid⟩

theorem boot_fits : Fits boot := by
  show ∀ p : Pid, (bootNames.getD p.val []).length + 1 ≤ NAME_SIZE
  decide +kernel

/-- **The names fit along a run if and only if no process with a long name forks and no long path
replaces a program.** -/
theorem names_fit_iff (es : List Event) :
    Always (stepOf step) (fun _ _ t => Fits t) boot es ↔
      Always (stepOf step) (fun s e _ => Short s e) boot es := by
  refine Always.iff_of_inv (P := fun _ _ t => Fits t) (Q := fun s e _ => Short s e)
    (fun s e t hs ht => step_fits_iff hs ht) ?_ es boot boot_fits
  intro s e t hs ht hshort
  exact (step_fits_iff hs ht).mpr hshort

/-- INIT forks, its child forks, and so on: the fourth name is INIT_12_13_14_15 -/
theorem names_fit_fails : ¬ ∀ es : List Event, Always (stepOf step) (fun _ _ t => Fits t) boot es := by
  intro hall
  let forks : List Event := [.request (.fork init), .request (.fork 12), .request (.fork 13)]
  let bad (_ u : State) : Bool := decide (NAME_SIZE ≤ (u.name 15).length)
  refine Always.not_of_exec forks bad ?_ ?_ (hall (forks ++ [.request (.fork 14)]))
  · intro t u _ hbad hfits
    exact absurd (of_decide_eq_true hbad) (not_le.mpr (hfits 15))
  · decide +kernel

end Noxis.Mm.Names
