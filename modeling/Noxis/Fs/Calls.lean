import Noxis.Lib.FileStore
import Noxis.Fs.Counts
import Noxis.Fs.Fresh

/-!
# 25-osfs11/fs: the file system as the processes see it

* `Call`, `Result`   the calls of `lib/`, and what comes back
* `FsState.reply`    the answer of FS to a request
* `Files.call`       what a call means for files that are byte strings
* `Users.act`        the same for calls, forks and exits in any order
* `Files.Allows`     what a call has to meet: FS is known to fail, or to do something else, for the
                     others
-/

namespace Noxis.Fs
open Ipc (Pid)
open FileStore

/-- the files, and what the processes have open -/
abbrev Files := Store Name Pid (Fin nrFiles) (Fin nrFileDesc) Byte

/-- a call; `buf` is the memory of the caller -/
inductive Call where
  | open (f : Name) (rooted : Bool) (flags : Nat)
  | close (fd : Fin nrFiles)
  | read (fd : Fin nrFiles) (len : Nat) (buf : Buffer)
  | write (fd : Fin nrFiles) (len : Nat) (buf : Buffer)
  | lseek (fd : Fin nrFiles) (off : Int) (whence : Nat)
  | stat (f : Name) (rooted : Bool)
  | unlink (f : Name) (rooted : Bool)

def Call.request : Call → Request
  | .open f rooted flags => .OPEN (f.path rooted) flags
  | .close fd => .CLOSE fd
  | .read fd len buf => .READ fd len buf
  | .write fd len buf => .WRITE fd len buf
  | .lseek fd off whence => .LSEEK fd off whence
  | .stat f rooted => .STAT (f.path rooted)
  | .unlink f rooted => .UNLINK (f.path rooted)

/-- what comes back; `none` is -1.  Of `struct stat` the mode, the device and the size. -/
inductive Result where
  | fd (r : Option (Fin nrFiles))
  | closed
  | data (bytes : List Byte)
  | count (n : Nat)
  | pos (r : Option Nat)
  | stat (r : Option (Nat × Option Nat × Nat))
  | unlinked (ok : Bool)
  deriving DecidableEq, Repr

/-- the first `len` bytes of a buffer -/
def bytesOf (buf : Buffer) (len : Nat) : List Byte := (List.range len).map buf

/-- **the answer of FS** -/
def FsState.reply (s : FsState) (p : Pid) : Request → Option Result
  | .OPEN path flags => (doOpen s p path flags).map fun r => .fd r.1
  | .CLOSE fd => (doClose s p fd).map fun _ => .closed
  | .READ fd len buf => (doRdwt s p .READ fd len buf).bind fun r =>
    match r.1 with
    | .count n => some (.data (bytesOf r.2.2 n))
    | .driver .. => none
  | .WRITE fd len buf => (doRdwt s p .WRITE fd len buf).bind fun r =>
    match r.1 with
    | .count n => some (.count n)
    | .driver .. => none
  | .LSEEK fd off whence => (doLseek s p fd off whence).map fun r => .pos r.1
  | .STAT path => (doStat s path).map fun r => .stat (r.1.map fun t => (t.mode, t.rdev, t.size))
  | .UNLINK path => (doUnlink s path).map fun r => .unlinked r.1

/-! ## calls on byte strings -/

instance Files.decidableUsed (a : Files) (x : Fin nrFileDesc) : Decidable (a.Used x) :=
  inferInstanceAs (Decidable (∃ p i, a.slot p i = some x))

def Files.freeSlot (a : Files) (p : Pid) : Option (Fin nrFiles) :=
  (List.finRange nrFiles).find? fun i => decide (a.slot p i = none)

def Files.freeHandle (a : Files) : Option (Fin nrFileDesc) :=
  (List.finRange nrFileDesc).find? fun x => decide (¬ a.Used x)

/-- `open` -/
def Files.openFile (a : Files) (p : Pid) (f : Name) (flags : Nat) : Result × Files :=
  match a.freeSlot p, a.freeHandle with
  | some fd, some x =>
    if (a.file f).isNone then
      if flags &&& O_CREAT ≠ 0 then
        (.fd (some fd), (a.put f (some [])).attach p fd x ⟨f, 0⟩)
      else (.fd none, a)
    else if flags &&& O_CREAT ≠ 0 ∧ flags &&& O_TRUNC = 0 then (.fd none, a)
    else if flags &&& O_TRUNC ≠ 0 then
      (.fd (some fd), (a.put f (some [])).attach p fd x ⟨f, 0⟩)
    else (.fd (some fd), a.attach p fd x ⟨f, 0⟩)
  | _, _ => (.fd none, a)

/-- `read`: the bytes from the position on -/
def Files.read (a : Files) (p : Pid) (fd : Fin nrFiles) (len : Nat) : Result × Files :=
  match a.opened p fd with
  | some (x, h, data) => (.data ((data.drop h.pos).take len), a.setHandle x ⟨h.file, h.pos + len⟩)
  | none => (.data [], a)

/-- `write`: the bytes from the position on are replaced -/
def Files.write (a : Files) (p : Pid) (fd : Fin nrFiles) (bytes : List Byte) : Result × Files :=
  match a.opened p fd with
  | some (x, h, data) =>
    (.count bytes.length, (a.put h.file (some (splice data h.pos bytes))).setHandle x
      ⟨h.file, h.pos + bytes.length⟩)
  | none => (.count 0, a)

/-- the position that `lseek` asks for -/
def seekTo (pos size : Nat) (off : Int) (whence : Nat) : Option Nat :=
  let want : Option Int :=
    if whence = SEEK_SET then some off
    else if whence = SEEK_CUR then some (pos + off)
    else if whence = SEEK_END then some (size + off)
    else none
  want.bind fun n => if n > size ∨ n < 0 then none else some n.toNat

/-- `lseek` -/
def Files.lseek (a : Files) (p : Pid) (fd : Fin nrFiles) (off : Int) (whence : Nat) :
    Result × Files :=
  match a.opened p fd with
  | some (x, h, data) =>
    match seekTo h.pos data.length off whence with
    | some pos => (.pos (some pos), a.setHandle x ⟨h.file, pos⟩)
    | none => (.pos none, a)
  | none => (.pos none, a)

/-- **What a call means.** -/
def Files.call (a : Files) (p : Pid) : Call → Result × Files
  | .open f _ flags => a.openFile p f flags
  | .close fd => (.closed, a.setSlot p fd none)
  | .read fd len _ => a.read p fd len
  | .write fd len buf => a.write p fd (bytesOf buf len)
  | .lseek fd off whence => a.lseek p fd off whence
  | .stat f _ => (.stat ((a.file f).map fun data => (I_REGULAR, none, data.length)), a)
  | .unlink f _ => (.unlinked (a.file f).isSome, a.put f none)

/-! ## what a call has to meet -/

/-- how many handles are in use -/
def Files.busy (a : Files) : Nat := (Finset.univ.filter fun x => a.Used x).card

/-- the bytes that a file has room for -/
def MAX_FILE : Nat := NR_DEFAULT_FILE_SECTS * SECTOR_SIZE

/-- the transfer is within the 256 sectors of one command -/
def OneCommand (pos len : Nat) : Prop := (pos + len) / 512 - pos / 512 < 256

/-- **the calls that are meant here**: names are not those of `special`, the directory and the
terminals -/
def Files.Allows (special : Name → Prop) (a : Files) (p : Pid) : Call → Prop
  | .open f _ flags => ¬ special f ∧ (∃ fd, a.slot p fd = none) ∧ a.busy < 63 ∧
      (a.file f = none → flags &&& O_CREAT ≠ 0 → flags &&& O_RDWR ≠ 0 ∧ f.bytes.length ≤ 11) ∧
      (a.file f ≠ none → flags = O_RDWR ∨ flags = O_CREAT ||| O_RDWR ∨ flags = EMPTY)
  | .close fd => a.slot p fd ≠ none
  | .read fd len _ => ∃ x h data, a.opened p fd = some (x, h, data) ∧ h.pos + len ≤ data.length ∧
      OneCommand h.pos len
  | .write fd len _ => ∃ x h data, a.opened p fd = some (x, h, data) ∧ h.pos ≤ data.length ∧
      h.pos + len ≤ MAX_FILE ∧ OneCommand h.pos len
  | .lseek fd _ _ => a.slot p fd ≠ none
  | .stat f _ => ¬ special f ∧ a.busy < 63
  | .unlink f _ => ¬ special f ∧ a.busy < 63 ∧
      ∀ x h, a.Used x → a.handle x = some h → h.file ≠ f

/-! ## the processes -/

/-- the files, the processes that are there, and a fork that is under way -/
structure Users where
  files : Files
  live : Pid → Bool
  fork : Option (Pid × Pid)

/-- what may happen -/
inductive Act where
  | call (p : Pid) (c : Call)
  | copy (parent child : Pid)
  | fork
  | exit (p : Pid)

def Act.event : Act → Event
  | .call p c => .request p c.request
  | .copy parent child => .copy parent child
  | .fork => .fork
  | .exit p => .exit p

/-- **What happens to the files**, and the answer to a call. -/
def Users.act (u : Users) : Act → Option Result × Users
  | .call p c => (some (u.files.call p c).1, { u with files := (u.files.call p c).2 })
  | .copy parent child => (none, { u with fork := some (parent, child) })
  | .fork =>
    match u.fork with
    | some (parent, child) =>
      (none, ⟨u.files.share parent child, Function.update u.live child true, none⟩)
    | none => (none, u)
  | .exit p => (none, { u with files := u.files.quit p, live := Function.update u.live p false })

/-- a process that is there and does not wait for its fork -/
def Users.Runs (u : Users) (p : Pid) : Prop := u.live p = true ∧ ∀ f, u.fork = some f → f.1 ≠ p

def Users.Allows (special : Name → Prop) (u : Users) : Act → Prop
  | .call p c => u.Runs p ∧ u.files.Allows special p c
  | .copy parent child => u.live parent = true ∧ u.live child = false ∧ u.fork = none
  | .fork => u.fork ≠ none
  | .exit p => u.Runs p

/-- the answer of FS to what happens -/
def World.answer (w : World) : Act → Option Result
  | .call p c => w.fs.reply p c.request
  | _ => none

end Noxis.Fs
