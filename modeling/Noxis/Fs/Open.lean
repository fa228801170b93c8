import Noxis.Fs.Map
import Noxis.Fs.Dir
import Noxis.Fs.ReadWrite

/-!
# 25-osfs11/fs/open.c, link.c, misc.c, main.c: the requests

* `doOpen`, `doClose`, `doLseek`, `doStat`, `doUnlink`   as they compute
* `fsFork`, `fsExit`   what FS does when a process is born or dies
* `Request`, `serve`   a turn of the main loop of FS

A result of `none` means that the request does not end: an assertion fails, FS panics, a null
pointer is followed, or the driver does not come back.
-/

namespace Noxis.Fs
open Ipc (Pid)

def SEEK_SET : Nat := 1
def SEEK_CUR : Nat := 2
def SEEK_END : Nat := 3

def I_BLOCK_SPECIAL : Nat := 0x6000

/-! ## OPEN -/

/-- `new_inode`; number 0 has no inode -/
def newInode (s : FsState) (inodeNr startSect : Nat) : Option (Fin nrInode × FsState) :=
  if inodeNr = 0 then none
  else
    (getInode s inodeNr).map fun (q, s) =>
      (q, syncInode (s.setInode q fun _ =>
        ⟨I_REGULAR, 0, startSect, NR_DEFAULT_FILE_SECTS, 1, inodeNr⟩) q)

/-- `create_file`; the inner `none` is the path that `strip_path` refuses -/
def createFile (s : FsState) (path : List Byte) : Option (Option (Fin nrInode) × FsState) :=
  match stripPath path with
  | none => some (none, s)
  | some filename => do
    let (inodeNr, s) ← allocImapBit s
    let (freeSectNr, s) ← allocSmapBit s NR_DEFAULT_FILE_SECTS
    let (q, s) ← newInode s inodeNr freeSectNr
    some (some q, newDirEntry s (s.inodeTable q).num filename)

/-- the first free slot of `filp` -/
def freeFilp (s : FsState) (pcaller : Pid) : Option (Fin nrFiles) :=
  (List.finRange nrFiles).find? fun i => s.filp pcaller i = none

/-- the first free entry of `f_desc_table` -/
def freeFDesc (s : FsState) : Option (Fin nrFileDesc) :=
  (List.finRange nrFileDesc).find? fun i => (s.fDescTable i).inode = none

/-- `if (flags & O_TRUNC)`: the file has no bytes any more -/
def truncate (s : FsState) (flags : Nat) (q : Fin nrInode) : FsState :=
  if flags &&& O_TRUNC = 0 then s else syncInode (s.setInode q fun p => { p with size := 0 }) q

/-- the process gets descriptor `fd`, with the entry `x` for the inode -/
def connect (s : FsState) (pcaller : Pid) (fd : Fin nrFiles) (x : Fin nrFileDesc) (flags : Nat)
    (q : Fin nrInode) : FsState :=
  { s with
    filp := Function.update s.filp pcaller (Function.update (s.filp pcaller) fd (some x))
    fDescTable := Function.update s.fDescTable x ⟨flags, 0, 1, some q⟩ }

/-- what `do_open` asserts of the inode -/
def openable (p : Inode) : Bool :=
  if p.mode &&& I_TYPE_MASK = I_CHAR_SPECIAL then p.startSect / 256 % 256 = 4
  else if p.mode &&& I_TYPE_MASK = I_DIRECTORY then p.num = ROOT_INODE
  else p.mode = I_REGULAR

/-- the second half of `do_open`, with the inode of the file -/
def finishOpen (s : FsState) (pcaller : Pid) (fd : Fin nrFiles) (x : Fin nrFileDesc) (flags : Nat)
    (q : Fin nrInode) : Option (Option (Fin nrFiles) × FsState) :=
  let s := truncate s flags q
  if openable (s.inodeTable q) then some (some fd, connect s pcaller fd x flags q) else none

/-- `do_open`: the descriptor, or `none` for -1 -/
def doOpen (s : FsState) (pcaller : Pid) (path : List Byte) (flags : Nat) :
    Option (Option (Fin nrFiles) × FsState) :=
  if MAX_PATH ≤ path.length then none
  else
    let pathname := cString path
    match freeFilp s pcaller, freeFDesc s with
    | some fd, some x =>
      let inodeNr := searchFile s pathname
      if inodeNr = INVALID_INODE then
        if flags &&& O_CREAT ≠ 0 then
          match createFile s pathname with
          | some (some q, s) => finishOpen s pcaller fd x flags q
          | some (none, s) => if flags &&& O_TRUNC ≠ 0 then none else some (none, s)
          | none => none
        else some (none, s)
      else if flags &&& O_RDWR ≠ 0 then
        if flags &&& O_CREAT ≠ 0 ∧ flags &&& O_TRUNC = 0 then
          if flags = O_RDWR ||| O_CREAT then some (none, s) else none
        else if flags = O_RDWR ∨ flags = O_RDWR ||| O_TRUNC ∨
            flags = O_RDWR ||| O_TRUNC ||| O_CREAT then
          match stripPath pathname with
          | none => some (none, s)
          | some _ => (getInode s inodeNr).bind fun (q, s) => finishOpen s pcaller fd x flags q
        else none
      else some (none, s)
    | _, _ => none

/-- OPEN is about to create a file -/
def Creates (s : FsState) (path : List Byte) (flags : Nat) : Prop :=
  searchFile s (cString path) = INVALID_INODE ∧ flags &&& O_CREAT ≠ 0 ∧
    stripPath (cString path) ≠ none

/-- what an OPEN that ends has done: nothing, opened a new file, or opened a file that was there -/
inductive Opened (s : FsState) (p : Pid) (path : List Byte) (flags : Nat) :
    Option (Fin nrFiles) → FsState → Prop where
  | refused : ¬ Creates s path flags → Opened s p path flags none s
  | created {fd : Fin nrFiles} {x : Fin nrFileDesc} {q : Fin nrInode} {s₁ s' : FsState}
      {r : Option (Fin nrFiles)} : freeFilp s p = some fd → freeFDesc s = some x →
      Creates s path flags → createFile s (cString path) = some (some q, s₁) →
      finishOpen s₁ p fd x flags q = some (r, s') → Opened s p path flags r s'
  | found {fd : Fin nrFiles} {x : Fin nrFileDesc} {q : Fin nrInode} {s₁ s' : FsState}
      {r : Option (Fin nrFiles)} : path.length < MAX_PATH →
      freeFilp s p = some fd → freeFDesc s = some x →
      searchFile s (cString path) ≠ INVALID_INODE →
      (flags = O_RDWR ∨ flags = O_RDWR ||| O_TRUNC ∨ flags = O_RDWR ||| O_TRUNC ||| O_CREAT) →
      getInode s (searchFile s (cString path)) = some (q, s₁) →
      finishOpen s₁ p fd x flags q = some (r, s') → Opened s p path flags r s'

/-- `create_file` refuses a path exactly when `strip_path` does -/
theorem createFile_none {s s₁ : FsState} {path : List Byte}
    (h : createFile s path = some (none, s₁)) : stripPath path = none ∧ s₁ = s := by
  unfold createFile at h
  cases hp : stripPath path with
  | none =>
    rw [hp] at h
    simp only [Option.some.injEq, Prod.mk.injEq] at h
    exact ⟨rfl, h.2.symm⟩
  | some filename =>
    rw [hp] at h
    obtain ⟨a, -, h⟩ := Option.bind_eq_some_iff.mp h
    obtain ⟨b, -, h⟩ := Option.bind_eq_some_iff.mp h
    obtain ⟨c, -, h⟩ := Option.bind_eq_some_iff.mp h
    simp only [Option.some.injEq, Prod.mk.injEq] at h
    cases h.1

theorem createFile_some {s s₁ : FsState} {path : List Byte} {q : Fin nrInode}
    (h : createFile s path = some (some q, s₁)) : ∃ filename n s₂ a s₃ s₄,
      stripPath path = some filename ∧ allocImapBit s = some (n, s₂) ∧
      allocSmapBit s₂ NR_DEFAULT_FILE_SECTS = some (a, s₃) ∧ newInode s₃ n a = some (q, s₄) ∧
      s₁ = newDirEntry s₄ (s₄.inodeTable q).num filename := by
  unfold createFile at h
  cases hp : stripPath path with
  | none =>
    rw [hp] at h
    simp only [Option.some.injEq, Prod.mk.injEq] at h
    cases h.1
  | some filename =>
    rw [hp] at h
    obtain ⟨⟨n, s₂⟩, h1, h⟩ := Option.bind_eq_some_iff.mp h
    obtain ⟨⟨a, s₃⟩, h2, h⟩ := Option.bind_eq_some_iff.mp h
    obtain ⟨⟨q', s₄⟩, h3, h⟩ := Option.bind_eq_some_iff.mp h
    simp only [Option.some.injEq, Prod.mk.injEq] at h
    obtain ⟨hq, hs⟩ := h
    subst hq
    exact ⟨filename, n, s₂, a, s₃, s₄, rfl, h1, h2, h3, hs.symm⟩

/-- **The three ways through `do_open`.** -/
theorem doOpen_cases {s s' : FsState} {p : Pid} {path : List Byte} {flags : Nat}
    {r : Option (Fin nrFiles)} (h : doOpen s p path flags = some (r, s')) :
    Opened s p path flags r s' := by
  unfold doOpen at h
  by_cases hlen : MAX_PATH ≤ path.length
  · rw [if_pos hlen] at h
    cases h
  simp only [if_neg hlen] at h
  cases hfd : freeFilp s p with
  | none =>
    simp only [hfd] at h
    cases h
  | some fd =>
  cases hx : freeFDesc s with
  | none =>
    simp only [hfd, hx] at h
    cases h
  | some x =>
  simp only [hfd, hx] at h
  have hsame : ¬ Creates s path flags → some (none, s) = some (r, s') →
      Opened s p path flags r s' := by
    intro hc he
    simp only [Option.some.injEq, Prod.mk.injEq] at he
    rw [← he.1, ← he.2]
    exact .refused hc
  by_cases h0 : searchFile s (cString path) = INVALID_INODE
  · rw [if_pos h0] at h
    by_cases hc : flags &&& O_CREAT ≠ 0
    · rw [if_pos hc] at h
      cases hcr : createFile s (cString path) with
      | none =>
        simp only [hcr] at h
        cases h
      | some c =>
        obtain ⟨o, s₁⟩ := c
        cases o with
        | none =>
          obtain ⟨hp, rfl⟩ := createFile_none hcr
          simp only [hcr] at h
          by_cases ht : flags &&& O_TRUNC ≠ 0
          · rw [if_pos ht] at h
            cases h
          · rw [if_neg ht] at h
            exact hsame (fun hcs => hcs.2.2 hp) h
        | some q =>
          simp only [hcr] at h
          obtain ⟨filename, -, -, -, -, -, hp, -⟩ := createFile_some hcr
          refine .created hfd hx ⟨h0, hc, ?_⟩ hcr h
          rw [hp]
          exact nofun
    · rw [if_neg hc] at h
      exact hsame (fun hcs => hc hcs.2.1) h
  · have hnc : ¬ Creates s path flags := fun hcs => h0 hcs.1
    rw [if_neg h0] at h
    by_cases hw : flags &&& O_RDWR ≠ 0
    · rw [if_pos hw] at h
      by_cases hc : flags &&& O_CREAT ≠ 0 ∧ flags &&& O_TRUNC = 0
      · rw [if_pos hc] at h
        by_cases hf : flags = O_RDWR ||| O_CREAT
        · rw [if_pos hf] at h
          exact hsame hnc h
        · rw [if_neg hf] at h
          cases h
      · rw [if_neg hc] at h
        by_cases hf : flags = O_RDWR ∨ flags = O_RDWR ||| O_TRUNC ∨
            flags = O_RDWR ||| O_TRUNC ||| O_CREAT
        · rw [if_pos hf] at h
          cases hp : stripPath (cString path) with
          | none =>
            simp only [hp] at h
            exact hsame hnc h
          | some _ =>
            simp only [hp] at h
            obtain ⟨⟨q, s₁⟩, hg, h⟩ := Option.bind_eq_some_iff.mp h
            exact .found (by omega) hfd hx h0 hf hg h
        · rw [if_neg hf] at h
          cases h
    · rw [if_neg hw] at h
      exact hsame hnc h

/-! ## CLOSE, LSEEK -/

/-- one process less has the entry `x`; without any it is free -/
def dropFDesc (f : FileDesc) : FileDesc :=
  if f.cnt - 1 = 0 then { f with cnt := f.cnt - 1, inode := none } else { f with cnt := f.cnt - 1 }

def doClose (s : FsState) (pcaller : Pid) (fd : Fin nrFiles) : Option FsState :=
  (s.filp pcaller fd).bind fun x =>
    ((s.fDescTable x).inode).bind fun q =>
      (putInode s q).map fun s => { s with
        fDescTable := Function.update s.fDescTable x (dropFDesc (s.fDescTable x))
        filp := Function.update s.filp pcaller (Function.update (s.filp pcaller) fd none) }

/-- `do_lseek`: the new position, or `none` for -1 -/
def doLseek (s : FsState) (pcaller : Pid) (fd : Fin nrFiles) (off : Int) (whence : Nat) :
    Option (Option Nat × FsState) :=
  (s.filp pcaller fd).bind fun x =>
    ((s.fDescTable x).inode).map fun q =>
      let fSize : Int := (s.inodeTable q).size
      let pos : Option Int :=
        if whence = SEEK_SET then some off
        else if whence = SEEK_CUR then some ((s.fDescTable x).pos + off)
        else if whence = SEEK_END then some (fSize + off)
        else none
      match pos with
      | none => (none, s)
      | some pos =>
        if pos > fSize ∨ pos < 0 then (none, s)
        else (some pos.toNat, { s with
          fDescTable := Function.update s.fDescTable x
            { s.fDescTable x with pos := pos.toNat } })

/-! ## STAT, UNLINK -/

/-- `struct stat`; `st_dev` is ROOT_DEV -/
structure Stat where
  ino : Nat
  mode : Nat
  /-- `none` is NO_DEV -/
  rdev : Option Nat
  size : Nat
  deriving DecidableEq, Repr

def isSpecial (m : Nat) : Bool :=
  m &&& I_TYPE_MASK = I_BLOCK_SPECIAL ∨ m &&& I_TYPE_MASK = I_CHAR_SPECIAL

/-- `do_stat`: what the caller gets, or `none` for -1 -/
def doStat (s : FsState) (path : List Byte) : Option (Option Stat × FsState) :=
  if MAX_PATH ≤ path.length then none
  else
    let pathname := cString path
    let inodeNr := searchFile s pathname
    if inodeNr = INVALID_INODE then some (none, s)
    else
      match stripPath pathname with
      | none => none
      | some _ => (getInode s inodeNr).bind fun (q, s) =>
        let pin := s.inodeTable q
        let rdev := if isSpecial pin.mode then some pin.startSect else none
        (putInode s q).map fun s => (some ⟨pin.num, pin.mode, rdev, pin.size⟩, s)

/-- `do_unlink`, once the inode is found to be a regular file that nobody has open -/
def removeFile (s : FsState) (inodeNr : Nat) (q : Fin nrInode) : Option FsState := do
  let pin := s.inodeTable q
  let s ← freeImapBit s inodeNr
  let s ← freeSmapBits s pin.startSect pin.nrSects
  let s := syncInode (s.setInode q fun p =>
    { p with mode := 0, size := 0, startSect := 0, nrSects := 0 }) q
  let s ← putInode s q
  clearEntry s inodeNr

/-- `do_unlink`: `false` for -1 -/
def doUnlink (s : FsState) (path : List Byte) : Option (Bool × FsState) :=
  if MAX_PATH ≤ path.length then none
  else
    let pathname := cString path
    if pathname = [slash] then some (false, s)
    else
      let inodeNr := searchFile s pathname
      if inodeNr = INVALID_INODE then some (false, s)
      else
        match stripPath pathname with
        | none => some (false, s)
        | some _ => (getInode s inodeNr).bind fun (q, s) =>
          if (s.inodeTable q).mode ≠ I_REGULAR then some (false, s)
          else if 1 < (s.inodeTable q).cnt then some (false, s)
          else (removeFile s inodeNr q).map fun s => (true, s)

/-- what an UNLINK that ends has done: nothing, taken a reference to a file that it cannot remove,
or removed a file -/
inductive Unlinked (s : FsState) (path : List Byte) : Bool → FsState → Prop where
  | refused : cString path = [slash] ∨ searchFile s (cString path) = INVALID_INODE →
      Unlinked s path false s
  | stuck {q : Fin nrInode} {s₁ : FsState} : cString path ≠ [slash] →
      searchFile s (cString path) ≠ INVALID_INODE →
      getInode s (searchFile s (cString path)) = some (q, s₁) →
      (s₁.inodeTable q).mode ≠ I_REGULAR ∨ 1 < (s₁.inodeTable q).cnt → Unlinked s path false s₁
  | removed {q : Fin nrInode} {s₁ s' : FsState} : cString path ≠ [slash] →
      searchFile s (cString path) ≠ INVALID_INODE →
      getInode s (searchFile s (cString path)) = some (q, s₁) →
      (s₁.inodeTable q).mode = I_REGULAR → ¬ 1 < (s₁.inodeTable q).cnt →
      removeFile s₁ (searchFile s (cString path)) q = some s' → Unlinked s path true s'

theorem searchFile_none {s : FsState} {path : List Byte} (h : stripPath path = none) :
    searchFile s path = INVALID_INODE := by
  unfold searchFile
  rw [h]
  rfl

/-- **The three ways through `do_unlink`.** -/
theorem doUnlink_cases {s s' : FsState} {path : List Byte} {ok : Bool}
    (h : doUnlink s path = some (ok, s')) : Unlinked s path ok s' := by
  unfold doUnlink at h
  by_cases hlen : MAX_PATH ≤ path.length
  · rw [if_pos hlen] at h
    cases h
  simp only [if_neg hlen] at h
  by_cases hroot : cString path = [slash]
  · rw [if_pos hroot] at h
    cases h
    exact .refused (.inl hroot)
  rw [if_neg hroot] at h
  by_cases h0 : searchFile s (cString path) = INVALID_INODE
  · rw [if_pos h0] at h
    simp only [Option.some.injEq, Prod.mk.injEq] at h
    rw [← h.1, ← h.2]
    exact .refused (.inr h0)
  rw [if_neg h0] at h
  cases hp : stripPath (cString path) with
  | none => exact absurd (searchFile_none hp) h0
  | some _ =>
    simp only [hp] at h
    obtain ⟨⟨q, s₁⟩, hg, h⟩ := Option.bind_eq_some_iff.mp h
    simp only at h
    by_cases hm : (s₁.inodeTable q).mode ≠ I_REGULAR
    · rw [if_pos hm] at h
      simp only [Option.some.injEq, Prod.mk.injEq] at h
      rw [← h.1, ← h.2]
      exact .stuck hroot h0 hg (.inl hm)
    rw [if_neg hm] at h
    by_cases hc : 1 < (s₁.inodeTable q).cnt
    · rw [if_pos hc] at h
      simp only [Option.some.injEq, Prod.mk.injEq] at h
      rw [← h.1, ← h.2]
      exact .stuck hroot h0 hg (.inr hc)
    · rw [if_neg hc] at h
      obtain ⟨s₂, hr, h⟩ := Option.map_eq_some_iff.mp h
      simp only [Prod.mk.injEq] at h
      rw [← h.1, ← h.2]
      exact .removed hroot h0 hg (not_not.mp hm) hc hr

/-! ## FORK, EXIT -/

/-- one round of the loop of `fs_fork` -/
def forkStep (child : Pid) (s : FsState) (i : Fin nrFiles) : Option FsState :=
  match s.filp child i with
  | none => some s
  | some x =>
    ((s.fDescTable x).inode).map fun q =>
      { s.setInode q fun p => { p with cnt := p.cnt + 1 } with
        fDescTable := Function.update s.fDescTable x
          { s.fDescTable x with cnt := (s.fDescTable x).cnt + 1 } }

def fsFork (s : FsState) (child : Pid) : Option FsState :=
  (List.finRange nrFiles).foldlM (forkStep child) s

/-- one round of the loop of `fs_exit` -/
def exitStep (p : Pid) (s : FsState) (i : Fin nrFiles) : Option FsState :=
  match s.filp p i with
  | none => some s
  | some x =>
    ((s.fDescTable x).inode).map fun q =>
      { s.setInode q fun p => { p with cnt := p.cnt - 1 } with
        fDescTable := Function.update s.fDescTable x (dropFDesc (s.fDescTable x))
        filp := Function.update s.filp p (Function.update (s.filp p) i none) }

def fsExit (s : FsState) (p : Pid) : Option FsState :=
  (List.finRange nrFiles).foldlM (exitStep p) s

/-! ## the main loop -/

/-- what a process asks for; the buffer of READ and WRITE is the caller's memory -/
inductive Request where
  | OPEN (path : List Byte) (flags : Nat)
  | CLOSE (fd : Fin nrFiles)
  | READ (fd : Fin nrFiles) (len : Nat) (buf : Buffer)
  | WRITE (fd : Fin nrFiles) (len : Nat) (buf : Buffer)
  | LSEEK (fd : Fin nrFiles) (off : Int) (whence : Nat)
  | STAT (path : List Byte)
  | UNLINK (path : List Byte)

/-- the state after a request, and whether it succeeded -/
def serve (s : FsState) (p : Pid) : Request → Option (Bool × FsState)
  | .OPEN path flags => (doOpen s p path flags).map fun r => (r.1.isSome, r.2)
  | .CLOSE fd => (doClose s p fd).map fun s => (true, s)
  | .READ fd len buf => (doRdwt s p .READ fd len buf).map fun r => (true, r.2.1)
  | .WRITE fd len buf => (doRdwt s p .WRITE fd len buf).map fun r => (true, r.2.1)
  | .LSEEK fd off whence => (doLseek s p fd off whence).map fun r => (r.1.isSome, r.2)
  | .STAT path => (doStat s path).map fun r => (r.1.isSome, r.2)
  | .UNLINK path => doUnlink s path

end Noxis.Fs
