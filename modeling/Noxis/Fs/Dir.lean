import Noxis.Fs.Inode

/-!
# 25-osfs11/fs/misc.c: names and the root directory

There is one directory, `/`.  Its entries lie one after the other in its sectors, 32 to a sector;
an entry is an inode number and a name of 12 bytes.

* `stripPath`     the name of a path
* `searchFile`    the inode number of a path
* `newDirEntry`   writes an entry
* `clearEntry`    what `do_unlink` does to the directory
-/

namespace Noxis.Fs

def MAX_PATH : Nat := 128
def MAX_FILENAME_LEN : Nat := 12
def DIR_ENTRY_SIZE : Nat := 16
/-- entries of a sector -/
def perSect : Nat := SECTOR_SIZE / DIR_ENTRY_SIZE

def slash : Byte := 0x2F

/-- a C string ends at its first 0 -/
def cString (l : List Byte) : List Byte := l.takeWhile (· ≠ 0)

/-! ## paths -/

/-- a name stops after 12 characters, whatever follows them -/
def stripName : Nat → List Byte → Option (List Byte)
  | _, [] => some []
  | 0, _ :: _ => some []
  | n + 1, c :: s => if c = slash then none else (stripName n s).map (c :: ·)

/-- `strip_path`; `none` when a `/` is left in the name -/
def stripPath (pathname : List Byte) : Option (List Byte) :=
  stripName MAX_FILENAME_LEN (if pathname.head? = some slash then pathname.tail else pathname)

/-! ## entries -/

/-- the inode number of entry `j` of a sector -/
def entryNr (b : Buffer) (j : Nat) : Nat := get32 b (j * DIR_ENTRY_SIZE)

/-- the name of entry `j` is `filename`, with zeros behind it -/
def entryIs (b : Buffer) (j : Nat) (filename : List Byte) : Bool :=
  (List.range MAX_FILENAME_LEN).all fun k => b (j * DIR_ENTRY_SIZE + 4 + k) = filename.getD k 0

/-- `root_inode` -/
def FsState.root (s : FsState) : Inode := s.inodeTable s.rootInode

/-- `nr_dir_entries` -/
def FsState.nrDirEntries (s : FsState) : Nat := s.root.size / DIR_ENTRY_SIZE

/-- entries `j`, `j + 1`, … of a sector, `m` of the directory were looked at: the inode number that
is found, or how many were looked at then -/
def searchSect (b : Buffer) (filename : List Byte) (nr : Nat) : Nat → Nat → Nat → Nat ⊕ Nat
  | 0, _, m => .inr m
  | n + 1, j, m =>
    if entryIs b j filename then .inl (entryNr b j)
    else if nr < m + 1 then .inr (m + 1)
    else searchSect b filename nr n (j + 1) (m + 1)

def searchSects (s : FsState) (filename : List Byte) : Nat → Nat → Nat → Nat
  | 0, _, _ => 0
  | n + 1, i, m =>
    match searchSect (rdSect s.disk (s.root.startSect + i)) filename s.nrDirEntries perSect 0 m with
    | .inl inodeNr => inodeNr
    | .inr m => if s.nrDirEntries < m then 0 else searchSects s filename n (i + 1) m

def searchFile (s : FsState) (path : List Byte) : Nat :=
  match stripPath path with
  | none => 0
  | some [] => s.root.num
  | some filename =>
    searchSects s filename ((s.root.size + SECTOR_SIZE - 1) / SECTOR_SIZE) 0 0

/-! ## a new entry -/

/-- where the search for a free entry stops in a sector: the entry, how many were looked at, and
whether the entry is a free one -/
def freeInSect (b : Buffer) (nr : Nat) : Nat → Nat → Nat → Nat × Nat × Bool
  | 0, j, m => (j, m, false)
  | n + 1, j, m =>
    if nr < m + 1 then (j, m + 1, false)
    else if entryNr b j = 0 then (j, m + 1, true)
    else freeInSect b nr n (j + 1) (m + 1)

/-- the sector and the entry, and whether the entry is a free one -/
def freeInSects (s : FsState) : Nat → Nat → Nat → Nat × Nat × Bool
  | 0, i, _ => (i, perSect, false)
  | n + 1, i, m =>
    let r := freeInSect (rdSect s.disk (s.root.startSect + i)) s.nrDirEntries perSect 0 m
    if s.nrDirEntries < r.2.1 ∨ r.2.2 then (i, r.1, r.2.2) else freeInSects s n (i + 1) r.2.1

/-- `strcpy` of a name and the 0 behind it -/
def strcpy (b : Buffer) (o : Nat) (filename : List Byte) : Buffer := fun a =>
  if o ≤ a ∧ a < o + filename.length + 1 then filename.getD (a - o) 0 else b a

/-- `new_dir_entry`; when no entry is free the directory grows -/
def newDirEntry (s : FsState) (inodeNr : Nat) (filename : List Byte) : FsState :=
  let r := freeInSects s ((s.root.size + SECTOR_SIZE) / SECTOR_SIZE) 0 0
  let fsbuf := rdSect s.disk (s.root.startSect + r.1)
  let fsbuf := strcpy (put32 fsbuf (r.2.1 * DIR_ENTRY_SIZE) inodeNr)
    (r.2.1 * DIR_ENTRY_SIZE + 4) filename
  let s' := if r.2.2 then s else s.setInode s.rootInode fun p =>
    { p with size := p.size + DIR_ENTRY_SIZE }
  syncInode { s' with disk := wrSect s.disk (s.root.startSect + r.1) fsbuf } s.rootInode

/-! ## an entry less -/

/-- where the search for the entry of an inode stops in a sector: the entry, how many were looked at,
the bytes of those in use, and whether the entry is found -/
def nrInSect (b : Buffer) (nr inodeNr : Nat) : Nat → Nat → Nat → Nat → Nat × Nat × Nat × Bool
  | 0, j, m, size => (j, m, size, false)
  | n + 1, j, m, size =>
    if nr < m + 1 then (j, m + 1, size, false)
    else if entryNr b j = inodeNr then (j, m + 1, size, true)
    else nrInSect b nr inodeNr n (j + 1) (m + 1)
      (if entryNr b j ≠ INVALID_INODE then size + DIR_ENTRY_SIZE else size)

/-- the sector, the entry, how many were looked at, the bytes in use; `none` if it is not found -/
def nrInSects (s : FsState) (inodeNr : Nat) : Nat → Nat → Nat → Nat →
    Option (Nat × Nat × Nat × Nat)
  | 0, _, _, _ => none
  | n + 1, i, m, size =>
    let r := nrInSect (rdSect s.disk (s.root.startSect + i)) s.nrDirEntries inodeNr perSect 0 m size
    if r.2.2.2 then some (i, r.1, r.2.1, r.2.2.1)
    else if s.nrDirEntries < r.2.1 then none
    else nrInSects s inodeNr n (i + 1) r.2.1 r.2.2.1

/-- the entry of the inode is cleared; when it was the last one the directory shrinks to the size
of the entries in use before it -/
def clearEntry (s : FsState) (inodeNr : Nat) : Option FsState :=
  (nrInSects s inodeNr ((s.root.size + SECTOR_SIZE) / SECTOR_SIZE) 0 0 0).map
    fun (i, j, m, size) =>
      let fsbuf := rdSect s.disk (s.root.startSect + i)
      let fsbuf : Buffer := fun a =>
        if j * DIR_ENTRY_SIZE ≤ a ∧ a < j * DIR_ENTRY_SIZE + DIR_ENTRY_SIZE then 0 else fsbuf a
      let s' := { s with disk := wrSect s.disk (s.root.startSect + i) fsbuf }
      if m = s.nrDirEntries then
        syncInode (s'.setInode s.rootInode fun p => { p with size := size }) s.rootInode
      else s'

end Noxis.Fs
