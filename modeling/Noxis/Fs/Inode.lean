import Noxis.Ipc.Proc
import Noxis.Fs.Disk

/-!
# 25-osfs11/fs/main.c: inodes

* `Super`      the super block, as it is in `super_block[0]`;
* `Inode`      an entry of `inode_table`, or what the disk has of one (`Inode.decode`);
* `FileDesc`   an entry of `f_desc_table`;
* `FsState`    the state of the file system: there is one device, ROOT_DEV.

`get_inode`, `put_inode` and `sync_inode` are translated as they are; `none` is an assertion that
fails, a panic or a request to the driver that does not come back.  Numbers are the values of `int`s
and `u32`s that fit an `int`.
-/

namespace Noxis.Fs
open Ipc (Pid)

abbrev nrInode : Nat := 64
abbrev nrFileDesc : Nat := 64
abbrev nrFiles : Nat := 64

instance neZero_files : NeZero nrFiles := ⟨by decide⟩

def I_TYPE_MASK : Nat := 0xF000
def I_REGULAR : Nat := 0x8000
def I_DIRECTORY : Nat := 0x4000
def I_CHAR_SPECIAL : Nat := 0x2000

def INVALID_INODE : Nat := 0
def ROOT_INODE : Nat := 1
def INODE_SIZE : Nat := 32

structure Super where
  nrInodes : Nat
  nrSects : Nat
  nrImapSects : Nat
  nrSmapSects : Nat
  n1stSect : Nat
  nrInodeSects : Nat
  deriving DecidableEq, Repr

/-- `i_cnt` and `i_num` are only in memory -/
structure Inode where
  mode : Nat
  size : Nat
  startSect : Nat
  nrSects : Nat
  cnt : Nat
  num : Nat
  deriving DecidableEq, Repr

def Inode.zero : Inode := ⟨0, 0, 0, 0, 0, 0⟩

structure FileDesc where
  mode : Nat
  pos : Nat
  cnt : Nat
  inode : Option (Fin nrInode)
  deriving DecidableEq, Repr

structure FsState where
  disk : Disk
  sb : Super
  inodeTable : Fin nrInode → Inode
  fDescTable : Fin nrFileDesc → FileDesc
  filp : Pid → Fin nrFiles → Option (Fin nrFileDesc)
  /-- `root_inode` -/
  rootInode : Fin nrInode

def FsState.setInode (s : FsState) (q : Fin nrInode) (f : Inode → Inode) : FsState :=
  { s with inodeTable := Function.update s.inodeTable q (f (s.inodeTable q)) }

/-! ## inodes on the disk -/

/-- the sector of inode `num` -/
def inodeBlk (sb : Super) (num : Nat) : Nat := 1 + 1 + sb.nrImapSects + sb.nrSmapSects + (num - 1) / 16

/-- the offset of inode `num` in its sector -/
def inodeOff (num : Nat) : Nat := (num - 1) % 16 * INODE_SIZE

/-- the four words of an inode on the disk -/
def Inode.decode (b : Buffer) (o : Nat) (cnt num : Nat) : Inode :=
  ⟨get32 b o, get32 b (o + 4), get32 b (o + 8), get32 b (o + 12), cnt, num⟩

def Inode.encode (b : Buffer) (o : Nat) (p : Inode) : Buffer :=
  put32 (put32 (put32 (put32 b o p.mode) (o + 4) p.size) (o + 8) p.startSect) (o + 12) p.nrSects

/-- the entry of `inode_table` that has inode `num` -/
def cached (s : FsState) (num : Nat) : Option (Fin nrInode) :=
  (List.finRange nrInode).find? fun p =>
    decide ((s.inodeTable p).cnt ≠ 0) && decide ((s.inodeTable p).num = num)

/-- the first free entry -/
def freeEntry (s : FsState) : Option (Fin nrInode) :=
  (List.finRange nrInode).find? fun p => decide ((s.inodeTable p).cnt = 0)

/-- `get_inode`, for a number that is not 0 -/
def getInode (s : FsState) (num : Nat) : Option (Fin nrInode × FsState) :=
  match cached s num with
  | some p => some (p, s.setInode p fun x => { x with cnt := x.cnt + 1 })
  | none =>
    match freeEntry s with
    | none => none
    | some q =>
      some (q, s.setInode q fun _ =>
        .decode (rdSect s.disk (inodeBlk s.sb num)) (inodeOff num) 1 num)

def putInode (s : FsState) (q : Fin nrInode) : Option FsState :=
  if 0 < (s.inodeTable q).cnt then some (s.setInode q fun x => { x with cnt := x.cnt - 1 })
  else none

def syncInode (s : FsState) (q : Fin nrInode) : FsState :=
  let p := s.inodeTable q
  let blk := inodeBlk s.sb p.num
  { s with disk := wrSect s.disk blk (p.encode (rdSect s.disk blk) (inodeOff p.num)) }

section
variable {s : FsState} {q : Fin nrInode} {b : Buffer} {p : Inode} {o a num : Nat}

theorem Inode.encode_other (h : ¬ (o ≤ a ∧ a < o + 16)) : p.encode b o a = b a := by
  unfold Inode.encode
  rw [put32_not_mem (by omega), put32_not_mem (by omega), put32_not_mem (by omega),
    put32_not_mem (by omega)]

/-- **Round trip of an inode.** -/
theorem Inode.decode_encode (hm : p.mode < 2 ^ 32) (hs : p.size < 2 ^ 32)
    (ht : p.startSect < 2 ^ 32) (hn : p.nrSects < 2 ^ 32) :
    Inode.decode (p.encode b o) o p.cnt p.num = p := by
  unfold Inode.decode Inode.encode
  rw [get32_put32_ne (by omega), get32_put32_ne (by omega), get32_put32_ne (by omega),
    get32_put32_of_lt hm, get32_put32_ne (by omega), get32_put32_ne (by omega),
    get32_put32_of_lt hs, get32_put32_ne (by omega), get32_put32_of_lt ht, get32_put32_of_lt hn]

/-- `sync_inode` writes nothing but its own inode -/
theorem syncInode_disk {t : Nat} (h : (syncInode s q).disk t o ≠ s.disk t o) :
    t = sectOf (inodeBlk s.sb (s.inodeTable q).num) ∧
      inodeOff (s.inodeTable q).num ≤ o ∧ o < inodeOff (s.inodeTable q).num + 16 := by
  have hlt : o < 512 := by
    by_contra hge
    exact h (wrSect_ge (by omega))
  have ht : t = sectOf (inodeBlk s.sb (s.inodeTable q).num) := by
    by_contra hne
    exact h (congrFun (wrSect_other hne) o)
  refine ⟨ht, ?_⟩
  by_contra hno
  apply h
  subst ht
  unfold syncInode
  simp only
  rw [wrSect_lt hlt, Inode.encode_other hno, rdSect_lt hlt]

end

end Noxis.Fs
