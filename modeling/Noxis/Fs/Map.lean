import Noxis.Fs.Inode

/-!
# 25-osfs11/fs/open.c, fs/link.c: the inode map and the sector map

* `allocImapBit`   takes the first free inode number
* `allocSmapBit`   takes a run of sectors
* `freeImapBit`, `freeSmapBits`   what `do_unlink` does to the maps

Bit `k` of the sector map stands for sector `k + n_1st_sect - 1`.  `none` is an assertion that
fails or a panic.
-/

namespace Noxis.Fs

def NR_DEFAULT_FILE_SECTS : Nat := 2048

/-- `for (k = 0; ((b >> k) & 1) != 0; k++) {}` -/
def firstZero (b : Byte) : Nat := ((List.range 8).find? fun k => !b.getLsbD k).getD 8

/-- `b |= (1 << k)` -/
def setBit (b : Byte) (k : Nat) : Byte := b ||| BitVec.ofNat 8 (2 ^ k)

/-- `b &= ~(1 << k)` -/
def clearBit (b : Byte) (k : Nat) : Byte := b &&& ~~~ BitVec.ofNat 8 (2 ^ k)

/-! ## inode map -/

/-- the first byte of a sector that is not full -/
def notFull (b : Buffer) : Option Nat := (List.range SECTOR_SIZE).find? fun j => b j ≠ 0xFF

/-- the number that `alloc_imap_bit` gives: the loop over the map's sectors returns in its first
round, with 0 when that sector is full -/
def freeInodeNr (s : FsState) : Nat :=
  match notFull (rdSect s.disk 2) with
  | none => 0
  | some j => j * 8 + firstZero (rdSect s.disk 2 j)

def allocImapBit (s : FsState) : Option (Nat × FsState) :=
  if s.sb.nrImapSects = 0 then none
  else
    let fsbuf := rdSect s.disk 2
    match notFull fsbuf with
    | none => some (freeInodeNr s, s)
    | some j =>
      let fsbuf := Function.update fsbuf j (setBit (fsbuf j) (firstZero (fsbuf j)))
      some (freeInodeNr s, { s with disk := wrSect s.disk 2 fsbuf })

/-- the bit of a number in the first sector of the map is cleared -/
def freeImapBit (s : FsState) (inodeNr : Nat) : Option FsState :=
  if inodeNr / 8 < SECTOR_SIZE then
    let fsbuf := rdSect s.disk 2
    if (fsbuf (inodeNr / 8)).getLsbD (inodeNr % 8) then
      let byte := clearBit (fsbuf (inodeNr / 8)) (inodeNr % 8)
      some { s with disk := wrSect s.disk 2 (Function.update fsbuf (inodeNr / 8) byte) }
    else none
  else none

/-! ## taking sectors -/

/-- the bits of one byte from `k` on, until enough are set -/
def takeBits : Nat → Nat → Byte → Nat → Option (Byte × Nat)
  | 0, _, b, left => some (b, left)
  | n + 1, k, b, left =>
    if b.getLsbD k then none
    else if left = 1 then some (setBit b k, 0)
    else takeBits n (k + 1) (setBit b k) (left - 1)

/-- the variables of `alloc_smap_bit` -/
structure Alloc where
  fsbuf : Buffer
  nrSectsToAlloc : Nat
  freeSectNr : Nat

/-- byte `j` of the map's sector `i` -/
def allocByte (n1stSect i j : Nat) (a : Alloc) : Option Alloc :=
  let take (k freeSectNr : Nat) : Option Alloc :=
    (takeBits (8 - k) k (a.fsbuf j) a.nrSectsToAlloc).map fun r =>
      ⟨Function.update a.fsbuf j r.1, r.2, freeSectNr⟩
  if a.freeSectNr = 0 then
    if a.fsbuf j = 0xFF then some a
    else
      let k := firstZero (a.fsbuf j)
      take k ((i * SECTOR_SIZE + j) * 8 + k + n1stSect - 1)
  else take 0 a.freeSectNr

/-- the bytes of sector `i` from `j` on -/
def allocBytes (n1stSect i : Nat) : Nat → Nat → Alloc → Option Alloc
  | 0, _, a => some a
  | n + 1, j, a =>
    if a.nrSectsToAlloc = 0 then some a
    else (allocByte n1stSect i j a).bind (allocBytes n1stSect i n (j + 1))

/-- the sectors of the map from `i` on: the disk, how many are left, and the first one taken -/
def allocSects (sb : Super) : Nat → Nat → Disk → Nat → Nat → Option (Disk × Nat × Nat)
  | 0, _, d, left, free => some (d, left, free)
  | n + 1, i, d, left, free =>
    (allocBytes sb.n1stSect i SECTOR_SIZE 0
      ⟨rdSect d (1 + 1 + sb.nrImapSects + i), left, free⟩).bind fun a =>
      let d := if a.freeSectNr ≠ 0 then wrSect d (1 + 1 + sb.nrImapSects + i) a.fsbuf else d
      if a.nrSectsToAlloc = 0 then some (d, 0, a.freeSectNr)
      else allocSects sb n (i + 1) d a.nrSectsToAlloc a.freeSectNr

def allocSmapBit (s : FsState) (nrSectsToAlloc : Nat) : Option (Nat × FsState) :=
  (allocSects s.sb s.sb.nrSmapSects 0 s.disk nrSectsToAlloc 0).bind fun r =>
    if r.2.1 = 0 then some (r.2.2, { s with disk := r.1 }) else none

/-! ## giving sectors back -/

/-- the bits of the first byte, from `i` on -/
def giveBits : Nat → Nat → Byte → Nat → Option (Byte × Nat)
  | 0, _, b, left => some (b, left)
  | n + 1, i, b, left =>
    if left = 0 then some (b, left)
    else if b.getLsbD i then giveBits n (i + 1) (clearBit b i) (left - 1)
    else none

/-- the variables of `do_unlink` while it frees the sectors: `s` is the sector of the map that is in
`fsbuf`, `i` the byte -/
structure Free where
  disk : Disk
  fsbuf : Buffer
  s : Nat
  i : Nat

/-- at the end of a sector it is written, and the next one is read -/
def Free.turn (f : Free) : Free :=
  if f.i = SECTOR_SIZE then
    let d := wrSect f.disk f.s f.fsbuf
    ⟨d, rdSect d (f.s + 1), f.s + 1, 0⟩
  else f

/-- the bytes between the first one and the last one -/
def giveBytes : Nat → Free → Option Free
  | 0, f => some f
  | n + 1, f =>
    let f := f.turn
    if f.fsbuf f.i = 0xFF then
      giveBytes n { f with fsbuf := Function.update f.fsbuf f.i 0, i := f.i + 1 }
    else none

/-- the `bitsLeft` low bits of the last byte -/
def giveLast (f : Free) (bitsLeft : Nat) : Option Disk :=
  let f := f.turn
  let mask : Byte := BitVec.ofNat 8 (2 ^ bitsLeft - 1)
  if f.fsbuf f.i &&& mask = mask then
    some (wrSect f.disk f.s (Function.update f.fsbuf f.i (f.fsbuf f.i &&& ~~~ mask)))
  else none

/-- a file in front of the data area has no bits -/
def freeSmapBits (s : FsState) (startSect nrSects : Nat) : Option FsState :=
  if startSect + 1 < s.sb.n1stSect then none
  else
    let bitIdx := startSect + 1 - s.sb.n1stSect
    let byteIdx := bitIdx / 8
    let byteCnt := ((nrSects : Int) - (8 - bitIdx % 8)).tdiv 8
    let sect := 2 + s.sb.nrImapSects + byteIdx / SECTOR_SIZE
    let fsbuf := rdSect s.disk sect
    (giveBits (8 - bitIdx % 8) (bitIdx % 8) (fsbuf (byteIdx % SECTOR_SIZE)) nrSects).bind fun r =>
      (giveBytes byteCnt.toNat ⟨s.disk, Function.update fsbuf (byteIdx % SECTOR_SIZE) r.1, sect,
        byteIdx % SECTOR_SIZE + 1⟩).bind fun f =>
        (giveLast f (r.2 - 8 * byteCnt.toNat)).map fun d => { s with disk := d }

end Noxis.Fs
