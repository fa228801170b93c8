import Noxis.Fs.Inode

/-!
# 25-osfs11/fs/read_write.c: READ and WRITE

`do_rdwt` as it computes; `file_rdwt` says what it does to a file.

* `read_iff`    a READ returns the file exactly when the request ends inside the file, in the first
                256 sectors from its position on, and starts below sector 2^22;
* `write_iff`   a WRITE stays inside the file under the same condition, with the allocation in the
                place of the file's size.
-/

namespace Noxis.Fs
open Ipc (Pid)

def FSBUF_SIZE : Nat := 0x100000

def O_CREAT : Nat := 1
def O_RDWR : Nat := 2
def O_TRUNC : Nat := 4

/-- the two requests -/
inductive Io where
  | READ | WRITE
  deriving DecidableEq, Repr

/-- the variables of the loop, the disk, and the buffer of the caller from BUF on -/
structure Rw where
  disk : Disk
  buf : Buffer
  off : Nat
  bytesRw : Nat
  fdPos : Nat
  bytesLeft : Nat

/-- one turn of the loop -/
def rwTurn (io : Io) (chunk i : Nat) (r : Rw) : Option Rw := do
  let bytes := min r.bytesLeft (chunk * SECTOR_SIZE - r.off)
  let fsbuf ← rdSectors r.disk i chunk
  let r' := { r with
    off := 0, bytesRw := r.bytesRw + bytes, fdPos := r.fdPos + bytes
    bytesLeft := r.bytesLeft - bytes }
  match io with
  | .READ => some { r' with buf := physCopy r.buf r.bytesRw fsbuf r.off bytes }
  | .WRITE => do
    let disk ← wrSectors r.disk i chunk (physCopy fsbuf r.off r.buf r.bytesRw bytes)
    some { r' with disk := disk }

/-- `for (i = rw_sect_min; i <= rw_sect_max; i += chunk)`; `chunk` is at least 1 when it runs, so it
has no more turns than there are sectors -/
def rwLoop (io : Io) (chunk sectMax : Nat) : Nat → Nat → Rw → Option Rw
  | 0, _, r => some r
  | n + 1, i, r =>
    if i ≤ sectMax then (rwTurn io chunk i r).bind (rwLoop io chunk sectMax n (i + chunk)) else some r

/-- what `do_rdwt` answers: a count, or for a terminal the message that goes on to the driver -/
inductive Answer where
  | count (n : Nat)
  | driver (io : Io) (minor : Nat)
  deriving DecidableEq, Repr

/-- where a request ends -/
def posEnd (io : Io) (pin : Inode) (pos len : Nat) : Nat :=
  match io with
  | .READ => min (pos + len) pin.size
  | .WRITE => min (pos + len) (pin.nrSects * SECTOR_SIZE)

/-- what follows the loop: the file may have grown -/
def rwEnd (s : FsState) (x : Fin nrFileDesc) (q : Fin nrInode) (r : Rw) : FsState :=
  let s' := { s with
    disk := r.disk
    fDescTable := Function.update s.fDescTable x { s.fDescTable x with pos := r.fdPos } }
  if (s.inodeTable q).size < r.fdPos then
    syncInode (s'.setInode q fun p => { p with size := r.fdPos }) q
  else s'

/-- `do_rdwt`; `buf` is the memory of the caller from BUF on -/
def doRdwt (s : FsState) (pcaller : Pid) (io : Io) (fd : Fin nrFiles) (len : Nat) (buf : Buffer) :
    Option (Answer × FsState × Buffer) :=
  match s.filp pcaller fd with
  | none => none
  | some x =>
    if (s.fDescTable x).mode &&& O_RDWR = 0 then some (.count 0, s, buf)
    else
      match (s.fDescTable x).inode with
      | none => none
      | some q =>
        let pos := (s.fDescTable x).pos
        let pin := s.inodeTable q
        if pin.mode &&& I_TYPE_MASK = I_CHAR_SPECIAL then
          if pin.startSect / 256 % 256 = 4 then some (.driver io (pin.startSect % 256), s, buf)
          else none
        else if pin.mode = I_REGULAR ∨ pin.mode = I_DIRECTORY then
          let rwSectMin := pin.startSect + pos / SECTOR_SIZE
          let rwSectMax := pin.startSect + posEnd io pin pos len / SECTOR_SIZE
          let chunk := min (rwSectMax + 1 - rwSectMin) (FSBUF_SIZE / SECTOR_SIZE)
          (rwLoop io chunk rwSectMax (rwSectMax + 1 - rwSectMin) rwSectMin
            ⟨s.disk, buf, pos % SECTOR_SIZE, 0, pos, len⟩).map fun r =>
              (.count r.bytesRw, rwEnd s x q r, r.buf)
        else none

/-! ## the loop -/

section
variable {io : Io} {chunk sectMax i n : Nat} {r : Rw}

theorem rwLoop_done (h : sectMax < i) : rwLoop io chunk sectMax n i r = some r := by
  cases n with
  | zero => rfl
  | succ n => exact if_neg (by omega)

/-- all sectors in one turn -/
theorem rwLoop_one (hi : i ≤ sectMax) (hc : chunk = sectMax + 1 - i) :
    rwLoop io chunk sectMax (n + 1) i r = rwTurn io chunk i r := by
  rw [rwLoop, if_pos hi]
  have hnext : rwLoop io chunk sectMax n (i + chunk) = some := by
    funext r
    exact rwLoop_done (by omega)
  rw [hnext]
  cases rwTurn io chunk i r <;> rfl

theorem rwTurn_none (h : 256 < chunk) : rwTurn io chunk i r = none := by
  unfold rwTurn
  rw [rdSectors_none h]
  rfl

theorem rwTurn_read (h : chunk ≤ 256) : rwTurn .READ chunk i r =
    let bytes := min r.bytesLeft (chunk * SECTOR_SIZE - r.off)
    some { r with
      buf := physCopy r.buf r.bytesRw (readAt r.disk (sectOf i)) r.off bytes
      off := 0, bytesRw := r.bytesRw + bytes, fdPos := r.fdPos + bytes
      bytesLeft := r.bytesLeft - bytes } := by
  unfold rwTurn
  rw [rdSectors_some h]
  rfl

theorem rwTurn_write (h : chunk ≤ 256) : rwTurn .WRITE chunk i r =
    let bytes := min r.bytesLeft (chunk * SECTOR_SIZE - r.off)
    some { r with
      disk := writeAt r.disk (sectOf i) chunk
        (physCopy (readAt r.disk (sectOf i)) r.off r.buf r.bytesRw bytes)
      off := 0, bytesRw := r.bytesRw + bytes, fdPos := r.fdPos + bytes
      bytesLeft := r.bytesLeft - bytes } := by
  unfold rwTurn
  rw [rdSectors_some h]
  simp only [Option.bind_eq_bind, Option.bind_some]
  rw [wrSectors_some h]
  rfl

end

/-! ## an open file -/

/-- what a super block made by `mkfs` says -/
structure Super.Ok (sb : Super) : Prop where
  imap : sb.nrImapSects = 1
  smap : sb.nrSmapSects = sb.nrSects / 4096 + 1
  inodes : sb.nrInodeSects = 256
  first : sb.n1stSect = 1 + 1 + sb.nrImapSects + sb.nrSmapSects + sb.nrInodeSects
  sects : sb.nrSects < 2 ^ 28

/-- a file with its allocation, which an `int` can count the bytes of, in the data area -/
structure File where
  startSect : Nat
  nrSects : Nat
  size : Nat
  size_le : size ≤ nrSects * 512
  fits : nrSects * 512 < 2 ^ 31
  data : 260 ≤ startSect
  device : startSect + nrSects < 2 ^ 28

/-- descriptor `fd` of the process `p` is an open regular file, at the position `pos` -/
structure OpenFile (s : FsState) (p : Pid) (fd : Fin nrFiles) (x : Fin nrFileDesc)
    (q : Fin nrInode) (f : File) (pos : Nat) : Prop where
  desc : s.filp p fd = some x
  rdwr : (s.fDescTable x).mode &&& O_RDWR ≠ 0
  inode : (s.fDescTable x).inode = some q
  pos : (s.fDescTable x).pos = pos
  mode : (s.inodeTable q).mode = I_REGULAR
  startSect : (s.inodeTable q).startSect = f.startSect
  nrSects : (s.inodeTable q).nrSects = f.nrSects
  size : (s.inodeTable q).size = f.size
  num : 1 ≤ (s.inodeTable q).num ∧ (s.inodeTable q).num ≤ 4096
  sb : s.sb.Ok
  data : s.sb.n1stSect ≤ f.startSect

/-- byte `i` of the file -/
def fileByte (d : Disk) (f : File) (i : Nat) : Byte := d (f.startSect + i / 512) (i % 512)

/-- how far a request may go -/
def File.limit (f : File) : Io → Nat
  | .READ => f.size
  | .WRITE => f.nrSects * 512

/-- how many sectors a request touches, less one -/
def File.more (f : File) (io : Io) (pos len : Nat) : Nat :=
  min (pos + len) (f.limit io) / 512 - pos / 512

section
variable {s : FsState} {p : Pid} {fd : Fin nrFiles} {x : Fin nrFileDesc} {q : Fin nrInode}
  {f : File} {pos len : Nat} {io : Io} {buf : Buffer}

theorem doRdwt_regular (h : OpenFile s p fd x q f pos) : doRdwt s p io fd len buf =
    (rwLoop io (min (f.startSect + min (pos + len) (f.limit io) / 512 + 1 - (f.startSect + pos / 512))
        (FSBUF_SIZE / SECTOR_SIZE))
      (f.startSect + min (pos + len) (f.limit io) / 512)
      (f.startSect + min (pos + len) (f.limit io) / 512 + 1 - (f.startSect + pos / 512))
      (f.startSect + pos / 512) ⟨s.disk, buf, pos % 512, 0, pos, len⟩).map fun r =>
        (.count r.bytesRw, rwEnd s x q r, r.buf) := by
  have hend : posEnd io (s.inodeTable q) pos len = min (pos + len) (f.limit io) := by
    cases io with
    | READ => exact congrArg (min (pos + len)) h.size
    | WRITE => exact congrArg (fun n => min (pos + len) (n * 512)) h.nrSects
  have hchar : (s.inodeTable q).mode &&& I_TYPE_MASK ≠ I_CHAR_SPECIAL := by
    rw [h.mode]
    decide
  unfold doRdwt
  simp only [h.desc, h.inode, if_neg h.rdwr, if_neg hchar, if_pos (Or.inl h.mode), h.pos,
    h.startSect, hend]
  rfl

/-- a request that is done in one turn -/
theorem doRdwt_one (h : OpenFile s p fd x q f pos) (hpos : pos ≤ f.limit io)
    (hn : f.more io pos len < 256) : doRdwt s p io fd len buf =
      (rwTurn io (f.more io pos len + 1) (f.startSect + pos / 512)
        ⟨s.disk, buf, pos % 512, 0, pos, len⟩).map fun r =>
          (.count r.bytesRw, rwEnd s x q r, r.buf) := by
  unfold File.more at hn ⊢
  have hle : pos / 512 ≤ min (pos + len) (f.limit io) / 512 := by
    apply Nat.div_le_div_right
    omega
  rw [doRdwt_regular h]
  set e := min (pos + len) (f.limit io) / 512 with he
  have hsub : f.startSect + e + 1 - (f.startSect + pos / 512) = e - pos / 512 + 1 := by omega
  have hbuf : FSBUF_SIZE / SECTOR_SIZE = 2048 := rfl
  rw [hsub, hbuf, Nat.min_eq_left (by omega), rwLoop_one (by omega) (by omega)]

/-- a request that the driver does not come back from -/
theorem doRdwt_none (h : OpenFile s p fd x q f pos)
    (hn : 256 ≤ f.more io pos len) : doRdwt s p io fd len buf = none := by
  unfold File.more at hn
  rw [doRdwt_regular h]
  set e := min (pos + len) (f.limit io) / 512 with he
  have hsub : f.startSect + e + 1 - (f.startSect + pos / 512) = e - pos / 512 + 1 := by omega
  have hbuf : FSBUF_SIZE / SECTOR_SIZE = 2048 := rfl
  rw [hsub, hbuf, rwLoop, if_pos (by omega), rwTurn_none (by omega)]
  rfl

end

/-- the super block of a device without sectors -/
def Super.smallest : Super := ⟨4096, 0, 1, 1, 260, 256⟩

theorem Super.smallest_ok : Super.smallest.Ok :=
  ⟨by decide, by decide, by decide, by decide, by decide⟩

/-- a file system with one open file on the disk `d` -/
def oneFile (f : File) (pos num : Nat) (d : Disk) : FsState :=
  { disk := d, sb := .smallest
    inodeTable := fun _ => ⟨I_REGULAR, f.size, f.startSect, f.nrSects, 1, num⟩
    fDescTable := fun _ => ⟨O_RDWR, pos, 1, some 0⟩
    filp := fun _ _ => some 0, rootInode := 0 }

theorem oneFile_open (f : File) (pos : Nat) (d : Disk) {num : Nat} (hn : 1 ≤ num ∧ num ≤ 4096) :
    OpenFile (oneFile f pos num d) 8 0 0 0 f pos :=
  ⟨rfl, show O_RDWR &&& O_RDWR ≠ 0 by decide, rfl, rfl, rfl, rfl, rfl, rfl, hn, Super.smallest_ok,
    f.data⟩

/-! ## READ -/

/-- **The property of READ.**  It returns the bytes of the file from the position on, as many as it was
asked for if there are so many, and moves the position by that; nothing else changes. -/
def ReadsFile (f : File) (pos len : Nat) : Prop :=
  ∀ s p fd x q, OpenFile s p fd x q f pos → ∀ buf, ∃ buf',
    doRdwt s p .READ fd len buf = some (.count (min len (f.size - pos)), { s with
      fDescTable := Function.update s.fDescTable x
        { s.fDescTable x with pos := pos + min len (f.size - pos) } }, buf') ∧
    ∀ i < min len (f.size - pos), buf' i = fileByte s.disk f (pos + i)

/-- **The condition.**  The request ends inside the file and within 256 sectors, and starts below sector
2^22 or is empty. -/
def Readable (f : File) (pos len : Nat) : Prop :=
  pos + len ≤ f.size ∧ (pos + len) / 512 - pos / 512 < 256 ∧
    (len = 0 ∨ f.startSect + pos / 512 < 2 ^ 22)

section
variable {s : FsState} {p : Pid} {fd : Fin nrFiles} {x : Fin nrFileDesc} {q : Fin nrInode}
  {f : File} {pos len : Nat} {buf : Buffer}

/-- a READ in one turn -/
theorem doRdwt_read (buf : Buffer) (h : OpenFile s p fd x q f pos) (hpos : pos ≤ f.size)
    (hn : f.more .READ pos len < 256) :
    let n := min len ((f.more .READ pos len + 1) * 512 - pos % 512)
    let r : Rw := ⟨s.disk, physCopy buf 0 (readAt s.disk (sectOf (f.startSect + pos / 512)))
      (pos % 512) n, 0, 0 + n, pos + n, len - n⟩
    doRdwt s p .READ fd len buf = some (.count (0 + n), rwEnd s x q r, r.buf) := by
  have hpos' : pos ≤ f.limit .READ := hpos
  rw [doRdwt_one h hpos' hn, rwTurn_read (by omega)]
  rfl

theorem readsFile_of (hc : Readable f pos len) : ReadsFile f pos len := by
  obtain ⟨hend, hn, hsect⟩ := hc
  intro s p fd x q h buf
  have hlim : min (pos + len) f.size = pos + len := Nat.min_eq_left hend
  have hmore : f.more .READ pos len = (pos + len) / 512 - pos / 512 := by
    unfold File.more File.limit
    rw [hlim]
  have hbytes : min len ((f.more .READ pos len + 1) * 512 - pos % 512) = len := by
    rw [hmore]
    omega
  have hcount : min len (f.size - pos) = len := by omega
  have hread := doRdwt_read buf h (by omega) (by rw [hmore]; exact hn)
  simp only [hbytes, Nat.zero_add] at hread
  rw [hcount]
  refine ⟨physCopy buf 0 (readAt s.disk (sectOf (f.startSect + pos / 512))) (pos % 512) len,
    hread.trans ?_, fun i hi => ?_⟩
  · -- the position is not behind the end, so the inode stays
    have hsize : ¬ (s.inodeTable q).size < pos + len := by
      rw [h.size]
      omega
    unfold rwEnd
    rw [if_neg hsize]
  · have hlt : f.startSect + pos / 512 < 2 ^ 22 := hsect.resolve_left (by omega)
    have hcopy : physCopy buf 0 (readAt s.disk (sectOf (f.startSect + pos / 512))) (pos % 512) len
        (0 + i) = readAt s.disk (sectOf (f.startSect + pos / 512)) (pos % 512 + i) :=
      physCopy_mem hi
    rw [Nat.zero_add] at hcopy
    rw [hcopy, sectOf_of_lt hlt]
    show s.disk (f.startSect + pos / 512 + (pos % 512 + i) / 512) ((pos % 512 + i) % 512) =
      s.disk (f.startSect + (pos + i) / 512) ((pos + i) % 512)
    congr 1 <;> omega

theorem readable_of (hpos : pos ≤ f.size) (hr : ReadsFile f pos len) : Readable f pos len := by
  have hnum : 1 ≤ 1 ∧ 1 ≤ 4096 := by decide
  -- a disk that has ones in the sector that the driver gets to see
  set d : Disk := fun t _ => if t = sectOf (f.startSect + pos / 512) then 1 else 0 with hd
  have h := oneFile_open f pos d hnum
  obtain ⟨buf', hdo, hbuf⟩ := hr _ _ _ _ _ h fun _ => 0
  have hn : f.more .READ pos len < 256 := by
    by_contra hge
    rw [doRdwt_none h (by omega)] at hdo
    cases hdo
  rw [doRdwt_read _ h hpos hn] at hdo
  simp only [Option.some.injEq, Prod.mk.injEq, Answer.count.injEq, Nat.zero_add] at hdo
  obtain ⟨hcount, -, hbuf'⟩ := hdo
  have hend : pos + len ≤ f.size := by
    by_contra hlt
    unfold File.more File.limit at hcount
    simp only at hcount
    rw [Nat.min_eq_right (by omega)] at hcount
    omega
  refine ⟨hend, ?_, ?_⟩
  · unfold File.more File.limit at hn
    simp only at hn
    rw [Nat.min_eq_left hend] at hn
    exact hn
  · by_cases hlen : len = 0
    · exact .inl hlen
    refine .inr ?_
    by_contra hfar
    have hsize := f.size_le
    have hdev := f.device
    have hne := sectOf_far (i := f.startSect + pos / 512) (by omega) (by omega)
    have h0 : 0 < min len (f.size - pos) := by omega
    have hbyte := hbuf 0 h0
    rw [← hbuf', hcount] at hbyte
    have hcopy : physCopy (fun _ => 0) 0 (readAt d (sectOf (f.startSect + pos / 512))) (pos % 512)
        (min len (f.size - pos)) (0 + 0) =
          readAt d (sectOf (f.startSect + pos / 512)) (pos % 512 + 0) := physCopy_mem h0
    have hone : readAt d (sectOf (f.startSect + pos / 512)) (pos % 512 + 0) = 1 := by
      rw [readAt_lt (by omega)]
      exact if_pos rfl
    have hzero : fileByte d f (pos + 0) = 0 := if_neg (by rw [Nat.add_zero]; omega)
    have : (1 : Byte) = 0 := hone.symm.trans (hcopy.symm.trans (hbyte.trans hzero))
    exact absurd this (by decide)

/-- **READ returns the file and changes nothing else** exactly when the request is readable. -/
theorem read_iff (hpos : pos ≤ f.size) : ReadsFile f pos len ↔ Readable f pos len :=
  ⟨readable_of hpos, readsFile_of⟩

end

/-- a file of ten bytes -/
def tenBytes : File := ⟨300, 2048, 10, by decide, by decide, by decide, by decide⟩

theorem read_iff_tenBytes : ReadsFile tenBytes 0 10 ↔ Readable tenBytes 0 10 :=
  read_iff (f := tenBytes) (by decide)

/-- a READ of 100 bytes returns 100 bytes, and the file has 100 bytes then -/
theorem read_fails :
    ¬ ReadsFile tenBytes 0 100 ∧
      ((doRdwt (oneFile tenBytes 0 1 fun _ _ => 0) 8 .READ 0 100 fun _ => 0).map fun r =>
        (r.1, (r.2.1.inodeTable 0).size)) = some (.count 100, 100) :=
  ⟨fun h => absurd (readable_of (by decide) h).1 (by decide), by decide +kernel⟩

/-! ## WRITE -/

/-- **The property of WRITE.**  It writes as many bytes as the allocation has room for, the size of the
file covers them, and on the disk nothing changes but bytes of the file that were to be written, and
its inode. -/
def WritesFile (f : File) (pos len : Nat) : Prop :=
  ∀ s p fd x q, OpenFile s p fd x q f pos → ∀ buf, ∃ s' n,
    doRdwt s p .WRITE fd len buf = some (.count n, s', buf) ∧
    n = min len (f.nrSects * 512 - pos) ∧
    (s'.inodeTable q).size = max f.size (pos + n) ∧ max f.size (pos + n) ≤ f.nrSects * 512 ∧
    (∀ t o, s'.disk t o ≠ s.disk t o →
      (∃ i < n, t = f.startSect + (pos + i) / 512 ∧ o = (pos + i) % 512) ∨
      t = inodeBlk s.sb (s.inodeTable q).num ∧ inodeOff (s.inodeTable q).num ≤ o ∧
        o < inodeOff (s.inodeTable q).num + INODE_SIZE) ∧
    -- the sectors of any other file
    ∀ b m, s.sb.n1stSect ≤ b → (b + m ≤ f.startSect ∨ f.startSect + f.nrSects ≤ b) →
      ∀ t, b ≤ t → t < b + m → s'.disk t = s.disk t

/-- **The condition.**  The request ends inside the allocation and within 256 sectors, and starts below
sector 2^22 or is empty. -/
def Writable (f : File) (pos len : Nat) : Prop :=
  pos + len ≤ f.nrSects * 512 ∧ (pos + len) / 512 - pos / 512 < 256 ∧
    (len = 0 ∨ f.startSect + pos / 512 < 2 ^ 22)

/-- the variables after a turn that wrote `n` bytes into `k` sectors from `t` on -/
def written (d : Disk) (buf : Buffer) (t k pos len n : Nat) : Rw :=
  ⟨writeAt d t k (physCopy (readAt d t) (pos % 512) buf 0 n), buf, 0, n, pos + n, len - n⟩

section
variable {s : FsState} {p : Pid} {fd : Fin nrFiles} {x : Fin nrFileDesc} {q : Fin nrInode}
  {f : File} {pos len t o n off : Nat} {buf : Buffer} {d : Disk} {r : Rw}

/-- a WRITE in one turn -/
theorem doRdwt_write (buf : Buffer) (h : OpenFile s p fd x q f pos) (hpos : pos ≤ f.nrSects * 512)
    (hn : f.more .WRITE pos len < 256)
    (hbytes : min len ((f.more .WRITE pos len + 1) * 512 - pos % 512) = n) :
    doRdwt s p .WRITE fd len buf = some (.count n, rwEnd s x q (written s.disk buf
      (sectOf (f.startSect + pos / 512)) (f.more .WRITE pos len + 1) pos len n), buf) := by
  have hpos' : pos ≤ f.limit .WRITE := hpos
  rw [doRdwt_one h hpos' hn, rwTurn_write (by omega)]
  simp only [Option.map_some, Nat.zero_add]
  rw [show min len ((f.more .WRITE pos len + 1) * SECTOR_SIZE - pos % 512) = n from hbytes]
  rfl

/-- reading sectors, changing `n` bytes from `off` on, and writing them back -/
theorem write_back {k : Nat}
    (h : writeAt d t k (physCopy (readAt d t) off buf 0 n) o pos ≠ d o pos) :
    ∃ i < n, o = t + (off + i) / 512 ∧ pos = (off + i) % 512 := by
  by_cases hw : t ≤ o ∧ o < t + k ∧ pos < 512
  · rw [writeAt_mem hw.1 hw.2.1 hw.2.2] at h
    by_cases hc : off ≤ (o - t) * 512 + pos ∧ (o - t) * 512 + pos < off + n
    · exact ⟨(o - t) * 512 + pos - off, by omega, by omega, by omega⟩
    · rw [physCopy_not_mem hc] at h
      unfold readAt at h
      have h1 : t + ((o - t) * 512 + pos) / 512 = o := by omega
      have h2 : ((o - t) * 512 + pos) % 512 = pos := by omega
      rw [h1, h2] at h
      exact absurd rfl h
  · exact absurd (if_neg hw) h

theorem inodeBlk_lt (hsb : s.sb.Ok) {num : Nat} (hn : 1 ≤ num ∧ num ≤ 4096) :
    inodeBlk s.sb num < s.sb.n1stSect ∧ s.sb.n1stSect < 2 ^ 22 := by
  have h1 := hsb.imap
  have h2 := hsb.smap
  have h3 := hsb.inodes
  have h4 := hsb.first
  have h5 := hsb.sects
  unfold inodeBlk
  omega

theorem rwEnd_size : ((rwEnd s x q r).inodeTable q).size = max (s.inodeTable q).size r.fdPos := by
  unfold rwEnd
  by_cases hlt : (s.inodeTable q).size < r.fdPos
  · simp only [if_pos hlt, syncInode, FsState.setInode, Function.update_self]
    omega
  · simp only [if_neg hlt]
    omega

/-- after the loop only the inode is written -/
theorem rwEnd_disk (h : (rwEnd s x q r).disk t o ≠ r.disk t o) :
    t = sectOf (inodeBlk s.sb (s.inodeTable q).num) ∧ inodeOff (s.inodeTable q).num ≤ o ∧
      o < inodeOff (s.inodeTable q).num + 16 := by
  unfold rwEnd at h
  by_cases hlt : (s.inodeTable q).size < r.fdPos
  · simp only [if_pos hlt] at h
    have hs := syncInode_disk h
    simp only [FsState.setInode, Function.update_self] at hs
    exact hs
  · simp only [if_neg hlt] at h
    exact absurd rfl h

theorem writesFile_of (hpos : pos ≤ f.size) (hc : Writable f pos len) : WritesFile f pos len := by
  obtain ⟨hend, hn, hsect⟩ := hc
  intro s p fd x q h buf
  have hsize := f.size_le
  have hmore : f.more .WRITE pos len = (pos + len) / 512 - pos / 512 := by
    unfold File.more File.limit
    simp only
    rw [Nat.min_eq_left hend]
  have hbytes : min len ((f.more .WRITE pos len + 1) * 512 - pos % 512) = len := by
    rw [hmore]
    omega
  have hwrite := doRdwt_write buf h (by omega) (by rw [hmore]; exact hn) hbytes
  set r := written s.disk buf (sectOf (f.startSect + pos / 512)) (f.more .WRITE pos len + 1) pos len
    len with hr
  obtain ⟨hblk, hfirst⟩ := inodeBlk_lt h.sb h.num
  -- where the disk may have changed
  have hframe : ∀ t o, (rwEnd s x q r).disk t o ≠ s.disk t o →
      (∃ i < len, t = f.startSect + (pos + i) / 512 ∧ o = (pos + i) % 512) ∨
      t = inodeBlk s.sb (s.inodeTable q).num ∧ inodeOff (s.inodeTable q).num ≤ o ∧
        o < inodeOff (s.inodeTable q).num + INODE_SIZE := by
    intro t o hne
    by_cases hloop : r.disk t o = s.disk t o
    · refine .inr ?_
      obtain ⟨ht, h1, h2⟩ := rwEnd_disk (fun e => hne (e.trans hloop))
      rw [sectOf_of_lt (by omega)] at ht
      exact ⟨ht, h1, by unfold INODE_SIZE; omega⟩
    · obtain ⟨i, hi, h1, h2⟩ := write_back hloop
      rw [sectOf_of_lt (hsect.resolve_left (by omega))] at h1
      exact .inl ⟨i, hi, by omega, by omega⟩
  refine ⟨_, len, hwrite, by omega, ?_, by omega, hframe, ?_⟩
  · rw [rwEnd_size, h.size]
    rfl
  · intro b m hb hdis t ht1 ht2
    funext o
    by_contra hne
    have hdata := h.data
    rcases hframe t o hne with ⟨i, hi, h1, -⟩ | ⟨h1, -⟩
    · omega
    · omega

theorem writable_of (hpos : pos ≤ f.size) (hw : WritesFile f pos len) : Writable f pos len := by
  have hsize := f.size_le
  have hdev := f.device
  set b := sectOf (f.startSect + pos / 512) with hb
  -- the inode is not in the sector that the driver gets to see
  obtain ⟨num, hnum, hblk⟩ : ∃ num, (1 ≤ num ∧ num ≤ 4096) ∧ inodeBlk .smallest num ≠ b := by
    by_cases h4 : b = 4
    · exact ⟨17, by decide, by rw [h4]; decide⟩
    · exact ⟨1, by decide, fun e => h4 e.symm⟩
  have h := oneFile_open f pos (fun _ _ => 0) hnum
  obtain ⟨s', n, hdo, hcount, -, -, hframe, -⟩ := hw _ _ _ _ _ h fun _ => 1
  have hn : f.more .WRITE pos len < 256 := by
    by_contra hge
    rw [doRdwt_none h (by omega)] at hdo
    cases hdo
  rw [doRdwt_write _ h (by omega) hn rfl] at hdo
  simp only [Option.some.injEq, Prod.mk.injEq, Answer.count.injEq] at hdo
  obtain ⟨hbytes, rfl, -⟩ := hdo
  have hend : pos + len ≤ f.nrSects * 512 := by
    by_contra hlt
    rw [hcount] at hbytes
    unfold File.more File.limit at hbytes
    simp only at hbytes
    rw [Nat.min_eq_right (by omega)] at hbytes
    omega
  have hmore : f.more .WRITE pos len = (pos + len) / 512 - pos / 512 := by
    unfold File.more File.limit
    simp only
    rw [Nat.min_eq_left hend]
  refine ⟨hend, by omega, ?_⟩
  by_cases hlen : len = 0
  · exact .inl hlen
  refine .inr ?_
  by_contra hfar
  have hne := sectOf_far (i := f.startSect + pos / 512) (by omega) (by omega)
  have hnlen : n = len := by omega
  rw [hbytes, hnlen] at hframe
  set r := written (oneFile f pos num fun _ _ => 0).disk (fun _ => 1) b
    (f.more .WRITE pos len + 1) pos len len with hr
  -- the first byte goes to that sector
  have hloop : r.disk b (pos % 512) = 1 := by
    show writeAt _ b _ _ b (pos % 512) = 1
    rw [writeAt_mem le_rfl (by omega) (by omega), Nat.sub_self, Nat.zero_mul, Nat.zero_add]
    exact physCopy_mem (a := 0) (by omega)
  have hdisk : (rwEnd (oneFile f pos num fun _ _ => 0) 0 0 r).disk b (pos % 512) = 1 := by
    by_contra hno
    obtain ⟨h1, -⟩ := rwEnd_disk (fun e => hno (e.trans hloop))
    rw [sectOf_of_lt] at h1
    · exact hblk h1.symm
    · obtain ⟨h2, h3⟩ := inodeBlk_lt h.sb h.num
      exact h2.trans h3
  have hchanged : (rwEnd (oneFile f pos num fun _ _ => 0) 0 0 r).disk b (pos % 512) ≠ 0 := by
    rw [hdisk]
    decide
  rcases hframe b (pos % 512) hchanged with ⟨i, hi, h1, -⟩ | ⟨h1, -⟩
  · omega
  · exact hblk h1.symm

/-- **WRITE stays inside the file** exactly when the request is writable. -/
theorem write_iff (hpos : pos ≤ f.size) : WritesFile f pos len ↔ Writable f pos len :=
  ⟨writable_of hpos, writesFile_of hpos⟩

end

/-- `/cmd.tar` as `mkfs` makes it: it fills its allocation -/
def cmdTar : File := ⟨0x17000, 0x800, 0x800 * 512, by decide, by decide, by decide, by decide⟩

theorem write_iff_cmdTar : WritesFile cmdTar 0 512 ↔ Writable cmdTar 0 512 :=
  write_iff (f := cmdTar) (by decide)

/-- a WRITE of 100 bytes at its end puts them in the sector behind the allocation -/
theorem write_fails :
    ¬ WritesFile cmdTar (0x800 * 512) 100 ∧
      ((doRdwt (oneFile cmdTar (0x800 * 512) 5 fun _ _ => 0) 8 .WRITE 0 100 fun _ => 1).map fun r =>
        (r.1, r.2.1.disk (0x17000 + 0x800) 0)) = some (.count 100, 1) :=
  ⟨fun h => absurd (writable_of (by decide) h).1 (by decide), by decide +kernel⟩

end Noxis.Fs
