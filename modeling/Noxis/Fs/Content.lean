import Noxis.Fs.Fresh

/-!
# READ, WRITE, CLOSE and LSEEK on a file system in order

* `FsState.At`        a descriptor of an open regular file, and its position
* `View.Ok.doRead`    READ of bytes that the file has
* `View.Ok.doWrite`   WRITE of bytes that its sectors have room for
* `View.Ok.doClose`   CLOSE
-/

namespace Noxis.Fs
open Ipc (Pid)

/-- descriptor `fd` of the process `p` is at `pos` in file `k` -/
structure FsState.At (s : FsState) (p : Pid) (fd : Fin nrFiles) (x : Fin nrFileDesc) (q : Fin nrInode)
    (k flags pos : Nat) : Prop where
  filp : s.filp p fd = some x
  desc : s.fDescTable x = ⟨flags, pos, 1, some q⟩
  rdwr : flags &&& O_RDWR ≠ 0
  has : s.view.Has q k

/-- a file of the volume with its allocation -/
def View.Placed.toFile {w : View} {p : Inode} (h : w.Placed p) (hsb : w.sb.Ok) : File where
  startSect := p.startSect
  nrSects := p.nrSects
  size := p.size
  size_le := h.size
  fits := h.int
  data := by
    have h1 := h.first
    have h2 := hsb.n1stSect_eq
    have h3 := hsb.smap
    omega
  device := by
    have h1 := h.last
    have h2 := hsb.sects
    omega

section
variable {s : FsState} {p : Pid} {fd : Fin nrFiles} {x : Fin nrFileDesc} {q : Fin nrInode}
  {k flags pos len i : Nat} {buf : Buffer} {d : Disk}

theorem View.Ok.openFile (h : s.view.Ok) (ha : s.At p fd x q k flags pos) :
    OpenFile s p fd x q ((h.has_placed ha.has).toFile h.sb) pos where
  desc := ha.filp
  rdwr := by
    rw [ha.desc]
    exact ha.rdwr
  inode := by rw [ha.desc]
  pos := by rw [ha.desc]
  mode := ha.has.mode
  startSect := rfl
  nrSects := rfl
  size := rfl
  num := by
    obtain ⟨h1, h2, -, -⟩ := h.memory q ha.has.other ha.has.held
    exact ⟨h1, h2.le⟩
  sb := h.sb
  data := by
    have hfirst := (h.has_placed ha.has).first
    show s.sb.n1stSect ≤ (s.view.table q).startSect
    exact (Nat.le_add_right ..).trans hfirst

/-- the data of a file are what the disk has -/
theorem View.Placed.byte_disk {y : Inode} (h : s.view.Placed y) (i : Nat) :
    s.view.byte y i = s.disk (y.startSect + i / 512) (i % 512) := by
  have hfirst : s.sb.n1stSect + NR_DEFAULT_FILE_SECTS ≤ y.startSect := h.first
  have hdata : s.view.data (y.startSect + i / 512) = s.disk (y.startSect + i / 512) :=
    if_pos (by omega)
  unfold View.byte
  rw [hdata]

/-! ## READ -/

/-- **READ** inside the file, and within 256 sectors. -/
theorem View.Ok.doRead (h : s.view.Ok) (ha : s.At p fd x q k flags pos)
    (hend : pos + len ≤ (s.inodeTable q).size) (hn : (pos + len) / 512 - pos / 512 < 256)
    (hnear : (s.inodeTable q).startSect + pos / 512 < 2 ^ 22) (buf : Buffer) :
    ∃ buf', doRdwt s p .READ fd len buf = some (.count len, { s with
        fDescTable := Function.update s.fDescTable x ⟨flags, pos + len, 1, some q⟩ }, buf') ∧
      ∀ i < len, buf' i = s.view.byte (s.inodeTable q) (pos + i) := by
  have hopen := h.openFile ha
  have hread : Readable ((h.has_placed ha.has).toFile h.sb) pos len := ⟨hend, hn, .inr hnear⟩
  obtain ⟨buf', hdo, hbytes⟩ := readsFile_of hread s p fd x q hopen buf
  have hlen : min len ((s.view.table q).size - pos) = len :=
    Nat.min_eq_left (by show len ≤ (s.inodeTable q).size - pos; omega)
  change doRdwt s p .READ fd len buf = some (.count (min len ((s.view.table q).size - pos)), { s with
    fDescTable := Function.update s.fDescTable x
      { s.fDescTable x with pos := pos + min len ((s.view.table q).size - pos) } }, buf') at hdo
  change ∀ i < min len ((s.view.table q).size - pos), _ at hbytes
  rw [hlen] at hdo hbytes
  rw [ha.desc] at hdo
  have hplaced : s.view.Placed (s.inodeTable q) := h.has_placed ha.has
  refine ⟨buf', hdo, fun i hi => ?_⟩
  rw [hplaced.byte_disk]
  exact hbytes i hi

/-! ## WRITE -/

/-- the bytes that the loop has written -/
theorem written_byte (start : Nat) : (written d buf (start + pos / 512)
    ((pos + len) / 512 - pos / 512 + 1) pos len len).disk (start + i / 512) (i % 512) =
      if pos ≤ i ∧ i < pos + len then buf (i - pos) else d (start + i / 512) (i % 512) := by
  have hlt : i % 512 < 512 := Nat.mod_lt _ (by decide)
  show writeAt d (start + pos / 512) ((pos + len) / 512 - pos / 512 + 1)
    (physCopy (readAt d (start + pos / 512)) (pos % 512) buf 0 len) (start + i / 512) (i % 512) = _
  by_cases hin : pos ≤ i ∧ i < pos + len
  · rw [if_pos hin, writeAt_mem (by omega) (by omega) hlt]
    have hoff : (start + i / 512 - (start + pos / 512)) * 512 + i % 512 = pos % 512 + (i - pos) := by
      omega
    rw [hoff, physCopy_mem (by omega), Nat.zero_add]
  · rw [if_neg hin]
    by_contra hne
    obtain ⟨j, hj, h1, h2⟩ := write_back hne
    omega

/-- they lie in the sectors of the file -/
theorem written_other {p : Inode} {t : Nat} (hend : pos + len ≤ p.nrSects * 512) (ht : ¬ p.Covers t) :
    (written d buf (p.startSect + pos / 512) ((pos + len) / 512 - pos / 512 + 1) pos len len).disk t =
      d t := by
  funext o
  by_contra hne
  obtain ⟨j, hj, h1, h2⟩ := write_back hne
  unfold Inode.Covers at ht
  omega

/-- **WRITE** inside the allocation, and within 256 sectors: the file has the bytes then, and nothing
else changes. -/
theorem View.Ok.doWrite (h : s.view.Ok) (ha : s.At p fd x q k flags pos)
    (hend : pos + len ≤ (s.inodeTable q).nrSects * 512)
    (hn : (pos + len) / 512 - pos / 512 < 256)
    (hnear : (s.inodeTable q).startSect + pos / 512 < 2 ^ 22) (buf : Buffer) :
    ∃ s', doRdwt s p .WRITE fd len buf = some (.count len, s', buf) ∧ s'.view.Ok ∧
      View.Only q k s.view s'.view ∧ s'.filp = s.filp ∧
      s'.fDescTable = Function.update s.fDescTable x ⟨flags, pos + len, 1, some q⟩ ∧
      s'.inodeTable q = { s.inodeTable q with size := max (s.inodeTable q).size (pos + len) } ∧
      ∀ i, s'.view.byte (s.inodeTable q) i =
        if pos ≤ i ∧ i < pos + len then buf (i - pos) else s.view.byte (s.inodeTable q) i := by
  have hopen := h.openFile ha
  have hplaced : s.view.Placed (s.inodeTable q) := h.has_placed ha.has
  have hmore : ((h.has_placed ha.has).toFile h.sb).more .WRITE pos len =
      (pos + len) / 512 - pos / 512 := by
    show min (pos + len) ((s.inodeTable q).nrSects * 512) / 512 - pos / 512 = _
    rw [Nat.min_eq_left hend]
  have hdo := doRdwt_write (n := len) buf hopen (show pos ≤ (s.inodeTable q).nrSects * 512 by omega)
    (by rw [hmore]; exact hn) (by rw [hmore]; omega)
  rw [hmore, show ((h.has_placed ha.has).toFile h.sb).startSect = (s.inodeTable q).startSect from rfl,
    sectOf_of_lt hnear] at hdo
  set r := written s.disk buf ((s.inodeTable q).startSect + pos / 512)
    ((pos + len) / 512 - pos / 512 + 1) pos len len with hr
  -- the state after the loop
  set s₁ : FsState := { s with
    disk := r.disk
    fDescTable := Function.update s.fDescTable x { s.fDescTable x with pos := pos + len } } with hs1
  have hside : SameOutside s.disk r.disk (s.inodeTable q).startSect
      ((s.inodeTable q).startSect + (s.inodeTable q).nrSects) :=
    fun t ht => written_other hend (by unfold Inode.Covers; omega)
  have hview1 : s₁.view = { s.view with
      data := fun t => if s.sb.n1stSect + NR_DEFAULT_FILE_SECTS ≤ t then r.disk t else fun _ => 0 } :=
    data_view h.sb hside hplaced.first
  have hok1 : s₁.view.Ok := by
    rw [hview1]
    exact h.setData _
  have hhas1 : s₁.view.Has q k := by
    rw [hview1]
    exact ⟨ha.has.other, ha.has.held, ha.has.live, ha.has.num, ha.has.mode⟩
  have honly1 : View.Only q k s.view s₁.view := by
    rw [hview1]
    refine ⟨rfl, rfl, rfl, rfl, rfl, fun _ _ => rfl, fun _ _ => rfl, rfl, rfl, rfl, fun t ht => ?_⟩
    rw [h.has_file ha.has] at ht
    show (if s.sb.n1stSect + NR_DEFAULT_FILE_SECTS ≤ t then r.disk t else fun _ => 0) =
      if s.sb.n1stSect + NR_DEFAULT_FILE_SECTS ≤ t then s.disk t else fun _ => 0
    rw [hr, written_other hend ht]
  have hbyte1 : ∀ i, s₁.view.byte (s.inodeTable q) i =
      if pos ≤ i ∧ i < pos + len then buf (i - pos) else s.view.byte (s.inodeTable q) i := by
    intro i
    rw [hplaced.byte_disk]
    exact ((hok1.has_placed hhas1).byte_disk i).trans (written_byte (s.inodeTable q).startSect)
  have hdesc1 : s₁.fDescTable = Function.update s.fDescTable x ⟨flags, pos + len, 1, some q⟩ := by
    rw [hs1, ha.desc]
  refine ⟨rwEnd s x q r, hdo, ?_⟩
  unfold rwEnd
  by_cases hlt : (s.inodeTable q).size < pos + len
  · have hy : Resized (s.inodeTable q) { s.inodeTable q with size := pos + len } :=
      ⟨rfl, rfl, rfl, rfl⟩
    have hsync := hok1.sync hhas1 hy hend
    rw [if_pos (show (s.inodeTable q).size < r.fdPos from hlt)]
    refine ⟨?_, ?_, rfl, hdesc1, ?_, fun i => ?_⟩
    · exact hsync ▸ hok1.put hhas1 hy ha.has.held hend
    · exact honly1.trans (hsync ▸ hok1.put_only hhas1 hy)
    · rw [max_eq_right hlt.le]
      exact Function.update_self ..
    · rw [← hbyte1 i]
      unfold View.byte
      exact congrFun (congrFun (congrArg View.data hsync) _) _
  · rw [if_neg (show ¬ (s.inodeTable q).size < r.fdPos from hlt)]
    refine ⟨hok1, honly1, rfl, hdesc1, ?_, hbyte1⟩
    rw [max_eq_left (by omega)]

/-! ## CLOSE and LSEEK -/

/-- **CLOSE.** -/
theorem View.Ok.doClose (h : s.view.Ok) (ha : s.At p fd x q k flags pos) :
    ∃ s', doClose s p fd = some s' ∧ s'.view.Ok ∧ View.Only q k s.view s'.view ∧
      s'.filp = Function.update s.filp p (Function.update (s.filp p) fd none) ∧
      s'.fDescTable = Function.update s.fDescTable x ⟨flags, pos, 0, none⟩ ∧
      s'.inodeTable =
        Function.update s.inodeTable q { s.inodeTable q with cnt := (s.inodeTable q).cnt - 1 } ∧
      s'.disk = s.disk := by
  have hcnt : 0 < (s.inodeTable q).cnt := Nat.pos_of_ne_zero ha.has.held
  set y : Inode := { s.inodeTable q with cnt := (s.inodeTable q).cnt - 1 } with hy
  obtain ⟨-, -, -, hdisk⟩ := h.memory q ha.has.other ha.has.held
  have hdrop : dropFDesc (s.fDescTable x) = ⟨flags, pos, 0, none⟩ := by
    rw [ha.desc]
    rfl
  refine ⟨{ s with
    inodeTable := Function.update s.inodeTable q y
    fDescTable := Function.update s.fDescTable x ⟨flags, pos, 0, none⟩
    filp := Function.update s.filp p (Function.update (s.filp p) fd none) }, ?_, ?_, ?_, rfl, rfl, rfl,
      rfl⟩
  · unfold Fs.doClose putInode
    simp only [ha.filp, ha.desc, Option.bind_some, if_pos hcnt, Option.map_some]
    rw [← hdrop]
    rfl
  · exact h.setTable (y := y) ha.has.other fun _ => ⟨h.has_inMemory ha.has rfl, hdisk⟩
  · exact ⟨rfl, rfl, rfl, rfl, rfl, fun r hr => Function.update_of_ne hr _ _, fun _ _ => rfl, rfl, rfl,
      rfl, fun _ _ => rfl⟩

/-- **LSEEK** to the start. -/
theorem FsState.At.doLseek (ha : s.At p fd x q k flags pos) : doLseek s p fd 0 SEEK_SET =
    some (some 0, { s with fDescTable := Function.update s.fDescTable x ⟨flags, 0, 1, some q⟩ }) := by
  unfold Fs.doLseek
  simp only [ha.filp, ha.desc, Option.bind_some, Option.map_some, if_true]
  rw [if_neg (by omega)]
  rfl

end

end Noxis.Fs
