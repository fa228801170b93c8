import Noxis.Fs.LogText
import Noxis.Fs.ShowsRun

/-!
# 25-osfs11/fs/main.c: mkfs and init_fs

* `mkfs`, `bootFs`       as they compute
* `Formatted`            what `mkfs` leaves on the disk
* `mkfs_formatted`       it does so on every device that is large enough for /cmd.tar and the log
-/

namespace Noxis.Fs

def MAGIC_V1 : Nat := 0x111
def NR_CONSOLES : Nat := 3
def DEV_CHAR_TTY : Nat := 4
def INSTALL_START_SECT : Nat := 0x17000
def INSTALL_NR_SECTS : Nat := 0x800

def MAKE_DEV (a b : Nat) : Nat := a <<< 8 ||| b

/-! ## the super block -/

/-- the super block of a device of `nrSects` sectors -/
def Super.generate (nrSects : Nat) : Super :=
  let bitsPerSect := SECTOR_SIZE * 8
  let nrInodeSects := bitsPerSect * INODE_SIZE / SECTOR_SIZE
  let nrSmapSects := nrSects / bitsPerSect + 1
  ⟨bitsPerSect, nrSects, 1, nrSmapSects, 1 + 1 + 1 + nrSmapSects + nrInodeSects, nrInodeSects⟩

/-- the words of `struct super_block` -/
def Super.words (sb : Super) : List Nat :=
  [MAGIC_V1, sb.nrInodes, sb.nrSects, sb.nrImapSects, sb.nrSmapSects, sb.n1stSect, sb.nrInodeSects,
    ROOT_INODE, INODE_SIZE, 4, 8, DIR_ENTRY_SIZE, 0, 4]

/-- words one after the other -/
def putWords (b : Buffer) (o : Nat) : List Nat → Buffer
  | [] => b
  | v :: vs => putWords (put32 b o v) (o + 4) vs

def Super.encode (sb : Super) : Buffer := putWords (fun _ => 0x90) 0 sb.words

/-- `read_super_block` -/
def Super.decode (b : Buffer) : Super :=
  ⟨get32 b 4, get32 b 8, get32 b 12, get32 b 16, get32 b 20, get32 b 24⟩

/-! ## the sectors that are written -/

/-- the numbers of `/`, the terminals and /cmd.tar are taken, and number 0 -/
def imapSect : Buffer :=
  (List.range (NR_CONSOLES + 3)).foldl (fun b i => Function.update b 0 (setBit (b 0) i)) fun _ => 0

/-- the sectors of `/` are taken, and bit 0 -/
def smapSect : Buffer :=
  let nrSects := NR_DEFAULT_FILE_SECTS + 1
  let fsbuf := (List.range (nrSects / 8)).foldl (fun b i => Function.update b i 0xFF) fun _ => 0
  (List.range (nrSects % 8)).foldl
    (fun b j => Function.update b (nrSects / 8) (setBit (b (nrSects / 8)) j)) fsbuf

/-- the inode of `/` -/
def Super.rootInode (sb : Super) : Inode :=
  ⟨I_DIRECTORY, DIR_ENTRY_SIZE * 5, sb.n1stSect, NR_DEFAULT_FILE_SECTS, 0, 0⟩

/-- the inode of /dev_tty`i` -/
def ttyInode (i : Nat) : Inode := ⟨I_CHAR_SPECIAL, 0, MAKE_DEV DEV_CHAR_TTY i, 0, 0, 0⟩

/-- the inode of /cmd.tar -/
def tarInode : Inode :=
  ⟨I_REGULAR, INSTALL_NR_SECTS * SECTOR_SIZE, INSTALL_START_SECT, INSTALL_NR_SECTS, 0, 0⟩

def Super.inodeSect (sb : Super) : Buffer :=
  let fsbuf := sb.rootInode.encode (fun _ => 0) 0
  let fsbuf := (List.range NR_CONSOLES).foldl
    (fun b i => (ttyInode i).encode b (INODE_SIZE * (i + 1))) fsbuf
  tarInode.encode fsbuf (INODE_SIZE * (NR_CONSOLES + 1))

/-- `dev_tty%d` -/
def ttyName (i : Nat) : List Byte := [0x64, 0x65, 0x76, 0x5F, 0x74, 0x74, 0x79] ++ fmtD 0x20 0 i

/-- `cmd.tar` -/
def tarName : List Byte := [0x63, 0x6D, 0x64, 0x2E, 0x74, 0x61, 0x72]

/-- the first sector of `/` -/
def rootSect : Buffer :=
  let fsbuf := strcpy (put32 (fun _ => 0) 0 1) 4 [0x2E]
  let fsbuf := (List.range NR_CONSOLES).foldl (fun b i =>
    sprintf (put32 b (DIR_ENTRY_SIZE * (i + 1)) (i + 2)) (DIR_ENTRY_SIZE * (i + 1) + 4) (ttyName i))
      fsbuf
  strcpy (put32 fsbuf (DIR_ENTRY_SIZE * (NR_CONSOLES + 1)) (NR_CONSOLES + 2))
    (DIR_ENTRY_SIZE * (NR_CONSOLES + 1) + 4) tarName

/-! ## mkfs -/

/-- the rest of the sector map -/
def zeroSmap (sb : Super) (d : Disk) : Disk :=
  (List.range' 1 (sb.nrSmapSects - 1)).foldl
    (fun d i => wrSect d (2 + sb.nrImapSects + i) fun _ => 0) d

/-- `mkfs`; `none` when the device has no room for /cmd.tar before the log.  The difference is an
unsigned one. -/
def mkfs (nrSects : Nat) (d : Disk) : Option Disk :=
  let sb := Super.generate nrSects
  let d := wrSect d 1 sb.encode
  let d := wrSect d 2 imapSect
  let d := wrSect d (2 + sb.nrImapSects) smapSect
  let d := zeroSmap sb d
  if INSTALL_START_SECT + INSTALL_NR_SECTS < (nrSects + 2 ^ 32 - NR_SECTS_FOR_LOG) % 2 ^ 32 then
    let d := (markTar INSTALL_START_SECT INSTALL_NR_SECTS (blank d sb)).disk
    let d := wrSect d (2 + sb.nrImapSects + sb.nrSmapSects) sb.inodeSect
    some (wrSect d sb.n1stSect rootSect)
  else none

/-- `init_fs`: a device that has no file system gets one -/
def bootFs (nrSects : Nat) (d : Disk) : Option FsState :=
  (if get32 (rdSect d 1) 0 = MAGIC_V1 then some d else mkfs nrSects d).map fun d =>
    initFs d (.decode (rdSect d 1))

/-! ## what the sectors say -/

section
variable {sb : Super} {b : Buffer} {d : Disk} {i j k m n o t v c num : Nat} {p : Inode}

theorem putWords_before (l : List Nat) : ∀ {b : Buffer} {o : Nat}, j + 4 ≤ o →
    get32 (putWords b o l) j = get32 b j := by
  induction l with
  | nil =>
    intro b o _
    rfl
  | cons v l ih =>
    intro b o hj
    rw [putWords, ih (by omega), get32_put32_ne (by omega)]

/-- a word of a list -/
theorem putWords_getD (l : List Nat) : ∀ {b : Buffer} {o i : Nat}, (hi : i < l.length) →
    get32 (putWords b o l) (o + 4 * i) = l.getD i 0 % 2 ^ 32 := by
  induction l with
  | nil =>
    intro b o i hi
    exact absurd hi (Nat.not_lt_zero i)
  | cons v l ih =>
    intro b o i hi
    cases i with
    | zero =>
      rw [Nat.mul_zero, Nat.add_zero, putWords, putWords_before l le_rfl, get32_put32]
      rfl
    | succ i =>
      have hat : o + 4 * (i + 1) = o + 4 + 4 * i := by omega
      rw [hat, putWords, ih (Nat.lt_of_succ_lt_succ hi)]
      rfl

/-- **Round trip of the super block.** -/
theorem Super.decode_encode (h : m < 2 ^ 28) :
    Super.decode (Super.generate m).encode = Super.generate m := by
  have hword : ∀ i < 14, get32 (Super.generate m).encode (4 * i) =
      (Super.generate m).words.getD i 0 % 2 ^ 32 := by
    intro i hi
    have hat := putWords_getD (Super.generate m).words (b := fun _ => 0x90) (o := 0) (i := i) hi
    rwa [Nat.zero_add] at hat
  have h1 : get32 (Super.generate m).encode 4 = 4096 % 2 ^ 32 := hword 1 (by decide)
  have h2 : get32 (Super.generate m).encode 8 = m % 2 ^ 32 := hword 2 (by decide)
  have h3 : get32 (Super.generate m).encode 12 = 1 % 2 ^ 32 := hword 3 (by decide)
  have h4 : get32 (Super.generate m).encode 16 = (m / 4096 + 1) % 2 ^ 32 := hword 4 (by decide)
  have h5 : get32 (Super.generate m).encode 20 = (1 + 1 + 1 + (m / 4096 + 1) + 256) % 2 ^ 32 :=
    hword 5 (by decide)
  have h6 : get32 (Super.generate m).encode 24 = 256 % 2 ^ 32 := hword 6 (by decide)
  unfold Super.decode
  rw [h1, h2, h3, h4, h5, h6, Nat.mod_eq_of_lt (show m < 2 ^ 32 by omega),
    Nat.mod_eq_of_lt (show m / 4096 + 1 < 2 ^ 32 by omega),
    Nat.mod_eq_of_lt (show 1 + 1 + 1 + (m / 4096 + 1) + 256 < 2 ^ 32 by omega)]
  rfl

theorem Super.encode_magic : get32 (Super.generate m).encode 0 = MAGIC_V1 :=
  putWords_getD (Super.generate m).words (b := fun _ => 0x90) (o := 0) (i := 0)
    (show 0 < 14 by decide)

theorem Super.generate_ok (h : m < 2 ^ 28) : (Super.generate m).Ok := ⟨rfl, rfl, rfl, rfl, h⟩

/-! ### the maps -/

/-- the bytes of a prefix are set -/
theorem foldl_update_range (b : Buffer) (v : Byte) (n o : Nat) :
    (List.range n).foldl (fun b i => Function.update b i v) b o = if o < n then v else b o := by
  induction n with
  | zero => exact (if_neg (Nat.not_lt_zero o)).symm
  | succ n ih =>
    rw [List.range_succ, List.foldl_append, List.foldl_cons, List.foldl_nil]
    by_cases ho : o = n
    · rw [ho, Function.update_self, if_pos (Nat.lt_succ_self n)]
    · rw [Function.update_of_ne ho, ih]
      by_cases hlt : o < n
      · rw [if_pos hlt, if_pos (Nat.lt_succ_of_lt hlt)]
      · rw [if_neg hlt, if_neg (by omega)]

theorem imapSect_bit (hv : v < 4096) : (imapSect (v / 8)).getLsbD (v % 8) = decide (v < 6) := by
  by_cases h0 : v / 8 = 0
  · have hfin : ∀ i : Fin 8, (imapSect 0).getLsbD i = decide (i.val < 6) := by decide
    have hat := hfin ⟨v, by omega⟩
    rw [h0, show v % 8 = v by omega]
    exact hat
  · have hzero : imapSect (v / 8) = 0 := by
      unfold imapSect
      simp only [NR_CONSOLES, List.range, List.range.loop, List.foldl_cons, List.foldl_nil,
        Function.update_of_ne h0]
    rw [hzero, decide_eq_false (by omega)]
    exact BitVec.getLsbD_zero

theorem smapSect_bit (hk : k < 4096) : (smapSect (k / 8)).getLsbD (k % 8) = decide (k < 2049) := by
  have hat : smapSect = fun o => if o = 256 then 1 else if o < 256 then 0xFF else 0 := by
    funext o
    have h8 : (NR_DEFAULT_FILE_SECTS + 1) / 8 = 256 := by decide
    have h1 : (NR_DEFAULT_FILE_SECTS + 1) % 8 = 1 := by decide
    unfold smapSect
    simp only [h8, h1]
    rw [List.range_one, List.foldl_cons, List.foldl_nil, foldl_update_range]
    by_cases ho : o = 256
    · rw [ho, Function.update_self]
      rfl
    · rw [Function.update_of_ne ho, foldl_update_range, if_neg ho]
  have hones : ∀ i < 8, (0xFF : Byte).getLsbD i = true := by decide
  have hone : ∀ i < 8, (1 : Byte).getLsbD i = decide (i = 0) := by decide
  have hmod : k % 8 < 8 := Nat.mod_lt k (by decide)
  rw [hat]
  simp only
  by_cases h256 : k / 8 = 256
  · rw [if_pos h256, hone _ hmod]
    exact decide_eq_decide.mpr (by omega)
  · rw [if_neg h256]
    by_cases hlt : k / 8 < 256
    · rw [if_pos hlt, hones _ hmod, decide_eq_true (by omega)]
    · rw [if_neg hlt, decide_eq_false (by omega)]
      exact BitVec.getLsbD_zero

theorem zeroSmap_at (h1 : 1 ≤ sb.nrSmapSects) (hm : 2 + sb.nrImapSects + sb.nrSmapSects ≤ 2 ^ 22) :
    zeroSmap sb d t o =
      if 2 + sb.nrImapSects < t ∧ t < 2 + sb.nrImapSects + sb.nrSmapSects ∧ o < 512 then 0
      else d t o := by
  have hgen : ∀ n i (d : Disk), 2 + sb.nrImapSects + i + n ≤ 2 ^ 22 →
      (List.range' i n).foldl (fun d i => wrSect d (2 + sb.nrImapSects + i) fun _ => 0) d t o =
        if 2 + sb.nrImapSects + i ≤ t ∧ t < 2 + sb.nrImapSects + i + n ∧ o < 512 then 0
        else d t o := by
    intro n
    induction n with
    | zero =>
      intro i d _
      exact (if_neg (by omega)).symm
    | succ n ih =>
      intro i d hi
      rw [List.range'_succ, List.foldl_cons, ih (i + 1) _ (by omega)]
      have hsect : sectOf (2 + sb.nrImapSects + i) = 2 + sb.nrImapSects + i := sectOf_of_lt (by omega)
      by_cases hin : 2 + sb.nrImapSects + (i + 1) ≤ t ∧ t < 2 + sb.nrImapSects + (i + 1) + n ∧ o < 512
      · rw [if_pos hin, if_pos (by omega)]
      · rw [if_neg hin]
        by_cases ho : o < 512
        · by_cases ht : t = 2 + sb.nrImapSects + i
          · have hwrite := wrSect_lt (d := d) (i := 2 + sb.nrImapSects + i) (b := fun _ => 0) ho
            rw [hsect] at hwrite
            rw [if_pos (by omega), ht]
            exact hwrite
          · rw [wrSect_other (by omega), if_neg (by omega)]
        · rw [wrSect_ge (by omega), if_neg (by omega)]
  unfold zeroSmap
  rw [hgen _ _ _ (by omega)]
  exact if_congr (by omega) rfl rfl

/-! ## what is on the disk then -/

/-- the first of the bits that stand for the sectors of /cmd.tar -/
def Super.tarBit (sb : Super) : Nat := INSTALL_START_SECT + 1 - sb.n1stSect

/-- **what `mkfs` leaves** -/
structure Formatted (sb : Super) (d d' : Disk) : Prop where
  super : ∀ o < 512, d' 1 o = sb.encode o
  imap : ∀ v < 4096, mapBit d' 2 v = decide (v < 6)
  smap : ∀ k < sb.nrSmapSects * 4096, mapBit d' 3 k =
    decide (k < 2049 ∨ sb.tarBit ≤ k ∧ k < sb.tarBit + INSTALL_NR_SECTS)
  inodes : ∀ o < 512, d' (3 + sb.nrSmapSects) o = sb.inodeSect o
  root : ∀ o < 512, d' sb.n1stSect o = rootSect o
  data : ∀ t, sb.n1stSect < t → d' t = d t

/-- the sector map, before /cmd.tar is marked -/
theorem zeroSmap_bit (h1 : 1 ≤ sb.nrSmapSects) (himap : sb.nrImapSects = 1)
    (hm : 3 + sb.nrSmapSects ≤ 2 ^ 22) (hk : k < sb.nrSmapSects * 4096) :
    mapBit (zeroSmap sb (wrSect d 3 smapSect)) 3 k = decide (k < 2049) := by
  have hbyte : k % 4096 / 8 < 512 := by omega
  unfold mapBit
  rw [zeroSmap_at h1 (by omega)]
  by_cases h0 : k / 4096 = 0
  · have hlt : k < 4096 := by omega
    rw [if_neg (by omega), h0, Nat.mod_eq_of_lt hlt]
    have hwrite := wrSect_lt (d := d) (i := 3) (b := smapSect) (o := k / 8) (by omega)
    rw [sectOf_of_lt (by omega)] at hwrite
    show (wrSect d 3 smapSect 3 (k / 8)).getLsbD (k % 8) = _
    rw [hwrite]
    exact smapSect_bit hlt
  · rw [if_pos (by omega), decide_eq_false (by omega)]
    exact BitVec.getLsbD_zero

/-- **`mkfs` makes a file system.** -/
theorem mkfs_formatted (d : Disk) (h1 : INSTALL_START_SECT + INSTALL_NR_SECTS + NR_SECTS_FOR_LOG < m)
    (h2 : m < 2 ^ 28) : ∃ d', mkfs m d = some d' ∧ Formatted (Super.generate m) d d' := by
  have h1' : 94208 + 2048 + 2048 < m := h1
  set sb := Super.generate m with hsb
  have himap : sb.nrImapSects = 1 := rfl
  have hsmap : sb.nrSmapSects = m / 4096 + 1 := rfl
  have hfirst : sb.n1stSect = 1 + 1 + 1 + (m / 4096 + 1) + 256 := rfl
  have htar : sb.tarBit = 94208 + 1 - sb.n1stSect := rfl
  have hnr : INSTALL_NR_SECTS = 2048 := rfl
  have hs1 : sectOf 1 = 1 := sectOf_of_lt (by omega)
  have hs2 : sectOf 2 = 2 := sectOf_of_lt (by omega)
  have hs3 : sectOf 3 = 3 := sectOf_of_lt (by omega)
  have hsi : sectOf (3 + sb.nrSmapSects) = 3 + sb.nrSmapSects := sectOf_of_lt (by omega)
  have hsr : sectOf sb.n1stSect = sb.n1stSect := sectOf_of_lt (by omega)
  set d₂ := wrSect (wrSect d 1 sb.encode) 2 imapSect with hd₂
  set d₄ := zeroSmap sb (wrSect d₂ 3 smapSect) with hd₄
  set d₅ := putBits d₄ 3 true sb.tarBit INSTALL_NR_SECTS with hd₅
  set d₇ := wrSect (wrSect d₅ (3 + sb.nrSmapSects) sb.inodeSect) sb.n1stSect rootSect with hd₇
  -- outside the map, `d₅` is the disk with the first sectors written
  have hmap : ∀ t, t < 3 ∨ 3 + sb.nrSmapSects ≤ t → d₅ t = d₂ t := by
    intro t ht
    funext o
    rw [hd₅, putBits_other fun i h3 h4 => by omega, hd₄, zeroSmap_at (by omega) (by omega),
      if_neg (by omega), wrSect_other (by omega)]
  have hbits : ∀ k < sb.nrSmapSects * 4096, mapBit d₅ 3 k =
      decide (k < 2049 ∨ sb.tarBit ≤ k ∧ k < sb.tarBit + INSTALL_NR_SECTS) := by
    intro k hk
    rw [hd₅, mapBit_putBits, hd₄, zeroSmap_bit (by omega) himap (by omega) hk]
    by_cases hin : sb.tarBit ≤ k ∧ k < sb.tarBit + INSTALL_NR_SECTS
    · rw [if_pos hin, decide_eq_true (.inr hin)]
    · rw [if_neg hin]
      exact decide_eq_decide.mpr ⟨.inl, fun h => h.elim id fun hc => absurd hc hin⟩
  have hlast : ∀ t, t ≠ 3 + sb.nrSmapSects → t ≠ sb.n1stSect → d₇ t = d₅ t := by
    intro t h3 h4
    rw [hd₇, wrSect_other (by omega), wrSect_other (by omega)]
  have hmark : markTar INSTALL_START_SECT INSTALL_NR_SECTS (blank d₄ sb) = _ := markTar_bits (by
    show 2 + sb.nrImapSects + (94208 + 1 - sb.n1stSect + 2048) / 4096 < 2 ^ 22
    omega)
  refine ⟨d₇, ?_, ⟨fun o ho => ?_, fun v hv => ?_, fun k hk => ?_, fun o ho => ?_, fun o ho => ?_,
    fun t ht => ?_⟩⟩
  · have hbase : sb.smapBase = 3 := rfl
    have hd : (markTar INSTALL_START_SECT INSTALL_NR_SECTS (blank d₄ sb)).disk = d₅ := by
      rw [hd₅, hmark]
      simp only [blank, hbase, Super.tarBit]
    have hroom : INSTALL_START_SECT + INSTALL_NR_SECTS < (m + 2 ^ 32 - NR_SECTS_FOR_LOG) % 2 ^ 32 := by
      show 94208 + 2048 < (m + 2 ^ 32 - 2048) % 2 ^ 32
      omega
    unfold mkfs
    simp only [← hsb, himap]
    rw [if_pos hroom, hd]
  · rw [hlast 1 (by omega) (by omega), hmap 1 (by omega), hd₂, wrSect_other (by omega)]
    have hwrite := wrSect_lt (d := d) (i := 1) (b := sb.encode) ho
    rwa [hs1] at hwrite
  · unfold mapBit
    rw [Nat.div_eq_of_lt hv, Nat.mod_eq_of_lt hv, Nat.add_zero, hlast 2 (by omega) (by omega),
      hmap 2 (by omega), hd₂]
    have hwrite := wrSect_lt (d := wrSect d 1 sb.encode) (i := 2) (b := imapSect) (o := v / 8)
      (by omega)
    rw [hs2] at hwrite
    rw [hwrite]
    exact imapSect_bit hv
  · rw [← hbits k hk]
    unfold mapBit
    rw [hlast _ (by omega) (by omega)]
  · have hwrite := wrSect_lt (d := d₅) (i := 3 + sb.nrSmapSects) (b := sb.inodeSect) ho
    rw [hsi] at hwrite
    rw [hd₇, wrSect_other (by omega)]
    exact hwrite
  · have hwrite := wrSect_lt (d := wrSect d₅ (3 + sb.nrSmapSects) sb.inodeSect) (i := sb.n1stSect)
      (b := rootSect) ho
    rwa [hsr] at hwrite
  · rw [hlast t (by omega) (by omega), hmap t (by omega), hd₂, wrSect_other (by omega),
      wrSect_other (by omega)]

end

end Noxis.Fs
