import Noxis.Fs.Mkfs

/-!
# 25-osfs11/fs: the files of a volume that was made, and of one that was there

* `firstFiles`         what there is after `mkfs`: /cmd.tar, with the bytes that lie in its sectors
* `mkfs_shows`         FS shows it, when the sectors of `/` are blank
* `Stored.restart`     a volume in order is one still when the machine has started again
-/

namespace Noxis.Fs
open Ipc (Pid)
open FileStore RefCount Run

/-! ## the five entries -/

/-- the names of the entries that `mkfs` makes -/
def firstNames : List (List Byte) :=
  [[0x2E], [0x64, 0x65, 0x76, 0x5F, 0x74, 0x74, 0x79, 0x30],
    [0x64, 0x65, 0x76, 0x5F, 0x74, 0x74, 0x79, 0x31],
    [0x64, 0x65, 0x76, 0x5F, 0x74, 0x74, 0x79, 0x32], tarName]

/-- `.` and the terminals -/
def Special (f : Name) : Prop := f.bytes ∈ firstNames.take 4

def tarFile : Name := ⟨tarName, by decide, by decide, by decide, by decide⟩

theorem ttyName_eq {i : Nat} (hi : i < 10) :
    ttyName i = [0x64, 0x65, 0x76, 0x5F, 0x74, 0x74, 0x79, BitVec.ofNat 8 (i + 0x30)] := by
  have hdigit : i2a i = [BitVec.ofNat 8 (i + 0x30)] := by
    unfold i2a
    simp only
    rw [if_pos (Nat.div_eq_of_lt hi), Nat.mod_eq_of_lt hi]
  unfold ttyName fmtD
  rw [hdigit]
  rfl

/-- `rootSect` with its names -/
def rootBytes : Buffer :=
  strcpy (put32 (sprintf (put32 (sprintf (put32 (sprintf (put32 (strcpy (put32 (fun _ => 0) 0 1) 4
    [0x2E]) 16 2) 20 (firstNames.getD 1 [])) 32 3) 36 (firstNames.getD 2 [])) 48 4) 52
    (firstNames.getD 3 [])) 64 5) 68 tarName

theorem rootSect_eq : rootSect = rootBytes := by
  have h0 : ttyName 0 = firstNames.getD 1 [] := ttyName_eq (by decide)
  have h1 : ttyName 1 = firstNames.getD 2 [] := ttyName_eq (by decide)
  have h2 : ttyName 2 = firstNames.getD 3 [] := ttyName_eq (by decide)
  unfold rootSect
  simp only [NR_CONSOLES, List.range, List.range.loop, List.foldl_cons, List.foldl_nil, h0, h1, h2]
  rfl

/-- entry `k` of the first sector -/
def rootEntry (k : Nat) : Nat × Key :=
  (get32 (fun o => rootBytes (k * 16 + o)) 0, fun i => rootBytes (k * 16 + (4 + i)))

theorem rootEntry_eq {k : Nat} (hk : k < 32) :
    rootEntry k = if k < 5 then (k + 1, pad (firstNames.getD k [])) else blankEntry := by
  have hall : ∀ k : Fin 32, rootEntry k =
      if k.val < 5 then (k.val + 1, pad (firstNames.getD k [])) else blankEntry := by
    decide +kernel
  exact hall ⟨k, hk⟩

/-! ## the five inodes -/

section
variable {sb : Super} {d d' : Disk} {b : Buffer} {o o' c num k t lim m : Nat} {p : Inode} {a : Files}
  {special : Name → Prop}
  {s : FsState} {f : Name}

theorem decode_encode_ne (h : o + 16 ≤ o' ∨ o' + 16 ≤ o) :
    Inode.decode (p.encode b o') o c num = Inode.decode b o c num :=
  Inode.decode_congr fun i hi => Inode.encode_other (by omega)

theorem below_five (hk : k < 5) : k = 0 ∨ k = 1 ∨ k = 2 ∨ k = 3 ∨ k = 4 := by omega

/-- inode `k + 1` as `mkfs` writes it -/
def firstInode (sb : Super) (k : Nat) : Inode :=
  [sb.rootInode, ttyInode 0, ttyInode 1, ttyInode 2, tarInode].getD k .zero

theorem inodeSect_eq (sb : Super) : sb.inodeSect = tarInode.encode ((ttyInode 2).encode
    ((ttyInode 1).encode ((ttyInode 0).encode (sb.rootInode.encode (fun _ => 0) 0) 32) 64) 96) 128 :=
  rfl

theorem inodeSect_decode (hn : sb.n1stSect < 2 ^ 32) (hk : k < 5) :
    Inode.decode sb.inodeSect (k * 32) c num = { firstInode sb k with cnt := c, num := num } := by
  have hself : ∀ {p : Inode} {b : Buffer} {o : Nat}, p.mode < 2 ^ 32 → p.size < 2 ^ 32 →
      p.startSect < 2 ^ 32 → p.nrSects < 2 ^ 32 →
        Inode.decode (p.encode b o) o c num = { p with cnt := c, num := num } := by
    intro p b o h1 h2 h3 h4
    exact Inode.decode_encode (p := { p with cnt := c, num := num }) h1 h2 h3 h4
  rw [inodeSect_eq]
  rcases below_five hk with rfl | rfl | rfl | rfl | rfl
  · rw [decode_encode_ne (by omega), decode_encode_ne (by omega), decode_encode_ne (by omega),
      decode_encode_ne (by omega)]
    exact hself (show I_DIRECTORY < 2 ^ 32 by decide) (show DIR_ENTRY_SIZE * 5 < 2 ^ 32 by decide) hn
      (show NR_DEFAULT_FILE_SECTS < 2 ^ 32 by decide)
  · rw [decode_encode_ne (by omega), decode_encode_ne (by omega), decode_encode_ne (by omega)]
    exact hself (by decide) (by decide) (by decide) (by decide)
  · rw [decode_encode_ne (by omega), decode_encode_ne (by omega)]
    exact hself (by decide) (by decide) (by decide) (by decide)
  · rw [decode_encode_ne (by omega)]
    exact hself (by decide) (by decide) (by decide) (by decide)
  · exact hself (by decide) (by decide) (by decide) (by decide)

/-! ## the view -/

/-- the sectors of `/` behind the first one are blank -/
def Blank (sb : Super) (d : Disk) : Prop :=
  ∀ t, sb.n1stSect < t → t < sb.n1stSect + NR_DEFAULT_FILE_SECTS → ∀ o < 512, d t o = 0

theorem Formatted.inode (hf : Formatted sb d d') (hsb : sb.Ok) (hk : k < 5) :
    (initFs d' sb).view.inode (k + 1) = { firstInode sb k with num := k + 1 } := by
  have hfar := hsb.n1stSect_lt
  have himap := hsb.imap
  have hfirst := hsb.n1stSect_eq
  have hblk : inodeBlk sb (k + 1) = 3 + sb.nrSmapSects := by
    unfold inodeBlk
    omega
  have hoff : inodeOff (k + 1) = k * 32 := by
    unfold inodeOff INODE_SIZE
    omega
  show (if 1 ≤ k + 1 ∧ k + 1 ≤ 4096 then inodeOnDisk (initFs d' sb) (k + 1) else .zero) = _
  rw [if_pos (by omega)]
  show Inode.decode (rdSect d' (inodeBlk sb (k + 1))) (inodeOff (k + 1)) 0 (k + 1) = _
  rw [hblk, hoff]
  have hread : ∀ i < 16, rdSect d' (3 + sb.nrSmapSects) (k * 32 + i) = sb.inodeSect (k * 32 + i) := by
    intro i hi
    rw [rdSect_lt (by omega), sectOf_of_lt (by omega)]
    exact hf.inodes _ (by omega)
  rw [Inode.decode_congr hread, inodeSect_decode (by omega) hk]
  rcases below_five hk with rfl | rfl | rfl | rfl | rfl <;> rfl

theorem Formatted.entry (hf : Formatted sb d d') (hb : Blank sb d) (k : Nat) :
    (initFs d' sb).view.entry k =
      if k < 5 then (k + 1, pad (firstNames.getD k [])) else blankEntry := by
  show (if k < NR_DIR_ENTRIES then (entNr d' sb.n1stSect k, entKey d' sb.n1stSect k)
    else blankEntry) = _
  by_cases hlast : k < NR_DIR_ENTRIES
  · rw [if_pos hlast]
    by_cases h32 : k < 32
    · rw [← rootEntry_eq h32]
      have hbyte : ∀ o < 16, entByte d' sb.n1stSect k o = rootBytes (k * 16 + o) := by
        intro o ho
        unfold entByte
        rw [Nat.div_eq_of_lt h32, Nat.mod_eq_of_lt h32, Nat.add_zero, hf.root _ (by omega), rootSect_eq]
      unfold rootEntry entNr entKey
      refine Prod.ext ?_ ?_
      · show get32 (entByte d' sb.n1stSect k) 0 = get32 (fun o => rootBytes (k * 16 + o)) 0
        exact get32_congr fun i hi => hbyte (0 + i) (by omega)
      · funext i
        have hi := i.isLt
        exact hbyte (4 + i) (by omega)
    · have hlast' : k < 65536 := hlast
      have hzero : ∀ o < 16, entByte d' sb.n1stSect k o = 0 := by
        intro o ho
        unfold entByte
        rw [hf.data _ (by omega)]
        exact hb _ (by omega) (by unfold NR_DEFAULT_FILE_SECTS; omega) _ (by omega)
      rw [if_neg (by omega)]
      refine Prod.ext ?_ ?_
      · show get32 (entByte d' sb.n1stSect k) 0 = 0
        unfold get32
        rw [hzero 0 (by omega), hzero (0 + 1) (by omega), hzero (0 + 2) (by omega),
          hzero (0 + 3) (by omega)]
        rfl
      · funext i
        have hi := i.isLt
        exact hzero (4 + i) (by omega)
  · have hlast' : ¬ k < 65536 := hlast
    rw [if_neg hlast, if_neg (by omega)]

theorem Formatted.dir (hf : Formatted sb d d') (hsb : sb.Ok) :
    (initFs d' sb).view.dir = { firstInode sb 0 with cnt := 1, num := 1 } := by
  have hinode : inodeOnDisk (initFs d' sb) 1 = { firstInode sb 0 with num := 1 } :=
    hf.inode hsb (show 0 < 5 by decide)
  have hdir : (initFs d' sb).view.dir = { inodeOnDisk (initFs d' sb) 1 with cnt := 1 } := rfl
  rw [hdir, hinode]

theorem Formatted.len (hf : Formatted sb d d') (hsb : sb.Ok) : (initFs d' sb).view.len = 5 := by
  unfold View.len
  rw [hf.dir hsb]
  show DIR_ENTRY_SIZE * 5 / DIR_ENTRY_SIZE = 5
  decide

theorem Formatted.live_iff (hf : Formatted sb d d') (hsb : sb.Ok) (hb : Blank sb d) :
    (initFs d' sb).view.Live k ↔ k < 5 := by
  unfold View.Live View.nr
  rw [hf.len hsb, hf.entry hb]
  constructor
  · exact And.left
  · intro hk
    rw [if_pos hk]
    exact ⟨hk, Nat.succ_ne_zero k⟩

theorem Formatted.nr (hf : Formatted sb d d') (hb : Blank sb d) (hk : k < 5) :
    (initFs d' sb).view.nr k = k + 1 := by
  unfold View.nr
  rw [hf.entry hb, if_pos hk]

theorem Formatted.file (hf : Formatted sb d d') (hsb : sb.Ok) (hb : Blank sb d) (hk : k < 5) :
    (initFs d' sb).view.file k = { firstInode sb k with num := k + 1 } := by
  unfold View.file
  rw [hf.nr hb hk, hf.inode hsb hk]

/-- only /cmd.tar is a regular file -/
theorem Formatted.regular (hf : Formatted sb d d') (hsb : sb.Ok) (hb : Blank sb d) (hk : k < 5)
    (hm : ((initFs d' sb).view.file k).mode = I_REGULAR) : k = 4 := by
  rw [hf.file hsb hb hk] at hm
  rcases below_five hk with rfl | rfl | rfl | rfl | rfl
  · exact absurd hm (by show ¬ I_DIRECTORY = I_REGULAR; decide)
  · exact absurd hm (by show ¬ I_CHAR_SPECIAL = I_REGULAR; decide)
  · exact absurd hm (by show ¬ I_CHAR_SPECIAL = I_REGULAR; decide)
  · exact absurd hm (by show ¬ I_CHAR_SPECIAL = I_REGULAR; decide)
  · rfl

/-- the table has `/` and nothing else -/
theorem initFs_slot (d : Disk) (sb : Super) {q : Fin nrInode}
    (hq : ((initFs d sb).inodeTable q).cnt ≠ 0) : q = 0 := by
  by_contra hne
  have hat : (initFs d sb).inodeTable q = .zero := Function.update_of_ne hne _ _
  rw [hat] at hq
  exact hq rfl

/-- the sectors of `/` and of /cmd.tar on the device -/
structure Fits (sb : Super) : Prop where
  ok : sb.Ok
  tar : sb.n1stSect + NR_DEFAULT_FILE_SECTS ≤ INSTALL_START_SECT
  device : INSTALL_START_SECT + INSTALL_NR_SECTS ≤ sb.nrSects

theorem Formatted.placed (hf : Formatted sb d d') (hs : Fits sb) (hb : Blank sb d) :
    (initFs d' sb).view.Placed ((initFs d' sb).view.file 4) := by
  have hsmap := hs.ok.smap
  have htar := hs.tar
  have hdev := hs.device
  unfold INSTALL_START_SECT NR_DEFAULT_FILE_SECTS at htar
  unfold INSTALL_START_SECT INSTALL_NR_SECTS at hdev
  rw [hf.file hs.ok hb (by decide)]
  refine ⟨hs.tar, hs.device, le_rfl, by show 2048 * 512 < 2 ^ 31; decide, fun t h1 h2 => ?_⟩
  have h1' : 94208 ≤ t := h1
  have h2' : t < 94208 + 2048 := h2
  have hbit : sb.tarBit = 94208 + 1 - sb.n1stSect := rfl
  have hnr : INSTALL_NR_SECTS = 2048 := rfl
  show (decide (t + 1 - sb.n1stSect < sb.nrSmapSects * 4096) &&
    mapBit d' 3 (t + 1 - sb.n1stSect)) = true
  rw [decide_eq_true (by omega), hf.smap _ (by omega), decide_eq_true (by omega)]
  rfl

/-- **The volume is in order.** -/
theorem Formatted.ok (hf : Formatted sb d d') (hs : Fits sb) (hb : Blank sb d) :
    (initFs d' sb).view.Ok := by
  have hdir := hf.dir hs.ok
  have hentry := hf.entry hb
  have hlive : ∀ k, (initFs d' sb).view.Live k ↔ k < 5 := fun k => hf.live_iff hs.ok hb
  have hsmap := hs.ok.smap
  have himap : ∀ v < 6, (initFs d' sb).view.imap v = true := by
    intro v hv
    show (decide (v < 4096) && mapBit d' 2 v) = true
    rw [decide_eq_true (by omega), hf.imap v (by omega), decide_eq_true hv]
    rfl
  refine ⟨hs.ok, ?_, ?_, ?_, ?_, ?_, ⟨?_, ?_⟩, fun k hk => ?_, fun j k hj hk he => ?_,
    fun j k hj hk he => ?_, fun k hk => ?_, ⟨himap 0 (by decide), himap 1 (by decide)⟩,
    fun q hq hc => absurd (initFs_slot d' sb hc) hq, fun q r hq hr _ => ?_, fun k hk => ?_,
    fun k hk hm => ?_, fun j k hj hk hne hm hm' => ?_⟩
  · rw [hdir]
    exact Nat.one_ne_zero
  · rw [hdir]
    rfl
  · rw [hdir]
    rfl
  · rw [hdir]
    rfl
  · rw [hdir]
    rfl
  · rw [hdir]
    show DIR_ENTRY_SIZE * 5 % DIR_ENTRY_SIZE = 0
    decide
  · rw [hf.len hs.ok]
    decide
  · rw [hentry, if_neg fun hlt => hk ((hlive k).mpr hlt)]
  · have hj5 := (hlive j).mp hj
    have hk5 := (hlive k).mp hk
    rw [hentry, hentry, if_pos hj5, if_pos hk5] at he
    have hall : ∀ j k : Fin 5, pad (firstNames.getD j []) = pad (firstNames.getD k []) → j = k := by
      decide
    exact congrArg Fin.val (hall ⟨j, hj5⟩ ⟨k, hk5⟩ he)
  · rw [hf.nr hb ((hlive j).mp hj), hf.nr hb ((hlive k).mp hk)] at he
    exact Nat.succ_injective he
  · have hk5 := (hlive k).mp hk
    rw [hf.nr hb hk5]
    exact ⟨by omega, himap _ (by omega)⟩
  · exact (initFs_slot d' sb hq).trans (initFs_slot d' sb hr).symm
  · have hk' : k ≤ 2048 := hk
    show (decide (k < sb.nrSmapSects * 4096) && mapBit d' 3 k) = true
    rw [decide_eq_true (by omega), hf.smap k (by omega), decide_eq_true (by omega)]
    rfl
  · obtain rfl := hf.regular hs.ok hb ((hlive k).mp hk) hm
    exact hf.placed hs hb
  · obtain rfl := hf.regular hs.ok hb ((hlive j).mp hj) hm
    exact absurd (hf.regular hs.ok hb ((hlive k).mp hk) hm').symm hne

/-! ## /cmd.tar -/

/-- the bytes of the sectors that are set aside for it -/
def tarBytes (d : Disk) : List Byte :=
  bytesOf (fun i => d (INSTALL_START_SECT + i / 512) (i % 512)) (INSTALL_NR_SECTS * SECTOR_SIZE)

/-- files that nobody has open -/
def closedFiles (file : Name → Option (List Byte)) : Files := ⟨file, fun _ => none, fun _ _ => none⟩

/-- **the files after `mkfs`** -/
def firstFiles (d : Disk) : Files :=
  closedFiles fun f => if f = tarFile then some (tarBytes d) else none

theorem Formatted.stores (hf : Formatted sb d d') (hs : Fits sb) (hb : Blank sb d) :
    (initFs d' sb).view.Stores tarFile (tarBytes d) 4 := by
  have hfile := hf.file hs.ok hb (show 4 < 5 by decide)
  have hlen : (tarBytes d).length = INSTALL_NR_SECTS * SECTOR_SIZE := length_bytesOf _ _
  refine ⟨⟨(hf.live_iff hs.ok hb).mpr (by decide), ?_⟩, ?_, ?_, ?_, fun i hi => ?_⟩
  · rw [hf.entry hb]
    rfl
  · rw [hf.nr hb (by decide)]
    decide
  · rw [hfile]
    rfl
  · rw [hfile, hlen]
    rfl
  · rw [hlen] at hi
    have htar := hs.tar
    have hsect : sb.n1stSect + NR_DEFAULT_FILE_SECTS ≤ INSTALL_START_SECT + i / 512 :=
      htar.trans (Nat.le_add_right ..)
    have hfirst : sb.n1stSect < INSTALL_START_SECT + i / 512 :=
      Nat.lt_of_lt_of_le (Nat.lt_add_of_pos_right (by decide)) hsect
    have hat : (tarBytes d).getD i 0 = d (INSTALL_START_SECT + i / 512) (i % 512) := getD_bytesOf hi 0
    rw [hfile, hat]
    show (if sb.n1stSect + NR_DEFAULT_FILE_SECTS ≤ INSTALL_START_SECT + i / 512 then
      d' (INSTALL_START_SECT + i / 512) else fun _ => 0) (i % 512) = _
    rw [if_pos hsect, hf.data _ hfirst]

theorem Formatted.stored (hf : Formatted sb d d') (hs : Fits sb) (hb : Blank sb d)
    (hlim : INSTALL_START_SECT + INSTALL_NR_SECTS ≤ lim) :
    Stored Special lim (initFs d' sb) (firstFiles d) := by
  refine ⟨hf.ok hs hb, fun f bytes hfile => ?_, fun f hfile hsp k hk => ?_, fun k hk hm => ?_, ?_⟩
  · have hif : (if f = tarFile then some (tarBytes d) else none) = some bytes := hfile
    by_cases hft : f = tarFile
    · rw [if_pos hft] at hif
      obtain rfl := Option.some.inj hif
      exact ⟨4, hft ▸ hf.stores hs hb⟩
    · rw [if_neg hft] at hif
      cases hif
  · have hif : (if f = tarFile then some (tarBytes d) else none) = none := hfile
    have hft : f ≠ tarFile := by
      intro hft
      rw [if_pos hft] at hif
      cases hif
    have hk5 := (hf.live_iff hs.ok hb).mp hk.live
    have hname := hk.name
    rw [hf.entry hb, if_pos hk5] at hname
    -- each of the five names is a special one or that of /cmd.tar
    have hnames : ∀ g : Name, pad g.bytes = pad f.bytes → g.bytes = f.bytes :=
      fun g hg => congrArg Name.bytes (Name.pad_inj hg)
    rcases below_five hk5 with rfl | rfl | rfl | rfl | rfl
    · refine hsp ?_
      unfold Special
      rw [← hnames ⟨[0x2E], by decide, by decide, by decide, by decide⟩ hname]
      decide
    · refine hsp ?_
      unfold Special
      rw [← hnames ⟨firstNames.getD 1 [], by decide, by decide, by decide, by decide⟩ hname]
      decide
    · refine hsp ?_
      unfold Special
      rw [← hnames ⟨firstNames.getD 2 [], by decide, by decide, by decide, by decide⟩ hname]
      decide
    · refine hsp ?_
      unfold Special
      rw [← hnames ⟨firstNames.getD 3 [], by decide, by decide, by decide, by decide⟩ hname]
      decide
    · exact hft (Name.pad_inj (f := f) (g := tarFile) hname.symm)
  · obtain rfl := hf.regular hs.ok hb ((hf.live_iff hs.ok hb).mp hk) hm
    rw [hf.file hs.ok hb (by decide)]
    exact ⟨rfl, hlim⟩
  · rw [hf.dir hs.ok]
    exact hf.inode hs.ok (show 0 < 5 by decide)

/-- files that nobody has open show nothing but their bytes -/
theorem Stored.shows {file : Name → Option (List Byte)} {special : Name → Prop}
    (hs : Stored special lim (initFs d sb) (closedFiles file)) (hlim : lim < 2 ^ 22) :
    Shows special lim (initFs d sb) (closedFiles file) := by
  refine ⟨hs, rfl, fun x hx => ?_, hlim⟩
  obtain ⟨p, i, hx⟩ := hx
  cases hx

theorem Formatted.rep (hf : Formatted sb d d') (hs : Fits sb) (hb : Blank sb d)
    (hlim : INSTALL_START_SECT + INSTALL_NR_SECTS ≤ lim) (hnear : lim < 2 ^ 22) (live : Pid → Bool) :
    Rep Special lim (startWorld d' sb live) ⟨firstFiles d, live, none⟩ :=
  ⟨startWorld_inv d' sb live, (hf.stored hs hb hlim).shows hnear, rfl, rfl⟩

/-- **The first start.**  `init_fs` on a device without a file system makes one, and FS shows
/cmd.tar. -/
theorem boot_rep (live : Pid → Bool) (hmagic : get32 (rdSect d 1) 0 ≠ MAGIC_V1)
    (h1 : INSTALL_START_SECT + INSTALL_NR_SECTS + NR_SECTS_FOR_LOG < m) (h2 : m < 2 ^ 28)
    (hb : Blank (Super.generate m) d) (hlim : INSTALL_START_SECT + INSTALL_NR_SECTS ≤ lim)
    (hnear : lim < 2 ^ 22) : ∃ s, bootFs m d = some s ∧
      Rep Special lim ⟨s, live, none⟩ ⟨firstFiles d, live, none⟩ := by
  obtain ⟨d', hmk, hf⟩ := mkfs_formatted d h1 h2
  have hread : ∀ o < 512, rdSect d' 1 o = (Super.generate m).encode o := by
    intro o ho
    rw [rdSect_lt ho, sectOf_of_lt (by omega)]
    exact hf.super o ho
  have hword : ∀ o ≤ 24, get32 (rdSect d' 1) o = get32 (Super.generate m).encode o :=
    fun o ho => get32_congr fun i hi => hread _ (by omega)
  have hdecode : Super.decode (rdSect d' 1) = Super.generate m := by
    rw [← Super.decode_encode h2]
    unfold Super.decode
    rw [hword 4 (by omega), hword 8 (by omega), hword 12 (by omega), hword 16 (by omega),
      hword 20 (by omega), hword 24 (by omega)]
  have hs : Fits (Super.generate m) := by
    have h1' : 94208 + 2048 + 2048 < m := h1
    refine ⟨Super.generate_ok h2, ?_, ?_⟩
    · show 1 + 1 + 1 + (m / 4096 + 1) + 256 + 2048 ≤ 94208
      omega
    · show 94208 + 2048 ≤ m
      omega
  refine ⟨initFs d' (Super.generate m), ?_, hf.rep hs hb hlim hnear live⟩
  unfold bootFs
  rw [if_neg hmagic, hmk, Option.map_some, hdecode]

theorem boot_rep_zeros : ∃ s, bootFs 0x20000 zeros = some s ∧
    Rep Special 120000 ⟨s, fun _ => true, none⟩ ⟨firstFiles zeros, fun _ => true, none⟩ :=
  boot_rep (fun _ => true) (by decide) (by decide) (by decide) (fun _ _ _ _ _ => rfl) (by decide)
    (by decide)

/-- **A new volume has room** for a file. -/
theorem Formatted.room (hf : Formatted sb d d') (hs : Fits sb)
    (hgap : sb.n1stSect + 2 * NR_DEFAULT_FILE_SECTS ≤ INSTALL_START_SECT)
    (hlim : sb.n1stSect + 2 * NR_DEFAULT_FILE_SECTS ≤ lim) : (initFs d' sb).Room lim := by
  have hsmap := hs.ok.smap
  have hdev := hs.device
  have h2048 : NR_DEFAULT_FILE_SECTS = 2048 := rfl
  have htar : INSTALL_START_SECT = 94208 := rfl
  have hbit : sb.tarBit = INSTALL_START_SECT + 1 - sb.n1stSect := rfl
  have hnr : INSTALL_NR_SECTS = 2048 := rfl
  refine ⟨⟨6, by decide, ?_⟩, 2049, ⟨fun i hi => ?_, fun i h1 h2 => ?_⟩, ?_, ?_⟩
  · show (decide (6 < 4096) && mapBit d' 2 6) = false
    rw [hf.imap 6 (by decide)]
    decide
  · show (decide (i < sb.nrSmapSects * 4096) && mapBit d' 3 i) = true
    rw [decide_eq_true (by omega), hf.smap i (by omega), decide_eq_true (by omega)]
    rfl
  · show (decide (i < sb.nrSmapSects * 4096) && mapBit d' 3 i) = false
    rw [decide_eq_true (by omega), hf.smap i (by omega), decide_eq_false (by omega)]
    rfl
  · show 2049 + sb.n1stSect - 1 + NR_DEFAULT_FILE_SECTS ≤ sb.nrSects
    omega
  · show 2049 + sb.n1stSect - 1 + NR_DEFAULT_FILE_SECTS ≤ lim
    omega

end

end Noxis.Fs
