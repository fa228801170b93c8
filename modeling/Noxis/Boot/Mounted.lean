import Noxis.Boot.HardDisk
import Noxis.Boot.Start
import Noxis.Fs.Shows
import Noxis.Fs.Mkfs

/-!
# What the loaders read of a file system

The programs of the hard disk read the super block that `mkfs` wrote, and the entries, the inodes and
the bytes that FS wrote.

* `OnDisk`      the partition has the file system of a state of FS
* `BootFile`    a file that FS has, where the loaders can find it
* `run_ok`      **a program loads the file that `search_file` finds**
* `hd_boots`    **a disk with hdldr.bin and kernel.bin boots**
* `onDisk_of_stored`, `bootFile_of_stored`   the files of a file system in order
-/

namespace Noxis.Boot.Hd

open Fs

/-! ## the super block -/

/-- the words of the super block are in the memory -/
structure SuperIn (s : Pc) (b : Super) : Prop where
  imap : sb s SB_NR_IMAP_SECTS = b.nrImapSects
  smap : sb s SB_NR_SMAP_SECTS = b.nrSmapSects
  root : sb s SB_ROOT_INODE = ROOT_INODE
  inodeSize : sb s SB_INODE_SIZE = 32
  size : sb s SB_INODE_ISIZE_OFF = 4
  start : sb s SB_INODE_START_OFF = 8
  entrySize : sb s SB_DIR_ENT_SIZE = 16
  entryInode : sb s SB_DIR_ENT_INODE_OFF = 0
  entryName : sb s SB_DIR_ENT_FNAME_OFF = 4

section
variable {d : Drive} {s s' : Pc} {b : Super} {f : FsState} {es bx i j k n v a : Nat}

/-- the words are below 0x800 -/
theorem SuperIn.congr (h : SuperIn s b) (hm : ∀ a, a < 0x800 → s'.mem a = s.mem a) :
    SuperIn s' b := by
  have hword : ∀ o, o < 0xF0 → sb s' o = sb s o := by
    intro o ho
    apply get32_congr
    intro i hi
    apply hm
    unfold lin SUPER_BLK_SEG
    omega
  constructor
  · rw [hword _ (by decide), h.imap]
  · rw [hword _ (by decide), h.smap]
  · rw [hword _ (by decide), h.root]
  · rw [hword _ (by decide), h.inodeSize]
  · rw [hword _ (by decide), h.size]
  · rw [hword _ (by decide), h.start]
  · rw [hword _ (by decide), h.entrySize]
  · rw [hword _ (by decide), h.entryInode]
  · rw [hword _ (by decide), h.entryName]

theorem SuperIn.after {lba : Nat} (h : SuperIn s b) (ha : 0x800 ≤ a) : SuperIn (load d s a lba) b :=
  h.congr fun _ _ => load_not_mem (by omega)

theorem SuperIn.say (h : SuperIn s b) (t : String) : SuperIn (s.say t) b := h.congr fun _ _ => rfl

/-- a word of a super block -/
theorem encode_word (b : Super) (hi : i < 14) :
    get32 b.encode (4 * i) = b.words.getD i 0 % 2 ^ 32 := by
  have h := putWords_getD b.words (b := fun _ => 0x90) (o := 0) (i := i) hi
  rwa [Nat.zero_add] at h

/-- behind the request for the super block -/
theorem SuperIn.read {lba : Nat} (hd : ∀ o < 512, d.sectors lba o = b.encode o)
    (h1 : b.nrImapSects < 2 ^ 32) (h2 : b.nrSmapSects < 2 ^ 32) :
    SuperIn (load d s 0x700 lba) b := by
  have hword : ∀ i, i < 14 → sb (load d s 0x700 lba) (4 * i) = b.words.getD i 0 % 2 ^ 32 := by
    intro i hi
    rw [← encode_word b hi]
    apply get32_eq
    intro j hj
    have hload : (load d s 0x700 lba).mem (0x700 + (4 * i + j)) = d.bytesAt lba (4 * i + j) :=
      load_mem (by omega)
    unfold Drive.bytesAt at hload
    rw [show lba + (4 * i + j) / 512 = lba by omega, Nat.mod_eq_of_lt (by omega),
      hd _ (by omega)] at hload
    have hat : lin SUPER_BLK_SEG (4 * i) + j = 0x700 + (4 * i + j) := by
      unfold lin SUPER_BLK_SEG
      omega
    rw [hat]
    exact hload
  constructor
  · exact (hword 3 (by decide)).trans (Nat.mod_eq_of_lt h1)
  · exact (hword 4 (by decide)).trans (Nat.mod_eq_of_lt h2)
  · exact hword 7 (by decide)
  · exact hword 8 (by decide)
  · exact hword 9 (by decide)
  · exact hword 10 (by decide)
  · exact hword 11 (by decide)
  · exact hword 12 (by decide)
  · exact hword 13 (by decide)

/-! ## the file system -/

/-- the file system of `f` is on the partition; FS has read `/` from there, and a name has zeros
behind it -/
structure OnDisk (d : Drive) (f : FsState) : Prop where
  sectors : ∀ t < f.sb.nrSects, d.sectors (ROOT_BASE + t) = f.disk t
  fits : ROOT_BASE + f.sb.nrSects ≤ d.size
  super : ∀ o < 512, f.disk 1 o = f.sb.encode o
  ok : f.sb.Ok
  room : f.sb.n1stSect + NR_DEFAULT_FILE_SECTS ≤ f.sb.nrSects
  start : (inodeOnDisk f ROOT_INODE).startSect = f.sb.n1stSect
  size : (inodeOnDisk f ROOT_INODE).size = f.root.size
  root : f.root.startSect = f.sb.n1stSect
  extent : f.root.size ≤ NR_DEFAULT_FILE_SECTS * SECTOR_SIZE
  names : ∀ k < 64, (∃ g : Name, f.key k = pad g.bytes) ∨ f.key k = fun _ => 0

/-- what is read from sector `t` of the partition on -/
theorem OnDisk.bytesAt (h : OnDisk d f) {t : Nat} (ht : t + i / 512 < f.sb.nrSects) :
    d.bytesAt (ROOT_BASE + t) i = f.disk (t + i / 512) (i % 512) := by
  unfold Drive.bytesAt
  rw [Nat.add_assoc, h.sectors _ ht]

theorem OnDisk.first (h : OnDisk d f) : f.sb.n1stSect = 259 + f.sb.nrSmapSects ∧
    f.sb.nrImapSects = 1 ∧ f.sb.n1stSect < 2 ^ 21 := by
  have h1 := h.ok.imap
  have h2 := h.ok.smap
  have h3 := h.ok.inodes
  have h4 := h.ok.first
  have h5 := h.ok.sects
  omega

/-! ## the routines -/

/-- where the routines read to -/
structure Place (es bx : Nat) : Prop where
  fits : bx + 1024 < 2 ^ 16
  inside : lin es bx % 65536 + 1024 ≤ 65536
  high : 0x800 ≤ lin es bx

/-- a word of an inode among the first 32, behind the request for their sectors -/
theorem OnDisk.inode_word (h : OnDisk d f) (h1 : 1 ≤ v) (h2 : v ≤ 32) {o : Nat} (ho : o + 4 ≤ 16)
    (s : Pc) : get32 (load d s (lin es bx) (ROOT_BASE + (3 + f.sb.nrSmapSects))).mem
      (lin es (bx + ((v - 1) * 32 + o))) =
      get32 (rdSect f.disk (inodeBlk f.sb v)) (inodeOff v + o) := by
  obtain ⟨hfirst, himap, hfar⟩ := h.first
  have hroom := h.room
  have hsects := h.ok.sects
  unfold NR_DEFAULT_FILE_SECTS at hroom
  apply get32_eq
  intro i hi
  have hblk : inodeBlk f.sb v = 3 + f.sb.nrSmapSects + (v - 1) / 16 := by
    unfold inodeBlk
    omega
  have hoff : inodeOff v + o + i < 512 := by
    unfold inodeOff INODE_SIZE
    omega
  rw [rdSect_lt hoff, sectOf_of_lt (by omega)]
  have hat : lin es (bx + ((v - 1) * 32 + o)) + i = lin es bx + ((v - 1) * 32 + o + i) := by
    unfold lin
    omega
  rw [hat, load_mem (by omega), h.bytesAt (by omega), hblk]
  unfold inodeOff INODE_SIZE
  rw [show ((v - 1) * 32 + o + i) / 512 = (v - 1) / 16 by omega,
    show ((v - 1) * 32 + o + i) % 512 = (v - 1) % 16 * 32 + o + i by omega]

/-- **`get_inode`**: an inode among the first 32 -/
theorem getInode_ok (h : OnDisk d f) (hs : SuperIn s f.sb) (hp : Place es bx) (h1 : 1 ≤ v)
    (h2 : v ≤ 32) : ∃ lba, getInode d es bx s v = some (load d s (lin es bx) lba,
      some (((inodeOnDisk f v).startSect + ROOT_BASE) % 2 ^ 32, (inodeOnDisk f v).size)) := by
  obtain ⟨hfirst, himap, hfar⟩ := h.first
  have hfits := hp.fits
  have hroom := h.room
  have hsects := h.ok.sects
  unfold NR_DEFAULT_FILE_SECTS at hroom
  have hplace : inodePlace 32 v = (v - 1) * 32 := by
    unfold inodePlace
    rw [show (v + 2 ^ 32 - 1) % 2 ^ 32 = v - 1 by omega]
    dsimp only
    omega
  have hlba : (f.sb.nrImapSects + f.sb.nrSmapSects + ROOT_BASE + 2) % 2 ^ 32 =
      ROOT_BASE + (3 + f.sb.nrSmapSects) := by
    unfold ROOT_BASE
    omega
  have hread : readSector d s es bx (ROOT_BASE + (3 + f.sb.nrSmapSects)) =
      some (load d s (lin es bx) (ROOT_BASE + (3 + f.sb.nrSmapSects))) := by
    apply readSector_ok _ hp.inside
    have hfit := h.fits
    omega
  have hword : ∀ o, o + 4 ≤ 16 → get32 (load d s (lin es bx) (ROOT_BASE + (3 + f.sb.nrSmapSects))).mem
      (lin es (bx + ((v - 1) * 32 + o))) = get32 (rdSect f.disk (inodeBlk f.sb v)) (inodeOff v + o) :=
    fun o ho => h.inode_word h1 h2 ho s
  have hsize : load32 (load d s (lin es bx) (ROOT_BASE + (3 + f.sb.nrSmapSects))) es
      ((4 + bx + (v - 1) * 32) % 2 ^ 32) = some (inodeOnDisk f v).size := by
    rw [show (4 + bx + (v - 1) * 32) % 2 ^ 32 = bx + ((v - 1) * 32 + 4) by omega,
      load32_ok (by omega), hword 4 (by decide)]
    rfl
  have hstart : load32 (load d s (lin es bx) (ROOT_BASE + (3 + f.sb.nrSmapSects))) es
      ((bx + ((v - 1) * 32 + 8)) % 2 ^ 16) = some (inodeOnDisk f v).startSect := by
    rw [Nat.mod_eq_of_lt (by omega), load32_ok (by omega), hword 8 (by decide)]
    rfl
  have hmem : SuperIn (load d s (lin es bx) (ROOT_BASE + (3 + f.sb.nrSmapSects))) f.sb :=
    hs.after hp.high
  refine ⟨ROOT_BASE + (3 + f.sb.nrSmapSects), ?_⟩
  have hsmall : ¬ Signed.int (SECT_BUF_SIZE - (32 : Nat)) < Signed.int ((v - 1) * 32 : Nat) := by
    rw [Signed.int_of_range (by decide) (by decide), Signed.int_of_range (by omega) (by omega)]
    show ¬ (1024 - 32 : Int) < _
    omega
  simp only [getInode, hs.inodeSize, hplace, if_neg hsmall, hs.imap, hs.smap, hlba, hread,
    Option.bind_eq_bind, Option.bind_some, hmem.size, hmem.start, hsize, hstart]
  rfl

/-! ## the directory -/

/-- the first entries of `/` are in the buffer -/
def DirIn (s : Pc) (a : Nat) (f : FsState) : Prop :=
  ∀ k < 64, ∀ o < 16, s.mem (a + 16 * k + o) = entByte f.disk f.root.startSect k o

theorem OnDisk.dirIn (h : OnDisk d f) (a : Nat) (s : Pc) :
    DirIn (load d s a (ROOT_BASE + f.sb.n1stSect)) a f := by
  intro k hk o ho
  have hroom := h.room
  unfold NR_DEFAULT_FILE_SECTS at hroom
  rw [Nat.add_assoc, load_mem (by omega), h.bytesAt (by omega), h.root]
  unfold entByte
  rw [show (16 * k + o) / 512 = k / 32 by omega, show (16 * k + o) % 512 = k % 32 * 16 + o by omega]

/-- the number of the inode in an entry -/
theorem DirIn.nr (hd : DirIn s (lin es bx) f) (hk : k < 64) :
    get32 s.mem (lin es (bx + 16 * k)) = f.nr k := by
  apply get32_eq
  intro i hi
  have hat : lin es (bx + 16 * k) + i = lin es bx + 16 * k + i := by
    unfold lin
    omega
  rw [hat, hd k hk i (by omega), Nat.zero_add]

/-- a character behind the end of a name -/
theorem Name.end_zero (g : Name) (h : g.bytes.getD n 0 = 0) : g.bytes.length ≤ n := by
  by_contra hlt
  rw [List.getD_eq_getElem _ _ (by omega)] at h
  exact g.noNul (h ▸ List.getElem_mem (by omega))

/-- **The loaders compare as `search_file` does**: up to the end of the name, where that looks at all
12 bytes. -/
theorem matches_iff {g : Name} (hg : g.bytes.length ≤ 11) (hd : DirIn s a f) (hk : k < 64)
    (hname : (∃ g : Name, f.key k = pad g.bytes) ∨ f.key k = fun _ => 0) :
    Matches s.mem (a + 16 * k + 4) (g.bytes ++ [0]) ↔ f.key k = pad g.bytes := by
  have hkey : ∀ i (hi : i < 12), s.mem (a + 16 * k + 4 + i) = f.key k ⟨i, hi⟩ := by
    intro i hi
    rw [Nat.add_assoc _ 4]
    exact hd k hk (4 + i) (by omega)
  have hchar : ∀ i, (g.bytes ++ [0]).getD i 0 = g.bytes.getD i 0 := by
    intro i
    by_cases hi : i < g.bytes.length
    · rw [List.getD_append _ _ _ _ hi]
    · rw [List.getD_append_right _ _ _ _ (by omega), List.getD_eq_default g.bytes _ (by omega)]
      cases i - g.bytes.length <;> rfl
  constructor
  · intro hm
    have hsame : ∀ i (hi : i ≤ g.bytes.length), g.bytes.getD i 0 = f.key k ⟨i, by omega⟩ := by
      intro i hi
      have h := hm i (by simp; omega)
      rw [hchar, hkey i (by omega)] at h
      exact h
    have hend : f.key k ⟨g.bytes.length, by omega⟩ = 0 := by
      rw [← hsame _ le_rfl, List.getD_eq_default _ _ le_rfl]
    rcases hname with ⟨g', hg'⟩ | hzero
    · rw [hg'] at hsame hend
      have hle : g'.bytes.length ≤ g.bytes.length := Name.end_zero g' hend
      rw [hg']
      funext i
      show g'.bytes.getD i 0 = g.bytes.getD i 0
      by_cases hi : i.1 ≤ g.bytes.length
      · exact (hsame i hi).symm
      · rw [List.getD_eq_default _ _ (by omega), List.getD_eq_default _ _ (by omega)]
    · have h0 := hsame 0 (Nat.zero_le _)
      rw [hzero] at h0
      exact absurd h0 g.pad_ne_zero
  · intro hp i hi
    have hle : i ≤ g.bytes.length := by
      simp at hi
      omega
    rw [hchar, hkey i (by omega), hp]
    rfl

/-- the search goes on to the first entry with the name -/
theorem searchDir_ok {g : Name} {last : Nat → Bool} {size : Nat} (hg : g.bytes.length ≤ 11)
    (hs : SuperIn s f.sb) (hd : DirIn s (lin es bx) f) (hp : Place es bx)
    (hnames : ∀ k < 64, (∃ g : Name, f.key k = pad g.bytes) ∨ f.key k = fun _ => 0)
    (hk : k < 64) (hkey : f.key k = pad g.bytes) (hbefore : ∀ j < k, f.key j ≠ pad g.bytes)
    (hsize : 16 * k < size) (hint : size < 2 ^ 32)
    (hlast : ∀ j < k, last (bx + 16 * (j + 1)) = false) (n j : Nat) (hj : j + n = k) (fuel : Nat)
    (hfuel : n < fuel) :
    searchDir s es g.bytes last fuel (bx + 16 * j) (size - 16 * j) = some (some (bx + 16 * k)) := by
  have hfits := hp.fits
  have hcmp : ∀ j < 64, (cmpFilename s.mem es (g.bytes ++ [0]) ((bx + 16 * j + 4) % 2 ^ 16)).1 = true ↔
      f.key j = pad g.bytes := by
    intro j hj
    rw [← matches_iff hg hd hj (hnames j hj), Nat.mod_eq_of_lt (by omega)]
    have hat : lin es (bx + 16 * j + 4) = lin es bx + 16 * j + 4 := by
      unfold lin
      omega
    have hlen : (g.bytes ++ [0]).length = g.bytes.length + 1 := List.length_append
    rcases @cmpFilename_spec s.mem es (g.bytes ++ [0]) (bx + 16 * j + 4) (by omega) with
      ⟨hm, hr⟩ | ⟨hm, q, -, hr⟩
    · rw [hat] at hm
      rw [hr]
      exact iff_of_true rfl hm
    · rw [hat] at hm
      rw [hr]
      exact iff_of_false Bool.false_ne_true hm
  induction n generalizing j fuel with
  | zero =>
    obtain rfl : j = k := hj
    obtain ⟨fuel, rfl⟩ : ∃ q, fuel = q + 1 := ⟨fuel - 1, by omega⟩
    rw [searchDir, hs.entryName, if_pos ((hcmp j hk).mpr hkey)]
  | succ n ih =>
    obtain ⟨fuel, rfl⟩ : ∃ q, fuel = q + 1 := ⟨fuel - 1, by omega⟩
    have hno : ¬ (cmpFilename s.mem es (g.bytes ++ [0]) ((bx + 16 * j + 4) % 2 ^ 16)).1 = true := by
      rw [hcmp j (by omega)]
      exact hbefore j (by omega)
    have hbx : (bx + 16 * j + 16) % 2 ^ 16 = bx + 16 * (j + 1) := by omega
    have hecx : (size - 16 * j + 2 ^ 32 - 16) % 2 ^ 32 = size - 16 * (j + 1) := by omega
    have hgo : ¬ (size - 16 * (j + 1) = 0 ∨ last (bx + 16 * (j + 1)) = true) := by
      rw [hlast j (by omega)]
      simp
      omega
    have hrest := ih (j + 1) (by omega) fuel (by omega)
    rw [searchDir, hs.entryName, if_neg hno, hs.entrySize]
    simp only [hbx, hecx, if_neg hgo]
    exact hrest

/-! ## a file -/

/-- a file that FS has: its entry is one of the first `n`, its inode one of the first 32, and two
sectors can be read at a time -/
structure BootFile (f : FsState) (g : Name) (data : List Byte) (n : Nat) : Prop where
  file : HasFile f g data
  entry : ∃ k < n, k < f.nrDirEntries ∧ f.key k = pad g.bytes
  inode : searchFile f g.bytes ≤ 32
  extent : (inodeOnDisk f (searchFile f g.bytes)).startSect + 2 * (data.length / 1024 + 1) ≤
    f.sb.nrSects

variable {g : Name} {data : List Byte}

/-- **`search_file` finds the first entry with the name**, as the loaders do -/
theorem BootFile.first (hb : BootFile f g data n) (h : OnDisk d f) :
    ∃ k < n, k < f.nrDirEntries ∧ f.key k = pad g.bytes ∧ (∀ j < k, f.key j ≠ pad g.bytes) ∧
      searchFile f g.bytes = f.nr k := by
  obtain ⟨q, hq, hdir, hkey⟩ := hb.entry
  obtain ⟨-, -, hfar⟩ := h.first
  have hroot := h.root
  have hextent := h.extent
  unfold NR_DEFAULT_FILE_SECTS SECTOR_SIZE at hextent
  have hnr : f.nrDirEntries = f.root.size / 16 := rfl
  have hlook : f.Looks q := ⟨hdir.le, by omega⟩
  have hpath : g.path false = g.bytes := rfl
  rcases searchFile_spec (s := f) (by omega) g false with ⟨k, -, hk, hbefore, hfound⟩ | ⟨hnone, -⟩
  · have hle : k ≤ q := by
      by_contra hlt
      exact hbefore q (by omega) hkey
    rw [hpath] at hfound
    exact ⟨k, by omega, by omega, hk, hbefore, hfound⟩
  · exact absurd hkey (hnone q hlook)

/-- a file is in the memory from `a` on, and the rest is as it was -/
structure FileIn (a : Nat) (data : List Byte) (s s' : Pc) : Prop where
  bytes : ∀ i < data.length, s'.mem (a + i) = data.getD i 0
  frame : ∀ i, ¬ (a ≤ i ∧ i < a + (data.length / 1024 + 1) * 1024) → s'.mem i = s.mem i
  shown : s'.shown = s.shown

/-- **A program loads the file that `search_file` finds.** -/
theorem Program.run_ok {p : Program} {place : Nat → Nat × Nat} (h : OnDisk d f)
    (hs : SuperIn s f.sb) (hp : Place p.es p.bx) (hg : g.bytes.length ≤ 11) (hname : p.name = g.bytes)
    (hb : BootFile f g data n) (hn : n ≤ 64)
    (hlast : ∀ j, j + 1 < n → p.last (p.bx + 16 * (j + 1)) = false)
    (hc : Course p.next place (lin p.es p.bx) (data.length / 1024))
    (hstart : place 0 = (p.es, p.bx)) (fuel : Nat) (hfuel : 64 ≤ fuel)
    (hfuel' : data.length / 1024 < fuel) (hlength : data.length < 2 ^ 31) :
    ∃ s', p.run d fuel s = some (.jump (s'.say p.done)) ∧ FileIn (lin p.es p.bx) data s s' := by
  obtain ⟨k, hkn, hdir, hkey, hbefore, hfound⟩ := hb.first h
  obtain ⟨hfirst, himap, hfar⟩ := h.first
  have hroom := h.room
  have hfit := h.fits
  have hsects := h.ok.sects
  have hextent := hb.extent
  have hdirSize := h.extent
  have hv := hb.inode
  have hpos := hb.file.found
  have hsize := hb.file.size
  have hbytes := hb.file.bytes
  have hnr : f.nrDirEntries = f.root.size / 16 := rfl
  unfold INVALID_INODE at hpos
  unfold NR_DEFAULT_FILE_SECTS at hroom hdirSize
  unfold SECTOR_SIZE at hdirSize
  rw [hfound] at hextent hv hpos hsize hbytes
  generalize hino : inodeOnDisk f (f.nr k) = ino at hextent hsize hbytes
  -- the inode of `/`, and its first sectors
  obtain ⟨lba₁, hroot⟩ := getInode_ok (v := ROOT_INODE) h hs hp (by decide) (by decide)
  have hlba : (f.sb.n1stSect + ROOT_BASE) % 2 ^ 32 = ROOT_BASE + f.sb.n1stSect := by
    unfold ROOT_BASE
    omega
  rw [h.start, h.size, hlba] at hroot
  have hs₁ : SuperIn (load d s (lin p.es p.bx) lba₁) f.sb := hs.after hp.high
  generalize hload₁ : load d s (lin p.es p.bx) lba₁ = s₁ at hroot hs₁
  have hread : readSector d s₁ p.es p.bx (ROOT_BASE + f.sb.n1stSect) =
      some (load d s₁ (lin p.es p.bx) (ROOT_BASE + f.sb.n1stSect)) := by
    apply readSector_ok _ hp.inside
    omega
  have hs₂ : SuperIn (load d s₁ (lin p.es p.bx) (ROOT_BASE + f.sb.n1stSect)) f.sb :=
    hs₁.after hp.high
  have hdirIn := h.dirIn (lin p.es p.bx) s₁
  generalize hload₂ : load d s₁ (lin p.es p.bx) (ROOT_BASE + f.sb.n1stSect) = s₂ at hread hs₂ hdirIn
  -- the entry
  have hsearch : searchDir s₂ p.es g.bytes p.last fuel (p.bx + 16 * 0) (f.root.size - 16 * 0) =
      some (some (p.bx + 16 * k)) :=
    searchDir_ok hg hs₂ hdirIn hp h.names (by omega) hkey hbefore (by omega) (by omega)
      (fun j hj => hlast j (by omega)) k 0 (Nat.zero_add k) fuel (by omega)
  rw [Nat.mul_zero, Nat.add_zero, Nat.sub_zero, ← hname] at hsearch
  have hfits := hp.fits
  have hentry : load32 s₂ p.es ((p.bx + 16 * k + 0) % 2 ^ 16) = some (f.nr k) := by
    rw [Nat.add_zero, Nat.mod_eq_of_lt (by omega), load32_ok (by omega), hdirIn.nr (by omega)]
  -- its inode
  obtain ⟨lba₃, hfile⟩ := getInode_ok h hs₂ hp (Nat.pos_of_ne_zero hpos) hv
  have hlba' : (ino.startSect + ROOT_BASE) % 2 ^ 32 = ROOT_BASE + ino.startSect := by
    unfold ROOT_BASE
    omega
  rw [hino, hlba', hsize] at hfile
  generalize hload₃ : load d s₂ (lin p.es p.bx) lba₃ = s₃ at hfile
  -- the sectors
  have hnone : Loaded d (lin p.es p.bx) (ROOT_BASE + ino.startSect)
      (data.length / 1024 - data.length / 1024) s₃ s₃ := by
    rw [Nat.sub_self]
    exact .none ..
  obtain ⟨s', hrun, hdone⟩ := loadFile_ok hc hlength (by omega) (data.length / 1024) le_rfl fuel
    hfuel' s₃ s₃ hnone
  simp only [Nat.sub_self, Nat.mul_zero, Nat.add_zero, Nat.sub_zero, hstart] at hrun
  refine ⟨s', ?_, fun i hi => ?_, fun i hi => ?_, ?_⟩
  · simp only [Program.run, hs.root, hroot, Option.bind_eq_bind, Option.bind_some, hread, hsearch,
      hs₂.entryInode]
    rw [hentry, Option.bind_some, hfile, Option.bind_some]
    simp only [hrun, Option.bind_some, if_true]
  · rw [hdone.data i (by omega), h.bytesAt (by omega)]
    exact hbytes i hi
  · have hout : ¬ (lin p.es p.bx ≤ i ∧ i < lin p.es p.bx + 1024) :=
      fun hc => hi ⟨hc.1, by omega⟩
    rw [hdone.frame i hi, ← hload₃, load_not_mem hout, ← hload₂, load_not_mem hout, ← hload₁,
      load_not_mem hout]
  · rw [hdone.shown, ← hload₃, ← hload₂, ← hload₁]
    rfl

/-! ## the programs -/

def loaderFile : Name where
  bytes := loaderName
  pos := by decide
  len := by decide
  noNul := by decide
  noSlash := by decide

def kernelFile : Name where
  bytes := kernelName
  pos := by decide
  len := by decide
  noNul := by decide
  noSlash := by decide

theorem loader_place : Place loader.es loader.bx := ⟨by decide, by decide, by decide⟩

theorem kernel_place : Place kernel.es kernel.bx := ⟨by decide, by decide, by decide⟩

variable {fuel : Nat}

/-- **The boot sector loads hdldr.bin**, and leaves the super block. -/
theorem hdboot_ok (h : OnDisk d f) (hb : BootFile f loaderFile data 48)
    (hsmall : data.length < 63 * 1024) (hfuel : 64 ≤ fuel) (s : Pc) :
    ∃ s', hdboot d fuel s = some (.jump (s'.say "HD Boot  ")) ∧ SuperIn s' f.sb ∧
      (∀ i < data.length, s'.mem (0x90100 + i) = data.getD i 0) ∧ s'.shown = ["Booting  "] := by
  obtain ⟨hfirst, himap, hfar⟩ := h.first
  have hfits := h.fits
  have hroom := h.room
  unfold NR_DEFAULT_FILE_SECTS at hroom
  generalize hs₀ : ({ s with shown := ["Booting  "] } : Pc) = s₀
  have hread : readSector d s₀ SUPER_BLK_SEG 0 (ROOT_BASE + 1) =
      some (load d s₀ 0x700 (ROOT_BASE + 1)) := readSector_ok (by omega) (by decide)
  have hsuper : SuperIn (load d s₀ 0x700 (ROOT_BASE + 1)) f.sb := by
    apply SuperIn.read _ (by omega) (by omega)
    intro o ho
    rw [h.sectors 1 (by omega)]
    exact h.super o ho
  have hlast : ∀ j, j + 1 < 48 → loader.last (loader.bx + 16 * (j + 1)) = false := by
    intro j hj
    apply decide_eq_false
    have hbx : loader.bx = 256 := rfl
    have hbuf : SECT_BUF_SIZE = 1024 := rfl
    rw [hbx, hbuf]
    omega
  have hcourse : Course loader.next (fun i => (LOADER_SEG, LOADER_OFF + 1024 * i)) 0x90100
      (data.length / 1024) := loader_course (by omega)
  obtain ⟨s', hrun, hfile⟩ := Program.run_ok h hsuper loader_place (by decide) rfl hb (by decide) hlast
    hcourse rfl fuel hfuel (by omega) (by omega)
  refine ⟨s', ?_, hsuper.congr fun a ha => hfile.frame a fun hc => ?_, hfile.bytes, ?_⟩
  · rw [hdboot, hs₀, Option.bind_eq_bind, hread, Option.bind_some, hrun]
    rfl
  · have hlow : 0x90100 ≤ a := hc.1
    omega
  · rw [hfile.shown, ← hs₀]
    rfl

/-- **The loader loads kernel.bin.** -/
theorem hdldr_ok (h : OnDisk d f) (hs : SuperIn s f.sb) (hb : BootFile f kernelFile data 64)
    (hsmall : data.length < KERNEL_VALID_SPACE) (hfuel : 128 ≤ fuel) :
    ∃ s', hdldr d fuel s = some (.jump (s'.say "in HD LDR")) ∧
      FileIn 0x70000 data (s.say "Loading  ") s' := by
  unfold KERNEL_VALID_SPACE at hsmall
  have hlast : ∀ j, j + 1 < 64 → kernel.last (kernel.bx + 16 * (j + 1)) = false := fun _ _ => rfl
  have hcourse : Course kernel.next
      (fun i => (KERNEL_FILE_SEG + i / 64 * 0x1000, i % 64 * 1024)) 0x70000 (data.length / 1024) :=
    kernel_course (by omega)
  exact Program.run_ok h (hs.say "Loading  ") kernel_place (by decide) rfl hb le_rfl hlast hcourse rfl
    fuel (by omega) (by omega) (by omega)

/-! ## from power on to the kernel -/

variable {buf : Nat → Ards}

/-- where a program has jumped -/
def Outcome.jumped : Outcome → Option Pc
  | .jump s => some s
  | _ => none

/-- the boot sector, the loader in real mode, and the loader in protected mode; `none` when one of
them hangs -/
def powerOn (d : Drive) (fuel : Nat) (buf : Nat → Ards) (n : Nat) (m : Buffer) : Option Buffer :=
  ((hdboot d fuel ⟨m, 0, []⟩).bind Outcome.jumped).bind fun s =>
    ((hdldr d fuel s).bind Outcome.jumped).map fun s => startKernel buf n s.mem

theorem powerOn_eq {s s' : Pc} {m : Buffer} (hboot : hdboot d fuel ⟨m, 0, []⟩ = some (.jump s))
    (hload : hdldr d fuel s = some (.jump s')) :
    powerOn d fuel buf n m = some (startKernel buf n s'.mem) := by
  have hfirst : (hdboot d fuel ⟨m, 0, []⟩).bind Outcome.jumped = some s := by
    rw [hboot]
    rfl
  have hsecond : (hdldr d fuel s).bind Outcome.jumped = some s' := by
    rw [hload]
    rfl
  rw [powerOn, hfirst, Option.bind_some, hsecond, Option.map_some]

/-- **A disk whose file system has hdldr.bin and kernel.bin boots**: what FS would read of kernel.bin is
what runs.  The segments of the kernel are in their places, its file is where it looks for it, paging is
on and maps the memory to itself, and the loader has not been written over. -/
theorem hd_boots {k : Image.Kernel} (h : OnDisk d f) (hl : BootFile f loaderFile data 48)
    (hlsmall : data.length < 63 * 1024) (hk : BootFile f kernelFile k.bytes 64)
    (hksmall : k.bytes.length < KERNEL_VALID_SPACE) (hh : k.Harmless) (hfuel : 128 ≤ fuel)
    (hn : 0 < n) (hram : ∃ j < n, (buf j).type = 1 ∧ 0 < (buf j).top) (m : Buffer) :
    ∃ m' size, powerOn d fuel buf n m = some m' ∧ MemSize buf n size ∧ Running k size m' ∧
      ∀ i < data.length, m' (0x90100 + i) = data.getD i 0 := by
  obtain ⟨s, hboot, hsuper, hloader, -⟩ := hdboot_ok h hl hlsmall (show 64 ≤ fuel by omega) ⟨m, 0, []⟩
  obtain ⟨s', hload, hkernel⟩ := hdldr_ok h (hsuper.say "HD Boot  ") hk hksmall hfuel
  have hstaged : Image.Staged k.bytes (s'.say "in HD LDR").mem := hkernel.bytes
  obtain ⟨size, hsize, hrun, hkeep⟩ := startKernel_ok hstaged hh hn hram
  refine ⟨_, size, powerOn_eq hboot hload, hsize, hrun, fun i hi => ?_⟩
  have hmem : (s'.say "in HD LDR").mem (0x90100 + i) = s'.mem (0x90100 + i) := rfl
  unfold KERNEL_VALID_SPACE at hksmall
  have hout : ¬ (0x70000 ≤ 0x90100 + i ∧
      0x90100 + i < 0x70000 + (k.bytes.length / 1024 + 1) * 1024) := by omega
  rw [hkeep _ (by omega) (by unfold PAGE_DIR_BASE; omega), hmem, hkernel.frame _ hout]
  exact hloader i hi

/-! ## a file system in order -/

variable {special : Name → Prop} {lim : Nat} {files : Files}

/-- **A file system in order can be booted from**, when its entries have the names that FS gives. -/
theorem onDisk_of_stored (hs : Stored special lim f files)
    (hnames : ∀ k, f.view.Live k → ∃ g : Name, (f.view.entry k).2 = pad g.bytes)
    (hfile : files.file g = some data)
    (hsectors : ∀ t < f.sb.nrSects, d.sectors (ROOT_BASE + t) = f.disk t)
    (hfits : ROOT_BASE + f.sb.nrSects ≤ d.size) (hsuper : ∀ o < 512, f.disk 1 o = f.sb.encode o) :
    OnDisk d f := by
  obtain ⟨q, hq⟩ := hs.files g data hfile
  have hplaced := hs.ok.placed q hq.named.live hq.mode
  have hfirst : f.sb.n1stSect + NR_DEFAULT_FILE_SECTS ≤ (f.view.file q).startSect := hplaced.first
  have hlast : (f.view.file q).startSect + (f.view.file q).nrSects ≤ f.sb.nrSects := hplaced.last
  have hlen : f.root.size % 16 = 0 ∧ f.root.size / 16 ≤ 65536 := hs.ok.size
  have hroot : inodeOnDisk f ROOT_INODE = { f.view.dir with cnt := 0 } := hs.root
  refine ⟨hsectors, hfits, hsuper, hs.ok.sb, by omega, ?_, ?_, hs.ok.start, ?_, fun k hk => ?_⟩
  · rw [hroot]
    exact hs.ok.start
  · rw [hroot]
    rfl
  · unfold NR_DEFAULT_FILE_SECTS SECTOR_SIZE
    omega
  · rw [hs.ok.entry_key (show k < NR_DIR_ENTRIES by unfold NR_DIR_ENTRIES; omega)]
    by_cases hlive : f.view.Live k
    · exact .inl (hnames k hlive)
    · rw [hs.ok.blank k hlive]
      exact .inr rfl

/-- **A file of a file system in order**, with its entry and its inode among the first ones -/
theorem bootFile_of_stored (hs : Stored special lim f files) (hfile : files.file g = some data)
    (hentry : ∀ k, f.view.Named g k → k < n ∧ f.view.nr k ≤ 32)
    (hlen : data.length < NR_DEFAULT_FILE_SECTS * SECTOR_SIZE) : BootFile f g data n := by
  obtain ⟨k, hk⟩ := hs.files g data hfile
  obtain ⟨hkn, hnr⟩ := hentry k hk.named
  have hsearch := hs.ok.search_named hk.named
  have hplaced := hs.ok.placed k hk.named.live hk.mode
  obtain ⟨hsects, -⟩ := hs.sects k hk.named.live hk.mode
  have hlast := hplaced.last
  have hdir : k < f.nrDirEntries := hk.named.live.1
  obtain ⟨-, hbound⟩ := hs.ok.dir_size
  unfold NR_DEFAULT_FILE_SECTS SECTOR_SIZE at hlen
  unfold NR_DEFAULT_FILE_SECTS at hsects
  rw [hsects] at hlast
  refine ⟨hk.hasFile hs.ok, ⟨k, hkn, hdir, ?_⟩, ?_, ?_⟩
  · rw [hs.ok.entry_key (show k < NR_DIR_ENTRIES by unfold NR_DIR_ENTRIES; omega)]
    exact hk.named.name
  · rw [hsearch]
    exact hnr
  · rw [hsearch, ← hs.ok.file_disk hk.named.live]
    have hsb : f.view.sb.nrSects = f.sb.nrSects := rfl
    omega

end

/-! ### a small disk -/

def smallSb : Super := .generate 4096

/-- `.`, the loader and the kernel -/
def smallDir : List Byte :=
  [1, 0, 0, 0, 0x2E, 0, 0, 0, 0, 0, 0, 0, 0, 0, 0, 0,
    2, 0, 0, 0, 0x68, 0x64, 0x6C, 0x64, 0x72, 0x2E, 0x62, 0x69, 0x6E, 0, 0, 0,
    3, 0, 0, 0, 0x6B, 0x65, 0x72, 0x6E, 0x65, 0x6C, 0x2E, 0x62, 0x69, 0x6E, 0, 0]

def smallInodes : Buffer :=
  let b := Inode.encode (fun _ => 0) (inodeOff 1) ⟨I_DIRECTORY, 48, 261, 2048, 0, 0⟩
  let b := Inode.encode b (inodeOff 2) ⟨I_REGULAR, 1, 2310, 2, 0, 0⟩
  Inode.encode b (inodeOff 3) ⟨I_REGULAR, 84, 2312, 2, 0, 0⟩

def smallDisk : Disk := fun t =>
  if t = 1 then smallSb.encode
  else if t = 5 then smallInodes
  else if t = 261 then fun i => smallDir.getD i 0
  else if t = 2310 then fun i => smallLoader.data.getD i 0
  else if t = 2312 then fun i => smallKernel.bytes.getD i 0
  else fun _ => 0

def smallFs : FsState where
  disk := smallDisk
  sb := smallSb
  inodeTable _ := ⟨I_DIRECTORY, 48, 261, 2048, 1, 1⟩
  fDescTable _ := ⟨0, 0, 0, none⟩
  filp _ _ := none
  rootInode := 0

def smallDrive : Drive where
  sectors t := smallDisk (t - ROOT_BASE)
  size := 0x10000
  lba := by decide

theorem smallDrive_sectors (t : Nat) : smallDrive.sectors t = smallDisk (t - ROOT_BASE) := by
  unfold smallDrive
  dsimp only

theorem smallFs_onDisk : OnDisk smallDrive smallFs where
  sectors t _ := by
    rw [smallDrive_sectors, Nat.add_sub_cancel_left]
    rfl
  fits := by decide
  super _ _ := rfl
  ok := ⟨by decide, by decide, by decide, by decide, by decide⟩
  room := by decide
  start := by decide
  size := by decide
  root := rfl
  extent := by decide
  names k hk := by
    by_cases h : k < 3
    · obtain rfl | rfl | rfl : k = 0 ∨ k = 1 ∨ k = 2 := by omega
      · exact .inl ⟨⟨[0x2E], by decide, by decide, by decide, by decide⟩, by decide⟩
      · exact .inl ⟨loaderFile, by decide⟩
      · exact .inl ⟨kernelFile, by decide⟩
    · refine .inr (funext fun i => ?_)
      show smallDisk (261 + k / 32) (k % 32 * 16 + (4 + i)) = 0
      by_cases hfirst : k < 32
      · rw [show 261 + k / 32 = 261 by omega]
        exact List.getD_eq_default _ _ (show 48 ≤ k % 32 * 16 + (4 + i) by omega)
      · rw [show 261 + k / 32 = 262 by omega]
        rfl

theorem smallFs_loader : BootFile smallFs loaderFile smallLoader.data 48 where
  file := ⟨by decide, by decide, by decide, by decide⟩
  entry := ⟨1, by decide, by decide, by decide⟩
  inode := by decide
  extent := by decide

theorem smallFs_kernel : BootFile smallFs kernelFile smallKernel.bytes 64 where
  file := by
    have hfound : searchFile smallFs kernelFile.bytes = 3 := by decide
    refine ⟨?_, ?_, ?_, ?_⟩ <;> rw [hfound]
    · decide
    · decide
    · decide
    · intro i hi
      have hlt : i < 84 := hi
      have hstart : (inodeOnDisk smallFs 3).startSect = 2312 := by decide
      rw [hstart, show 2312 + i / 512 = 2312 by omega, Nat.mod_eq_of_lt (by omega)]
      rfl
  entry := ⟨2, by decide, by decide, by decide⟩
  inode := by decide
  extent := by decide

/-- and a range of 8 MB of memory -/
theorem hd_boots_small : ∃ m' size,
    powerOn smallDrive 128 (fun _ => ⟨0, 0, 0x800000, 0, 1⟩) 1 (fun _ => 0) = some m' ∧
    MemSize (fun _ => ⟨0, 0, 0x800000, 0, 1⟩) 1 size ∧ Running smallKernel size m' ∧
    ∀ i < smallLoader.data.length, m' (0x90100 + i) = smallLoader.data.getD i 0 :=
  hd_boots smallFs_onDisk smallFs_loader (by decide) smallFs_kernel (by decide)
    smallKernel_harmless le_rfl Nat.one_pos ⟨0, by decide, rfl, by decide⟩ fun _ => 0

end Noxis.Boot.Hd
