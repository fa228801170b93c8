import Noxis.Boot.Fat12
import Noxis.Image.Kernel

/-!
# Booting from the floppy: boot/boot.asm, and boot/loader.asm in real mode

The boot sector loads LOADER.BIN to 9000h:0100h, and the loader loads KERNEL.BIN to 7000h:0.

* `bootAsm`, `loaderAsm`   the two programs
* `OnFloppy`               what an image of scripts/desktop_image.py says to them
* `bootAsm_ok`             **the boot sector loads the loader**
* `loaderAsm_ok`           **the loader loads the kernel**
-/

namespace Noxis.Boot

open Slice Image

def LOADER_SEG : Nat := 0x9000
def LOADER_OFF : Nat := 0x100
def KERNEL_FILE_SEG : Nat := 0x7000
def KERNEL_FILE_OFF : Nat := 0

/-- LOADER_PHY_ADDR - KERNEL_FILE_PHY_ADDR -/
def KERNEL_VALID_SPACE : Nat := 0x20000

/-- "LOADER  BIN" -/
def LoaderFileName : List Byte :=
  [0x4C, 0x4F, 0x41, 0x44, 0x45, 0x52, 0x20, 0x20, 0x42, 0x49, 0x4E]

/-- "KERNEL  BIN" -/
def KernelFileName : List Byte :=
  [0x4B, 0x45, 0x52, 0x4E, 0x45, 0x4C, 0x20, 0x20, 0x42, 0x49, 0x4E]

/-! ## the programs -/

/-- a program ends in `jmp $`, or jumps to what it has loaded -/
inductive Outcome where
  | hang (s : Pc)
  | jump (s : Pc)

/-- `add bx, [BPB_BytsPerSec]` -/
def nextSector (es bx : Nat) : Nat × Nat := (es, (bx + BPB_BytsPerSec) % 2 ^ 16)

/-- the same, and the next segment when `bx` is 0 again -/
def nextSegment (es bx : Nat) : Nat × Nat :=
  if 2 ^ 16 ≤ bx + BPB_BytsPerSec then ((es + 0x1000) % 2 ^ 16, (bx + BPB_BytsPerSec) % 2 ^ 16)
  else (es, bx + BPB_BytsPerSec)

/-- boot.asm, from `LABEL_START` on -/
def bootAsm (d : Drive) (fuel : Nat) (s : Pc) : Option Outcome := do
  let s := s.say "Booting  "
  let (s, found) ← searchRootDir d LoaderFileName LOADER_SEG LOADER_OFF RootDirSectors
    SectorNoOfRootDirectory s
  match found with
  | none => some (.hang (s.say "No LOADER"))
  | some di =>
    let di := (di &&& 0xFFE0) + 0x1A
    let cx := word s.mem (lin LOADER_SEG di)
    let s ← goonLoading d (LOADER_SEG - 0x100) nextSector fuel cx LOADER_SEG LOADER_OFF s
    some (.jump (s.say "Ready.   "))

/-- loader.asm, from the search on to the jump into protected mode; `hd` is what the request for the
first sector of the hard disk leaves at 500h -/
def loaderAsm (d : Drive) (fuel : Nat) (hd : Buffer) (s : Pc) : Option Outcome := do
  let s := s.say "Loading  "
  let (s, found) ← searchRootDir d KernelFileName KERNEL_FILE_SEG KERNEL_FILE_OFF RootDirSectors
    SectorNoOfRootDirectory s
  match found with
  | none => some (.hang (s.say "No KERNEL"))
  | some di =>
    let di := di &&& 0xFFF0
    let dwKernelSize := get32 s.mem (lin KERNEL_FILE_SEG (di + 0x1C))
    if KERNEL_VALID_SPACE < dwKernelSize then some (.hang (s.say "Too Large"))
    else do
      let cx := word s.mem (lin KERNEL_FILE_SEG (di + 0x1A))
      let s ← goonLoading d (KERNEL_FILE_SEG - 0x100) nextSegment fuel cx KERNEL_FILE_SEG
        KERNEL_FILE_OFF s
      let s := { s with mem := physCopy s.mem 0x500 hd 0 512 }
      some (.jump (s.say "Ready.   "))

/-! ## the image -/

section
variable {disk fat : List Byte} {files : List File} {f : File} {name : List Byte} {i c : Nat}

/-- what the boot files rely on -/
structure OnFloppy (disk : List Byte) (files : List File) : Prop where
  size : disk.length = 1474560
  stored : AllStored disk (fatOf disk 0) 0 2 files
  room : clusters files ≤ 2847
  count : files.length ≤ 224
  blank : ∀ i, files.length ≤ i → i < 224 → disk.getD (rootStart + i * 32) 0 = 0

/-- the script makes an image of files that fit -/
theorem floppyImage_ok {boot : List Byte} (hacc : Accepted boot) (hroom : clusters files ≤ 2847) :
    ∃ disk, floppyImage boot files = .ok disk := by
  rw [floppyImage_accepted hacc, addFiles_ok (startVolume_room hacc.1 files hroom)]
  exact ⟨_, rfl⟩

/-- **An image of the script is one that can be booted from.** -/
theorem onFloppy {boot : List Byte} (h : floppyImage boot files = .ok disk)
    (hcount : files.length ≤ 224) : OnFloppy disk files := by
  have hacc : Accepted boot := by
    by_contra hno
    obtain ⟨text, herr⟩ := floppyImage_refused hno files
    rw [herr] at h
    cases h
  rw [floppyImage_accepted hacc] at h
  have hroom : clusters files ≤ 2847 := by
    by_contra hfull
    have hs := startVolume_room hacc.1 [] (by decide)
    have hindex : 0 + 2 ≤ (startVolume floppyBpb boot).cluster := le_refl 2
    have hstart : (startVolume floppyBpb boot).cluster ≤ 2849 := show 2 ≤ 2849 by decide
    obtain ⟨text, herr⟩ := addFiles_full hs.toSized hindex hstart
      (show 2849 < 2 + clusters files by omega)
    rw [herr] at h
    cases h
  have hr := startVolume_room hacc.1 files hroom
  rw [addFiles_ok hr] at h
  obtain rfl := Except.ok.inj h
  obtain ⟨hlen, hfat, hslice⟩ := hr.sized.copyFats
  have hstored := hr.stored (by omega)
  refine ⟨hlen, ?_, hroom, hcount, fun i h1 h2 => ?_⟩
  · rw [hfat 0 (by decide)]
    exact hstored.congr hslice
  · have hroot : rootStart + i * 32 + 1 ≤ dataStart := by
      unfold rootStart dataStart
      omega
    have hblank := hr.slice_puts (n := 1) (p := rootStart + i * 32) (by omega)
      (.inr ⟨by omega, hroot.trans (Nat.le_add_right ..)⟩)
    rw [← hslice _ _ (Nat.le_add_right ..), startVolume_blank hacc.1 _ (Nat.le_add_right ..)
      (by unfold dataStart at hroot; omega)] at hblank
    have hhead := congrArg (fun l => l[0]?) hblank
    simp only [getElem?_slice] at hhead
    rw [if_pos (by decide), Nat.add_zero] at hhead
    rw [List.getD_eq_getElem?_getD, hhead]
    rfl

/-- file `j` of those that are stored -/
theorem allStored_get (h : AllStored disk fat i c files) (j : Nat) (hj : j < files.length) :
    ∃ k, Stored disk fat (i + j) k files[j] ∧ c ≤ k ∧
      k + files[j].clusters ≤ c + clusters files := by
  induction files generalizing i c j with
  | nil => exact absurd hj (Nat.not_lt_zero j)
  | cons g files ih =>
    obtain ⟨hone, hrest⟩ := h
    rw [clusters_cons]
    cases j with
    | zero =>
      refine ⟨c, hone, le_refl c, ?_⟩
      show c + g.clusters ≤ _
      omega
    | succ j =>
      have hlt : j < files.length := Nat.lt_of_succ_lt_succ hj
      obtain ⟨k, hk, h1, h2⟩ := ih hrest j hlt
      rw [Nat.add_right_comm] at hk
      refine ⟨k, hk, by omega, ?_⟩
      show k + files[j].clusters ≤ _
      omega

variable {d : Drive}

/-- a name on the disk, as the loaders compare it -/
theorem matches_disk {a : Nat} (ha : a + name.length ≤ d.disk.length) :
    Matches d.bytes a name ↔ slice d.disk a name.length = name := by
  have hbyte : ∀ k < name.length, (slice d.disk a name.length)[k]? = some (d.bytes (a + k)) := by
    intro k hk
    have hin : a + k < d.disk.length := by omega
    rw [getElem?_slice, if_pos hk, List.getElem?_eq_getElem hin]
    unfold Drive.bytes
    rw [List.getD_eq_getElem?_getD, List.getElem?_eq_getElem hin, Option.getD_some]
  constructor
  · intro h
    refine List.ext_getElem? fun k => ?_
    by_cases hk : k < name.length
    · rw [hbyte k hk, ← h k hk, List.getD_eq_getElem?_getD, List.getElem?_eq_getElem hk,
        Option.getD_some]
    · rw [getElem?_slice, if_neg hk, List.getElem?_eq_none (not_lt.mp hk)]
  · intro h k hk
    have hget := hbyte k hk
    rw [h] at hget
    rw [List.getD_eq_getElem?_getD, hget, Option.getD_some]

/-- the bytes of a slice -/
theorem bytes_of_slice {data : List Byte} {o : Nat} (h : slice d.disk o data.length = data)
    {b : Nat} (hb : b < data.length) : d.bytes (o + b) = data.getD b 0 := by
  have hget := congrArg (fun l => l[b]?) h
  simp only [getElem?_slice] at hget
  rw [if_pos hb] at hget
  unfold Drive.bytes
  rw [List.getD_eq_getElem?_getD, hget, List.getD_eq_getElem?_getD]

/-- a file and its entry -/
structure Found (d : Drive) (name : List Byte) (f : File) (i c : Nat) : Prop where
  first : First (fun i => Matches d.bytes (rootStart + i * 32) name) 0 224 (some i)
  stored : Stored d.disk (fatOf d.disk 0) i c f
  cluster : 2 ≤ c
  room : c + f.clusters ≤ 2849

/-- an entry with a name -/
theorem OnFloppy.matches_iff (h : OnFloppy d.disk files) (hname : name.length = 11)
    (hi : i < files.length) :
    Matches d.bytes (rootStart + i * 32) name ↔ files[i].name = name := by
  obtain ⟨c, hs, -⟩ := allStored_get h.stored i hi
  rw [Nat.zero_add] at hs
  have hcount := h.count
  rw [matches_disk (by rw [h.size, hname]; unfold rootStart; omega), hname, hs.name]

/-- an entry without one -/
theorem OnFloppy.not_matches (h : OnFloppy d.disk files) (hname : name.length = 11)
    (hpos : name.getD 0 0 ≠ 0) (h1 : files.length ≤ i) (h2 : i < 224) :
    ¬ Matches d.bytes (rootStart + i * 32) name := by
  intro hm
  have hzero := hm 0 (by omega)
  rw [show d.bytes (rootStart + i * 32 + 0) = 0 from h.blank i h1 h2] at hzero
  exact hpos hzero

/-- **The first file with a name is found.** -/
theorem OnFloppy.found (h : OnFloppy d.disk files) (hname : name.length = 11)
    (hf : files.find? (fun f => f.name = name) = some f) : ∃ i c, Found d name f i c := by
  obtain ⟨hp, i, hi, hget, hbefore⟩ := List.find?_eq_some_iff_getElem.mp hf
  obtain ⟨c, hs, h2, hroom⟩ := allStored_get h.stored i hi
  rw [Nat.zero_add, hget] at hs
  rw [hget] at hroom
  have hcount := h.count
  have hall := h.room
  refine ⟨i, c, ⟨Nat.zero_le i, by omega, ?_, fun k _ hk hm => ?_⟩, hs, h2, by omega⟩
  · refine (h.matches_iff hname hi).mpr ?_
    rw [hget]
    exact of_decide_eq_true hp
  · have hno := hbefore k hk
    rw [decide_eq_true ((h.matches_iff hname (by omega)).mp hm)] at hno
    cases hno

theorem OnFloppy.not_found (h : OnFloppy d.disk files) (hname : name.length = 11)
    (hpos : name.getD 0 0 ≠ 0) (hf : files.find? (fun f => f.name = name) = none) :
    First (fun i => Matches d.bytes (rootStart + i * 32) name) 0 224 none := by
  intro i _ h2
  by_cases hi : i < files.length
  · have hno := List.find?_eq_none.mp hf files[i] (List.getElem_mem hi)
    exact fun hm => hno (decide_eq_true ((h.matches_iff hname hi).mp hm))
  · exact h.not_matches hname hpos (not_lt.mp hi) h2

/-- what is loaded of a file is its data -/
theorem Found.data {buf base : Nat} {s s' : Pc} (h : Found d name f i c)
    (hc : Copied d buf base c f.clusters 0 s s') {b : Nat} (hb : b < f.data.length) :
    s'.mem (base + b) = f.data.getD b 0 := by
  rw [hc.data b (by rw [Nat.zero_mul]; exact Nat.zero_le b) (hb.trans_le f.data_le)]
  exact bytes_of_slice h.stored.data hb

end

/-! ## the entry of a file -/

section
variable {d : Drive} {files : List File} {f : File} {name : List Byte} {i c es bx o : Nat} {s s' : Pc}

/-- a byte of the entry that was found -/
theorem Searched.byte (h : Searched d (lin es bx) (some i) s s') (ho : o < 32) :
    s'.mem (lin es (bx + 32 * (i % 16) + o)) = d.bytes (rootStart + i * 32 + o) := by
  have hsector := h.sector i rfl (32 * (i % 16) + o) (by omega)
  rw [show lin es (bx + 32 * (i % 16) + o) = lin es bx + (32 * (i % 16) + o) by unfold lin; omega,
    hsector]
  congr 1
  omega

/-- the first cluster of the entry that was found -/
theorem Searched.cluster (h : Searched d (lin es bx) (some i) s s') (hf : Found d name f i c)
    (hsize : d.disk.length = 1474560) : word s'.mem (lin es (bx + 32 * (i % 16) + 26)) = c := by
  have hi : i < 224 := hf.first.2.1
  have hin : rootStart + i * 32 + 26 + 2 ≤ d.disk.length := by
    rw [hsize]
    unfold rootStart
    omega
  rw [← hf.stored.first, Packed12.ofLe_pair hin]
  unfold word
  rw [show lin es (bx + 32 * (i % 16) + 26) + 1 = lin es (bx + 32 * (i % 16) + 27) from rfl,
    h.byte (by decide), h.byte (by decide)]
  rfl

/-- the size in the entry that was found -/
theorem Searched.size (h : Searched d (lin es bx) (some i) s s') (hf : Found d name f i c)
    (hsize : d.disk.length = 1474560) :
    get32 s'.mem (lin es (bx + 32 * (i % 16) + 28)) = f.data.length := by
  have hi : i < 224 := hf.first.2.1
  have hin : rootStart + i * 32 + 28 + 4 ≤ d.disk.length := by
    rw [hsize]
    unfold rootStart
    omega
  have hword : get32 d.bytes (rootStart + i * 32 + 28) = f.data.length := by
    rw [← hf.stored.size]
    exact (fileWord_eq hin).symm
  rw [← hword, show rootStart + i * 32 + 28 = rootStart + i * 32 + 28 + 0 from rfl]
  unfold get32
  have hbyte : ∀ k < 4, s'.mem (lin es (bx + 32 * (i % 16) + 28) + k) =
      d.bytes (rootStart + i * 32 + 28 + k) := by
    intro k hk
    have hone := h.byte (o := 28 + k) (by omega)
    rw [← Nat.add_assoc, ← Nat.add_assoc] at hone
    rw [← hone]
    exact congrArg s'.mem (Nat.add_assoc ..)
  rw [hbyte 1 (by decide), hbyte 2 (by decide), hbyte 3 (by decide), ← hbyte 0 (by decide)]
  rfl

/-- the search for a file that is there -/
theorem Found.search (hf : Found d name f i c) (hsize : d.disk.length = 1474560)
    (hname : name.length = 11) (hbuf : Buffered es bx) (s : Pc) :
    ∃ s', searchRootDir d name es bx RootDirSectors SectorNoOfRootDirectory s =
      some (s', some (bx + 32 * (i % 16) + 11)) ∧ Searched d (lin es bx) (some i) s s' := by
  obtain ⟨r, s', hfirst, hrun, hdone⟩ := searchRootDir_first hsize hname hbuf 14 0 rfl s
  obtain rfl := hfirst.unique hf.first
  exact ⟨s', hrun, hdone⟩

/-! ## the boot sector -/

theorem loader_buffered : Buffered LOADER_SEG LOADER_OFF := ⟨by decide, by decide, by decide⟩

theorem kernel_buffered : Buffered KERNEL_FILE_SEG KERNEL_FILE_OFF :=
  ⟨by decide, by decide, by decide⟩

/-- up to 127 sectors go to the segment of the loader -/
theorem loader_course {n : Nat} (hn : n ≤ 127) :
    Course nextSector (fun i => (LOADER_SEG, LOADER_OFF + i * 512)) 0x90100 n where
  lin i hi := by
    show LOADER_SEG * 16 + (LOADER_OFF + i * 512) = _
    unfold LOADER_SEG LOADER_OFF
    omega
  place i hi := by omega
  next i hi := by
    show (LOADER_SEG, (LOADER_OFF + i * 512 + BPB_BytsPerSec) % 2 ^ 16) = _
    unfold LOADER_OFF BPB_BytsPerSec
    rw [Nat.mod_eq_of_lt (by omega)]
    congr 1
    omega

/-- up to 256 sectors go to the two segments of the kernel -/
theorem kernel_course {n : Nat} (hn : n ≤ 256) :
    Course nextSegment (fun i => (KERNEL_FILE_SEG + i / 128 * 0x1000, i % 128 * 512)) 0x70000 n where
  lin i hi := by
    show (KERNEL_FILE_SEG + i / 128 * 0x1000) * 16 + i % 128 * 512 = _
    unfold KERNEL_FILE_SEG
    omega
  place i hi := by omega
  next i hi := by
    unfold nextSegment BPB_BytsPerSec KERNEL_FILE_SEG
    dsimp only
    by_cases hlast : i % 128 = 127
    · rw [if_pos (by omega)]
      refine Prod.ext ?_ ?_
      · show (0x7000 + i / 128 * 0x1000 + 0x1000) % 2 ^ 16 = 0x7000 + (i + 1) / 128 * 0x1000
        omega
      · show (i % 128 * 512 + 512) % 2 ^ 16 = (i + 1) % 128 * 512
        omega
    · rw [if_neg (by omega)]
      refine Prod.ext ?_ ?_
      · show 0x7000 + i / 128 * 0x1000 = 0x7000 + (i + 1) / 128 * 0x1000
        omega
      · show i % 128 * 512 + 512 = (i + 1) % 128 * 512
        omega

/-! ## the programs run -/

variable {l k : File} {fuel b : Nat}

/-- the boot sector has loaded a file -/
structure LoaderIn (l : File) (s s' : Pc) : Prop where
  loader : ∀ b < l.data.length, s'.mem (0x90100 + b) = l.data.getD b 0
  frame : ∀ b, ¬ (0x90100 ≤ b ∧ b < 0xA0000) → ¬ (0x8F000 ≤ b ∧ b < 0x8F400) → s'.mem b = s.mem b
  shown : s'.shown = s.shown ++ "Booting  " :: (List.replicate l.clusters "." ++ ["Ready.   "])

/-- **The boot sector loads the loader.** -/
theorem bootAsm_ok (h : OnFloppy d.disk files)
    (hl : files.find? (fun f => f.name = LoaderFileName) = some l) (hsmall : l.clusters ≤ 127)
    (hfuel : l.clusters ≤ fuel) (s : Pc) :
    ∃ s', bootAsm d fuel s = some (.jump s') ∧ LoaderIn l s s' := by
  obtain ⟨i, c, hf⟩ := h.found (by decide) hl
  have hpos := l.clusters_pos
  obtain ⟨s₁, hsearch, hdone⟩ := hf.search h.size (by decide) loader_buffered (s.say "Booting  ")
  have hand : (LOADER_OFF + 32 * (i % 16) + 11) &&& 0xFFE0 = LOADER_OFF + 32 * (i % 16) := by
    unfold LOADER_OFF
    exact and_FFE0 (by omega) (by decide) (by omega)
  obtain ⟨s₂, hload, hcopied⟩ := goonLoading_ok h.size
    (loader_course hsmall) hf.stored.chain hf.cluster hf.room
    (show lin (LOADER_SEG - 0x100) 0 % 65536 + 1024 ≤ 65536 by decide) (.inl (by decide))
    (l.clusters - 1) 0 (by omega) fuel (by omega) s₁
  have hrun : goonLoading d (LOADER_SEG - 0x100) nextSector fuel c LOADER_SEG LOADER_OFF s₁ =
      some s₂ := hload
  have hcluster := hdone.cluster hf h.size
  refine ⟨s₂.say "Ready.   ", ?_, fun b hb => hf.data hcopied hb, fun b h1 h2 => ?_, ?_⟩
  · simp only [bootAsm, hsearch, Option.bind_eq_bind, Option.bind_some, hand, hcluster, hrun]
  · have hfile : ¬ (0x90100 + 0 * 512 ≤ b ∧ b < 0x90100 + l.clusters * 512) :=
      fun hb => h1 ⟨by omega, by omega⟩
    have hsector : ¬ (lin LOADER_SEG LOADER_OFF ≤ b ∧ b < lin LOADER_SEG LOADER_OFF + 512) :=
      fun hb => h1 ⟨hb.1, hb.2.trans (by decide)⟩
    show s₂.mem b = s.mem b
    rw [hcopied.frame b hfile h2, hdone.frame b hsector]
    rfl
  · show s₂.shown ++ ["Ready.   "] = _
    rw [hcopied.shown, hdone.shown]
    show s.shown ++ ["Booting  "] ++ List.replicate (l.clusters - 0) "." ++ ["Ready.   "] = _
    simp only [Nat.sub_zero, List.append_assoc, List.cons_append, List.nil_append]

/-- without a file of that name it says so -/
theorem bootAsm_missing (h : OnFloppy d.disk files)
    (hl : files.find? (fun f => f.name = LoaderFileName) = none) (s : Pc) :
    ∃ s' : Pc, bootAsm d fuel s = some (.hang (s'.say "No LOADER")) := by
  have hnone := h.not_found (by decide) (by decide) hl
  obtain ⟨r, s', hfirst, hrun, -⟩ :=
    searchRootDir_first h.size (show LoaderFileName.length = 11 from rfl) loader_buffered 14 0 rfl
      (s.say "Booting  ")
  obtain rfl := hfirst.unique hnone
  have hsearch : searchRootDir d LoaderFileName LOADER_SEG LOADER_OFF RootDirSectors
      SectorNoOfRootDirectory (s.say "Booting  ") = some (s', none) := hrun
  refine ⟨s', ?_⟩
  simp only [bootAsm, hsearch, Option.bind_eq_bind, Option.bind_some]

/-! ## the loader -/

/-- the loader has loaded a file; `hd` is in the buffer for the hard disk -/
structure KernelIn (k : File) (hd : Buffer) (s s' : Pc) : Prop where
  kernel : ∀ b < k.data.length, s'.mem (0x70000 + b) = k.data.getD b 0
  frame : ∀ b, ¬ (0x70000 ≤ b ∧ b < 0x90000) → ¬ (0x6F000 ≤ b ∧ b < 0x6F400) →
    ¬ (0x500 ≤ b ∧ b < 0x700) → s'.mem b = s.mem b
  shown : s'.shown = s.shown ++ "Loading  " :: (List.replicate k.clusters "." ++ ["Ready.   "])

/-- the search of the loader ends in the first half of an entry -/
theorem kernel_mask (i : Nat) : (KERNEL_FILE_OFF + 32 * (i % 16) + 11) &&& 0xFFF0 =
    KERNEL_FILE_OFF + 32 * (i % 16) := by
  unfold KERNEL_FILE_OFF
  exact and_FFF0 (by omega) (by decide) (by omega)

/-- **The loader loads the kernel.** -/
theorem loaderAsm_ok (h : OnFloppy d.disk files)
    (hk : files.find? (fun f => f.name = KernelFileName) = some k)
    (hsmall : k.data.length ≤ KERNEL_VALID_SPACE) (hfuel : k.clusters ≤ fuel) (hd : Buffer)
    (s : Pc) : ∃ s', loaderAsm d fuel hd s = some (.jump s') ∧ KernelIn k hd s s' := by
  obtain ⟨i, c, hf⟩ := h.found (by decide) hk
  have hpos := k.clusters_pos
  have hclusters : k.clusters ≤ 256 := by
    unfold KERNEL_VALID_SPACE at hsmall
    unfold File.clusters
    omega
  obtain ⟨s₁, hsearch, hdone⟩ := hf.search h.size (by decide) kernel_buffered (s.say "Loading  ")
  obtain ⟨s₂, hload, hcopied⟩ := goonLoading_ok h.size
    (kernel_course hclusters) hf.stored.chain hf.cluster hf.room
    (show lin (KERNEL_FILE_SEG - 0x100) 0 % 65536 + 1024 ≤ 65536 by decide) (.inl (by decide))
    (k.clusters - 1) 0 (by omega) fuel (by omega) s₁
  have hrun : goonLoading d (KERNEL_FILE_SEG - 0x100) nextSegment fuel c KERNEL_FILE_SEG
      KERNEL_FILE_OFF s₁ = some s₂ := hload
  have hcluster := hdone.cluster hf h.size
  have hsize := hdone.size hf h.size
  have hhd : ∀ b, ¬ (0x500 ≤ b ∧ b < 0x700) → physCopy s₂.mem 0x500 hd 0 512 b = s₂.mem b :=
    fun b hb => physCopy_not_mem hb
  refine ⟨(⟨physCopy s₂.mem 0x500 hd 0 512, s₂.requests, s₂.shown⟩ : Pc).say "Ready.   ", ?_,
    fun b hb => ?_, fun b h1 h2 h3 => ?_, ?_⟩
  · simp only [loaderAsm, hsearch, Option.bind_eq_bind, Option.bind_some, kernel_mask, hcluster,
      hsize, if_neg (not_lt.mpr hsmall), hrun]
  · show physCopy s₂.mem 0x500 hd 0 512 (0x70000 + b) = _
    rw [hhd _ (by omega)]
    exact hf.data hcopied hb
  · have hfile : ¬ (0x70000 + 0 * 512 ≤ b ∧ b < 0x70000 + k.clusters * 512) :=
      fun hb => h1 ⟨by omega, by omega⟩
    have hsector : ¬ (lin KERNEL_FILE_SEG KERNEL_FILE_OFF ≤ b ∧
        b < lin KERNEL_FILE_SEG KERNEL_FILE_OFF + 512) :=
      fun hb => h1 ⟨hb.1, hb.2.trans (by decide)⟩
    show physCopy s₂.mem 0x500 hd 0 512 b = s.mem b
    rw [hhd b h3, hcopied.frame b hfile h2, hdone.frame b hsector]
    rfl
  · show s₂.shown ++ ["Ready.   "] = _
    rw [hcopied.shown, hdone.shown]
    show s.shown ++ ["Loading  "] ++ List.replicate (k.clusters - 0) "." ++ ["Ready.   "] = _
    simp only [Nat.sub_zero, List.append_assoc, List.cons_append, List.nil_append]

/-- a kernel that does not fit is not loaded -/
theorem loaderAsm_tooLarge (h : OnFloppy d.disk files)
    (hk : files.find? (fun f => f.name = KernelFileName) = some k)
    (hlarge : KERNEL_VALID_SPACE < k.data.length) (hd : Buffer) (s : Pc) :
    ∃ s' : Pc, loaderAsm d fuel hd s = some (.hang (s'.say "Too Large")) := by
  obtain ⟨i, c, hf⟩ := h.found (by decide) hk
  obtain ⟨s', hsearch, hdone⟩ := hf.search h.size (by decide) kernel_buffered (s.say "Loading  ")
  have hsize := hdone.size hf h.size
  refine ⟨s', ?_⟩
  simp only [loaderAsm, hsearch, Option.bind_eq_bind, Option.bind_some, kernel_mask, hsize,
    if_pos hlarge]

theorem loaderAsm_missing (h : OnFloppy d.disk files)
    (hk : files.find? (fun f => f.name = KernelFileName) = none) (hd : Buffer) (s : Pc) :
    ∃ s' : Pc, loaderAsm d fuel hd s = some (.hang (s'.say "No KERNEL")) := by
  have hnone := h.not_found (by decide) (by decide) hk
  obtain ⟨r, s', hfirst, hrun, -⟩ :=
    searchRootDir_first h.size (show KernelFileName.length = 11 from rfl) kernel_buffered 14 0 rfl
      (s.say "Loading  ")
  obtain rfl := hfirst.unique hnone
  have hsearch : searchRootDir d KernelFileName KERNEL_FILE_SEG KERNEL_FILE_OFF RootDirSectors
      SectorNoOfRootDirectory (s.say "Loading  ") = some (s', none) := hrun
  refine ⟨s', ?_⟩
  simp only [loaderAsm, hsearch, Option.bind_eq_bind, Option.bind_some]

end

end Noxis.Boot
