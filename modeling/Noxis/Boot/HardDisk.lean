import Noxis.Boot.Floppy
import Noxis.Fs.Inode
import Noxis.Lib.Signed

/-!
# Booting from the hard disk: boot/hdboot.asm, and boot/hdldr.asm in real mode

Both programs look for a file in the root directory on ROOT_DEV, with an inode among the first ones,
and load it two sectors at a time.  `none` stands for an exception, or for a loop that does not end.

* `readSector`, `getInode`   the routines
* `searchDir`, `loadFile`    the loops over the entries, and over the sectors of a file
* `hdboot`, `hdldr`          the programs
* `loadFile_ok`              **a file is loaded**
-/

namespace Noxis.Boot.Hd

open Fs (Disk)

def TRANS_SECT_NR : Nat := 2
def SECT_BUF_SIZE : Nat := TRANS_SECT_NR * 512
def SUPER_BLK_SEG : Nat := 0x70
def ROOT_BASE : Nat := 0xF000

def SB_NR_IMAP_SECTS : Nat := 4 * 3
def SB_NR_SMAP_SECTS : Nat := 4 * 4
def SB_ROOT_INODE : Nat := 4 * 7
def SB_INODE_SIZE : Nat := 4 * 8
def SB_INODE_ISIZE_OFF : Nat := 4 * 9
def SB_INODE_START_OFF : Nat := 4 * 10
def SB_DIR_ENT_SIZE : Nat := 4 * 11
def SB_DIR_ENT_INODE_OFF : Nat := 4 * 12
def SB_DIR_ENT_FNAME_OFF : Nat := 4 * 13

/-! ## the machine -/

/-- a disk that serves every request, and its size in sectors -/
structure Drive where
  sectors : Disk
  size : Nat
  lba : size ≤ 2 ^ 32

/-- the bytes from a sector on -/
def Drive.bytesAt (d : Drive) (lba : Nat) : Buffer := fun i => d.sectors (lba + i / 512) (i % 512)

/-- `int 13h` with 42h in `ah`, to a place that does not cross 64 KB -/
def int13 (d : Drive) (m : Buffer) (a lba : Nat) : Option Buffer :=
  if lba + TRANS_SECT_NR ≤ d.size ∧ a % 65536 + SECT_BUF_SIZE ≤ 65536 then
    some (physCopy m a (d.bytesAt lba) 0 SECT_BUF_SIZE)
  else none

/-- a word in the segment `es` -/
def load32 (s : Pc) (es o : Nat) : Option Nat :=
  if o + 4 ≤ 2 ^ 16 then some (get32 s.mem (lin es o)) else none

/-- a word of the super block -/
def sb (s : Pc) (o : Nat) : Nat := get32 s.mem (lin SUPER_BLK_SEG o)

/-! ## the code -/

/-- `read_sector`, with `es:bx` and `lba` in the disk address packet -/
def readSector (d : Drive) (s : Pc) (es bx lba : Nat) : Option Pc :=
  (int13 d s.mem (lin es bx) lba).map fun m => { s with mem := m }

/-- `dec eax` and `mul bl`: only `al` is multiplied, and the high half stays -/
def inodePlace (size nr : Nat) : Nat :=
  let eax := (nr + 2 ^ 32 - 1) % 2 ^ 32
  eax / 2 ^ 16 * 2 ^ 16 + eax % 256 * (size % 256)

/-- `get_inode`: the first sector and the size of the file, or `none` from `err` -/
def getInode (d : Drive) (es bx : Nat) (s : Pc) (nr : Nat) : Option (Pc × Option (Nat × Nat)) :=
  let eax := inodePlace (sb s SB_INODE_SIZE) nr
  let edx := Signed.int (SECT_BUF_SIZE - sb s SB_INODE_SIZE)
  if edx < Signed.int eax then some (s.say "Error 0  ", none)
  else do
    let s ← readSector d s es bx
      ((sb s SB_NR_IMAP_SECTS + sb s SB_NR_SMAP_SECTS + ROOT_BASE + 2) % 2 ^ 32)
    let ecx ← load32 s es ((sb s SB_INODE_ISIZE_OFF + bx + eax) % 2 ^ 32)
    let start ← load32 s es ((bx + (eax + sb s SB_INODE_START_OFF)) % 2 ^ 16)
    return (s, some ((start + ROOT_BASE) % 2 ^ 32, ecx))

/-- `.str_cmp` and `.different`: where the entry with the name is, if there is one; `last bx` ends the
search before the entry at `bx` -/
def searchDir (s : Pc) (es : Nat) (name : List Byte) (last : Nat → Bool) :
    Nat → Nat → Nat → Option (Option Nat)
  | 0, _, _ => none
  | fuel + 1, bx, ecx =>
    if (cmpFilename s.mem es (name ++ [0]) ((bx + sb s SB_DIR_ENT_FNAME_OFF) % 2 ^ 16)).1 then
      some (some bx)
    else
      let bx := (bx + sb s SB_DIR_ENT_SIZE) % 2 ^ 16
      let ecx := (ecx + 2 ^ 32 - sb s SB_DIR_ENT_SIZE) % 2 ^ 32
      if ecx = 0 ∨ last bx = true then some none
      else searchDir s es name last fuel bx ecx

/-- `load_loader` and `load_kernel`; `next` moves `es:bx` behind what was read, or it is `err` -/
def loadFile (d : Drive) (next : Nat → Nat → Option (Nat × Nat)) :
    Nat → Nat → Nat → Nat → Nat → Pc → Option (Pc × Bool)
  | 0, _, _, _, _, _ => none
  | fuel + 1, lba, ecx, es, bx, s => do
    let s ← readSector d s es bx lba
    if Signed.int ecx < SECT_BUF_SIZE then some (s, true)
    else
      match next es bx with
      | none => some (s.say "Error 0  ", false)
      | some (es, bx) =>
        loadFile d next fuel ((lba + TRANS_SECT_NR) % 2 ^ 32) (ecx - SECT_BUF_SIZE) es bx s

/-- what the two programs do in their own way -/
structure Program where
  name : List Byte
  es : Nat
  bx : Nat
  last : Nat → Bool
  next : Nat → Nat → Option (Nat × Nat)
  missing : String
  done : String

/-- from the `get_inode` of `/` on -/
def Program.run (p : Program) (d : Drive) (fuel : Nat) (s : Pc) : Option Outcome := do
  let (s, root) ← getInode d p.es p.bx s (sb s SB_ROOT_INODE)
  match root with
  | none => some (.hang s)
  | some (lba, ecx) =>
    let s ← readSector d s p.es p.bx lba
    let found ← searchDir s p.es p.name p.last fuel p.bx ecx
    match found with
    | none => some (.hang (s.say p.missing))
    | some bx =>
      let nr ← load32 s p.es ((bx + sb s SB_DIR_ENT_INODE_OFF) % 2 ^ 16)
      let (s, file) ← getInode d p.es p.bx s nr
      match file with
      | none => some (.hang s)
      | some (lba, ecx) =>
        let (s, ok) ← loadFile d p.next fuel lba ecx p.es p.bx s
        some (if ok then .jump (s.say p.done) else .hang s)

/-- "hdldr.bin" -/
def loaderName : List Byte := [0x68, 0x64, 0x6C, 0x64, 0x72, 0x2E, 0x62, 0x69, 0x6E]

/-- "kernel.bin" -/
def kernelName : List Byte := [0x6B, 0x65, 0x72, 0x6E, 0x65, 0x6C, 0x2E, 0x62, 0x69, 0x6E]

/-- the search stops behind the buffer, and a carry of the address is an error -/
def loader : Program where
  name := loaderName
  es := LOADER_SEG
  bx := LOADER_OFF
  last bx := decide (SECT_BUF_SIZE ≤ bx ∧ bx < 2 ^ 15)
  next es bx := if 2 ^ 16 ≤ bx + SECT_BUF_SIZE then none else some (es, bx + SECT_BUF_SIZE)
  missing := "No LOADER"
  done := "HD Boot  "

/-- the search ends with the directory only, and a carry goes to the segment -/
def kernel : Program where
  name := kernelName
  es := KERNEL_FILE_SEG
  bx := KERNEL_FILE_OFF
  last _ := false
  next es bx :=
    if 2 ^ 16 ≤ bx + SECT_BUF_SIZE then
      some ((es + 0x1000) % 2 ^ 16, (bx + SECT_BUF_SIZE) % 2 ^ 16)
    else some (es, bx + SECT_BUF_SIZE)
  missing := "No KERNEL"
  done := "in HD LDR"

/-- hdboot.asm, from `boot_start` on; the screen is cleared first -/
def hdboot (d : Drive) (fuel : Nat) (s : Pc) : Option Outcome := do
  let s ← readSector d { s with shown := ["Booting  "] } SUPER_BLK_SEG 0 (ROOT_BASE + 1)
  loader.run d fuel s

/-- hdldr.asm, from the `get_inode` of `/` to the jump into protected mode -/
def hdldr (d : Drive) (fuel : Nat) (s : Pc) : Option Outcome := kernel.run d fuel (s.say "Loading  ")

/-! ## a request -/

section
variable {d : Drive} {s s' : Pc} {es bx lba a n i : Nat}

/-- the state behind a request -/
def load (d : Drive) (s : Pc) (a lba : Nat) : Pc :=
  { s with mem := physCopy s.mem a (d.bytesAt lba) 0 SECT_BUF_SIZE }

theorem load_mem (hi : i < 1024) : (load d s a lba).mem (a + i) = d.bytesAt lba i := by
  have h : (load d s a lba).mem (a + i) = d.bytesAt lba (0 + i) := physCopy_mem hi
  rwa [Nat.zero_add] at h

theorem load_not_mem (hi : ¬ (a ≤ i ∧ i < a + 1024)) : (load d s a lba).mem i = s.mem i :=
  physCopy_not_mem hi

theorem readSector_ok (hsize : lba + 2 ≤ d.size) (hplace : lin es bx % 65536 + 1024 ≤ 65536) :
    readSector d s es bx lba = some (load d s (lin es bx) lba) := by
  have hok : lba + TRANS_SECT_NR ≤ d.size ∧ lin es bx % 65536 + SECT_BUF_SIZE ≤ 65536 :=
    ⟨hsize, hplace⟩
  simp only [readSector, int13, if_pos hok]
  rfl

theorem load32_ok {o : Nat} (h : o + 4 ≤ 2 ^ 16) : load32 s es o = some (get32 s.mem (lin es o)) :=
  if_pos h

/-! ## loading a file -/

/-- the bytes of the first `n` pairs of sectors from `lba` on are at `a` -/
structure Loaded (d : Drive) (a lba n : Nat) (s s' : Pc) : Prop where
  data : ∀ i < n * 1024, s'.mem (a + i) = d.bytesAt lba i
  frame : ∀ i, ¬ (a ≤ i ∧ i < a + n * 1024) → s'.mem i = s.mem i
  shown : s'.shown = s.shown

theorem Loaded.none (d : Drive) (a lba : Nat) (s : Pc) : Loaded d a lba 0 s s where
  data i hi := absurd hi (by omega)
  frame _ _ := rfl
  shown := rfl

/-- one more pair -/
theorem Loaded.next (h : Loaded d a lba n s s') :
    Loaded d a lba (n + 1) s (load d s' (a + 1024 * n) (lba + 2 * n)) where
  data i hi := by
    by_cases hn : i < n * 1024
    · rw [load_not_mem (by omega)]
      exact h.data i hn
    · have hat : a + i = a + 1024 * n + (i - 1024 * n) := by omega
      rw [hat, load_mem (by omega)]
      unfold Drive.bytesAt
      rw [show lba + 2 * n + (i - 1024 * n) / 512 = lba + i / 512 by omega,
        show (i - 1024 * n) % 512 = i % 512 by omega]
  frame i hi := by
    have hlast : ¬ (a + 1024 * n ≤ i ∧ i < a + 1024 * n + 1024) :=
      fun hb => hi ⟨by omega, by omega⟩
    rw [load_not_mem hlast]
    exact h.frame i fun hb => hi ⟨hb.1, by omega⟩
  shown := h.shown

/-- where the pairs go: from `a` on, the last one is pair `n` -/
structure Course (next : Nat → Nat → Option (Nat × Nat)) (place : Nat → Nat × Nat) (a n : Nat) :
    Prop where
  lin : ∀ i ≤ n, lin (place i).1 (place i).2 = a + 1024 * i
  fits : ∀ i ≤ n, (a + 1024 * i) % 65536 + 1024 ≤ 65536
  next : ∀ i < n, next (place i).1 (place i).2 = some (place (i + 1))

/-- the request for pair `i` -/
theorem Course.read {next : Nat → Nat → Option (Nat × Nat)} {place : Nat → Nat × Nat}
    (hc : Course next place a n) (hi : i ≤ n) (hdisk : lba + 2 ≤ d.size) (s : Pc) :
    readSector d s (place i).1 (place i).2 lba = some (load d s (a + 1024 * i) lba) := by
  have hlin := hc.lin i hi
  rw [← hlin]
  apply readSector_ok hdisk
  rw [hlin]
  exact hc.fits i hi

/-- **A file is loaded**, with what is behind it up to the end of a buffer. -/
theorem loadFile_ok {next : Nat → Nat → Option (Nat × Nat)} {place : Nat → Nat × Nat} {size : Nat}
    (hc : Course next place a (size / 1024)) (hsize : size < 2 ^ 31)
    (hdisk : lba + 2 * (size / 1024) + 2 ≤ d.size) (k : Nat) (hk : k ≤ size / 1024) (fuel : Nat)
    (hfuel : k < fuel) (s₀ s : Pc) (hs : Loaded d a lba (size / 1024 - k) s₀ s) :
    ∃ s', loadFile d next fuel (lba + 2 * (size / 1024 - k)) (size - 1024 * (size / 1024 - k))
      (place (size / 1024 - k)).1 (place (size / 1024 - k)).2 s = some (s', true) ∧
      Loaded d a lba (size / 1024 + 1) s₀ s' := by
  induction k generalizing fuel s with
  | zero =>
    obtain ⟨fuel, rfl⟩ : ∃ f, fuel = f + 1 := ⟨fuel - 1, by omega⟩
    rw [Nat.sub_zero] at hs ⊢
    have hread := hc.read (le_refl (size / 1024)) hdisk s
    have hlast : Signed.int (size - 1024 * (size / 1024) : Nat) < SECT_BUF_SIZE := by
      rw [Signed.int_of_range (by omega) (by omega)]
      unfold SECT_BUF_SIZE TRANS_SECT_NR
      omega
    refine ⟨_, ?_, hs.next⟩
    simp only [loadFile, hread, Option.bind_eq_bind, Option.bind_some, if_pos hlast]
  | succ k ih =>
    obtain ⟨fuel, rfl⟩ : ∃ f, fuel = f + 1 := ⟨fuel - 1, by omega⟩
    generalize hj : size / 1024 - (k + 1) = j at hs ⊢
    have hnext : size / 1024 - k = j + 1 := by omega
    have hread : readSector d s (place j).1 (place j).2 (lba + 2 * j) =
        some (load d s (a + 1024 * j) (lba + 2 * j)) := hc.read (by omega) (by omega) s
    have hmore : ¬ Signed.int (size - 1024 * j : Nat) < SECT_BUF_SIZE := by
      rw [Signed.int_of_range (by omega) (by omega)]
      unfold SECT_BUF_SIZE TRANS_SECT_NR
      omega
    have hlba : (lba + 2 * j + TRANS_SECT_NR) % 2 ^ 32 = lba + 2 * (j + 1) := by
      have h := d.lba
      unfold TRANS_SECT_NR
      omega
    have hecx : size - 1024 * j - SECT_BUF_SIZE = size - 1024 * (j + 1) := by
      unfold SECT_BUF_SIZE TRANS_SECT_NR
      omega
    have hrest := ih (by omega) fuel (by omega) (load d s (a + 1024 * j) (lba + 2 * j))
      (by rw [hnext]; exact hs.next)
    rw [hnext] at hrest
    obtain ⟨s', hrun, hdone⟩ := hrest
    refine ⟨s', ?_, hdone⟩
    simp only [loadFile, hread, Option.bind_eq_bind, Option.bind_some, if_neg hmore,
      hc.next j (by omega), hlba, hecx]
    exact hrun

/-- up to 63 pairs go to the segment of the loader -/
theorem loader_course (hn : n ≤ 62) :
    Course loader.next (fun i => (LOADER_SEG, LOADER_OFF + 1024 * i)) 0x90100 n where
  lin i hi := by
    show LOADER_SEG * 16 + (LOADER_OFF + 1024 * i) = _
    unfold LOADER_SEG LOADER_OFF
    omega
  fits i hi := by omega
  next i hi := by
    have hbuf : SECT_BUF_SIZE = 1024 := rfl
    simp only [loader, hbuf]
    unfold LOADER_OFF
    rw [if_neg (by omega), Nat.mul_succ, Nat.add_assoc]

/-- up to 128 pairs go to the two segments of the kernel -/
theorem kernel_course (hn : n ≤ 127) :
    Course kernel.next (fun i => (KERNEL_FILE_SEG + i / 64 * 0x1000, i % 64 * 1024)) 0x70000 n where
  lin i hi := by
    show (KERNEL_FILE_SEG + i / 64 * 0x1000) * 16 + i % 64 * 1024 = _
    unfold KERNEL_FILE_SEG
    omega
  fits i hi := by omega
  next i hi := by
    have hbuf : SECT_BUF_SIZE = 1024 := rfl
    simp only [kernel, hbuf]
    unfold KERNEL_FILE_SEG
    by_cases hlast : i % 64 = 63
    · rw [if_pos (by omega)]
      simp only [Option.some.injEq, Prod.mk.injEq]
      omega
    · rw [if_neg (by omega)]
      simp only [Option.some.injEq, Prod.mk.injEq]
      omega

end

end Noxis.Boot.Hd
