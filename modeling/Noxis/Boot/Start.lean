import Noxis.Boot.Floppy
import Noxis.Lib.Paging

/-!
# boot/loader.asm in protected mode, and the start of the kernel

With the file of the kernel at 0x70000 the loader finds the size of the memory, sets up paging, puts
the segments of the kernel in their places and leaves the boot parameters, which the kernel reads.

* `startKernel`     the code, from `LABEL_PM_START` on to the jump into the kernel
* `getBootParams`   `get_boot_params` of kernel/klib.c
* `Running`         **what the kernel finds when it starts**
* `floppy_boots`    **an image of scripts/desktop_image.py boots**
-/

namespace Noxis.Boot

open Slice Image Linear Paging

def PAGE_DIR_BASE : Nat := 0x100000
def PAGE_TBL_BASE : Nat := 0x101000

/-- PG_P | PG_USU | PG_RWW -/
def PG_ATTR : Nat := 7

def BOOT_PARAM_ADDR : Nat := 0x900
def BOOT_PARAM_MAGIC : Nat := 0xB007
def BI_MAG : Nat := 0
def BI_MEM_SIZE : Nat := 1
def BI_KERNEL_FILE : Nat := 2

def ELFMAG : List Byte := [0x7F, 0x45, 0x4C, 0x46]

/-! ## boot/loader.asm -/

/-- an address range descriptor of `int 15h` -/
structure Ards where
  baseAddrLow : Nat
  baseAddrHigh : Nat
  lengthLow : Nat
  lengthHigh : Nat
  type : Nat

/-- the end of the range -/
def Ards.top (e : Ards) : Nat := (e.baseAddrLow + e.lengthLow) % 2 ^ 32

/-- the rounds of `loop`, which counts down before it looks -/
def rounds (ecx : Nat) : Nat := if ecx = 0 then 2 ^ 32 else ecx

/-- the loop of `DispMemInfo` from descriptor `i` on, with `dwMemSize` -/
def dispMemInfo (buf : Nat → Ards) : Nat → Nat → Nat → Nat
  | 0, _, size => size
  | n + 1, i, size =>
    let size :=
      if (buf i).type = 1 then if (buf i).top < size then size else (buf i).top else size
    dispMemInfo buf n (i + 1) size

/-- the tables for all of the memory -/
def setupPaging (m : Buffer) (dwMemSize : Nat) : Buffer :=
  let ecx := dwMemSize / 0x400000 + if dwMemSize % 0x400000 = 0 then 0 else 1
  let m := fill m PAGE_DIR_BASE (PAGE_TBL_BASE + PG_ATTR) (rounds ecx)
  fill m PAGE_TBL_BASE PG_ATTR (rounds (ecx * 1024 % 2 ^ 32))

/-- from `LABEL_PM_START` on; `dwMCRNumber` descriptors have been put into `buf` -/
def startKernel (buf : Nat → Ards) (dwMCRNumber : Nat) (m : Buffer) : Buffer :=
  let dwMemSize := dispMemInfo buf (rounds dwMCRNumber) 0 0
  let m := setupPaging m dwMemSize
  let m := (initKernel m).1
  let m := put32 m BOOT_PARAM_ADDR BOOT_PARAM_MAGIC
  let m := put32 m (BOOT_PARAM_ADDR + 4) dwMemSize
  put32 m (BOOT_PARAM_ADDR + 8) (KERNEL_FILE_SEG <<< 4 + KERNEL_FILE_OFF)

/-! ## kernel/klib.c -/

/-- the size of the memory and the address of the kernel file; `none` when an assertion fails -/
def getBootParams (m : Buffer) : Option (Nat × Nat) :=
  if get32 m (BOOT_PARAM_ADDR + 4 * BI_MAG) ≠ BOOT_PARAM_MAGIC then none
  else
    let memSize := get32 m (BOOT_PARAM_ADDR + 4 * BI_MEM_SIZE)
    let kernelFile := get32 m (BOOT_PARAM_ADDR + 4 * BI_KERNEL_FILE)
    if (List.range ELFMAG.length).map (fun i => m (kernelFile + i)) ≠ ELFMAG then none
    else some (memSize, kernelFile)

/-! ## the size of the memory -/

section
variable {buf : Nat → Ards} {n size : Nat}

/-- the descriptors from `i` on count, if they are of memory -/
theorem dispMemInfo_spec (buf : Nat → Ards) (n i size : Nat) :
    size ≤ dispMemInfo buf n i size ∧
    (∀ j, i ≤ j → j < i + n → (buf j).type = 1 → (buf j).top ≤ dispMemInfo buf n i size) ∧
    (dispMemInfo buf n i size = size ∨
      ∃ j, i ≤ j ∧ j < i + n ∧ (buf j).type = 1 ∧ dispMemInfo buf n i size = (buf j).top) := by
  induction n generalizing i size with
  | zero => exact ⟨Nat.le_refl _, fun j h1 h2 => absurd h2 (by omega), .inl rfl⟩
  | succ n ih =>
    rw [dispMemInfo]
    generalize hs : (if (buf i).type = 1 then if (buf i).top < size then size else (buf i).top
      else size) = s
    obtain ⟨h1, h2, h3⟩ := ih (i + 1) s
    have hle : size ≤ s := by
      rw [← hs]
      split
      · split <;> omega
      · exact Nat.le_refl _
    have htop : (buf i).type = 1 → (buf i).top ≤ s := by
      intro ht
      rw [← hs, if_pos ht]
      split <;> omega
    have hwhich : s = size ∨ (buf i).type = 1 ∧ s = (buf i).top := by
      rw [← hs]
      split
      · rename_i ht
        split
        · exact .inl rfl
        · exact .inr ⟨ht, rfl⟩
      · exact .inl rfl
    refine ⟨hle.trans h1, fun j hj1 hj2 ht => ?_, ?_⟩
    · rcases Nat.eq_or_lt_of_le hj1 with rfl | hlt
      · exact (htop ht).trans h1
      · exact h2 j hlt (by omega) ht
    · rcases h3 with h3 | ⟨j, hj1, hj2, ht, h3⟩
      · rcases hwhich with hw | ⟨ht, hw⟩
        · exact .inl (h3.trans hw)
        · exact .inr ⟨i, Nat.le_refl i, by omega, ht, h3.trans hw⟩
      · exact .inr ⟨j, by omega, by omega, ht, h3⟩

/-- `size` is the end of the memory that the first `n` descriptors tell of -/
structure MemSize (buf : Nat → Ards) (n size : Nat) : Prop where
  upper : ∀ j < n, (buf j).type = 1 → (buf j).top ≤ size
  least : ∃ j < n, (buf j).type = 1 ∧ size = (buf j).top

/-- **The size of the memory is the end of its last range.** -/
theorem dispMemInfo_memSize (hn : 0 < n) (hram : ∃ j < n, (buf j).type = 1 ∧ 0 < (buf j).top) :
    MemSize buf n (dispMemInfo buf (rounds n) 0 0) := by
  have hrounds : rounds n = n := if_neg (by omega)
  obtain ⟨-, hupper, hleast⟩ := dispMemInfo_spec buf n 0 0
  obtain ⟨j, hj, ht, hpos⟩ := hram
  rw [hrounds]
  refine ⟨fun j hj => hupper j (Nat.zero_le j) (by omega), ?_⟩
  rcases hleast with hzero | ⟨q, -, hq, hqt, htop⟩
  · have hle := hupper j (Nat.zero_le j) (by omega) ht
    omega
  · exact ⟨q, by omega, hqt, htop⟩

theorem MemSize.lt (h : MemSize buf n size) : size < 2 ^ 32 := by
  obtain ⟨j, -, -, htop⟩ := h.least
  rw [htop]
  exact Nat.mod_lt _ (Nat.two_pow_pos 32)

end

/-! ## paging -/

section
variable {m : Buffer} {size a : Nat}

/-- the number of tables -/
def tables (size : Nat) : Nat := size / 0x400000 + if size % 0x400000 = 0 then 0 else 1

theorem tables_spec (hpos : 0 < size) (hlt : size < 2 ^ 32) :
    0 < tables size ∧ tables size ≤ 1024 ∧ size ≤ tables size * 2 ^ 22 := by
  unfold tables
  split <;> omega

theorem setupPaging_eq (hpos : 0 < size) (hlt : size < 2 ^ 32) : setupPaging m size =
    fill (fill m PAGE_DIR_BASE (PAGE_TBL_BASE + PG_ATTR) (tables size)) PAGE_TBL_BASE PG_ATTR
      (tables size * 1024) := by
  obtain ⟨h0, h1, -⟩ := tables_spec hpos hlt
  have hdir : rounds (tables size) = tables size := if_neg (by omega)
  have htbl : rounds (tables size * 1024 % 2 ^ 32) = tables size * 1024 := by
    rw [Nat.mod_eq_of_lt (by omega)]
    exact if_neg (by omega)
  show fill (fill m PAGE_DIR_BASE _ (rounds (tables size))) PAGE_TBL_BASE _
    (rounds (tables size * 1024 % 2 ^ 32)) = _
  rw [hdir, htbl]

/-- the tables are behind the first megabyte -/
theorem setupPaging_low (hpos : 0 < size) (hlt : size < 2 ^ 32) (ha : a < PAGE_DIR_BASE) :
    setupPaging m size a = m a := by
  obtain ⟨-, h1, -⟩ := tables_spec hpos hlt
  rw [setupPaging_eq hpos hlt]
  unfold PAGE_DIR_BASE at ha ⊢
  unfold PAGE_TBL_BASE
  rw [fill_not_mem (by omega) (by omega), fill_not_mem (by omega) (by omega)]

/-- **Every address of the memory, and of the first 4 MB, is mapped to itself.** -/
theorem setupPaging_identity {m' : Buffer} (hpos : 0 < size) (hlt : size < 2 ^ 32)
    (hm : ∀ b, PAGE_DIR_BASE ≤ b → m' b = setupPaging m size b) (ha : a < size ∨ a < 2 ^ 22) :
    walk m' PAGE_DIR_BASE a = some a := by
  obtain ⟨h0, h1, h2⟩ := tables_spec hpos hlt
  rw [setupPaging_eq hpos hlt] at hm
  have hd : Filled (fill m PAGE_DIR_BASE (PAGE_TBL_BASE + PG_ATTR) (tables size)) PAGE_DIR_BASE
      (PAGE_TBL_BASE + PG_ATTR) (tables size) := by
    unfold PAGE_DIR_BASE PAGE_TBL_BASE PG_ATTR
    exact fill_filled (by omega) (by omega)
  have ht : Filled (fill (fill m PAGE_DIR_BASE (PAGE_TBL_BASE + PG_ATTR) (tables size)) PAGE_TBL_BASE
      PG_ATTR (tables size * 1024)) PAGE_TBL_BASE PG_ATTR (tables size * 1024) := by
    unfold PAGE_TBL_BASE PG_ATTR
    exact fill_filled (by omega) (by omega)
  refine walk_identity (show PG_ATTR % 2 = 1 by decide) (by decide)
    (show PAGE_TBL_BASE % 4096 = 0 by decide) (hd.congr fun b h3 h4 => ?_)
    (ht.congr fun b h3 _ => ?_) (by omega)
  · rw [hm b h3]
    unfold PAGE_DIR_BASE at h4
    unfold PAGE_TBL_BASE
    exact fill_not_mem (by omega) (by omega)
  · exact hm b (by unfold PAGE_DIR_BASE; unfold PAGE_TBL_BASE at h3; omega)

end

/-! ## the segments -/

section
variable {k : Kernel} {m : Buffer} {a i n : Nat}

/-- header `j` has bytes for address `a` -/
def Covers (k : Kernel) (j a : Nat) : Prop :=
  (k.phdr j).kind ≠ 0 ∧ (k.phdr j).addr ≤ a ∧ a < (k.phdr j).addr + (k.phdr j).filesz

/-- the byte of header `j` for address `a` -/
def byteOf (k : Kernel) (j a : Nat) : Byte :=
  k.bytes.getD ((k.phdr j).offset + (a - (k.phdr j).addr)) 0

/-- behind the headers from `i` on: the last header that has bytes for an address wins -/
structure Placed (k : Kernel) (i : Nat) (m m' : Buffer) : Prop where
  staged : Staged k.bytes m'
  high : ∀ a, KERNEL_FILE_PHY_ADDR ≤ a → m' a = m a
  none : ∀ a, (∀ j, i ≤ j → j < k.phnum → ¬ Covers k j a) → m' a = m a
  last : ∀ a j, i ≤ j → j < k.phnum → Covers k j a →
    (∀ q, j < q → q < k.phnum → ¬ Covers k q a) → m' a = byteOf k j a

/-- the copy of one segment -/
theorem copy_segment (hs : Staged k.bytes m) (hfits : (k.phdr i).Fits k.bytes.length)
    (ho : (k.phdr i).offset < 2 ^ 32) (a : Nat) :
    Linear.copy m (k.phdr i).addr (((k.phdr i).offset + KERNEL_FILE_PHY_ADDR) % 2 ^ 32)
        (k.phdr i).filesz a =
      if (k.phdr i).addr ≤ a ∧ a < (k.phdr i).addr + (k.phdr i).filesz then byteOf k i a else m a := by
  have hsmall := k.small
  rcases hfits with hz | ⟨hfile, hplace⟩
  · rw [hz, if_neg (by omega)]
    rfl
  · unfold KERNEL_FILE_PHY_ADDR at hplace ⊢
    rcases Nat.eq_zero_or_pos (k.phdr i).filesz with hz | hpos
    · rw [hz, if_neg (by omega)]
      rfl
    · rw [Nat.mod_eq_of_lt (by omega), copy_eq (by omega) (by omega) (by omega)]
      unfold physCopy
      by_cases hin : (k.phdr i).addr ≤ a ∧ a < (k.phdr i).addr + (k.phdr i).filesz
      · rw [if_pos hin, if_pos hin]
        have hbyte := hs ((k.phdr i).offset + (a - (k.phdr i).addr)) (by omega)
        unfold KERNEL_FILE_PHY_ADDR at hbyte
        rw [← Nat.add_assoc, Nat.add_comm 0x70000] at hbyte
        exact hbyte
      · rw [if_neg hin, if_neg hin]

/-- **The loop puts every segment in its place.** -/
theorem initLoop_placed (k : Kernel) (hfits : ∀ j < k.phnum, (k.phdr j).kind ≠ 0 →
    (k.phdr j).Fits k.bytes.length) (n i : Nat) (hn : i + n = k.phnum) (m : Buffer)
    (hs : Staged k.bytes m) : Placed k i m (initLoop n (k.row i) m).1 := by
  induction n generalizing i m with
  | zero =>
    exact ⟨hs, fun _ _ => rfl, fun _ _ => rfl, fun a j h1 h2 => absurd h2 (by omega)⟩
  | succ n ih =>
    have hi : i < k.phnum := by omega
    have hrow := Kernel.row_le hi
    have hkind : Image.load m (k.row i) = (k.phdr i).kind := hs.row hi (show 0 + 4 ≤ 32 by decide)
    rw [initLoop, hkind, Kernel.row_succ hi]
    by_cases h0 : (k.phdr i).kind = 0
    · rw [if_pos h0]
      have hrest := ih (i + 1) (by omega) m hs
      have hno : ∀ a, ¬ Covers k i a := fun a hc => hc.1 h0
      refine ⟨hrest.staged, hrest.high, fun a ha => hrest.none a fun j h1 => ha j (by omega),
        fun a j h1 h2 hc hlast => ?_⟩
      rcases Nat.eq_or_lt_of_le h1 with rfl | hlt
      · exact absurd hc (hno a)
      · exact hrest.last a j hlt h2 hc hlast
    · rw [if_neg h0, hs.row hi (show 16 + 4 ≤ 32 by decide), hs.row hi (show 4 + 4 ≤ 32 by decide),
        hs.row hi (show 8 + 4 ≤ 32 by decide)]
      have hfit := hfits i hi h0
      have ho : (k.phdr i).offset < 2 ^ 32 := fileWord_lt (by omega)
      have hcopy := copy_segment hs hfit ho
      have hput : Staged k.bytes (Linear.copy m (k.phdr i).addr
          (((k.phdr i).offset + KERNEL_FILE_PHY_ADDR) % 2 ^ 32) (k.phdr i).filesz) :=
        hs.copy (hfit.imp id And.right)
      have hrest := ih (i + 1) (by omega) _ hput
      have hthis : ∀ a, ¬ Covers k i a → Linear.copy m (k.phdr i).addr
          (((k.phdr i).offset + KERNEL_FILE_PHY_ADDR) % 2 ^ 32) (k.phdr i).filesz a = m a := by
        intro a ha
        rw [hcopy a, if_neg fun hin => ha ⟨h0, hin⟩]
      have hhigh : ∀ a, KERNEL_FILE_PHY_ADDR ≤ a → ¬ Covers k i a := by
        intro a ha hc
        obtain ⟨-, h1, h2⟩ := hc
        rcases hfit with hz | ⟨-, hle⟩ <;> omega
      refine ⟨hrest.staged, fun a ha => ?_, fun a ha => ?_, fun a j h1 h2 hc hlast => ?_⟩
      · exact (hrest.high a ha).trans (hthis a (hhigh a ha))
      · exact (hrest.none a fun j h1 => ha j (by omega)).trans (hthis a (ha i (le_refl i) hi))
      · rcases Nat.eq_or_lt_of_le h1 with rfl | hlt
        · refine (hrest.none a fun q h3 => hlast q h3).trans ?_
          rw [hcopy a, if_pos hc.2]
        · exact hrest.last a j hlt h2 hc hlast

/-- a whole run goes over all headers -/
theorem initKernel_placed (hs : Staged k.bytes m) (hh : k.Harmless) :
    Placed k 0 m (initKernel m).1 := by
  have hsmall := k.small
  have hheader := k.checks.header
  have htable := k.checks.table
  have hnum : Image.load m (KERNEL_FILE_PHY_ADDR + 0x2C) % 2 ^ 16 = k.phnum := by
    rw [hs.load hsmall (by omega)]
    exact fileWord_mod (by omega)
  have hesi : (Image.load m (KERNEL_FILE_PHY_ADDR + 0x1C) + KERNEL_FILE_PHY_ADDR) % 2 ^ 32 =
      k.row 0 := by
    have hload : Image.load m (KERNEL_FILE_PHY_ADDR + 0x1C) = k.phoff := hs.load hsmall (by omega)
    rw [hload]
    unfold Kernel.row KERNEL_FILE_PHY_ADDR
    omega
  have hrun : (initKernel m).1 = (initLoop k.phnum (k.row 0) m).1 := by
    unfold initKernel
    simp only [hnum, hesi, if_neg k.checks.phnum]
  rw [hrun]
  refine initLoop_placed k (fun j hj h0 => ?_) k.phnum 0 (Nat.zero_add _) m hs
  by_cases h1 : (k.phdr j).kind = 1
  · exact k.fits_of_segment hj h1
  · exact hh j hj h0 h1

/-- an accepted kernel is an ELF file -/
theorem kernel_magic (k : Kernel) {j : Nat} (hj : j < 4) : k.bytes.getD j 0 = ELFMAG.getD j 0 := by
  have h := k.checked
  unfold checkKernel at h
  split at h
  · cases h
  · rename_i hhead
    have hslice : slice k.bytes 0 6 = [0x7F, 0x45, 0x4C, 0x46, 1, 1] :=
      Classical.byContradiction fun hno => hhead (.inr hno)
    have hget := congrArg (fun l => l[j]?) hslice
    simp only [getElem?_slice] at hget
    rw [if_pos (by omega), Nat.zero_add] at hget
    rw [List.getD_eq_getElem?_getD, hget]
    obtain rfl | rfl | rfl | rfl : j = 0 ∨ j = 1 ∨ j = 2 ∨ j = 3 := by omega
    all_goals rfl

/-! ## the kernel starts -/

/-- what the kernel finds when it starts -/
structure Running (k : Kernel) (size : Nat) (m : Buffer) : Prop where
  segments : ∀ a j, j < k.phnum → Covers k j a →
    (∀ q, j < q → q < k.phnum → ¬ Covers k q a) → ¬ (0x900 ≤ a ∧ a < 0x90C) → m a = byteOf k j a
  params : getBootParams m = some (size, KERNEL_FILE_PHY_ADDR)
  file : Staged k.bytes m
  paging : ∀ a, a < size ∨ a < 2 ^ 22 → walk m PAGE_DIR_BASE a = some a

/-- the memory with the boot parameters -/
def putParams (m : Buffer) (size : Nat) : Buffer :=
  put32 (put32 (put32 m BOOT_PARAM_ADDR BOOT_PARAM_MAGIC) (BOOT_PARAM_ADDR + 4) size)
    (BOOT_PARAM_ADDR + 8) KERNEL_FILE_PHY_ADDR

theorem putParams_not_mem {size : Nat} (h : ¬ (0x900 ≤ a ∧ a < 0x90C)) :
    putParams m size a = m a := by
  unfold putParams BOOT_PARAM_ADDR
  rw [put32_not_mem (by omega), put32_not_mem (by omega), put32_not_mem (by omega)]

/-- **The kernel reads what the loader has left.** -/
theorem getBootParams_put {size : Nat} (hlt : size < 2 ^ 32) (hs : Staged k.bytes m) :
    getBootParams (putParams m size) = some (size, KERNEL_FILE_PHY_ADDR) := by
  have hheader := k.checks.header
  have hmag : get32 (putParams m size) (BOOT_PARAM_ADDR + 4 * BI_MAG) = BOOT_PARAM_MAGIC := by
    unfold putParams
    rw [get32_put32_ne (by decide), get32_put32_ne (by decide)]
    exact get32_put32_of_lt (by decide)
  have hsize : get32 (putParams m size) (BOOT_PARAM_ADDR + 4 * BI_MEM_SIZE) = size := by
    unfold putParams
    rw [get32_put32_ne (by decide)]
    exact get32_put32_of_lt hlt
  have hfile : get32 (putParams m size) (BOOT_PARAM_ADDR + 4 * BI_KERNEL_FILE) =
      KERNEL_FILE_PHY_ADDR := get32_put32_of_lt (by decide)
  have helf : (List.range ELFMAG.length).map (fun i => putParams m size (KERNEL_FILE_PHY_ADDR + i)) =
      ELFMAG := by
    have hbyte : ∀ j < 4, putParams m size (KERNEL_FILE_PHY_ADDR + j) = ELFMAG.getD j 0 := by
      intro j hj
      rw [putParams_not_mem (by unfold KERNEL_FILE_PHY_ADDR; omega), hs j (by omega),
        kernel_magic k hj]
    show [putParams m size (KERNEL_FILE_PHY_ADDR + 0), putParams m size (KERNEL_FILE_PHY_ADDR + 1),
      putParams m size (KERNEL_FILE_PHY_ADDR + 2), putParams m size (KERNEL_FILE_PHY_ADDR + 3)] = _
    rw [hbyte 0 (by decide), hbyte 1 (by decide), hbyte 2 (by decide), hbyte 3 (by decide)]
    rfl
  unfold getBootParams
  simp only [hmag, hsize, hfile, helf, ne_eq, not_true_eq_false, if_false]

variable {buf : Nat → Ards}

/-- **In protected mode the loader starts the kernel**, and leaves its own place alone. -/
theorem startKernel_ok (hs : Staged k.bytes m) (hh : k.Harmless) (hn : 0 < n)
    (hram : ∃ j < n, (buf j).type = 1 ∧ 0 < (buf j).top) :
    ∃ size, MemSize buf n size ∧ Running k size (startKernel buf n m) ∧
      ∀ a, 0x90000 ≤ a → a < PAGE_DIR_BASE → startKernel buf n m a = m a := by
  have hsize := dispMemInfo_memSize hn hram
  generalize hget : dispMemInfo buf (rounds n) 0 0 = size at hsize
  have hpos : 0 < size := by
    obtain ⟨j, hj, ht, hpos⟩ := hram
    exact hpos.trans_le (hsize.upper j hj ht)
  have hlow : ∀ a, a < PAGE_DIR_BASE → setupPaging m size a = m a :=
    fun a ha => setupPaging_low hpos hsize.lt ha
  have hsmall := k.small
  have hstaged : Staged k.bytes (setupPaging m size) := by
    intro i hi
    rw [hlow _ (by unfold KERNEL_FILE_PHY_ADDR PAGE_DIR_BASE; omega)]
    exact hs i hi
  have hplaced := initKernel_placed hstaged hh
  have hrun : startKernel buf n m = putParams (initKernel (setupPaging m size)).1 size := by
    unfold startKernel
    rw [hget]
    rfl
  rw [hrun]
  refine ⟨size, hsize, ⟨fun a j hj hc hlast hp => ?_, getBootParams_put hsize.lt hplaced.staged,
    fun i hi => ?_, fun a ha => ?_⟩, fun a h1 h2 => ?_⟩
  · rw [putParams_not_mem hp]
    exact hplaced.last a j (Nat.zero_le j) hj hc hlast
  · rw [putParams_not_mem (by unfold KERNEL_FILE_PHY_ADDR; omega)]
    exact hplaced.staged i hi
  · refine setupPaging_identity (m := m) hpos hsize.lt (fun b hb => ?_) ha
    rw [putParams_not_mem (by unfold PAGE_DIR_BASE at hb; omega)]
    exact hplaced.high b (by unfold PAGE_DIR_BASE at hb; unfold KERNEL_FILE_PHY_ADDR; omega)
  · rw [putParams_not_mem (by omega), hplaced.high a (by unfold KERNEL_FILE_PHY_ADDR; omega)]
    exact hlow a h2

end

/-! ## from power on to the kernel -/

/-- the boot sector, the loader in real mode, and the loader in protected mode; `none` when one of
them hangs -/
def powerOn (d : Drive) (fuel : Nat) (hd : Buffer) (buf : Nat → Ards) (n : Nat) (m : Buffer) :
    Option Buffer :=
  match bootAsm d fuel ⟨m, 0, []⟩ with
  | some (.jump s) =>
    match loaderAsm d fuel hd s with
    | some (.jump s) => some (startKernel buf n s.mem)
    | _ => none
  | _ => none

/-- **An image of the script boots.**  With LOADER.BIN and KERNEL.BIN among its files, the segments of
the kernel are in their places, its file is where it looks for it, paging is on and maps the memory to
itself, and the loader has not been written over; whatever is in the memory before, and however often
the drive fails. -/
theorem floppy_boots {boot disk : List Byte} {files : List File} {l f : File} {k : Kernel}
    (himage : floppyImage boot files = .ok disk) (hcount : files.length ≤ 224)
    (hl : files.find? (fun f => f.name = LoaderFileName) = some l) (hlsmall : l.clusters ≤ 127)
    (hf : files.find? (fun f => f.name = KernelFileName) = some f) (hk : f.data = k.bytes)
    (hh : k.Harmless) (d : Drive) (hd : d.disk = disk) (fuel : Nat)
    (hfuel : l.clusters ≤ fuel ∧ f.clusters ≤ fuel) (hdd : Buffer) (buf : Nat → Ards) (n : Nat)
    (hn : 0 < n) (hram : ∃ j < n, (buf j).type = 1 ∧ 0 < (buf j).top) (m : Buffer) :
    ∃ m' size, powerOn d fuel hdd buf n m = some m' ∧ MemSize buf n size ∧ Running k size m' ∧
      ∀ b < l.data.length, m' (0x90100 + b) = l.data.getD b 0 := by
  subst hd
  have hfloppy := onFloppy himage hcount
  obtain ⟨s, hboot, hloader⟩ := bootAsm_ok hfloppy hl hlsmall hfuel.1 ⟨m, 0, []⟩
  have hksmall : f.data.length ≤ KERNEL_VALID_SPACE := by
    rw [hk]
    exact k.small
  obtain ⟨s', hload, hkernel⟩ := loaderAsm_ok hfloppy hf hksmall hfuel.2 hdd s
  have hstaged : Staged k.bytes s'.mem := by
    rw [← hk]
    exact hkernel.kernel
  obtain ⟨size, hsize, hrun, hkeep⟩ := startKernel_ok hstaged hh hn hram
  refine ⟨startKernel buf n s'.mem, size, ?_, hsize, hrun, fun b hb => ?_⟩
  · simp only [powerOn, hboot, hload]
  · have hle : l.data.length ≤ l.clusters * 512 := l.data_le
    have hin : b < 0xFF00 := by omega
    rw [hkeep _ (by omega) (by unfold PAGE_DIR_BASE; omega),
      hkernel.frame _ (by omega) (by omega) (by omega)]
    exact hloader.loader b hb

/-! ### a small loader and a small kernel -/

def smallLoader : File where
  name := LoaderFileName
  data := [0xFA]
  name_length := rfl
  name_used := by decide
  data_pos := Nat.one_pos

/-- a kernel with one segment: its first four bytes go to 0x1000 -/
def smallKernel : Kernel where
  bytes := [0x7F, 0x45, 0x4C, 0x46, 1, 1, 1, 0, 0, 0, 0, 0, 0, 0, 0, 0, 2, 0, 3, 0, 1, 0, 0, 0,
      0, 0x10, 0, 0, 52, 0, 0, 0, 0, 0, 0, 0, 0, 0, 0, 0, 52, 0, 32, 0, 1, 0, 0, 0, 0, 0, 0, 0] ++
    [1, 0, 0, 0, 0, 0, 0, 0, 0, 0x10, 0, 0, 0, 0x10, 0, 0, 4, 0, 0, 0, 4, 0, 0, 0, 5, 0, 0, 0, 4, 0,
      0, 0]
  checked := rfl
  small := by decide

def smallKernelFile : File where
  name := KernelFileName
  data := smallKernel.bytes
  name_length := rfl
  name_used := by decide
  data_pos := by decide

theorem smallKernel_harmless : smallKernel.Harmless := by
  intro i hi _ h1
  have hone : smallKernel.phnum = 1 := by decide
  obtain rfl : i = 0 := by omega
  exact absurd (by decide) h1

/-- the drive fails once, and a range of 8 MB of memory -/
theorem floppy_boots_small : ∃ disk m' size,
    floppyImage someBoot [smallLoader, smallKernelFile] = .ok disk ∧
    powerOn ⟨disk, fun i => if i = 0 then [fun _ => 0xFF] else []⟩ 1 (fun _ => 0)
      (fun _ => ⟨0, 0, 0x800000, 0, 1⟩) 1 (fun _ => 0) = some m' ∧
    MemSize (fun _ => ⟨0, 0, 0x800000, 0, 1⟩) 1 size ∧ Running smallKernel size m' ∧
    ∀ b < smallLoader.data.length, m' (0x90100 + b) = smallLoader.data.getD b 0 := by
  have hroom : clusters [smallLoader, smallKernelFile] ≤ 2847 := by decide
  obtain ⟨disk, himage⟩ := floppyImage_ok someBoot_accepted hroom
  obtain ⟨m', size, h⟩ := floppy_boots himage (by decide) (l := smallLoader) (f := smallKernelFile)
    (k := smallKernel) rfl (by decide) rfl rfl smallKernel_harmless
    ⟨disk, fun i => if i = 0 then [fun _ => 0xFF] else []⟩ rfl 1 (by decide) (fun _ => 0)
    (fun _ => ⟨0, 0, 0x800000, 0, 1⟩) 1 (by decide) ⟨0, by decide, rfl, by decide⟩ (fun _ => 0)
  exact ⟨disk, m', size, himage, h⟩

end Noxis.Boot
