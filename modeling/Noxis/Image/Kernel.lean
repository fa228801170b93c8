import Noxis.Lib.Linear
import Noxis.Image.Floppy

/-!
# The kernel, as the image builder checks it and as the loader loads it

`check_kernel` of scripts/desktop_image.py looks at the program headers of kernel.bin.  `InitKernel`
of boot/loader.asm copies what they say, from the file at 0x70000.

* `checkKernel`, `initKernel`   the two, and what the second one reads and writes
* `Kernel.Confined`             it reads only the file, and writes only below it
* `confined_iff`                **when an accepted kernel is so**: the check looks at the headers of
                                type `PT_LOAD`, the loader copies all but those of type 0
-/

namespace Noxis.Image

open Slice Linear

def KERNEL_FILE_PHY_ADDR : Nat := 0x70000

/-! ## scripts/desktop_image.py -/

/-- what is unpacked of a program header -/
structure Phdr where
  kind : Nat
  offset : Nat
  addr : Nat
  filesz : Nat
  memsz : Nat

/-- a number of four bytes -/
def fileWord (l : List Byte) (o : Nat) : Nat := ofLe (slice l o 4)

/-- `struct.unpack_from("<8I", kernel, o)`, without what is not used -/
def unpackPhdr (l : List Byte) (o : Nat) : Py Phdr :=
  if o + 32 ≤ l.length then
    .ok ⟨fileWord l o, fileWord l (o + 4), fileWord l (o + 8), fileWord l (o + 16), fileWord l (o + 20)⟩
  else .error .structError

/-- the loop over the headers, with `n` of them left -/
def checkLoop (kernel : List Byte) (phoff phsize : Nat) : Nat → Nat → Py Unit
  | 0, _ => .ok ()
  | n + 1, index => do
    let h ← unpackPhdr kernel (phoff + index * phsize)
    if h.kind = 1 ∧ (h.offset + h.filesz > kernel.length ∨ h.filesz > h.memsz ∨
        h.addr + h.memsz > 0x70000) then
      throw (.valueError "kernel segments overlap the loader's ELF at 0x70000")
    else checkLoop kernel phoff phsize n (index + 1)

def checkKernel (kernel : List Byte) : Py Unit := do
  if kernel.length < 52 ∨ slice kernel 0 6 ≠ [0x7F, 0x45, 0x4C, 0x46, 1, 1] then
    throw (.valueError "kernel.bin must be a little-endian ELF32 executable")
  else
    let phoff ← unpackFrom kernel 28 4
    let phsize ← unpackFrom kernel 42 2
    let phnum ← unpackFrom kernel 44 2
    if phsize ≠ 32 ∨ phnum = 0 ∨ phoff + phsize * phnum > kernel.length then
      throw (.valueError "invalid ELF program headers")
    else checkLoop kernel phoff phsize phnum 0

/-! ## boot/loader.asm -/

/-- `n` bytes from an address on -/
inductive Access where
  | read (a n : Nat)
  | write (a n : Nat)

/-- a double word at a 32-bit address -/
def load (m : Buffer) (a : Nat) : Nat := get32 (fun i => m (i % 2 ^ 32)) a

/-- the loop of `InitKernel`, with `ecx` rounds left -/
def initLoop : Nat → Nat → Buffer → Buffer × List Access
  | 0, _, m => (m, [])
  | ecx + 1, esi, m =>
    if load m esi = 0 then
      let r := initLoop ecx ((esi + 0x20) % 2 ^ 32) m
      (r.1, .read esi 4 :: r.2)
    else
      let size := load m (esi + 0x10)
      let src := (load m (esi + 4) + KERNEL_FILE_PHY_ADDR) % 2 ^ 32
      let dst := load m (esi + 8)
      let r := initLoop ecx ((esi + 0x20) % 2 ^ 32) (copy m dst src size)
      (r.1, [.read esi 4, .read (esi + 0x10) 4, .read (esi + 4) 4, .read (esi + 8) 4,
        .read src size, .write dst size] ++ r.2)

/-- `ecx` and `esi` before the loop; `dec` and `jnz` make 2^32 rounds of 0 -/
def initKernel (m : Buffer) : Buffer × List Access :=
  let ecx := load m (KERNEL_FILE_PHY_ADDR + 0x2C) % 2 ^ 16
  let esi := (load m (KERNEL_FILE_PHY_ADDR + 0x1C) + KERNEL_FILE_PHY_ADDR) % 2 ^ 32
  let r := initLoop (if ecx = 0 then 2 ^ 32 else ecx) esi m
  (r.1, [.read (KERNEL_FILE_PHY_ADDR + 0x2C) 2, .read (KERNEL_FILE_PHY_ADDR + 0x1C) 4] ++ r.2)

/-! ## what the loader may touch -/

/-- a kernel that the builder puts on an image -/
structure Kernel where
  bytes : List Byte
  checked : checkKernel bytes = .ok ()
  small : bytes.length ≤ 0x20000

/-- the file is at 0x70000 -/
def Staged (kernel : List Byte) (m : Buffer) : Prop :=
  ∀ i < kernel.length, m (KERNEL_FILE_PHY_ADDR + i) = kernel.getD i 0

/-- what is read is in the file, what is written is below it -/
def Access.Inside (len : Nat) : Access → Prop
  | .read a n => Within KERNEL_FILE_PHY_ADDR (KERNEL_FILE_PHY_ADDR + len) a n
  | .write a n => Within 0 KERNEL_FILE_PHY_ADDR a n

/-- **The property.** -/
def Kernel.Confined (k : Kernel) : Prop :=
  ∀ m, Staged k.bytes m → ∀ a ∈ (initKernel m).2, a.Inside k.bytes.length

def Kernel.phoff (k : Kernel) : Nat := fileWord k.bytes 28
def Kernel.phnum (k : Kernel) : Nat := ofLe (slice k.bytes 44 2)

/-- program header `i` -/
def Kernel.phdr (k : Kernel) (i : Nat) : Phdr :=
  let o := k.phoff + i * 32
  ⟨fileWord k.bytes o, fileWord k.bytes (o + 4), fileWord k.bytes (o + 8), fileWord k.bytes (o + 16),
    fileWord k.bytes (o + 20)⟩

/-- nothing is copied, or bytes of the file to a place below it -/
def Phdr.Fits (len : Nat) (h : Phdr) : Prop :=
  h.filesz = 0 ∨ h.offset + h.filesz ≤ len ∧ h.addr + h.filesz ≤ KERNEL_FILE_PHY_ADDR

section
variable {l kernel : List Byte} {m : Buffer} {o n i phoff phsize index : Nat}

/-! ## what the check has seen -/

theorem ofLe_slice_succ (h : o < l.length) :
    ofLe (slice l o (n + 1)) = (l.getD o 0).toNat + 256 * ofLe (slice l (o + 1) n) := by
  have hget : l.getD o 0 = l[o] := by
    rw [List.getD_eq_getElem?_getD, List.getElem?_eq_getElem h, Option.getD_some]
  unfold slice
  rw [List.drop_eq_getElem_cons h, List.take_succ_cons, ofLe, hget]

theorem ofLe_slice_zero : ofLe (slice l o 0) = 0 := rfl

/-- a number of the file, as the loader reads it -/
theorem fileWord_eq (h : o + 4 ≤ l.length) : fileWord l o = get32 (fun i => l.getD i 0) o := by
  unfold fileWord get32
  rw [ofLe_slice_succ (by omega), ofLe_slice_succ (by omega), ofLe_slice_succ (by omega),
    ofLe_slice_succ (by omega), ofLe_slice_zero]
  rfl

/-- a step of the script that did not raise -/
theorem bind_eq_ok {α β : Type} {x : Py α} {f : α → Py β} {b : β} :
    (x >>= f) = .ok b ↔ ∃ a, x = .ok a ∧ f a = .ok b := by
  cases x with
  | error e => exact ⟨nofun, fun ⟨_, h, _⟩ => nomatch h⟩
  | ok a => exact ⟨fun h => ⟨a, rfl, h⟩, fun ⟨_, h, hf⟩ => (Except.ok.inj h) ▸ hf⟩

theorem unpackFrom_ok {w : Nat} (h : unpackFrom l o n = .ok w) : w = ofLe (slice l o n) := by
  unfold unpackFrom at h
  split at h
  · exact (Except.ok.inj h).symm
  · cases h

/-- what the loop demands of a header -/
theorem checkLoop_ok (h : checkLoop kernel phoff phsize n index = .ok ()) :
    ∀ i, index ≤ i → i < index + n → ∃ p, unpackPhdr kernel (phoff + i * phsize) = .ok p ∧
      (p.kind = 1 → p.offset + p.filesz ≤ kernel.length ∧ p.filesz ≤ p.memsz ∧
        p.addr + p.memsz ≤ 0x70000) := by
  induction n generalizing index with
  | zero => exact fun i h1 h2 => absurd h2 (by omega)
  | succ n ih =>
    rw [checkLoop] at h
    obtain ⟨p, hp, hrest⟩ := bind_eq_ok.mp h
    split at hrest
    · cases hrest
    · rename_i hbad
      intro i h1 h2
      rcases Nat.eq_or_lt_of_le h1 with rfl | hlt
      · refine ⟨p, hp, fun hk => ?_⟩
        by_contra hno
        exact hbad ⟨hk, by omega⟩
      · exact ih hrest i hlt (by omega)

/-- **What the builder has checked.** -/
structure Kernel.Checks (k : Kernel) : Prop where
  header : 52 ≤ k.bytes.length
  phnum : k.phnum ≠ 0
  table : k.phoff + 32 * k.phnum ≤ k.bytes.length
  segs : ∀ i < k.phnum, (k.phdr i).kind = 1 →
    (k.phdr i).offset + (k.phdr i).filesz ≤ k.bytes.length ∧ (k.phdr i).filesz ≤ (k.phdr i).memsz ∧
      (k.phdr i).addr + (k.phdr i).memsz ≤ 0x70000

theorem Kernel.checks (k : Kernel) : k.Checks := by
  have h := k.checked
  unfold checkKernel at h
  split at h
  · cases h
  · rename_i hhead
    obtain ⟨phoff, h1, h⟩ := bind_eq_ok.mp h
    obtain ⟨phsize, -, h⟩ := bind_eq_ok.mp h
    obtain ⟨phnum, h3, h⟩ := bind_eq_ok.mp h
    obtain rfl : phoff = k.phoff := unpackFrom_ok h1
    obtain rfl : phnum = k.phnum := unpackFrom_ok h3
    split at h
    · cases h
    · rename_i hsize
      obtain rfl : phsize = 32 := Classical.byContradiction fun hc => hsize (.inl hc)
      have hnum : k.phnum ≠ 0 := fun hc => hsize (.inr (.inl hc))
      have htable : ¬ k.phoff + 32 * k.phnum > k.bytes.length := fun hc => hsize (.inr (.inr hc))
      refine ⟨by omega, hnum, by omega, fun i hi => ?_⟩
      obtain ⟨p, hp, hseg⟩ := checkLoop_ok h i (Nat.zero_le i) (by omega)
      have hphdr : k.phdr i = p := by
        unfold unpackPhdr at hp
        rw [if_pos (by omega)] at hp
        exact Except.ok.inj hp
      rw [hphdr]
      exact hseg

/-! ## what the loader reads -/

variable {k : Kernel}

theorem Staged.load (hs : Staged kernel m) (hk : kernel.length ≤ 0x20000) (ho : o + 4 ≤ kernel.length) :
    load m (KERNEL_FILE_PHY_ADDR + o) = fileWord kernel o := by
  rw [fileWord_eq ho]
  have hbyte : ∀ j < 4, m ((KERNEL_FILE_PHY_ADDR + o + j) % 2 ^ 32) = kernel.getD (o + j) 0 := by
    intro j hj
    have hmod : (KERNEL_FILE_PHY_ADDR + o + j) % 2 ^ 32 = KERNEL_FILE_PHY_ADDR + (o + j) := by
      unfold KERNEL_FILE_PHY_ADDR
      omega
    rw [hmod]
    exact hs (o + j) (by omega)
  unfold Image.load get32
  simp only [hbyte 1 (by decide), hbyte 2 (by decide), hbyte 3 (by decide)]
  have h0 := hbyte 0 (by decide)
  simp only [Nat.add_zero] at h0
  rw [h0]

/-- a member of a header, and of the file -/
theorem read_inside (hk : kernel.length ≤ 0x20000) (ho : o + n ≤ kernel.length) :
    (Access.read (KERNEL_FILE_PHY_ADDR + o) n).Inside kernel.length := by
  intro i hi
  unfold KERNEL_FILE_PHY_ADDR
  rw [Nat.mod_eq_of_lt (by omega)]
  omega

theorem fileWord_lt (h : o + 4 ≤ l.length) : fileWord l o < 2 ^ 32 := by
  have hlt := ofLe_lt (slice l o 4)
  rw [length_slice h] at hlt
  exact hlt

/-- the copy of a segment -/
theorem copy_inside_iff {p : Phdr} {len : Nat} (hlen : len ≤ 0x20000) (ho : p.offset < 2 ^ 32)
    (ha : p.addr < 2 ^ 32) :
    (Access.read ((p.offset + KERNEL_FILE_PHY_ADDR) % 2 ^ 32) p.filesz).Inside len ∧
      (Access.write p.addr p.filesz).Inside len ↔ p.Fits len := by
  unfold Phdr.Fits
  rcases Nat.eq_zero_or_pos p.filesz with hz | hpos
  · rw [hz]
    exact ⟨fun _ => .inl rfl, fun _ => ⟨within_zero, within_zero⟩⟩
  · have hread : (Access.read ((p.offset + KERNEL_FILE_PHY_ADDR) % 2 ^ 32) p.filesz).Inside len ↔
        p.offset + p.filesz ≤ len := by
      show Within _ _ _ _ ↔ _
      unfold KERNEL_FILE_PHY_ADDR
      rw [within_iff (Nat.mod_lt _ (by decide)) hpos (by omega)]
      omega
    have hwrite : (Access.write p.addr p.filesz).Inside len ↔
        p.addr + p.filesz ≤ KERNEL_FILE_PHY_ADDR := by
      show Within _ _ _ _ ↔ _
      rw [within_iff ha hpos (by decide)]
      exact and_iff_right (Nat.zero_le _)
    rw [hread, hwrite]
    constructor
    · exact .inr
    · rintro (hz | hboth)
      · omega
      · exact hboth

/-- the file stays while what is copied goes below it -/
theorem Staged.copy {p : Phdr} {src : Nat} (hs : Staged kernel m)
    (hf : p.filesz = 0 ∨ p.addr + p.filesz ≤ KERNEL_FILE_PHY_ADDR) :
    Staged kernel (copy m p.addr src p.filesz) := by
  intro i hi
  rw [← hs i hi]
  rcases hf with hz | hle
  · rw [hz]
    rfl
  · refine copy_not_mem ?_ (by omega)
    unfold KERNEL_FILE_PHY_ADDR at hle
    omega

/-- the address of header `i` in the memory -/
def Kernel.row (k : Kernel) (i : Nat) : Nat := KERNEL_FILE_PHY_ADDR + (k.phoff + i * 32)

theorem Kernel.row_succ (hi : i < k.phnum) : (k.row i + 0x20) % 2 ^ 32 = k.row (i + 1) := by
  have hsmall := k.small
  have htable := k.checks.table
  unfold Kernel.row KERNEL_FILE_PHY_ADDR
  omega

theorem Kernel.row_le (hi : i < k.phnum) : k.phoff + i * 32 + 32 ≤ k.bytes.length := by
  have htable := k.checks.table
  omega

/-- a word of header `i` in the memory, and in the file -/
theorem Staged.row (hs : Staged k.bytes m) (hi : i < k.phnum) (ho : o + 4 ≤ 32) :
    Image.load m (k.row i + o) = fileWord k.bytes (k.phoff + i * 32 + o) := by
  have hrow := Kernel.row_le hi
  unfold Kernel.row
  rw [Nat.add_assoc]
  exact hs.load k.small (by omega)

theorem Kernel.row_inside (hi : i < k.phnum) (ho : o + 4 ≤ 32) :
    (Access.read (k.row i + o) 4).Inside k.bytes.length := by
  have hrow := Kernel.row_le hi
  unfold Kernel.row
  rw [Nat.add_assoc]
  exact read_inside k.small (by omega)

/-- header `i`, and the others -/
theorem Kernel.fits_succ (hi : i < k.phnum) :
    (∀ j, i ≤ j → j < k.phnum → (k.phdr j).kind ≠ 0 → (k.phdr j).Fits k.bytes.length) ↔
      ((k.phdr i).kind ≠ 0 → (k.phdr i).Fits k.bytes.length) ∧
        ∀ j, i + 1 ≤ j → j < k.phnum → (k.phdr j).kind ≠ 0 → (k.phdr j).Fits k.bytes.length := by
  constructor
  · exact fun h => ⟨h i (le_refl i) hi, fun j hj => h j (by omega)⟩
  · rintro ⟨hfirst, hrest⟩ j hj
    rcases Nat.eq_or_lt_of_le hj with rfl | hlt
    · exact fun _ => hfirst
    · exact hrest j hlt

/-- **The loop over the headers.** -/
theorem Kernel.loop_iff (k : Kernel) (n i : Nat) (hn : i + n = k.phnum) (m : Buffer)
    (hs : Staged k.bytes m) :
    (∀ a ∈ (initLoop n (k.row i) m).2, a.Inside k.bytes.length) ↔
      ∀ j, i ≤ j → j < k.phnum → (k.phdr j).kind ≠ 0 → (k.phdr j).Fits k.bytes.length := by
  induction n generalizing i m with
  | zero => exact ⟨fun _ j h1 h2 => absurd h2 (by omega), fun _ => List.forall_mem_nil _⟩
  | succ n ih =>
    have hi : i < k.phnum := by omega
    have hrow := Kernel.row_le hi
    have hkind : Image.load m (k.row i) = (k.phdr i).kind := hs.row hi (show 0 + 4 ≤ 32 by decide)
    have hread0 : (Access.read (k.row i) 4).Inside k.bytes.length :=
      Kernel.row_inside hi (show 0 + 4 ≤ 32 by decide)
    rw [Kernel.fits_succ hi, initLoop, hkind, Kernel.row_succ hi]
    by_cases h0 : (k.phdr i).kind = 0
    · rw [if_pos h0]
      show (∀ a ∈ Access.read (k.row i) 4 :: _, a.Inside k.bytes.length) ↔ _
      rw [List.forall_mem_cons, and_iff_right hread0, ih (i + 1) (by omega) m hs]
      exact (and_iff_right fun h => absurd h0 h).symm
    · rw [if_neg h0, hs.row hi (show 16 + 4 ≤ 32 by decide), hs.row hi (show 4 + 4 ≤ 32 by decide),
        hs.row hi (show 8 + 4 ≤ 32 by decide)]
      show (∀ a ∈ [Access.read (k.row i) 4, .read (k.row i + 0x10) 4, .read (k.row i + 4) 4,
        .read (k.row i + 8) 4,
        .read (((k.phdr i).offset + KERNEL_FILE_PHY_ADDR) % 2 ^ 32) (k.phdr i).filesz,
        .write (k.phdr i).addr (k.phdr i).filesz] ++
          (initLoop n _ (Linear.copy m (k.phdr i).addr _ (k.phdr i).filesz)).2, a.Inside _) ↔ _
      have hcopy : (Access.read (((k.phdr i).offset + KERNEL_FILE_PHY_ADDR) % 2 ^ 32)
          (k.phdr i).filesz).Inside k.bytes.length ∧
          (Access.write (k.phdr i).addr (k.phdr i).filesz).Inside k.bytes.length ↔
          (k.phdr i).Fits k.bytes.length :=
        copy_inside_iff k.small (fileWord_lt (by omega)) (fileWord_lt (by omega))
      have hreads : ∀ o, o + 4 ≤ 32 → (Access.read (k.row i + o) 4).Inside k.bytes.length :=
        fun o ho => Kernel.row_inside hi ho
      rw [List.forall_mem_append]
      simp only [List.forall_mem_cons, hread0, hreads 16 (by decide), hreads 4 (by decide),
        hreads 8 (by decide), true_and, List.not_mem_nil, false_implies, implies_true, and_true]
      have hfirst : ((k.phdr i).kind ≠ 0 → (k.phdr i).Fits k.bytes.length) ↔
          (k.phdr i).Fits k.bytes.length := imp_iff_right h0
      rw [hcopy, hfirst]
      refine and_congr_right fun hfits => ?_
      have hput := hfits.imp id And.right
      exact ih (i + 1) (by omega) _ (hs.copy hput)

/-- the headers that the builder has not checked -/
def Kernel.Harmless (k : Kernel) : Prop :=
  ∀ i < k.phnum, (k.phdr i).kind ≠ 0 → (k.phdr i).kind ≠ 1 → (k.phdr i).Fits k.bytes.length

/-- the low half of a word -/
theorem fileWord_mod (h : o + 4 ≤ l.length) : fileWord l o % 2 ^ 16 = ofLe (slice l o 2) := by
  unfold fileWord
  rw [ofLe_slice_succ (by omega), ofLe_slice_succ (by omega), ofLe_slice_succ (o := o) (by omega),
    ofLe_slice_succ (o := o + 1) (by omega), ofLe_slice_zero]
  have h0 := (l.getD o 0).isLt
  have h1 := (l.getD (o + 1) 0).isLt
  omega

/-- a whole run reads the head of the file, and then every header -/
theorem Kernel.run_iff (k : Kernel) (hs : Staged k.bytes m) :
    (∀ a ∈ (initKernel m).2, a.Inside k.bytes.length) ↔
      ∀ j < k.phnum, (k.phdr j).kind ≠ 0 → (k.phdr j).Fits k.bytes.length := by
  have hsmall := k.small
  have hheader := k.checks.header
  have htable := k.checks.table
  have hnum : Image.load m (KERNEL_FILE_PHY_ADDR + 0x2C) % 2 ^ 16 = k.phnum := by
    rw [hs.load hsmall (by omega)]
    exact fileWord_mod (by omega)
  have hesi : (Image.load m (KERNEL_FILE_PHY_ADDR + 0x1C) + KERNEL_FILE_PHY_ADDR) % 2 ^ 32 =
      k.row 0 := by
    have hload : Image.load m (KERNEL_FILE_PHY_ADDR + 0x1C) = k.phoff := hs.load hsmall (by omega)
    rw [hload]
    unfold Kernel.row KERNEL_FILE_PHY_ADDR
    omega
  have hread : ∀ o n, o + n ≤ 52 →
      (Access.read (KERNEL_FILE_PHY_ADDR + o) n).Inside k.bytes.length :=
    fun o n h => read_inside hsmall (by omega)
  have hlog : (initKernel m).2 = [.read (KERNEL_FILE_PHY_ADDR + 0x2C) 2,
      .read (KERNEL_FILE_PHY_ADDR + 0x1C) 4] ++
        (initLoop k.phnum (k.row 0) m).2 := by
    unfold initKernel
    simp only [hnum, hesi, if_neg k.checks.phnum]
  rw [hlog, List.forall_mem_append, k.loop_iff k.phnum 0 (by omega) m hs]
  simp only [List.forall_mem_cons, hread 44 2 (by decide), hread 28 4 (by decide), true_and,
    List.not_mem_nil, false_implies, implies_true, Nat.zero_le, forall_const]

/-- a segment that the builder has checked -/
theorem Kernel.fits_of_segment (k : Kernel) (hi : i < k.phnum) (h1 : (k.phdr i).kind = 1) :
    (k.phdr i).Fits k.bytes.length := by
  obtain ⟨hoff, hsize, haddr⟩ := k.checks.segs i hi h1
  refine .inr ⟨hoff, ?_⟩
  unfold KERNEL_FILE_PHY_ADDR
  omega

/-- **The loader is confined if and only if the other headers do no harm.** -/
theorem confined_iff (k : Kernel) : k.Confined ↔ k.Harmless := by
  constructor
  · intro h i hi h0 _
    have hstaged : Staged k.bytes fun a => k.bytes.getD (a - KERNEL_FILE_PHY_ADDR) 0 := by
      intro j _
      show k.bytes.getD (KERNEL_FILE_PHY_ADDR + j - KERNEL_FILE_PHY_ADDR) 0 = _
      rw [Nat.add_sub_cancel_left]
    exact (k.run_iff hstaged).mp (h _ hstaged) i hi h0
  · intro h m hs
    refine (k.run_iff hs).mpr fun i hi h0 => ?_
    by_cases h1 : (k.phdr i).kind = 1
    · exact k.fits_of_segment hi h1
    · exact h i hi h0 h1

end

/-! ## a header of another type -/

/-- a kernel with one header, of type `PT_DYNAMIC`: its four bytes go to 0x70000 -/
def dynamicKernel : Kernel where
  bytes := [0x7F, 0x45, 0x4C, 0x46, 1, 1, 1, 0, 0, 0, 0, 0, 0, 0, 0, 0, 2, 0, 3, 0, 1, 0, 0, 0,
      0, 0x10, 0, 0, 52, 0, 0, 0, 0, 0, 0, 0, 0, 0, 0, 0, 52, 0, 32, 0, 1, 0, 0, 0, 0, 0, 0, 0] ++
    [2, 0, 0, 0, 52, 0, 0, 0, 0, 0, 7, 0, 0, 0, 7, 0, 4, 0, 0, 0, 4, 0, 0, 0, 6, 0, 0, 0, 4, 0, 0, 0]
  checked := rfl
  small := by decide

/-- the loader writes over the file -/
theorem confined_fails : ¬ ∀ k : Kernel, k.Confined := by
  intro hall
  have hharmless := (confined_iff dynamicKernel).mp (hall dynamicKernel)
  have hfits := hharmless 0 (by decide) (by decide) (by decide)
  rcases hfits with hz | ⟨-, hle⟩
  · exact absurd hz (by decide)
  · exact absurd hle (by decide)

end Noxis.Image
