import Mathlib.Data.List.Pairwise
import Noxis.Mm.Args

/-!
# 25-osfs11/mm/exec.c: what a program finds in its memory

`do_exec` copies the bytes that a segment has in the file.  What follows them in the memory is what
the process had there before.

* `Executable`   a file whose segments are in the image, one apart from the other
* `LoadsFile`    every segment is there: its bytes of the file, and then zeros
* `loads_iff`    **this holds if and only if the memory was 0 there before, and the arguments do not
                 go over a segment**
-/

namespace Noxis.Mm

open Ipc (Pid)
open Fs (cString MAX_PATH)

/-- program header `i` of a file -/
def fileHdr (bytes : List Byte) (i : Nat) : Phdr :=
  phdrAt (fileBuf bytes) (get32 (fileBuf bytes) 28 + i * get16 (fileBuf bytes) 42)

/-- the segments of a file -/
def fileSegs (bytes : List Byte) : List Phdr :=
  ((List.range (get16 (fileBuf bytes) 44)).map (fileHdr bytes)).filter fun h => h.type = PT_LOAD

/-- an address of the segment -/
def Phdr.Covers (h : Phdr) (va : Nat) : Prop := h.vaddr ≤ va ∧ va < h.vaddr + h.memsz

/-- the file is a program: header, table and segments are in it, and the segments in the image -/
structure Executable (bytes : List Byte) : Prop where
  header : 52 ≤ bytes.length
  table : ∀ i < get16 (fileBuf bytes) 44,
    get32 (fileBuf bytes) 28 + i * get16 (fileBuf bytes) 42 + 32 ≤ bytes.length
  offsets : ∀ h ∈ fileSegs bytes, h.offset + h.filesz ≤ bytes.length
  sizes : ∀ h ∈ fileSegs bytes, h.filesz ≤ h.memsz
  image : ∀ h ∈ fileSegs bytes, h.vaddr + h.memsz ≤ PROC_IMAGE_SIZE_DEFAULT
  disjoint : (fileSegs bytes).Pairwise fun h h' => ∀ va, ¬ (h.Covers va ∧ h'.Covers va)

/-- byte `j` of a segment, as the file says -/
def Phdr.byte (bytes : List Byte) (h : Phdr) (j : Nat) : Byte :=
  if j < h.filesz then fileBuf bytes (h.offset + j) else 0

/-- **The property.** -/
def LoadsFile (src : Pid) (s : State) (msg : Msg) (files : Files) : Prop := ∀ bytes,
  files.stat (cString msg.name) = some bytes → Executable bytes →
    Succeeds src (doExec src s msg files) → ∀ h ∈ fileSegs bytes, ∀ j < h.memsz,
      image src (doExec src s msg files).state (h.vaddr + j) = h.byte bytes j

/-- where the arguments go -/
def UnderArgs (msg : Msg) (va : Nat) : Prop := origStack ≤ va ∧ va < origStack + msg.bufLen.toNat

/-- what the memory and the arguments have to be -/
structure Clean (src : Pid) (s : State) (msg : Msg) (bytes : List Byte) : Prop where
  /-- the memory behind the bytes of the file was 0 before -/
  tails : ∀ h ∈ fileSegs bytes, ∀ j, h.filesz ≤ j → j < h.memsz → ¬ UnderArgs msg (h.vaddr + j) →
    image src s (h.vaddr + j) = 0
  /-- where a segment is under the arguments, they have its bytes -/
  args : ∀ h ∈ fileSegs bytes, ∀ j < h.memsz, UnderArgs msg (h.vaddr + j) →
    argsMoved src s msg (readFile s.mem bytes) (h.vaddr + j - origStack) = h.byte bytes j

section
variable {src : Pid} {s : State} {msg : Msg} {files : Files} {bytes : List Byte} {mem : Buffer}
  {h : Phdr} {i j va : Nat}

/-! ## the segments in `mmbuf` -/

theorem Executable.phnum (he : Executable bytes) :
    phnum (readFile mem bytes) = get16 (fileBuf bytes) 44 :=
  get16_readFile (Nat.le_trans (by decide) he.header)

theorem Executable.phdr (he : Executable bytes) (hlen : bytes.length < MMBUF_SIZE)
    (hi : i < get16 (fileBuf bytes) 44) :
    phdrAt (readFile mem bytes) (phdrAddr (readFile mem bytes) i) = fileHdr bytes i := by
  have hhead := he.header
  have hrow := he.table i hi
  have haddr : phdrAddr (readFile mem bytes) i =
      mmbuf + (get32 (fileBuf bytes) 28 + i * get16 (fileBuf bytes) 42) := by
    unfold phdrAddr
    rw [get32_readFile (by omega), get16_readFile (by omega), Nat.add_assoc]
    unfold mmbuf
    unfold MMBUF_SIZE at hlen
    exact Nat.mod_eq_of_lt (by omega)
  rw [haddr]
  exact phdrAt_readFile hrow

theorem Executable.segs (he : Executable bytes) (hlen : bytes.length < MMBUF_SIZE) :
    segs (readFile mem bytes) (Mm.phnum (readFile mem bytes)) = fileSegs bytes := by
  unfold Mm.segs fileSegs
  rw [he.phnum]
  congr 1
  exact List.map_congr_left fun i hi => he.phdr hlen (List.mem_range.mp hi)

/-- no two segments have an address in common -/
theorem Executable.eq_of_covers (he : Executable bytes) {h h' : Phdr} (hh : h ∈ fileSegs bytes)
    (hh' : h' ∈ fileSegs bytes) (hc : h.Covers va) (hc' : h'.Covers va) : h = h' := by
  by_contra hne
  have hsymm : Std.Symm fun h h' : Phdr => ∀ va, ¬ (h.Covers va ∧ h'.Covers va) :=
    ⟨fun _ _ hd va hboth => hd va hboth.symm⟩
  exact he.disjoint.forall hh hh' hne va ⟨hc, hc'⟩

/-- **What the loop over the headers leaves of a segment.** -/
theorem placed_segment (he : Executable bytes) (hlen : bytes.length < MMBUF_SIZE)
    (hh : h ∈ fileSegs bytes) (hj : j < h.memsz) :
    placed src (readFile s.mem bytes) (phnum (readFile s.mem bytes)) (segBase src + (h.vaddr + j)) =
      if j < h.filesz then fileBuf bytes (h.offset + j) else image src s (h.vaddr + j) := by
  have hcov : h.Covers (h.vaddr + j) := ⟨Nat.le_add_right .., Nat.add_lt_add_left hj _⟩
  have hsizes := he.sizes
  -- only the segment itself can have put a byte there
  have honly : ∀ h' ∈ fileSegs bytes, segBase src + h'.vaddr ≤ segBase src + (h.vaddr + j) ∧
      segBase src + (h.vaddr + j) < segBase src + h'.vaddr + h'.filesz → h' = h := by
    intro h' hh' hin
    have hs := hsizes h' hh'
    exact he.eq_of_covers hh' hh ⟨by omega, by omega⟩ hcov
  unfold placed
  rw [he.segs hlen]
  by_cases hf : j < h.filesz
  · have hsome : ((fileSegs bytes).reverse.find? fun h' =>
        decide (segBase src + h'.vaddr ≤ segBase src + (h.vaddr + j) ∧
          segBase src + (h.vaddr + j) < segBase src + h'.vaddr + h'.filesz)).isSome := by
      refine List.find?_isSome.mpr ⟨h, List.mem_reverse.mpr hh, decide_eq_true ?_⟩
      omega
    obtain ⟨h', hfind⟩ := Option.isSome_iff_exists.mp hsome
    have hin := List.find?_some hfind
    simp only [decide_eq_true_eq] at hin
    obtain rfl := honly h' (List.mem_reverse.mp (List.mem_of_find?_eq_some hfind)) hin
    have hoff := he.offsets h' hh
    have hpos : mmbuf + h'.offset + (segBase src + (h'.vaddr + j) - (segBase src + h'.vaddr)) =
        mmbuf + (h'.offset + j) := by omega
    rw [hfind, if_pos hf]
    show readFile s.mem bytes (mmbuf + h'.offset + _) = _
    rw [hpos]
    exact readFile_apply (by omega)
  · have hnone : ((fileSegs bytes).reverse.find? fun h' =>
        decide (segBase src + h'.vaddr ≤ segBase src + (h.vaddr + j) ∧
          segBase src + (h.vaddr + j) < segBase src + h'.vaddr + h'.filesz)) = none := by
      refine List.find?_eq_none.mpr fun h' hh' hin => ?_
      have hin' := of_decide_eq_true hin
      obtain rfl := honly h' (List.mem_reverse.mp hh') hin'
      omega
    rw [hnone, if_neg hf]
    -- the caller's memory is not in `mmbuf`
    obtain ⟨hb, -⟩ := segBase_spec src
    have himage := he.image h hh
    refine physCopy_not_mem ?_
    unfold PROC_IMAGE_SIZE_DEFAULT at himage
    unfold MMBUF_SIZE at hlen
    unfold PROCS_BASE at hb
    unfold mmbuf
    omega

/-! ## a whole call -/

/-- one byte of a segment, when the call is over -/
theorem byte_iff (he : Executable bytes) (hr : Ready src s msg files bytes) (hh : h ∈ fileSegs bytes)
    (hj : j < h.memsz) :
    image src (doExec src s msg files).state (h.vaddr + j) = h.byte bytes j ↔
      (UnderArgs msg (h.vaddr + j) →
        argsMoved src s msg (readFile s.mem bytes) (h.vaddr + j - origStack) = h.byte bytes j) ∧
      (¬ UnderArgs msg (h.vaddr + j) → h.filesz ≤ j → image src s (h.vaddr + j) = 0) := by
  have himage := he.image h hh
  have hleaves := (doExec_ready hr).2.image (h.vaddr + j) (by omega)
  by_cases hu : UnderArgs msg (h.vaddr + j)
  · rw [hleaves.trans (if_pos hu)]
    exact ⟨fun heq => ⟨fun _ => heq, fun hn => absurd hu hn⟩, fun hb => hb.1 hu⟩
  · rw [hleaves.trans (if_neg hu), placed_segment he hr.len hh hj]
    unfold Phdr.byte
    by_cases hf : j < h.filesz
    · rw [if_pos hf, if_pos hf]
      exact ⟨fun _ => ⟨fun h => absurd h hu, fun _ h => absurd h (by omega)⟩, fun _ => rfl⟩
    · rw [if_neg hf, if_neg hf]
      exact ⟨fun heq => ⟨fun h => absurd h hu, fun _ _ => heq⟩, fun hb => hb.2 hu (by omega)⟩

/-- **The segments are there if and only if the memory was clean.** -/
theorem loads_iff (src : Pid) (s : State) (msg : Msg) (files : Files) :
    LoadsFile src s msg files ↔
      ∀ bytes, Executable bytes → Ready src s msg files bytes → Clean src s msg bytes := by
  constructor
  · intro hl bytes he hr
    have hbyte := fun h hh j hj =>
      (byte_iff he hr hh hj).mp (hl bytes hr.stat he (doExec_ready hr).1 h hh j hj)
    exact ⟨fun h hh j hf hj hu => (hbyte h hh j hj).2 hu hf, fun h hh j hj => (hbyte h hh j hj).1⟩
  · intro hc bytes hstat he hok h hh j hj
    obtain ⟨bytes', hr⟩ := hok.ready
    obtain rfl : bytes = bytes' := Option.some.inj (hstat.symm.trans hr.stat)
    have hclean := hc bytes he hr
    exact (byte_iff he hr hh hj).mpr
      ⟨hclean.args h hh j hj, fun hu hf => hclean.tails h hh j hf hj hu⟩

end

/-! ## a process that has something in its memory -/

theorem tinyElf_segs : fileSegs tinyElf = [⟨PT_LOAD, 84, 0x2000, 4, 8⟩] := rfl

theorem tinyElf_executable : Executable tinyElf where
  header := by decide
  table := by decide
  offsets := by
    rw [tinyElf_segs]
    decide
  sizes := by
    rw [tinyElf_segs]
    decide
  image := by
    rw [tinyElf_segs]
    decide
  disjoint := by
    rw [tinyElf_segs]
    exact List.pairwise_singleton ..

/-- the memory of a process whose bytes are 1, and an EXEC without arguments -/
def ones : State := ⟨fun _ => 1, ⟨0, 0, 0, 0⟩, [], fun _ => 0⟩

def execMsg : Msg where
  name := [0x2F, 0x61]
  name_lt := slashA_lt
  buf := 0
  bufLen := 0

/-- its bytes are still there behind those of the segment -/
theorem loads_fails : ¬ ∀ src s msg files, LoadsFile src s msg files := by
  intro hall
  have hclean := (loads_iff 12 ones execMsg tinyFiles).mp (hall 12 ones execMsg tinyFiles) tinyElf
    tinyElf_executable ⟨rfl, rfl, by decide,
      ⟨tinyElf_allGood _, fun _ => ⟨by decide, fun h => absurd rfl h⟩⟩, tinyElf_passes _⟩
  have hmem : (⟨PT_LOAD, 84, 0x2000, 4, 8⟩ : Phdr) ∈ fileSegs tinyElf := by
    rw [tinyElf_segs]
    exact List.mem_singleton_self _
  have hzero := hclean.tails _ hmem 4 (by decide) (by decide) (by unfold UnderArgs; decide)
  exact absurd hzero (by decide)

end Noxis.Mm
