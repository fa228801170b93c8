import Noxis.Lib.Linear
import Noxis.Ipc.Proc
import Noxis.Fs.Dir

/-!
# 25-osfs11/mm/exec.c: a process becomes another program

MM reads a file to `mmbuf`, copies its segments to the caller, and then the caller's arguments to the
end of the caller's memory.

* `doExec`          the function of the source, with what it touches in `Out.log`
* `Confined`        it stays in the caller's memory and in its own buffers
* `Tame`            what the headers of the file and the arguments have to be for that
* `doExec_confined` **they are confined if and only if they are tame**
-/

namespace Noxis.Mm

open Ipc (Pid nrTasks nrNativeProcs)
open Fs (cString MAX_PATH)
open Linear

def mmbuf : Nat := 0x700000
def MMBUF_SIZE : Nat := 0x100000
def PROCS_BASE : Nat := 0xA00000
def PROC_IMAGE_SIZE_DEFAULT : Nat := 0x100000
def PROC_ORIGIN_STACK : Nat := 0x400
def PT_LOAD : Nat := 1

/-! ## data -/

/-- what `do_exec` reads or writes: `n` bytes of a buffer from an offset, or of the memory from an
address -/
inductive Access where
  | pathname (o n : Nat)
  | stackcopy (o n : Nat)
  | mmbuf (a n : Nat)
  /-- a copy to the caller -/
  | image (a n : Nat)

/-- the registers of the caller that `do_exec` sets -/
structure Regs where
  ecx : Nat
  eax : Nat
  eip : Nat
  esp : Nat

/-- the memory, the caller's record, and what the local array has in it -/
structure State where
  mem : Buffer
  regs : Regs
  name : List Byte
  stackcopy : Buffer

/-- the EXEC message: the bytes at PATHNAME, which are fewer than MAX_PATH, and the argument buffer -/
structure Msg where
  name : List Byte
  name_lt : name.length < MAX_PATH
  buf : BitVec 32
  bufLen : BitVec 32

/-- what FS answers: the bytes of the file, if there is one, and whether `open` gives a descriptor -/
structure Files where
  stat : List Byte → Option (List Byte)
  opens : List Byte → Bool

/-- no result: an assertion has failed, or a loop has left its buffer -/
structure Out where
  state : State
  log : List Access
  result : Option Int

/-- the members of `Elf32_Phdr` that are read -/
structure Phdr where
  type : Nat
  offset : Nat
  vaddr : Nat
  filesz : Nat
  memsz : Nat

/-! ## the code -/

/-- the memory of a forked process is its own, the others have all of it -/
def segBase (pid : Pid) : Nat :=
  if pid.val < nrTasks + nrNativeProcs then 0
  else PROCS_BASE + (pid.val - (nrTasks + nrNativeProcs)) * PROC_IMAGE_SIZE_DEFAULT

def va2la (pid : Pid) (va : Nat) : Nat := (segBase pid + va) % 2 ^ 32

def get16 (b : Buffer) (o : Nat) : Nat := (b o).toNat + 256 * (b (o + 1)).toNat

def phnum (mem : Buffer) : Nat := get16 mem (mmbuf + 44)

/-- `mmbuf + elf_hdr->e_phoff + (i * elf_hdr->e_phentsize)` -/
def phdrAddr (mem : Buffer) (i : Nat) : Nat :=
  (mmbuf + get32 mem (mmbuf + 28) + i * get16 mem (mmbuf + 42)) % 2 ^ 32

def phdrAt (mem : Buffer) (a : Nat) : Phdr :=
  ⟨get32 mem a, get32 mem (a + 4), get32 mem (a + 8), get32 mem (a + 16), get32 mem (a + 20)⟩

/-- the assertion on a segment -/
def Phdr.fits (h : Phdr) : Bool := (h.vaddr + h.memsz) % 2 ^ 32 < PROC_IMAGE_SIZE_DEFAULT

theorem phnum_lt (mem : Buffer) : phnum mem < 2 ^ 16 := by
  have h0 := (mem (mmbuf + 44)).isLt
  have h1 := (mem (mmbuf + 44 + 1)).isLt
  unfold phnum get16
  omega

/-- the loop over the program headers: the memory behind it, what it has touched, and whether all
assertions held -/
def loadSegs (src : Pid) (mem : Buffer) (i : Nat) : Buffer × List Access × Bool :=
  if hi : i < phnum mem then
    have := phnum_lt mem
    let a := phdrAddr mem i
    let h := phdrAt mem a
    let header := [.mmbuf (mmbuf + 44) 2, .mmbuf (mmbuf + 28) 4, .mmbuf (mmbuf + 42) 2, .mmbuf a 4]
    if h.type = PT_LOAD then
      let checked := header ++ [.mmbuf (a + 8) 4, .mmbuf (a + 20) 4]
      if h.fits then
        let d := va2la src h.vaddr
        let s := (mmbuf + h.offset) % 2 ^ 32
        let r := loadSegs src (copy mem d s h.filesz) (i + 1)
        (r.1, checked ++ [.mmbuf (a + 4) 4, .mmbuf (a + 16) 4, .image d h.filesz,
          .mmbuf s h.filesz] ++ r.2.1, r.2.2)
      else (mem, checked, false)
    else
      let r := loadSegs src mem (i + 1)
      (r.1, header ++ r.2.1, r.2.2)
  else (mem, [.mmbuf (mmbuf + 44) 2], true)
termination_by 2 ^ 16 - i

/-- `for (; *q != 0; q++, argc++) *q += delta`, with `n` words of the array left: the array, what was
touched, and `argc` -/
def relocate (delta : Nat) : Nat → Nat → Buffer → Buffer × List Access × Option Nat
  | 0, argc, stk => (stk, [.stackcopy (4 * argc) 4], none)
  | n + 1, argc, stk =>
    if get32 stk (4 * argc) = 0 then (stk, [.stackcopy (4 * argc) 4], some argc)
    else
      let r := relocate delta n (argc + 1)
        (put32 stk (4 * argc) ((get32 stk (4 * argc) + delta) % 2 ^ 32))
      (r.1, .stackcopy (4 * argc) 4 :: r.2.1, r.2.2)

/-- `if (orig_stack_len)`: without arguments `argc` stays 0 -/
def argLoop (len delta : Nat) (stk : Buffer) : Buffer × List Access × Option Nat :=
  if len = 0 then (stk, [], some 0) else relocate delta (PROC_ORIGIN_STACK / 4) 0 stk

def origStack : Nat := PROC_IMAGE_SIZE_DEFAULT - PROC_ORIGIN_STACK

/-- from the argument stack on; `log` is what was touched before -/
def setupArgs (src : Pid) (s : State) (msg : Msg) (pathname : List Byte) (log : List Access) : Out :=
  let len := msg.bufLen.toNat
  let stk : Buffer := fun i =>
    if i < len then s.mem ((va2la src msg.buf.toNat + i) % 2 ^ 32) else s.stackcopy i
  let log := log ++ [.stackcopy 0 len]
  let delta := (origStack + 2 ^ 32 - msg.buf.toNat) % 2 ^ 32
  match argLoop len delta stk with
  | (stk, log', none) => ⟨{ s with stackcopy := stk }, log ++ log', none⟩
  | (stk, log', some argc) =>
    let d := va2la src origStack
    let mem : Buffer := fun a =>
      if (a + 2 ^ 32 - d) % 2 ^ 32 < len then stk ((a + 2 ^ 32 - d) % 2 ^ 32) else s.mem a
    let regs : Regs := ⟨argc, origStack, get32 mem (mmbuf + 24), origStack⟩
    ⟨⟨mem, regs, pathname, stk⟩,
      log ++ log' ++ [.image d len, .stackcopy 0 len, .mmbuf (mmbuf + 24) 4], some 0⟩

/-- `mmbuf` with the file in it -/
def readFile (mem : Buffer) (bytes : List Byte) : Buffer :=
  physCopy mem mmbuf (fun i => bytes.getD i 0) 0 bytes.length

def doExec (src : Pid) (s : State) (msg : Msg) (files : Files) : Out :=
  let nameLen := msg.name.length
  if nameLen < MAX_PATH then
    let pathname := cString msg.name
    let log := [.pathname 0 nameLen, .pathname nameLen 1, .pathname 0 (pathname.length + 1)]
    match files.stat pathname with
    | none => ⟨s, log, some (-1)⟩
    | some bytes =>
      if ¬ files.opens pathname then ⟨s, log, some (-1)⟩
      else if bytes.length < MMBUF_SIZE then
        let log := log ++ [.mmbuf mmbuf bytes.length]
        match loadSegs src (readFile s.mem bytes) 0 with
        | (mem, log', false) => ⟨{ s with mem := mem }, log ++ log', none⟩
        | (mem, log', true) => setupArgs src { s with mem := mem } msg pathname (log ++ log')
      else ⟨s, log, none⟩
  else ⟨s, [], none⟩

/-! ## what it may touch -/

def Access.Inside (src : Pid) : Access → Prop
  | .pathname o n => o + n ≤ MAX_PATH
  | .stackcopy o n => o + n ≤ PROC_ORIGIN_STACK
  | .mmbuf a n => Within Mm.mmbuf (Mm.mmbuf + MMBUF_SIZE) a n
  | .image a n => Within (segBase src) (segBase src + PROC_IMAGE_SIZE_DEFAULT) a n

/-- **The property.** -/
structure Confined (src : Pid) (s : State) (out : Out) : Prop where
  inside : ∀ a ∈ out.log, a.Inside src
  /-- an error leaves the caller alone -/
  unchanged : out.result = some (-1) → out.state = s

/-- the header lies in `mmbuf` -/
def HeaderInside (mem : Buffer) (i : Nat) : Prop :=
  mmbuf ≤ phdrAddr mem i ∧ phdrAddr mem i + 4 ≤ mmbuf + MMBUF_SIZE ∧
    ((phdrAt mem (phdrAddr mem i)).type = PT_LOAD → phdrAddr mem i + 24 ≤ mmbuf + MMBUF_SIZE)

/-- the bytes of the segment lie in `mmbuf`, and their place in the caller's memory -/
def Phdr.Inside (h : Phdr) : Prop :=
  h.filesz = 0 ∨ h.vaddr + h.filesz ≤ PROC_IMAGE_SIZE_DEFAULT ∧ h.offset + h.filesz ≤ MMBUF_SIZE

/-- the segments of the file -/
def segs (mem : Buffer) (n : Nat) : List Phdr :=
  ((List.range n).map fun i => phdrAt mem (phdrAddr mem i)).filter fun h => h.type = PT_LOAD

/-- the assertion holds for the segment of header `i`, if there is one -/
def Passes (mem : Buffer) (i : Nat) : Prop :=
  (phdrAt mem (phdrAddr mem i)).type = PT_LOAD → (phdrAt mem (phdrAddr mem i)).fits = true

/-- header `i` is inside, and its segment if the assertion holds -/
def Good (mem : Buffer) (i : Nat) : Prop := HeaderInside mem i ∧
  ((phdrAt mem (phdrAddr mem i)).type = PT_LOAD → (phdrAt mem (phdrAddr mem i)).fits = true →
    (phdrAt mem (phdrAddr mem i)).Inside)

/-- all headers that are reached are good -/
def AllGood (mem : Buffer) : Prop := ∀ i < phnum mem, (∀ j < i, Passes mem j) → Good mem i

/-- the byte at an address when the first segments are in their places: the last one that covers it
has put it there -/
def placed (src : Pid) (mem : Buffer) (n a : Nat) : Byte :=
  match (segs mem n).reverse.find? fun h =>
      decide (segBase src + h.vaddr ≤ a ∧ a < segBase src + h.vaddr + h.filesz) with
  | some h => mem (mmbuf + h.offset + (a - (segBase src + h.vaddr)))
  | none => mem a

/-- word `k` of the arguments -/
def argWord (src : Pid) (s : State) (msg : Msg) (mem : Buffer) (k : Nat) : Nat :=
  get32 (fun i => if i < msg.bufLen.toNat then
    placed src mem (phnum mem) ((va2la src msg.buf.toNat + i) % 2 ^ 32) else s.stackcopy i) (4 * k)

/-- what a file and a message have to be; `mem` is the memory with the file in `mmbuf` -/
structure Tame (src : Pid) (s : State) (msg : Msg) (mem : Buffer) : Prop where
  headers : AllGood mem
  /-- unless an assertion fails, the arguments fit into the array, with a word that ends them -/
  args : (∀ i < phnum mem, Passes mem i) → msg.bufLen.toNat ≤ PROC_ORIGIN_STACK ∧
    (msg.bufLen.toNat ≠ 0 → ∃ k < PROC_ORIGIN_STACK / 4, argWord src s msg mem k = 0)

/-! ## addresses -/

section
variable {src : Pid} {m mem stk : Buffer} {a i j n o v argc delta : Nat} {s : State} {msg : Msg}
  {h : Phdr}

theorem segBase_spec (src : Pid) :
    (segBase src = 0 ∨ PROCS_BASE ≤ segBase src) ∧ segBase src < 2 ^ 26 := by
  have hlt := src.isLt
  unfold segBase nrNativeProcs PROCS_BASE PROC_IMAGE_SIZE_DEFAULT
  split
  · omega
  · unfold nrTasks Ipc.nrProcs at *
    omega

/-- a copy to a process stays in its memory if the virtual addresses do -/
theorem image_inside_iff (hv : v < 2 ^ 32) (hn : 0 < n) :
    (Access.image (va2la src v) n).Inside src ↔ v + n ≤ PROC_IMAGE_SIZE_DEFAULT := by
  obtain ⟨-, hb⟩ := segBase_spec src
  show Within _ _ (va2la src v) n ↔ _
  unfold va2la PROC_IMAGE_SIZE_DEFAULT
  rw [within_iff (Nat.mod_lt _ (by decide)) hn (by omega)]
  omega

theorem mmbuf_inside_iff (src : Pid) (ha : a < 2 ^ 32) (hn : 0 < n) :
    (Access.mmbuf a n).Inside src ↔ mmbuf ≤ a ∧ a + n ≤ mmbuf + MMBUF_SIZE :=
  within_iff ha hn (by decide)

/-- a place in the file -/
theorem offset_inside_iff (ho : o < 2 ^ 32) (hn : 0 < n) :
    (Access.mmbuf ((mmbuf + o) % 2 ^ 32) n).Inside src ↔ o + n ≤ MMBUF_SIZE := by
  rw [mmbuf_inside_iff src (Nat.mod_lt _ (by decide)) hn]
  unfold mmbuf MMBUF_SIZE
  omega

theorem phdrAddr_lt : phdrAddr m i < 2 ^ 32 := Nat.mod_lt _ (by decide)

/-- nothing is copied, or the segment is inside -/
theorem Phdr.inside_iff (src : Pid) (hv : h.vaddr < 2 ^ 32) (ho : h.offset < 2 ^ 32) :
    (Access.image (va2la src h.vaddr) h.filesz).Inside src ∧
      (Access.mmbuf ((mmbuf + h.offset) % 2 ^ 32) h.filesz).Inside src ↔ h.Inside := by
  unfold Phdr.Inside
  rcases Nat.eq_zero_or_pos h.filesz with hz | hpos
  · rw [hz]
    exact ⟨fun _ => .inl rfl, fun _ => ⟨within_zero, within_zero⟩⟩
  · rw [image_inside_iff hv hpos, offset_inside_iff ho hpos]
    constructor
    · exact .inr
    · rintro (hz | hboth)
      · omega
      · exact hboth

/-! ## the headers while the segments are copied -/

/-- the two memories have the same file in `mmbuf` -/
def SameFile (m mem : Buffer) : Prop := ∀ a, mmbuf ≤ a → a < mmbuf + MMBUF_SIZE → mem a = m a

theorem SameFile.get32 (hs : SameFile m mem) (h1 : mmbuf ≤ a) (h2 : a + 4 ≤ mmbuf + MMBUF_SIZE) :
    get32 mem a = get32 m a :=
  get32_congr fun i hi => hs (a + i) (by omega) (by omega)

theorem SameFile.get16 (hs : SameFile m mem) (h1 : mmbuf ≤ a) (h2 : a + 2 ≤ mmbuf + MMBUF_SIZE) :
    get16 mem a = get16 m a := by
  unfold Mm.get16
  rw [hs a h1 (by omega), hs (a + 1) (by omega) (by omega)]

theorem SameFile.phnum (hs : SameFile m mem) : phnum mem = phnum m :=
  hs.get16 (by decide) (by decide)

theorem SameFile.phdrAddr (hs : SameFile m mem) : phdrAddr mem i = phdrAddr m i := by
  unfold Mm.phdrAddr
  rw [hs.get32 (by decide) (by decide), hs.get16 (by decide) (by decide)]

theorem SameFile.type (hs : SameFile m mem) (h1 : mmbuf ≤ a) (h2 : a + 4 ≤ mmbuf + MMBUF_SIZE) :
    (phdrAt mem a).type = (phdrAt m a).type := hs.get32 h1 h2

theorem SameFile.phdrAt (hs : SameFile m mem) (h1 : mmbuf ≤ a) (h2 : a + 24 ≤ mmbuf + MMBUF_SIZE) :
    phdrAt mem a = phdrAt m a := by
  unfold Mm.phdrAt
  rw [hs.get32 h1 (by omega), hs.get32 (by omega) (by omega), hs.get32 (by omega) (by omega),
    hs.get32 (by omega) (by omega), hs.get32 (by omega) (by omega)]

/-- the first headers are good, and pass -/
def Done (m : Buffer) (i : Nat) : Prop := ∀ j < i, Good m j ∧ Passes m j

theorem Done.succ (hd : Done m i) (hg : Good m i) (hp : Passes m i) : Done m (i + 1) := by
  intro j hj
  rcases Nat.lt_succ_iff_lt_or_eq.mp hj with hlt | rfl
  · exact hd j hlt
  · exact ⟨hg, hp⟩

theorem Done.inside (hd : Done m i) (hh : h ∈ segs m i) : h.Inside := by
  obtain ⟨hmem, htype⟩ := List.mem_filter.mp hh
  obtain ⟨j, hj, rfl⟩ := List.mem_map.mp hmem
  obtain ⟨hg, hp⟩ := hd j (List.mem_range.mp hj)
  have htype' := of_decide_eq_true htype
  exact hg.2 htype' (hp htype')

theorem segs_succ : segs m (i + 1) =
    segs m i ++ if (phdrAt m (phdrAddr m i)).type = PT_LOAD then [phdrAt m (phdrAddr m i)] else [] := by
  unfold segs
  rw [List.range_succ, List.map_append, List.filter_append]
  congr 1
  by_cases ht : (phdrAt m (phdrAddr m i)).type = PT_LOAD
  · simp [ht]
  · simp [ht]

theorem placed_zero : placed src m 0 = m := rfl

theorem placed_skip (ht : (phdrAt m (phdrAddr m i)).type ≠ PT_LOAD) :
    placed src m (i + 1) = placed src m i := by
  funext a
  unfold placed
  rw [segs_succ, if_neg ht, List.append_nil]

theorem placed_copy (ht : (phdrAt m (phdrAddr m i)).type = PT_LOAD) (h : Phdr)
    (hh : phdrAt m (phdrAddr m i) = h) (a : Nat) : placed src m (i + 1) a =
      if segBase src + h.vaddr ≤ a ∧ a < segBase src + h.vaddr + h.filesz then
        m (mmbuf + h.offset + (a - (segBase src + h.vaddr))) else placed src m i a := by
  unfold placed
  rw [segs_succ, if_pos ht, hh, List.reverse_append, List.reverse_singleton, List.singleton_append,
    List.find?_cons]
  by_cases hc : segBase src + h.vaddr ≤ a ∧ a < segBase src + h.vaddr + h.filesz
  · rw [if_pos hc, decide_eq_true hc]
  · rw [if_neg hc, decide_eq_false hc]

/-- the file stays in `mmbuf` -/
theorem Done.sameFile (src : Pid) (hd : Done m i) : SameFile m (placed src m i) := by
  obtain ⟨hb, -⟩ := segBase_spec src
  intro a h1 h2
  unfold placed
  split
  · rename_i h hf
    have hcov := List.find?_some hf
    simp only [decide_eq_true_eq] at hcov
    have hin := hd.inside (List.mem_reverse.mp (List.mem_of_find?_eq_some hf))
    unfold Phdr.Inside at hin
    unfold mmbuf MMBUF_SIZE at *
    unfold PROCS_BASE at hb
    unfold PROC_IMAGE_SIZE_DEFAULT at hin
    omega
  · rfl

/-- the copy of a segment that is inside -/
theorem copy_placed (hd : Done m i) (ht : (phdrAt m (phdrAddr m i)).type = PT_LOAD) (h : Phdr)
    (hh : phdrAt m (phdrAddr m i) = h) (hin : h.Inside) :
    copy (placed src m i) (va2la src h.vaddr) ((mmbuf + h.offset) % 2 ^ 32) h.filesz =
      placed src m (i + 1) := by
  funext a
  rw [placed_copy ht h hh]
  rcases Nat.eq_zero_or_pos h.filesz with hz | hpos
  · rw [hz, if_neg (by omega)]
    rfl
  · obtain ⟨hb, hlt⟩ := segBase_spec src
    have hsame := hd.sameFile src
    unfold Phdr.Inside at hin
    have hva : va2la src h.vaddr = segBase src + h.vaddr := by
      unfold va2la
      unfold PROC_IMAGE_SIZE_DEFAULT at hin
      exact Nat.mod_eq_of_lt (by omega)
    have hoff : (mmbuf + h.offset) % 2 ^ 32 = mmbuf + h.offset := by
      unfold mmbuf
      unfold MMBUF_SIZE at hin
      exact Nat.mod_eq_of_lt (by omega)
    have hcopy : copy (placed src m i) (segBase src + h.vaddr) (mmbuf + h.offset) h.filesz =
        physCopy (placed src m i) (segBase src + h.vaddr) (placed src m i) (mmbuf + h.offset)
          h.filesz := by
      unfold PROC_IMAGE_SIZE_DEFAULT MMBUF_SIZE at hin
      unfold PROCS_BASE at hb
      unfold mmbuf
      exact copy_eq (by omega) (by omega) (by omega)
    rw [hva, hoff, hcopy]
    unfold physCopy
    by_cases hc : segBase src + h.vaddr ≤ a ∧ a < segBase src + h.vaddr + h.filesz
    · rw [if_pos hc, if_pos hc]
      exact hsame _ (by omega) (by omega)
    · rw [if_neg hc, if_neg hc]

/-! ## the loop over the headers -/

theorem loadSegs_end (hi : ¬ i < phnum mem) :
    loadSegs src mem i = (mem, [.mmbuf (mmbuf + 44) 2], true) := by
  rw [loadSegs, dif_neg hi]

/-- what is touched before the type of a header is known -/
def headerLog (mem : Buffer) (i : Nat) : List Access :=
  [.mmbuf (mmbuf + 44) 2, .mmbuf (mmbuf + 28) 4, .mmbuf (mmbuf + 42) 2, .mmbuf (phdrAddr mem i) 4]

theorem loadSegs_skip (hi : i < phnum mem) (ht : (phdrAt mem (phdrAddr mem i)).type ≠ PT_LOAD) :
    loadSegs src mem i = ((loadSegs src mem (i + 1)).1,
      headerLog mem i ++ (loadSegs src mem (i + 1)).2.1, (loadSegs src mem (i + 1)).2.2) := by
  rw [loadSegs, dif_pos hi]
  exact if_neg ht

/-- what is touched before the assertion -/
def checkLog (mem : Buffer) (i : Nat) : List Access :=
  headerLog mem i ++ [.mmbuf (phdrAddr mem i + 8) 4, .mmbuf (phdrAddr mem i + 20) 4]

theorem loadSegs_refuse (hi : i < phnum mem) (ht : (phdrAt mem (phdrAddr mem i)).type = PT_LOAD)
    (hf : ¬ (phdrAt mem (phdrAddr mem i)).fits = true) :
    loadSegs src mem i = (mem, checkLog mem i, false) := by
  rw [loadSegs, dif_pos hi]
  exact (if_pos ht).trans (if_neg hf)

/-- what is touched by the copy of a segment -/
def segLog (src : Pid) (mem : Buffer) (i : Nat) (h : Phdr) : List Access :=
  [.mmbuf (phdrAddr mem i + 4) 4, .mmbuf (phdrAddr mem i + 16) 4,
    .image (va2la src h.vaddr) h.filesz, .mmbuf ((mmbuf + h.offset) % 2 ^ 32) h.filesz]

theorem loadSegs_copy (hi : i < phnum mem) (ht : (phdrAt mem (phdrAddr mem i)).type = PT_LOAD)
    (hf : (phdrAt mem (phdrAddr mem i)).fits = true) (h : Phdr)
    (hh : phdrAt mem (phdrAddr mem i) = h) (mem' : Buffer)
    (hm : copy mem (va2la src h.vaddr) ((mmbuf + h.offset) % 2 ^ 32) h.filesz = mem') :
    loadSegs src mem i = ((loadSegs src mem' (i + 1)).1,
      checkLog mem i ++ segLog src mem i h ++ (loadSegs src mem' (i + 1)).2.1,
      (loadSegs src mem' (i + 1)).2.2) := by
  subst hh hm
  rw [loadSegs, dif_pos hi]
  exact (if_pos ht).trans (if_pos hf)

/-- the members at the start of the file are always there -/
theorem head_inside (o n : Nat) (ho : o + n ≤ 52) (hn : 0 < n) :
    (Access.mmbuf (mmbuf + o) n).Inside src := by
  unfold mmbuf
  rw [mmbuf_inside_iff src (by omega) hn]
  unfold mmbuf MMBUF_SIZE
  omega

theorem headerLog_inside_iff : (∀ a ∈ headerLog mem i, a.Inside src) ↔
    mmbuf ≤ phdrAddr mem i ∧ phdrAddr mem i + 4 ≤ mmbuf + MMBUF_SIZE := by
  have h44 : (Access.mmbuf (mmbuf + 44) 2).Inside src := head_inside 44 2 (by decide) (by decide)
  have h28 : (Access.mmbuf (mmbuf + 28) 4).Inside src := head_inside 28 4 (by decide) (by decide)
  have h42 : (Access.mmbuf (mmbuf + 42) 2).Inside src := head_inside 42 2 (by decide) (by decide)
  rw [← mmbuf_inside_iff src phdrAddr_lt (by decide)]
  simp [headerLog, h44, h28, h42]

theorem checkLog_inside_iff : (∀ a ∈ checkLog mem i, a.Inside src) ↔
    mmbuf ≤ phdrAddr mem i ∧ phdrAddr mem i + 24 ≤ mmbuf + MMBUF_SIZE := by
  unfold checkLog
  rw [List.forall_mem_append, headerLog_inside_iff]
  have hlt := phdrAddr_lt (m := mem) (i := i)
  constructor
  · rintro ⟨⟨h1, h2⟩, hrest⟩
    have h20 := hrest (.mmbuf (phdrAddr mem i + 20) 4) (by simp)
    rw [mmbuf_inside_iff src (by unfold mmbuf MMBUF_SIZE at h2; omega) (by decide)] at h20
    exact ⟨h1, by omega⟩
  · rintro ⟨h1, h2⟩
    have hsub : ∀ k, k + 4 ≤ 24 → (Access.mmbuf (phdrAddr mem i + k) 4).Inside src := by
      intro k hk
      rw [mmbuf_inside_iff src (by unfold mmbuf MMBUF_SIZE at h2; omega) (by decide)]
      omega
    refine ⟨⟨h1, by omega⟩, ?_⟩
    simp [hsub 8 (by decide), hsub 20 (by decide)]

/-- once the header is inside, the copy of its segment decides -/
theorem segLog_inside_iff (h1 : mmbuf ≤ phdrAddr mem i)
    (h2 : phdrAddr mem i + 24 ≤ mmbuf + MMBUF_SIZE) (hv : h.vaddr < 2 ^ 32) (ho : h.offset < 2 ^ 32) :
    (∀ a ∈ segLog src mem i h, a.Inside src) ↔ h.Inside := by
  have hsub : ∀ k, k + 4 ≤ 24 → (Access.mmbuf (phdrAddr mem i + k) 4).Inside src := by
    intro k hk
    rw [mmbuf_inside_iff src (by unfold mmbuf MMBUF_SIZE at h2; omega) (by decide)]
    omega
  rw [← Phdr.inside_iff src hv ho]
  simp [segLog, hsub 4 (by decide), hsub 16 (by decide)]

/-- what the loop does from header `i` on -/
structure Loads (src : Pid) (m : Buffer) (r : Buffer × List Access × Bool) : Prop where
  inside : (∀ a ∈ r.2.1, a.Inside src) ↔ AllGood m
  passed : AllGood m → (r.2.2 = true ↔ ∀ i < phnum m, Passes m i)
  mem : AllGood m → r.2.2 = true → r.1 = placed src m (phnum m)

/-- a header that is not good -/
theorem Loads.of_not_good {r : Buffer × List Access × Bool} (hd : Done m i) (hi : i < phnum m)
    (hg : ¬ Good m i) (hl : ¬ ∀ a ∈ r.2.1, a.Inside src) : Loads src m r := by
  have hbad : ¬ AllGood m := fun hall => hg (hall i hi fun j hj => (hd j hj).2)
  exact ⟨⟨fun h => absurd h hl, fun h => absurd h hbad⟩, fun h => absurd h hbad,
    fun h => absurd h hbad⟩

/-- a header whose accesses are inside -/
theorem Loads.append {mem' : Buffer} {log log' : List Access} {b : Bool}
    (h : Loads src m (mem', log', b)) (hl : ∀ a ∈ log, a.Inside src) :
    Loads src m (mem', log ++ log', b) := by
  refine ⟨?_, h.passed, h.mem⟩
  rw [← h.inside, List.forall_mem_append]
  exact and_iff_right hl

/-- the turn for a segment that is to be loaded -/
theorem Loads.segment (hd : Done m i) (hlt : i < phnum m)
    (h4 : mmbuf ≤ phdrAddr m i ∧ phdrAddr m i + 4 ≤ mmbuf + MMBUF_SIZE)
    (ht : (phdrAt m (phdrAddr m i)).type = PT_LOAD)
    (hnext : Done m (i + 1) → Loads src m (loadSegs src (placed src m (i + 1)) (i + 1))) :
    Loads src m (loadSegs src (placed src m i) i) := by
  have hsame := hd.sameFile src
  have hlt' : i < phnum (placed src m i) := by rw [hsame.phnum]; exact hlt
  have haddr : phdrAddr (placed src m i) i = phdrAddr m i := hsame.phdrAddr
  have htype : (phdrAt (placed src m i) (phdrAddr (placed src m i) i)).type = PT_LOAD := by
    rw [haddr]
    exact (hsame.type h4.1 h4.2).trans ht
  by_cases h24 : phdrAddr m i + 24 ≤ mmbuf + MMBUF_SIZE
  · have hcheck : ∀ a ∈ checkLog (placed src m i) i, a.Inside src := by
      rw [checkLog_inside_iff, haddr]
      exact ⟨h4.1, h24⟩
    have hhdr : phdrAt (placed src m i) (phdrAddr (placed src m i) i) =
        phdrAt m (phdrAddr m i) := by
      rw [haddr]
      exact hsame.phdrAt h4.1 h24
    have hheader : HeaderInside m i := ⟨h4.1, h4.2, fun _ => h24⟩
    by_cases hf : (phdrAt m (phdrAddr m i)).fits = true
    · have hseg : (∀ a ∈ segLog src (placed src m i) i (phdrAt m (phdrAddr m i)),
          a.Inside src) ↔ (phdrAt m (phdrAddr m i)).Inside :=
        segLog_inside_iff (by rw [haddr]; exact h4.1) (by rw [haddr]; exact h24)
          (get32_lt ..) (get32_lt ..)
      by_cases hin : (phdrAt m (phdrAddr m i)).Inside
      · -- the segment is put into its place
        have hg : Good m i := ⟨hheader, fun _ _ => hin⟩
        rw [loadSegs_copy hlt' htype (hhdr ▸ hf) _ hhdr _ (copy_placed hd ht _ rfl hin)]
        refine (hnext (hd.succ hg fun _ => hf)).append ?_
        rw [List.forall_mem_append]
        exact ⟨hcheck, hseg.mpr hin⟩
      · refine Loads.of_not_good hd hlt (fun hg => hin (hg.2 ht hf)) fun hall => ?_
        rw [loadSegs_copy hlt' htype (hhdr ▸ hf) _ hhdr _ rfl] at hall
        rw [List.forall_mem_append, List.forall_mem_append] at hall
        exact hin (hseg.mp hall.1.2)
    · -- the assertion fails
      have hg : Good m i := ⟨hheader, fun _ hfits => absurd hfits hf⟩
      have hno : ¬ Passes m i := fun hp => hf (hp ht)
      rw [loadSegs_refuse hlt' htype (hhdr ▸ hf)]
      refine ⟨⟨fun _ k hk hbefore => ?_, fun _ => hcheck⟩, fun _ => ?_, fun _ h => nomatch h⟩
      · rcases Nat.lt_trichotomy k i with hki | rfl | hki
        · exact (hd k hki).1
        · exact hg
        · exact absurd (hbefore i hki) hno
      · exact ⟨nofun, fun hall => absurd (hall i hlt) hno⟩
  · refine Loads.of_not_good hd hlt (fun hg => h24 (hg.1.2.2 ht)) fun hall => h24 ?_
    have hcheck : ∀ a ∈ checkLog (placed src m i) i, a.Inside src := by
      by_cases hf : (phdrAt (placed src m i) (phdrAddr (placed src m i) i)).fits = true
      · rw [loadSegs_copy hlt' htype hf _ rfl _ rfl] at hall
        rw [List.forall_mem_append, List.forall_mem_append] at hall
        exact hall.1.1
      · rw [loadSegs_refuse hlt' htype hf] at hall
        exact hall
    rw [checkLog_inside_iff, haddr] at hcheck
    exact hcheck.2

/-- **The loop over the program headers.** -/
theorem loadSegs_spec (src : Pid) (m : Buffer) (i : Nat) (hi : i ≤ phnum m) (hd : Done m i) :
    Loads src m (loadSegs src (placed src m i) i) := by
  induction hn : phnum m - i generalizing i with
  | zero =>
    obtain rfl : i = phnum m := by omega
    have hsame := hd.sameFile src
    rw [loadSegs_end (by rw [hsame.phnum]; omega)]
    have hall : ∀ i < phnum m, Passes m i := fun i hi => (hd i hi).2
    refine ⟨⟨fun _ i hi _ => (hd i hi).1, ?_⟩, fun _ => ⟨fun _ => hall, fun _ => rfl⟩,
      fun _ _ => rfl⟩
    intro _ a ha
    obtain rfl := List.mem_singleton.mp ha
    exact head_inside 44 2 (by decide) (by decide)
  | succ n ih =>
    have hlt : i < phnum m := by omega
    have hsame := hd.sameFile src
    have hlt' : i < phnum (placed src m i) := by rw [hsame.phnum]; exact hlt
    have haddr : phdrAddr (placed src m i) i = phdrAddr m i := hsame.phdrAddr
    by_cases h4 : mmbuf ≤ phdrAddr m i ∧ phdrAddr m i + 4 ≤ mmbuf + MMBUF_SIZE
    · by_cases ht : (phdrAt m (phdrAddr m i)).type = PT_LOAD
      · exact .segment hd hlt h4 ht fun hd' => ih (i + 1) hlt hd' (by omega)
      · -- nothing is loaded
        have hhead : ∀ a ∈ headerLog (placed src m i) i, a.Inside src := by
          rw [headerLog_inside_iff, haddr]
          exact h4
        have htype : (phdrAt (placed src m i) (phdrAddr (placed src m i) i)).type =
            (phdrAt m (phdrAddr m i)).type := by
          rw [haddr]
          exact hsame.type h4.1 h4.2
        have hg : Good m i := ⟨⟨h4.1, h4.2, fun h => absurd h ht⟩, fun h => absurd h ht⟩
        rw [loadSegs_skip hlt' (htype ▸ ht), ← placed_skip ht]
        refine (ih (i + 1) hlt (hd.succ hg fun h => absurd h ht) (by omega)).append ?_
        rw [placed_skip ht]
        exact hhead
    · refine Loads.of_not_good hd hlt (fun hg => h4 ⟨hg.1.1, hg.1.2.1⟩) fun hall => h4 ?_
      have hhead : ∀ a ∈ headerLog (placed src m i) i, a.Inside src := by
        intro a ha
        apply hall
        rw [loadSegs, dif_pos hlt']
        dsimp only
        split_ifs
        · exact List.mem_append_left _ (List.mem_append_left _ (List.mem_append_left _ ha))
        · exact List.mem_append_left _ ha
        · exact List.mem_append_left _ ha
      rw [headerLog_inside_iff, haddr] at hhead
      exact hhead

/-! ## the arguments -/

/-- words that are not written stay -/
theorem relocate_spec (src : Pid) (delta n argc : Nat) (stk : Buffer)
    (hn : 4 * (argc + n) = PROC_ORIGIN_STACK) :
    ((∀ a ∈ (relocate delta n argc stk).2.1, a.Inside src) ↔
      ∃ k < argc + n, argc ≤ k ∧ get32 stk (4 * k) = 0) ∧
    ((∀ a ∈ (relocate delta n argc stk).2.1, a.Inside src) →
      (relocate delta n argc stk).2.2 ≠ none) := by
  induction n generalizing argc stk with
  | zero =>
    have hout : ¬ (Access.stackcopy (4 * argc) 4).Inside src := by
      show ¬ 4 * argc + 4 ≤ PROC_ORIGIN_STACK
      omega
    have hlog : ¬ ∀ a ∈ (relocate delta 0 argc stk).2.1, a.Inside src := fun hall =>
      hout (hall _ (List.mem_singleton_self _))
    refine ⟨⟨fun h => absurd h hlog, ?_⟩, fun h => absurd h hlog⟩
    rintro ⟨k, hk, hge, -⟩
    omega
  | succ n ih =>
    have hin : (Access.stackcopy (4 * argc) 4).Inside src := by
      show 4 * argc + 4 ≤ PROC_ORIGIN_STACK
      omega
    by_cases h0 : get32 stk (4 * argc) = 0
    · have hr : relocate delta (n + 1) argc stk = (stk, [.stackcopy (4 * argc) 4], some argc) :=
        if_pos h0
      rw [hr]
      refine ⟨⟨fun _ => ⟨argc, by omega, le_refl argc, h0⟩, fun _ a ha => ?_⟩, fun _ => nofun⟩
      obtain rfl := List.mem_singleton.mp ha
      exact hin
    · generalize hput : put32 stk (4 * argc) ((get32 stk (4 * argc) + delta) % 2 ^ 32) = stk'
      have hr : relocate delta (n + 1) argc stk = ((relocate delta n (argc + 1) stk').1,
          .stackcopy (4 * argc) 4 :: (relocate delta n (argc + 1) stk').2.1,
          (relocate delta n (argc + 1) stk').2.2) := by
        rw [← hput]
        exact if_neg h0
      obtain ⟨hiff, hsome⟩ := ih (argc + 1) stk' (by omega)
      have hcons : (∀ a ∈ (relocate delta (n + 1) argc stk).2.1, a.Inside src) ↔
          ∀ a ∈ (relocate delta n (argc + 1) stk').2.1, a.Inside src := by
        rw [hr, List.forall_mem_cons]
        exact and_iff_right hin
      have hword : ∀ k, argc < k → get32 stk' (4 * k) = get32 stk (4 * k) := by
        intro k hk
        rw [← hput]
        exact get32_put32_ne (by omega)
      refine ⟨?_, ?_⟩
      · rw [hcons, hiff]
        constructor
        · rintro ⟨k, hk, hge, hz⟩
          exact ⟨k, by omega, by omega, (hword k hge).symm.trans hz⟩
        · rintro ⟨k, hk, hge, hz⟩
          have hne : k ≠ argc := by
            rintro rfl
            exact h0 hz
          exact ⟨k, by omega, by omega, (hword k (by omega)).trans hz⟩
      · rw [hcons, hr]
        exact hsome

theorem argLoop_spec (src : Pid) (len delta : Nat) (stk : Buffer) :
    ((∀ a ∈ (argLoop len delta stk).2.1, a.Inside src) ↔
      (len ≠ 0 → ∃ k < PROC_ORIGIN_STACK / 4, get32 stk (4 * k) = 0)) ∧
    ((∀ a ∈ (argLoop len delta stk).2.1, a.Inside src) → (argLoop len delta stk).2.2 ≠ none) := by
  by_cases hz : len = 0
  · have hr : argLoop len delta stk = (stk, [], some 0) := if_pos hz
    rw [hr]
    exact ⟨⟨fun _ h => absurd hz h, fun _ => List.forall_mem_nil _⟩, fun _ => nofun⟩
  · have hr : argLoop len delta stk = relocate delta (PROC_ORIGIN_STACK / 4) 0 stk := if_neg hz
    obtain ⟨hiff, hsome⟩ := relocate_spec src delta (PROC_ORIGIN_STACK / 4) 0 stk
      (by decide)
    rw [hr]
    refine ⟨?_, hsome⟩
    rw [hiff, Nat.zero_add]
    constructor
    · rintro ⟨k, hk, -, h0⟩ _
      exact ⟨k, hk, h0⟩
    · intro h
      obtain ⟨k, hk, h0⟩ := h hz
      exact ⟨k, hk, Nat.zero_le k, h0⟩

/-- the array with the caller's arguments in it -/
def argBuf (src : Pid) (s : State) (msg : Msg) : Buffer := fun i =>
  if i < msg.bufLen.toNat then s.mem ((va2la src msg.buf.toNat + i) % 2 ^ 32) else s.stackcopy i

/-- **The arguments**: they have to fit into the array, with a word that ends them. -/
theorem setupArgs_inside_iff (src : Pid) (s : State) (msg : Msg) (pathname : List Byte)
    (log : List Access) : (∀ a ∈ (setupArgs src s msg pathname log).log, a.Inside src) ↔
      (∀ a ∈ log, a.Inside src) ∧ msg.bufLen.toNat ≤ PROC_ORIGIN_STACK ∧
        (msg.bufLen.toNat ≠ 0 →
          ∃ k < PROC_ORIGIN_STACK / 4, get32 (argBuf src s msg) (4 * k) = 0) := by
  have hfirst : (Access.stackcopy 0 msg.bufLen.toNat).Inside src ↔
      msg.bufLen.toNat ≤ PROC_ORIGIN_STACK := by
    show 0 + msg.bufLen.toNat ≤ PROC_ORIGIN_STACK ↔ _
    rw [Nat.zero_add]
  have h24 : (Access.mmbuf (mmbuf + 24) 4).Inside src := head_inside 24 4 (by decide) (by decide)
  have himage : msg.bufLen.toNat ≤ PROC_ORIGIN_STACK →
      (Access.image (va2la src origStack) msg.bufLen.toNat).Inside src := by
    intro hle
    rcases Nat.eq_zero_or_pos msg.bufLen.toNat with hz | hpos
    · rw [hz]
      exact within_zero
    · rw [image_inside_iff (by decide) hpos]
      unfold origStack PROC_IMAGE_SIZE_DEFAULT
      unfold PROC_ORIGIN_STACK at hle ⊢
      omega
  obtain ⟨hloop, hsome⟩ := argLoop_spec src msg.bufLen.toNat
    ((origStack + 2 ^ 32 - msg.buf.toNat) % 2 ^ 32) (argBuf src s msg)
  rw [← hloop, ← hfirst]
  generalize ht : argLoop msg.bufLen.toNat ((origStack + 2 ^ 32 - msg.buf.toNat) % 2 ^ 32)
    (argBuf src s msg) = t at hsome ⊢
  obtain ⟨stk, log', argc⟩ := t
  cases argc with
  | none =>
    have hlog : (setupArgs src s msg pathname log).log =
        log ++ [.stackcopy 0 msg.bufLen.toNat] ++ log' := by
      unfold setupArgs
      unfold argBuf at ht
      simp only [ht]
    rw [hlog, List.forall_mem_append, List.forall_mem_append, List.forall_mem_singleton, and_assoc]
  | some argc =>
    have hlog : (setupArgs src s msg pathname log).log =
        log ++ [.stackcopy 0 msg.bufLen.toNat] ++ log' ++
          [.image (va2la src origStack) msg.bufLen.toNat, .stackcopy 0 msg.bufLen.toNat,
            .mmbuf (mmbuf + 24) 4] := by
      unfold setupArgs
      unfold argBuf at ht
      simp only [ht]
    rw [hlog, List.forall_mem_append, List.forall_mem_append, List.forall_mem_append,
      List.forall_mem_singleton, and_assoc, and_assoc]
    refine and_congr_right fun _ => and_congr_right fun hfit => and_iff_left ?_
    intro a ha
    simp only [List.mem_cons, List.not_mem_nil, or_false] at ha
    rcases ha with rfl | rfl | rfl
    · exact himage (hfirst.mp hfit)
    · exact hfit
    · exact h24

theorem setupArgs_result (src : Pid) (s : State) (msg : Msg) (pathname : List Byte)
    (log : List Access) : (setupArgs src s msg pathname log).result ≠ some (-1) := by
  unfold setupArgs
  dsimp only
  split
  · exact nofun
  · exact fun h => absurd (Option.some.inj h) (by decide)

end

/-! ## the whole call -/

section
variable {src : Pid} {s : State} {msg : Msg} {files : Files} {bytes : List Byte} {m : Buffer}
  {log log' : List Access}

/-- the three uses of `pathname`, and the file in `mmbuf` -/
theorem pathLog_inside (src : Pid) (msg : Msg) : ∀ a ∈ ([.pathname 0 msg.name.length,
    .pathname msg.name.length 1, .pathname 0 ((cString msg.name).length + 1)] : List Access),
    a.Inside src := by
  have hname := msg.name_lt
  have hcut : (cString msg.name).length ≤ msg.name.length :=
    (List.takeWhile_sublist _).length_le
  have hin : ∀ o n, o + n ≤ MAX_PATH → (Access.pathname o n).Inside src := fun o n h => h
  simp only [List.forall_mem_cons]
  exact ⟨hin _ _ (by omega), hin _ _ (by omega), hin _ _ (by omega), List.forall_mem_nil _⟩

theorem readLog_inside (h : bytes.length < MMBUF_SIZE) :
    (Access.mmbuf mmbuf bytes.length).Inside src := by
  rcases Nat.eq_zero_or_pos bytes.length with hz | hpos
  · rw [hz]
    exact within_zero
  · rw [mmbuf_inside_iff src (by decide) hpos]
    omega

/-- a call that comes to its end before anything is copied -/
theorem Confined.early {result : Option Int} (hl : ∀ a ∈ log, a.Inside src) :
    Confined src s ⟨s, log, result⟩ := ⟨hl, fun _ => rfl⟩

/-- the words of the array are those of `argWord` -/
theorem argBuf_placed (k : Nat) :
    get32 (argBuf src { s with mem := placed src m (phnum m) } msg) (4 * k) =
      argWord src s msg m k := rfl

/-- what is left of `do_exec` when the file is in `mmbuf` -/
theorem rest_confined_iff (out : Out) (hlog : ∀ a ∈ log, a.Inside src)
    (hout : out = match loadSegs src m 0 with
      | (mem, log', false) => ⟨{ s with mem := mem }, log ++ log', none⟩
      | (mem, log', true) => setupArgs src { s with mem := mem } msg (cString msg.name)
          (log ++ log')) :
    Confined src s out ↔ Tame src s msg m := by
  have hspec := loadSegs_spec src m 0 (Nat.zero_le _) fun j hj => absurd hj (Nat.not_lt_zero j)
  rw [placed_zero] at hspec
  subst hout
  generalize loadSegs src m 0 = r at hspec
  obtain ⟨mem, log', passed⟩ := r
  have hloop : (∀ a ∈ log ++ log', a.Inside src) ↔ AllGood m := by
    rw [List.forall_mem_append, ← hspec.inside]
    exact and_iff_right hlog
  cases passed with
  | false =>
    constructor
    · intro hc
      have hall := hloop.mp hc.inside
      exact ⟨hall, fun hp => nomatch (hspec.passed hall).mpr hp⟩
    · intro ht
      exact ⟨hloop.mpr ht.headers, nofun⟩
  | true =>
    have hargs := setupArgs_inside_iff src { s with mem := mem } msg (cString msg.name) (log ++ log')
    rw [hloop] at hargs
    constructor
    · intro hc
      obtain ⟨hall, hfit, hword⟩ := hargs.mp hc.inside
      obtain rfl := hspec.mem hall rfl
      exact ⟨hall, fun _ => ⟨hfit, hword⟩⟩
    · intro ht
      obtain rfl := hspec.mem ht.headers rfl
      obtain ⟨hfit, hword⟩ := ht.args ((hspec.passed ht.headers).mp rfl)
      exact ⟨hargs.mpr ⟨ht.headers, hfit, hword⟩, fun hr => (setupArgs_result _ _ _ _ _ hr).elim⟩

/-- **`do_exec` is confined if and only if the file and the message are tame**, when it comes to the
file at all. -/
theorem doExec_confined (src : Pid) (s : State) (msg : Msg) (files : Files) :
    Confined src s (doExec src s msg files) ↔
      ∀ bytes, files.stat (cString msg.name) = some bytes → files.opens (cString msg.name) = true →
        bytes.length < MMBUF_SIZE → Tame src s msg (readFile s.mem bytes) := by
  have hpath := pathLog_inside src msg
  unfold doExec
  rw [if_pos msg.name_lt]
  dsimp only
  cases hstat : files.stat (cString msg.name) with
  | none => exact ⟨fun _ _ => nofun, fun _ => Confined.early hpath⟩
  | some bytes =>
    dsimp only
    by_cases hopen : files.opens (cString msg.name) = true
    · rw [if_neg (not_not.mpr hopen)]
      by_cases hlen : bytes.length < MMBUF_SIZE
      · rw [if_pos hlen]
        have hlog := List.forall_mem_append.mpr
          ⟨hpath, List.forall_mem_singleton.mpr (readLog_inside hlen)⟩
        rw [rest_confined_iff _ hlog rfl]
        constructor
        · rintro ht _ ⟨⟩ _ _
          exact ht
        · intro h
          exact h bytes rfl hopen hlen
      · rw [if_neg hlen]
        refine ⟨?_, fun _ => Confined.early hpath⟩
        rintro - _ ⟨⟩ - h
        exact absurd h hlen
    · rw [if_pos hopen]
      exact ⟨fun _ _ _ h => absurd h hopen, fun _ => Confined.early hpath⟩

end

theorem slashA_lt : ([0x2F, 0x61] : List Byte).length < MAX_PATH := by decide

/-- a message with an argument buffer of 2000 bytes -/
def longArgs : Msg where
  name := [0x2F, 0x61]
  name_lt := slashA_lt
  buf := 0
  bufLen := 2000

/-- a memory of zeros, and an empty file -/
def zeros : State := ⟨fun _ => 0, ⟨0, 0, 0, 0⟩, [], fun _ => 0⟩
def emptyFile : Files := ⟨fun _ => some [], fun _ => true⟩

/-- the arguments run over the end of `stackcopy` -/
theorem doExec_fails : ¬ ∀ src s msg files, Confined src s (doExec src s msg files) := by
  intro hall
  have hc := hall 12 zeros longArgs emptyFile
  have hlog := List.forall_mem_append.mpr ⟨pathLog_inside 12 longArgs,
    List.forall_mem_singleton.mpr (readLog_inside (show [].length < MMBUF_SIZE by decide))⟩
  have ht := (rest_confined_iff (s := zeros) (m := readFile zeros.mem []) _ hlog rfl).mp hc
  have hz : phnum (readFile zeros.mem []) = 0 := rfl
  have hfit := (ht.args fun i hi => absurd hi (by omega)).1
  exact absurd hfit (by decide)

end Noxis.Mm
