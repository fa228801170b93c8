import Noxis.Mm.Exec

/-!
# 25-osfs11/lib/exec.c: the arguments of a program

`execv` lays the arguments out in an array of its own; `do_exec` takes the block from there, moves
its pointers, and puts it at the end of the new image.

* `execv`            the block: the pointers, a word 0, the strings
* `doExec_spec`      what a call that succeeds leaves in the memory and in the registers
* `Started`          the program starts with its arguments
* `survive_iff`      **it does if and only if the segments of the file leave such a block in the
                     array of the caller**, which they do where they change no byte of it
-/

namespace Noxis.Mm

open Ipc (Pid)
open Fs (cString MAX_PATH)
open Linear

/-! ## strings -/

/-- a string of C: no byte of it is 0 -/
structure CStr where
  bytes : List Byte
  ne : ∀ b ∈ bytes, b ≠ 0

def CStr.strlen (s : CStr) : Nat := s.bytes.length

/-- the string is at `a`, with the 0 behind it -/
def Spells (mem : Buffer) (a : Nat) (s : CStr) : Prop :=
  ∀ j ≤ s.strlen, mem (a + j) = s.bytes.getD j 0

def strcpy (mem : Buffer) (a : Nat) (s : CStr) : Buffer :=
  physCopy mem a (fun i => s.bytes.getD i 0) 0 (s.strlen + 1)

/-! ## execv -/

/-- the first loop: `stack_len` behind the pointers; no result if an assertion fails -/
def countPtrs : List CStr → Nat → Option Nat
  | [], stackLen => some stackLen
  | _ :: argv, stackLen =>
    if stackLen + 2 * 4 < PROC_ORIGIN_STACK then countPtrs argv (stackLen + 4) else none

/-- the second loop, with `arg_stack` at `buf`: the array and `stack_len` -/
def fillArgs (buf : Nat) : List CStr → Nat → Nat → Buffer → Option (Buffer × Nat)
  | [], _, stackLen, argStack => some (argStack, stackLen)
  | p :: argv, q, stackLen, argStack =>
    let argStack := put32 argStack q (buf + stackLen)
    if stackLen + p.strlen + 1 < PROC_ORIGIN_STACK then
      let argStack := strcpy argStack stackLen p
      let stackLen := stackLen + p.strlen
      fillArgs buf argv (q + 4) (stackLen + 1) (Function.update argStack stackLen 0)
    else none

/-- what `execv` has in `arg_stack` and in `stack_len` when it sends -/
def execv (buf : Nat) (argv : List CStr) (argStack : Buffer) : Option (Buffer × Nat) :=
  match countPtrs argv 0 with
  | none => none
  | some stackLen => fillArgs buf argv 0 (stackLen + 4) (put32 argStack stackLen 0)

/-- how far string `i` is from the first one -/
def strOff : List CStr → Nat → Nat
  | p :: argv, i + 1 => p.strlen + 1 + strOff argv i
  | _, _ => 0

/-- all strings -/
def strsLen (argv : List CStr) : Nat := (argv.map fun p => p.strlen + 1).sum

section
variable {buf q stackLen len a i : Nat} {argv : List CStr} {b argStack : Buffer} {p : CStr}

theorem strcpy_spells : Spells (strcpy b a p) a p := by
  intro j hj
  show physCopy b a _ 0 (p.strlen + 1) (a + j) = _
  rw [physCopy_mem (by omega), Nat.zero_add]

/-- the same bytes at another place -/
theorem Spells.congr {b' : Buffer} {a' : Nat} (h : Spells b a p)
    (hb : ∀ j ≤ p.strlen, b' (a' + j) = b (a + j)) : Spells b' a' p :=
  fun j hj => (hb j hj).trans (h j hj)

theorem strcpy_not_mem {k : Nat} (h : ¬ (a ≤ k ∧ k < a + (p.strlen + 1))) : strcpy b a p k = b k :=
  physCopy_not_mem h

/-- the assignment of 0 behind the string changes nothing -/
theorem strcpy_end : Function.update (strcpy b a p) (a + p.strlen) 0 = strcpy b a p := by
  have h0 : strcpy b a p (a + p.strlen) = 0 :=
    (strcpy_spells p.strlen (le_refl _)).trans (List.getD_eq_default _ _ (le_refl p.bytes.length))
  rw [← h0]
  exact Function.update_eq_self ..

theorem countPtrs_spec (h : countPtrs argv stackLen = some len) :
    len = stackLen + 4 * argv.length := by
  induction argv generalizing stackLen with
  | nil => exact (Option.some.inj h).symm
  | cons p argv ih =>
    unfold countPtrs at h
    split at h
    · have := ih h
      rw [List.length_cons]
      omega
    · cases h

/-- the second loop leaves the strings one behind the other, and a pointer to each -/
structure Filled (buf : Nat) (argv : List CStr) (q stackLen : Nat) (argStack : Buffer)
    (r : Buffer × Nat) : Prop where
  len : r.2 = stackLen + strsLen argv
  words : ∀ i < argv.length, get32 r.1 (q + 4 * i) = (buf + (stackLen + strOff argv i)) % 2 ^ 32
  strings : ∀ i, ∀ hi : i < argv.length, Spells r.1 (stackLen + strOff argv i) argv[i]
  same : ∀ a < stackLen, ¬ (q ≤ a ∧ a < q + 4 * argv.length) → r.1 a = argStack a

theorem fillArgs_spec {r : Buffer × Nat} (hq : q + 4 * argv.length ≤ stackLen)
    (h : fillArgs buf argv q stackLen argStack = some r) :
    Filled buf argv q stackLen argStack r := by
  induction argv generalizing q stackLen argStack with
  | nil =>
    obtain rfl := Option.some.inj h
    exact ⟨rfl, fun i hi => absurd hi (Nat.not_lt_zero i), fun i hi => absurd hi (Nat.not_lt_zero i),
      fun a _ _ => rfl⟩
  | cons p argv ih =>
    rw [List.length_cons] at hq
    unfold fillArgs at h
    dsimp only at h
    split at h
    · rw [strcpy_end] at h
      generalize hstk : strcpy (put32 argStack q (buf + stackLen)) stackLen p = stk at h
      have hr := ih (by omega) h
      -- the rest stays away from this pointer and from this string
      have hptr : ∀ j < 4, r.1 (q + j) = put32 argStack q (buf + stackLen) (q + j) := by
        intro j hj
        rw [hr.same (q + j) (by omega) (by omega), ← hstk]
        exact strcpy_not_mem (by omega)
      have hstr : Spells r.1 stackLen p := by
        refine Spells.congr (hstk ▸ strcpy_spells) fun j hj => ?_
        exact hr.same (stackLen + j) (by omega) (by omega)
      refine ⟨?_, ?_, ?_, ?_⟩
      · have hlen := hr.len
        show _ = stackLen + (p.strlen + 1 + strsLen argv)
        omega
      · intro i hi
        cases i with
        | zero => exact (get32_congr hptr).trans (get32_put32 ..)
        | succ i =>
          have hw := hr.words i (Nat.lt_of_succ_lt_succ hi)
          have hpos : q + 4 * (i + 1) = q + 4 + 4 * i := by omega
          have hoff : stackLen + (p.strlen + 1 + strOff argv i) =
              stackLen + p.strlen + 1 + strOff argv i := by omega
          show _ = (buf + (stackLen + (p.strlen + 1 + strOff argv i))) % 2 ^ 32
          rw [hpos, hoff]
          exact hw
      · intro i hi
        cases i with
        | zero => exact hstr
        | succ i =>
          have hi' : i < argv.length := Nat.lt_of_succ_lt_succ hi
          have hs := hr.strings i hi'
          have hoff : stackLen + (p.strlen + 1 + strOff argv i) =
              stackLen + p.strlen + 1 + strOff argv i := by omega
          show Spells r.1 (stackLen + (p.strlen + 1 + strOff argv i)) argv[i]
          rw [hoff]
          exact hs
      · intro a ha hout
        rw [List.length_cons] at hout
        rw [hr.same a (by omega) (by omega), ← hstk]
        exact (strcpy_not_mem (by omega)).trans (put32_not_mem (by omega))
    · cases h

/-- the strings fit -/
theorem fillArgs_lt {r : Buffer × Nat} (hs : stackLen < PROC_ORIGIN_STACK)
    (h : fillArgs buf argv q stackLen argStack = some r) : r.2 < PROC_ORIGIN_STACK := by
  induction argv generalizing q stackLen argStack with
  | nil =>
    obtain rfl := Option.some.inj h
    exact hs
  | cons p argv ih =>
    unfold fillArgs at h
    dsimp only at h
    split at h
    · exact ih (by omega) h
    · cases h

theorem countPtrs_lt (hs : stackLen + 4 < PROC_ORIGIN_STACK)
    (h : countPtrs argv stackLen = some len) : len + 4 < PROC_ORIGIN_STACK := by
  induction argv generalizing stackLen with
  | nil => exact Option.some.inj h ▸ hs
  | cons p argv ih =>
    unfold countPtrs at h
    split at h
    · exact ih (by omega) h
    · cases h

/-- a string ends before the last one does -/
theorem strOff_lt (argv : List CStr) (i : Nat) (hi : i < argv.length) :
    strOff argv i + argv[i].strlen < strsLen argv := by
  induction argv generalizing i with
  | nil => exact absurd hi (Nat.not_lt_zero i)
  | cons p argv ih =>
    have hsum : strsLen (p :: argv) = p.strlen + 1 + strsLen argv := rfl
    rw [hsum]
    cases i with
    | zero =>
      show 0 + p.strlen < _
      omega
    | succ i =>
      have hi' : i < argv.length := Nat.lt_of_succ_lt_succ hi
      have := ih i hi'
      show p.strlen + 1 + strOff argv i + argv[i].strlen < _
      omega

/-- where the strings start in the array -/
def strsAt (argv : List CStr) : Nat := 4 * argv.length + 4

/-- **The block of `execv`.** -/
structure Block (buf : Nat) (argv : List CStr) (r : Buffer × Nat) : Prop where
  len : r.2 = strsAt argv + strsLen argv
  fits : r.2 < PROC_ORIGIN_STACK
  words : ∀ i < argv.length, get32 r.1 (4 * i) = (buf + (strsAt argv + strOff argv i)) % 2 ^ 32
  last : get32 r.1 (4 * argv.length) = 0
  strings : ∀ i, ∀ hi : i < argv.length, Spells r.1 (strsAt argv + strOff argv i) argv[i]

theorem execv_spec {r : Buffer × Nat} (h : execv buf argv argStack = some r) : Block buf argv r := by
  unfold execv at h
  cases hc : countPtrs argv 0 with
  | none =>
    rw [hc] at h
    cases h
  | some stackLen =>
    rw [hc] at h
    have hcount := countPtrs_spec hc
    have hlt := countPtrs_lt (by decide) hc
    rw [Nat.zero_add] at hcount
    have hf := fillArgs_spec (by omega) h
    have hat : stackLen + 4 = strsAt argv := by
      rw [hcount]
      rfl
    rw [hat] at hf
    refine ⟨hf.len, fillArgs_lt hlt h, fun i hi => ?_, ?_, hf.strings⟩
    · rw [← hf.words i hi, Nat.zero_add]
    · -- the word 0 is below the strings and behind the pointers
      have hword : get32 r.1 (4 * argv.length) = get32 (put32 argStack stackLen 0) stackLen := by
        refine (get32_congr fun j hj => ?_).trans (congrArg (get32 _) hcount.symm)
        refine hf.same (4 * argv.length + j) ?_ (by omega)
        unfold strsAt
        omega
      rw [hword, get32_put32, Nat.zero_mod]

end

/-! ## do_exec moves the pointers -/

/-- the words `lo` to `hi - 1` are moved by `delta` -/
def moved (delta lo hi : Nat) (stk : Buffer) : Buffer := fun a =>
  if 4 * lo ≤ a ∧ a < 4 * hi then
    BitVec.ofNat 8 ((get32 stk (4 * (a / 4)) + delta) % 2 ^ 32 / 256 ^ (a % 4))
  else stk a

section
variable {delta lo hi n argc e a i : Nat} {stk : Buffer}

theorem moved_not_mem (h : ¬ (4 * lo ≤ a ∧ a < 4 * hi)) : moved delta lo hi stk a = stk a :=
  if_neg h

theorem moved_self : moved delta lo lo stk = stk := by
  funext a
  exact moved_not_mem (by omega)

/-- the first word, then the others -/
theorem moved_put32 (h : lo < hi) :
    moved delta (lo + 1) hi (put32 stk (4 * lo) ((get32 stk (4 * lo) + delta) % 2 ^ 32)) =
      moved delta lo hi stk := by
  funext a
  by_cases hin : 4 * (lo + 1) ≤ a ∧ a < 4 * hi
  · have hword : get32 (put32 stk (4 * lo) ((get32 stk (4 * lo) + delta) % 2 ^ 32)) (4 * (a / 4)) =
        get32 stk (4 * (a / 4)) := get32_put32_ne (by omega)
    unfold moved
    rw [if_pos hin, if_pos (by omega), hword]
  · rw [moved_not_mem hin]
    by_cases hfirst : 4 * lo ≤ a ∧ a < 4 * lo + 4
    · have hdiv : a / 4 = lo := by omega
      have hmod : a - 4 * lo = a % 4 := by omega
      unfold moved put32
      rw [if_pos hfirst, if_pos (by omega), hdiv, hmod]
    · rw [put32_not_mem hfirst, moved_not_mem (by omega)]

theorem get32_moved (h1 : lo ≤ i) (h2 : i < hi) :
    get32 (moved delta lo hi stk) (4 * i) = (get32 stk (4 * i) + delta) % 2 ^ 32 := by
  have hword : ∀ j < 4, moved delta lo hi stk (4 * i + j) =
      put32 stk (4 * i) ((get32 stk (4 * i) + delta) % 2 ^ 32) (4 * i + j) := by
    intro j hj
    have hdiv : (4 * i + j) / 4 = i := by omega
    have hmod : (4 * i + j) % 4 = j := by omega
    unfold moved
    rw [if_pos (by omega), put32_mem hj, hdiv, hmod]
  rw [get32_congr hword, get32_put32, Nat.mod_mod]

/-- **The loop ends at the first word 0**, and all words before it are moved. -/
theorem relocate_some (h : (relocate delta n argc stk).2.2 = some e) :
    (argc ≤ e ∧ e < argc + n ∧ get32 stk (4 * e) = 0 ∧
      ∀ k, argc ≤ k → k < e → get32 stk (4 * k) ≠ 0) ∧
    (relocate delta n argc stk).1 = moved delta argc e stk := by
  induction n generalizing argc stk with
  | zero => cases h
  | succ n ih =>
    by_cases h0 : get32 stk (4 * argc) = 0
    · have hr : relocate delta (n + 1) argc stk = (stk, [.stackcopy (4 * argc) 4], some argc) :=
        if_pos h0
      rw [hr] at h ⊢
      obtain rfl := Option.some.inj h
      exact ⟨⟨le_refl _, by omega, h0, fun k h1 h2 => absurd h2 (by omega)⟩, moved_self.symm⟩
    · generalize hput : put32 stk (4 * argc) ((get32 stk (4 * argc) + delta) % 2 ^ 32) = stk'
      have hr : relocate delta (n + 1) argc stk = ((relocate delta n (argc + 1) stk').1,
          .stackcopy (4 * argc) 4 :: (relocate delta n (argc + 1) stk').2.1,
          (relocate delta n (argc + 1) stk').2.2) := by
        rw [← hput]
        exact if_neg h0
      rw [hr] at h ⊢
      obtain ⟨⟨h1, h2, hz, hne⟩, hmem⟩ := ih h
      have hword : ∀ k, argc < k → get32 stk' (4 * k) = get32 stk (4 * k) := by
        intro k hk
        rw [← hput]
        exact get32_put32_ne (by omega)
      refine ⟨⟨by omega, by omega, (hword e (by omega)).symm.trans hz, ?_⟩, ?_⟩
      · intro k hk1 hk2
        rcases Nat.eq_or_lt_of_le hk1 with rfl | hlt
        · exact h0
        · rw [← hword k hlt]
          exact hne k hlt hk2
      · show (relocate delta n (argc + 1) stk').1 = _
        rw [hmem, ← hput]
        exact moved_put32 (by omega)

end

/-! ## a call that succeeds -/

/-- the call returns 0, and has stayed in the caller's memory and in the buffers of MM: nothing is
said of a call that has written elsewhere -/
structure Succeeds (src : Pid) (out : Out) : Prop where
  result : out.result = some 0
  inside : ∀ a ∈ out.log, a.Inside src

/-- what that takes -/
structure Ready (src : Pid) (s : State) (msg : Msg) (files : Files) (bytes : List Byte) : Prop where
  stat : files.stat (cString msg.name) = some bytes
  opens : files.opens (cString msg.name) = true
  len : bytes.length < MMBUF_SIZE
  tame : Tame src s msg (readFile s.mem bytes)
  passes : ∀ i < phnum (readFile s.mem bytes), Passes (readFile s.mem bytes) i

/-- the array with the caller's arguments, as the segments have left them; `m` is the memory with the
file in `mmbuf` -/
def argBlock (src : Pid) (s : State) (msg : Msg) (m : Buffer) : Buffer :=
  argBuf src { s with mem := placed src m (phnum m) } msg

/-- the pointers before the first word 0 -/
def argcOf (len : Nat) (stk : Buffer) : Nat :=
  if len = 0 then 0
  else (List.range (PROC_ORIGIN_STACK / 4)).findIdx fun k => decide (get32 stk (4 * k) = 0)

def argDelta (msg : Msg) : Nat := (origStack + 2 ^ 32 - msg.buf.toNat) % 2 ^ 32

/-- the array when the pointers are moved -/
def argsMoved (src : Pid) (s : State) (msg : Msg) (m : Buffer) : Buffer :=
  moved (argDelta msg) 0 (argcOf msg.bufLen.toNat (argBlock src s msg m)) (argBlock src s msg m)

/-- the caller's memory, from address 0 of the caller on -/
def image (src : Pid) (s : State) : Buffer := fun va => s.mem (segBase src + va)

section
variable {src : Pid} {s : State} {msg : Msg} {files : Files} {bytes pathname : List Byte}
  {m stk : Buffer} {log : List Access} {len delta e : Nat}

theorem argcOf_iff (hlen : len ≠ 0) (he : e < PROC_ORIGIN_STACK / 4) : argcOf len stk = e ↔
    get32 stk (4 * e) = 0 ∧ ∀ k < e, get32 stk (4 * k) ≠ 0 := by
  unfold argcOf
  rw [if_neg hlen, List.findIdx_eq (by rw [List.length_range]; exact he)]
  simp only [List.getElem_range, decide_eq_true_eq, decide_eq_false_iff_not]

/-- the loop over the pointers, where there is a word 0 -/
theorem argLoop_some (h : (argLoop len delta stk).2.2 ≠ none) :
    (argLoop len delta stk).1 = moved delta 0 (argcOf len stk) stk ∧
      (argLoop len delta stk).2.2 = some (argcOf len stk) := by
  by_cases hz : len = 0
  · have hr : argLoop len delta stk = (stk, [], some 0) := if_pos hz
    have hargc : argcOf len stk = 0 := if_pos hz
    rw [hr, hargc]
    exact ⟨moved_self.symm, rfl⟩
  · have hr : argLoop len delta stk = relocate delta (PROC_ORIGIN_STACK / 4) 0 stk := if_neg hz
    rw [hr] at h ⊢
    obtain ⟨e, he⟩ := Option.ne_none_iff_exists'.mp h
    obtain ⟨⟨-, hlt, h0, hne⟩, hmem⟩ := relocate_some he
    rw [Nat.zero_add] at hlt
    have hargc := (argcOf_iff hz hlt).mpr ⟨h0, fun k hk => hne k (Nat.zero_le k) hk⟩
    rw [hargc]
    exact ⟨hmem, he⟩

/-- what `setup the arg stack` leaves, with the array in `stk` -/
structure Leaves (src : Pid) (mem : Buffer) (len delta : Nat) (stk : Buffer) (st : State) : Prop where
  argc : st.regs.ecx = argcOf len stk
  argv : st.regs.eax = origStack
  image : ∀ va < PROC_IMAGE_SIZE_DEFAULT, image src st va =
    if origStack ≤ va ∧ va < origStack + len then
      moved delta 0 (argcOf len stk) stk (va - origStack)
    else mem (segBase src + va)

theorem setupArgs_leaves (pathname : List Byte) (log : List Access)
    (hfit : msg.bufLen.toNat ≤ PROC_ORIGIN_STACK)
    (hloop : (argLoop msg.bufLen.toNat (argDelta msg) (argBuf src s msg)).2.2 ≠ none) :
    (setupArgs src s msg pathname log).result = some 0 ∧
      Leaves src s.mem msg.bufLen.toNat (argDelta msg) (argBuf src s msg)
        (setupArgs src s msg pathname log).state := by
  obtain ⟨hstk, hargc⟩ := argLoop_some hloop
  generalize ht : argLoop msg.bufLen.toNat (argDelta msg) (argBuf src s msg) = t at hstk hargc
  obtain ⟨stk, log', argc⟩ := t
  obtain rfl : argc = _ := hargc
  obtain rfl : stk = _ := hstk
  unfold argDelta argBuf at ht
  have hd : va2la src origStack = segBase src + origStack := by
    obtain ⟨-, hb⟩ := segBase_spec src
    unfold va2la origStack PROC_IMAGE_SIZE_DEFAULT PROC_ORIGIN_STACK
    exact Nat.mod_eq_of_lt (by omega)
  unfold setupArgs
  simp only [ht]
  refine ⟨trivial, rfl, rfl, fun va hva => ?_⟩
  show (if (segBase src + va + 2 ^ 32 - va2la src origStack) % 2 ^ 32 < msg.bufLen.toNat then _
    else s.mem (segBase src + va)) = _
  rw [hd]
  unfold PROC_IMAGE_SIZE_DEFAULT at hva
  unfold PROC_ORIGIN_STACK at hfit
  by_cases hin : origStack ≤ va ∧ va < origStack + msg.bufLen.toNat
  · have hoff : (segBase src + va + 2 ^ 32 - (segBase src + origStack)) % 2 ^ 32 = va - origStack := by
      omega
    rw [hoff, if_pos (by omega), if_pos hin]
    rfl
  · have hout : ¬ (segBase src + va + 2 ^ 32 - (segBase src + origStack)) % 2 ^ 32 <
        msg.bufLen.toNat := by
      unfold origStack PROC_IMAGE_SIZE_DEFAULT PROC_ORIGIN_STACK at *
      omega
    rw [if_neg hout, if_neg hin]

/-- what is left of `do_exec` when the file is in `mmbuf` -/
theorem rest_ready (hlog : ∀ a ∈ log, a.Inside src) (ht : Tame src s msg m)
    (hp : ∀ i < phnum m, Passes m i) (out : Out)
    (hout : out = match loadSegs src m 0 with
      | (mem, log', false) => ⟨{ s with mem := mem }, log ++ log', none⟩
      | (mem, log', true) => setupArgs src { s with mem := mem } msg (cString msg.name)
          (log ++ log')) :
    Succeeds src out ∧ Leaves src (placed src m (phnum m)) msg.bufLen.toNat (argDelta msg)
      (argBlock src s msg m) out.state := by
  have hspec := loadSegs_spec src m 0 (Nat.zero_le _) fun j hj => absurd hj (Nat.not_lt_zero j)
  rw [placed_zero] at hspec
  have hconf : Confined src s out := (rest_confined_iff out hlog hout).mpr ht
  have hpass := (hspec.passed ht.headers).mpr hp
  have hmem := hspec.mem ht.headers hpass
  generalize loadSegs src m 0 = r at hout hpass hmem
  obtain ⟨mem, log', passed⟩ := r
  obtain rfl : passed = true := hpass
  obtain rfl : mem = _ := hmem
  obtain rfl : out = setupArgs _ _ _ _ _ := hout
  obtain ⟨hfit, hword⟩ := ht.args hp
  have hloop := argLoop_spec src msg.bufLen.toNat (argDelta msg) (argBlock src s msg m)
  have hend := setupArgs_leaves (cString msg.name) (log ++ log') hfit (hloop.2 (hloop.1.mpr hword))
  exact ⟨⟨hend.1, hconf.inside⟩, hend.2⟩

/-- **When `do_exec` succeeds**, and what it leaves then. -/
theorem doExec_ready (h : Ready src s msg files bytes) :
    Succeeds src (doExec src s msg files) ∧
      Leaves src (placed src (readFile s.mem bytes) (phnum (readFile s.mem bytes)))
        msg.bufLen.toNat (argDelta msg) (argBlock src s msg (readFile s.mem bytes))
        (doExec src s msg files).state := by
  have hread : (Access.mmbuf mmbuf bytes.length).Inside src := readLog_inside h.len
  have hlog := List.forall_mem_append.mpr
    ⟨pathLog_inside src msg, List.forall_mem_singleton.mpr hread⟩
  refine rest_ready hlog h.tame h.passes _ ?_
  unfold doExec
  rw [if_pos msg.name_lt]
  dsimp only
  rw [h.stat]
  dsimp only
  rw [if_neg (not_not.mpr h.opens)]
  exact if_pos h.len

theorem Succeeds.ready (h : Succeeds src (doExec src s msg files)) :
    ∃ bytes, Ready src s msg files bytes := by
  have hconf : Confined src s (doExec src s msg files) :=
    ⟨h.inside, fun hr => absurd (hr.symm.trans h.result) (by decide)⟩
  have htame := (doExec_confined src s msg files).mp hconf
  have hres := h.result
  unfold doExec at hres
  rw [if_pos msg.name_lt] at hres
  dsimp only at hres
  cases hstat : files.stat (cString msg.name) with
  | none =>
    rw [hstat] at hres
    exact absurd (Option.some.inj hres) (by decide)
  | some bytes =>
    rw [hstat] at hres
    dsimp only at hres
    by_cases hopen : files.opens (cString msg.name) = true
    · rw [if_neg (not_not.mpr hopen)] at hres
      by_cases hlen : bytes.length < MMBUF_SIZE
      · rw [if_pos hlen] at hres
        have ht := htame bytes hstat hopen hlen
        have hspec := loadSegs_spec src (readFile s.mem bytes) 0 (Nat.zero_le _) fun j hj =>
          absurd hj (Nat.not_lt_zero j)
        rw [placed_zero] at hspec
        refine ⟨bytes, hstat, hopen, hlen, ht, (hspec.passed ht.headers).mp ?_⟩
        generalize loadSegs src (readFile s.mem bytes) 0 = r at hres
        obtain ⟨mem, log', passed⟩ := r
        cases passed with
        | false => cases hres
        | true => rfl
      · rw [if_neg hlen] at hres
        cases hres
    · rw [if_pos hopen] at hres
      exact absurd (Option.some.inj hres) (by decide)

end

/-! ## execv calls do_exec -/

/-- a process that calls `execv`, with its local array at `buf` -/
structure Call where
  src : Pid
  s : State
  argv : List CStr
  buf : Nat
  buf_inside : buf + PROC_ORIGIN_STACK ≤ PROC_IMAGE_SIZE_DEFAULT
  name : List Byte
  name_lt : name.length < MAX_PATH
  files : Files

/-- the memory and the message when `execv` sends, if its assertions hold -/
def Call.sent (c : Call) : Option (State × Msg) :=
  match execv c.buf c.argv fun i => image c.src c.s (c.buf + i) with
  | none => none
  | some (argStack, stackLen) =>
    some ({ c.s with
      mem := physCopy c.s.mem (segBase c.src + c.buf) argStack 0 PROC_ORIGIN_STACK },
      ⟨c.name, c.name_lt, BitVec.ofNat 32 c.buf, BitVec.ofNat 32 stackLen⟩)

/-- the new image starts with the arguments: `_start` calls `main` with `ecx` and `eax` -/
structure Started (src : Pid) (st : State) (argv : List CStr) : Prop where
  argc : st.regs.ecx = argv.length
  area : origStack ≤ st.regs.eax ∧ st.regs.eax < PROC_IMAGE_SIZE_DEFAULT
  args : ∀ i, ∀ hi : i < argv.length, ∃ p, get32 (image src st) (st.regs.eax + 4 * i) = p ∧
    origStack ≤ p ∧ p + argv[i].strlen < PROC_IMAGE_SIZE_DEFAULT ∧ Spells (image src st) p argv[i]
  last : get32 (image src st) (st.regs.eax + 4 * argv.length) = 0

/-- **The property.** -/
def Call.Survive (c : Call) : Prop := ∀ st msg, c.sent = some (st, msg) →
  Succeeds c.src (doExec c.src st msg c.files) →
    Started c.src (doExec c.src st msg c.files).state c.argv

/-- what the segments leave in the array of the caller, and behind the block in the place where it
goes -/
def leftBlock (src : Pid) (msg : Msg) (m : Buffer) : Buffer := fun i =>
  placed src m (phnum m)
    (segBase src + ((if i < msg.bufLen.toNat then msg.buf.toNat else origStack) + i))

/-- the words of a block point to the strings when they are moved -/
structure Names (msg : Msg) (argv : List CStr) (stk : Buffer) : Prop where
  args : ∀ i, ∀ hi : i < argv.length, get32 stk (4 * i) ≠ 0 ∧
    ∃ o, get32 stk (4 * i) = msg.buf.toNat + o ∧ o + argv[i].strlen < PROC_ORIGIN_STACK ∧
      Spells (moved (argDelta msg) 0 argv.length stk) o argv[i]
  last : get32 stk (4 * argv.length) = 0

/-- what the segments of the file leave in the array of the caller is such a block -/
def Call.Kept (c : Call) : Prop := ∀ st msg bytes, c.sent = some (st, msg) →
  Ready c.src st msg c.files bytes →
    Names msg c.argv (leftBlock c.src msg (readFile st.mem bytes))

/-- the segments of the file change no byte of the block -/
def Call.Untouched (c : Call) : Prop := ∀ st msg bytes, c.sent = some (st, msg) →
  Ready c.src st msg c.files bytes → ∀ i < msg.bufLen.toNat,
    leftBlock c.src msg (readFile st.mem bytes) i = image c.src st (c.buf + i)

section
variable {src : Pid} {c : Call} {st : State} {msg : Msg} {files : Files} {bytes : List Byte}
  {m stk : Buffer} {argv : List CStr} {a n e len : Nat}

/-- what `execv` sends -/
structure Call.Sent (c : Call) (st : State) (msg : Msg) (blk : Buffer) : Prop where
  block : Block c.buf c.argv (blk, msg.bufLen.toNat)
  buf : msg.buf.toNat = c.buf
  image : ∀ i < PROC_ORIGIN_STACK, image c.src st (c.buf + i) = blk i

theorem Call.sent_spec (h : c.sent = some (st, msg)) : ∃ blk, c.Sent st msg blk := by
  unfold Call.sent at h
  cases he : execv c.buf c.argv fun i => Mm.image c.src c.s (c.buf + i) with
  | none =>
    rw [he] at h
    cases h
  | some r =>
    rw [he] at h
    obtain ⟨blk, len⟩ := r
    cases h
    have hblock := execv_spec he
    have hbuf := c.buf_inside
    have hlt := hblock.fits
    unfold PROC_ORIGIN_STACK at hlt hbuf
    unfold PROC_IMAGE_SIZE_DEFAULT at hbuf
    have hlen : (BitVec.ofNat 32 len).toNat = len := by
      rw [BitVec.toNat_ofNat]
      exact Nat.mod_eq_of_lt (by omega)
    refine ⟨blk, ⟨?_, ?_, ?_⟩⟩
    · show Block c.buf c.argv (blk, (BitVec.ofNat 32 len).toNat)
      rw [hlen]
      exact hblock
    · show (BitVec.ofNat 32 c.buf).toNat = c.buf
      rw [BitVec.toNat_ofNat]
      exact Nat.mod_eq_of_lt (by omega)
    · intro i hi
      show physCopy _ _ blk 0 _ (segBase c.src + (c.buf + i)) = _
      rw [← Nat.add_assoc, physCopy_mem hi, Nat.zero_add]

theorem argWord_eq (k : Nat) : argWord src st msg m k = get32 (argBlock src st msg m) (4 * k) :=
  (argBuf_placed k).symm

theorem argBlock_left (hbuf : msg.buf.toNat + PROC_ORIGIN_STACK ≤ PROC_IMAGE_SIZE_DEFAULT)
    (hlen : msg.bufLen.toNat ≤ PROC_ORIGIN_STACK) (ha : a < msg.bufLen.toNat) :
    argBlock src st msg m a = leftBlock src msg m a := by
  obtain ⟨-, hb⟩ := segBase_spec src
  unfold PROC_IMAGE_SIZE_DEFAULT PROC_ORIGIN_STACK at *
  have haddr : (va2la src msg.buf.toNat + a) % 2 ^ 32 = segBase src + (msg.buf.toNat + a) := by
    unfold va2la
    omega
  unfold leftBlock
  rw [if_pos ha, ← haddr]
  exact if_pos ha

/-- a word of the block, as `do_exec` reads it -/
theorem argBlock_word (hbuf : msg.buf.toNat + PROC_ORIGIN_STACK ≤ PROC_IMAGE_SIZE_DEFAULT)
    (hlen : msg.bufLen.toNat ≤ PROC_ORIGIN_STACK) (hi : a + 4 ≤ msg.bufLen.toNat) :
    get32 (argBlock src st msg m) a = get32 (leftBlock src msg m) a :=
  get32_congr fun _ _ => argBlock_left hbuf hlen (by omega)

/-- `argc` is the number of the words before the first 0 -/
theorem argcOf_left_iff (hbuf : msg.buf.toNat + PROC_ORIGIN_STACK ≤ PROC_IMAGE_SIZE_DEFAULT)
    (hlen : msg.bufLen.toNat < PROC_ORIGIN_STACK) (hn : 4 * n + 4 ≤ msg.bufLen.toNat) :
    argcOf msg.bufLen.toNat (argBlock src st msg m) = n ↔
      get32 (leftBlock src msg m) (4 * n) = 0 ∧
        ∀ i < n, get32 (leftBlock src msg m) (4 * i) ≠ 0 := by
  have hle : n < PROC_ORIGIN_STACK / 4 := by
    unfold PROC_ORIGIN_STACK at *
    omega
  rw [argcOf_iff (by omega) hle, argBlock_word hbuf hlen.le hn]
  refine and_congr_right fun _ => forall₂_congr fun i hi => ?_
  rw [argBlock_word hbuf hlen.le (by omega)]

/-- the end of the new image, when the block ends its pointers where `execv` has put the word 0 -/
theorem Leaves.area (hl : Leaves src (placed src m (phnum m)) msg.bufLen.toNat (argDelta msg)
      (argBlock src st msg m) (doExec src st msg files).state)
    (hbuf : msg.buf.toNat + PROC_ORIGIN_STACK ≤ PROC_IMAGE_SIZE_DEFAULT)
    (hlen : msg.bufLen.toNat ≤ PROC_ORIGIN_STACK) (hn : 4 * n + 4 ≤ msg.bufLen.toNat)
    (hargc : argcOf msg.bufLen.toNat (argBlock src st msg m) = n) (ha : a < PROC_ORIGIN_STACK) :
    Mm.image src (doExec src st msg files).state (origStack + a) =
      moved (argDelta msg) 0 n (leftBlock src msg m) a := by
  have hva : origStack + a < PROC_IMAGE_SIZE_DEFAULT := by
    unfold origStack PROC_IMAGE_SIZE_DEFAULT PROC_ORIGIN_STACK at *
    omega
  rw [hl.image _ hva, hargc, Nat.add_sub_cancel_left]
  by_cases hin : a < msg.bufLen.toNat
  · rw [if_pos (by omega)]
    by_cases hp : 4 * 0 ≤ a ∧ a < 4 * n
    · unfold moved
      rw [if_pos hp, if_pos hp, argBlock_word hbuf hlen (by omega)]
    · rw [moved_not_mem hp, moved_not_mem hp]
      exact argBlock_left hbuf hlen hin
  · rw [if_neg (by omega), moved_not_mem (by omega)]
    unfold leftBlock
    rw [if_neg hin]

theorem Names.of_untouched {blk : Buffer} (hs : c.Sent st msg blk)
    (h : ∀ i < msg.bufLen.toNat, leftBlock src msg m i = blk i) :
    Names msg c.argv (leftBlock src msg m) := by
  have hlen : msg.bufLen.toNat = strsAt c.argv + strsLen c.argv := hs.block.len
  have hfits : msg.bufLen.toNat < PROC_ORIGIN_STACK := hs.block.fits
  have hbuf := c.buf_inside
  have hword : ∀ i ≤ c.argv.length, get32 (leftBlock src msg m) (4 * i) = get32 blk (4 * i) := by
    intro i hi
    refine get32_congr fun j hj => h _ ?_
    unfold strsAt at hlen
    omega
  refine ⟨fun i hi => ?_, (hword _ (le_refl _)).trans hs.block.last⟩
  have hoff := strOff_lt c.argv i hi
  have hval : get32 (leftBlock src msg m) (4 * i) =
      msg.buf.toNat + (strsAt c.argv + strOff c.argv i) := by
    rw [hword i (by omega), hs.block.words i hi, hs.buf]
    unfold PROC_ORIGIN_STACK PROC_IMAGE_SIZE_DEFAULT at *
    exact Nat.mod_eq_of_lt (by omega)
  refine ⟨?_, strsAt c.argv + strOff c.argv i, hval, by omega, ?_⟩
  · rw [hval]
    unfold strsAt
    omega
  · -- the strings are behind the words that are moved
    refine (hs.block.strings i hi).congr fun j hj => ?_
    rw [moved_not_mem (by unfold strsAt; omega)]
    exact h _ (by omega)

/-- the registers and the end of the image, and the block that was there -/
theorem Call.started_iff {blk : Buffer} (hs : c.Sent st msg blk)
    (hr : Ready c.src st msg c.files bytes) :
    Started c.src (doExec c.src st msg c.files).state c.argv ↔
      Names msg c.argv (leftBlock c.src msg (readFile st.mem bytes)) := by
  have hleaves := (doExec_ready hr).2
  have hlen : msg.bufLen.toNat = strsAt c.argv + strsLen c.argv := hs.block.len
  have hfits : msg.bufLen.toNat < PROC_ORIGIN_STACK := hs.block.fits
  have hbuf : msg.buf.toNat + PROC_ORIGIN_STACK ≤ PROC_IMAGE_SIZE_DEFAULT := hs.buf ▸ c.buf_inside
  have hn : 4 * c.argv.length + 4 ≤ msg.bufLen.toNat := by
    unfold strsAt at hlen
    omega
  generalize readFile st.mem bytes = m at hleaves ⊢
  have hargc : argcOf msg.bufLen.toNat (argBlock c.src st msg m) = c.argv.length ↔
      get32 (leftBlock c.src msg m) (4 * c.argv.length) = 0 ∧
        ∀ i < c.argv.length, get32 (leftBlock c.src msg m) (4 * i) ≠ 0 :=
    argcOf_left_iff hbuf hfits hn
  generalize hL : leftBlock c.src msg m = L at hargc
  -- once `argc` is right, the end of the image is the block with its pointers moved
  have harea : argcOf msg.bufLen.toNat (argBlock c.src st msg m) = c.argv.length →
      ∀ a < PROC_ORIGIN_STACK, image c.src (doExec c.src st msg c.files).state (origStack + a) =
        moved (argDelta msg) 0 c.argv.length L a := fun h a ha =>
    hL ▸ hleaves.area hbuf (by omega) hn h ha
  generalize (doExec c.src st msg c.files).state = st' at hleaves harea ⊢
  have heax := hleaves.argv
  have hsize : origStack + PROC_ORIGIN_STACK = PROC_IMAGE_SIZE_DEFAULT := by decide
  have hptr : argcOf msg.bufLen.toNat (argBlock c.src st msg m) = c.argv.length →
      ∀ i < c.argv.length, get32 (image c.src st') (origStack + 4 * i) =
        (get32 L (4 * i) + argDelta msg) % 2 ^ 32 := by
    intro h i hi
    rw [get32_shift, ← get32_moved (Nat.zero_le i) hi]
    exact get32_congr fun j hj => harea h _ (by omega)
  have hdelta : argDelta msg = origStack - msg.buf.toNat := by
    unfold argDelta origStack PROC_IMAGE_SIZE_DEFAULT PROC_ORIGIN_STACK at *
    omega
  have hle : msg.buf.toNat ≤ origStack := by omega
  have horig : origStack < 2 ^ 20 := by decide
  constructor
  · intro h
    have ha := hleaves.argc.symm.trans h.argc
    obtain ⟨hlast, hne⟩ := hargc.mp ha
    refine ⟨fun i hi => ?_, hlast⟩
    obtain ⟨p, hp, hlo, hhi, hspell⟩ := h.args i hi
    rw [heax, hptr ha i hi, hdelta] at hp
    have hlt := get32_lt L (4 * i)
    refine ⟨hne i hi, p - origStack, by omega, by omega, ?_⟩
    refine hspell.congr fun j hj => ?_
    rw [← harea ha _ (by omega)]
    congr 1
    omega
  · intro h
    have ha := hargc.mpr ⟨h.last, fun i hi => (h.args i hi).1⟩
    refine ⟨hleaves.argc.trans ha, ?_, fun i hi => ?_, ?_⟩
    · rw [heax]
      decide
    · obtain ⟨-, o, ho, hfit, hspell⟩ := h.args i hi
      refine ⟨origStack + o, ?_, by omega, by omega, ?_⟩
      · rw [heax, hptr ha i hi, hdelta, ho]
        unfold PROC_ORIGIN_STACK at hfit
        omega
      · refine hspell.congr fun j hj => ?_
        rw [Nat.add_assoc]
        exact harea ha _ (by omega)
    · rw [heax, get32_shift, ← h.last]
      refine get32_congr fun j hj => ?_
      show image c.src st' (origStack + (4 * c.argv.length + j)) = _
      rw [harea ha _ (by omega)]
      exact moved_not_mem (by omega)

/-- **The arguments survive if and only if the segments leave a block of them in the caller's array**,
and they do if they change no byte of it. -/
theorem survive_iff (c : Call) : (c.Survive ↔ c.Kept) ∧ (c.Untouched → c.Kept) := by
  refine ⟨⟨fun h st msg bytes hsent hr => ?_, fun h st msg hsent hok => ?_⟩,
    fun h st msg bytes hsent hr => ?_⟩
  · obtain ⟨blk, hs⟩ := Call.sent_spec hsent
    exact (c.started_iff hs hr).mp (h st msg hsent (doExec_ready hr).1)
  · obtain ⟨blk, hs⟩ := Call.sent_spec hsent
    obtain ⟨bytes, hr⟩ := hok.ready
    exact (c.started_iff hs hr).mpr (h st msg bytes hsent hr)
  · obtain ⟨blk, hs⟩ := Call.sent_spec hsent
    refine Names.of_untouched hs fun i hi => ?_
    rw [h st msg bytes hsent hr i hi]
    exact hs.image i (Nat.lt_trans hi hs.block.fits)

end

/-! ## the bytes of the file -/

/-- a file as a buffer -/
def fileBuf (bytes : List Byte) : Buffer := fun i => bytes.getD i 0

section
variable {mem : Buffer} {bytes : List Byte} {o : Nat}

theorem readFile_apply (h : o < bytes.length) : readFile mem bytes (mmbuf + o) = fileBuf bytes o := by
  unfold readFile
  rw [physCopy_mem h, Nat.zero_add]
  rfl

theorem get32_readFile (h : o + 4 ≤ bytes.length) :
    get32 (readFile mem bytes) (mmbuf + o) = get32 (fileBuf bytes) o := by
  rw [get32_shift]
  exact get32_congr fun j hj => readFile_apply (by omega)

theorem get16_readFile (h : o + 2 ≤ bytes.length) :
    get16 (readFile mem bytes) (mmbuf + o) = get16 (fileBuf bytes) o := by
  unfold get16
  rw [readFile_apply (by omega), Nat.add_assoc, readFile_apply (by omega)]

theorem phdrAt_readFile (h : o + 32 ≤ bytes.length) :
    phdrAt (readFile mem bytes) (mmbuf + o) = phdrAt (fileBuf bytes) o := by
  unfold phdrAt
  simp only [Nat.add_assoc]
  rw [get32_readFile (by omega), get32_readFile (by omega), get32_readFile (by omega),
    get32_readFile (by omega), get32_readFile (by omega)]

end

/-! ## a small program -/

/-- an executable with one segment: 4 bytes of the file, and 4 bytes more in the memory -/
def tinyElf : List Byte :=
  [0x7F, 0x45, 0x4C, 0x46, 1, 1, 1, 0, 0, 0, 0, 0, 0, 0, 0, 0, 2, 0, 3, 0, 1, 0, 0, 0,
    0, 0x20, 0, 0, 52, 0, 0, 0, 0, 0, 0, 0, 0, 0, 0, 0, 52, 0, 32, 0, 1, 0, 0, 0, 0, 0, 0, 0] ++
  [1, 0, 0, 0, 84, 0, 0, 0, 0, 0x20, 0, 0, 0, 0x20, 0, 0, 4, 0, 0, 0, 8, 0, 0, 0, 7, 0, 0, 0,
    0, 0x10, 0, 0] ++
  [0, 0, 0, 0]

def tinyFiles : Files := ⟨fun _ => some tinyElf, fun _ => true⟩

theorem tinyElf_phnum (mem : Buffer) : phnum (readFile mem tinyElf) = 1 :=
  get16_readFile (by decide)

theorem tinyElf_phdrAddr (mem : Buffer) : phdrAddr (readFile mem tinyElf) 0 = mmbuf + 52 := by
  unfold phdrAddr
  rw [get32_readFile (by decide), get16_readFile (by decide)]
  decide

theorem tinyElf_phdrAt (mem : Buffer) : phdrAt (readFile mem tinyElf) (mmbuf + 52) =
    ⟨PT_LOAD, 84, 0x2000, 4, 8⟩ :=
  phdrAt_readFile (by decide)

theorem tinyElf_allGood (mem : Buffer) : AllGood (readFile mem tinyElf) := by
  intro i hi _
  rw [tinyElf_phnum] at hi
  obtain rfl : i = 0 := by omega
  unfold Good HeaderInside Phdr.Inside
  rw [tinyElf_phdrAddr, tinyElf_phdrAt]
  decide

theorem tinyElf_passes (mem : Buffer) : ∀ i < phnum (readFile mem tinyElf),
    Passes (readFile mem tinyElf) i := by
  intro i hi
  rw [tinyElf_phnum] at hi
  obtain rfl : i = 0 := by omega
  unfold Passes
  rw [tinyElf_phdrAddr, tinyElf_phdrAt]
  decide

/-- the four bytes of the file are put to 0x2000 -/
theorem tinyElf_placed (src : Pid) (mem : Buffer) (a : Nat) :
    placed src (readFile mem tinyElf) (phnum (readFile mem tinyElf)) a =
      if segBase src + 0x2000 ≤ a ∧ a < segBase src + 0x2000 + 4 then
        readFile mem tinyElf (mmbuf + 84 + (a - (segBase src + 0x2000)))
      else readFile mem tinyElf a := by
  rw [tinyElf_phnum, placed_copy (by rw [tinyElf_phdrAddr, tinyElf_phdrAt])
    ⟨PT_LOAD, 84, 0x2000, 4, 8⟩ (by rw [tinyElf_phdrAddr, tinyElf_phdrAt]), placed_zero]

theorem tinyElf_zero (src : Pid) (mem : Buffer) : ∀ j < 4,
    placed src (readFile mem tinyElf) (phnum (readFile mem tinyElf)) (segBase src + (0x2000 + j)) =
      0 := by
  intro j hj
  have hzero : ∀ k < 4, fileBuf tinyElf (84 + k) = 0 := by decide
  have hlen : tinyElf.length = 88 := rfl
  rw [tinyElf_placed, if_pos (by omega), Nat.add_assoc, readFile_apply (by omega)]
  exact hzero _ (by omega)

/-- a process that runs it with one argument, from an array where its segment goes -/
def overwritten : Call where
  src := 12
  s := zeros
  argv := [⟨[0x61], by decide⟩]
  buf := 0x2000
  buf_inside := by decide
  name := [0x2F, 0x61]
  name_lt := slashA_lt
  files := tinyFiles

/-- the segment overwrites the pointer before the block is copied: `argc` is 0 -/
theorem survive_fails : ¬ ∀ c : Call, c.Survive := by
  intro hall
  have hkept := (survive_iff overwritten).1.mp (hall overwritten)
  obtain ⟨⟨st, msg⟩, hsent⟩ := Option.isSome_iff_exists.mp
    (show overwritten.sent.isSome = true from rfl)
  obtain ⟨blk, hs⟩ := Call.sent_spec hsent
  have hbuf : msg.buf.toNat = 0x2000 := hs.buf
  have hlen : msg.bufLen.toNat = 10 := hs.block.len
  have hword : get32 (leftBlock 12 msg (readFile st.mem tinyElf)) 0 = 0 := by
    have hz : get32 (leftBlock 12 msg (readFile st.mem tinyElf)) 0 = get32 (fun _ => 0) 0 := by
      refine get32_congr fun j hj => ?_
      unfold leftBlock
      rw [if_pos (by omega), hbuf, Nat.zero_add]
      exact tinyElf_zero 12 st.mem j hj
    rw [hz]
    rfl
  have hready : Ready 12 st msg tinyFiles tinyElf := by
    have hfit : msg.buf.toNat + PROC_ORIGIN_STACK ≤ PROC_IMAGE_SIZE_DEFAULT :=
      hs.buf ▸ overwritten.buf_inside
    have hle : msg.bufLen.toNat ≤ PROC_ORIGIN_STACK := Nat.le_of_lt hs.block.fits
    have hblock : argWord 12 st msg (readFile st.mem tinyElf) 0 = 0 := by
      rw [argWord_eq, Nat.mul_zero]
      exact (get32_congr fun j hj => argBlock_left hfit hle (by omega)).trans hword
    have htame : Tame 12 st msg (readFile st.mem tinyElf) :=
      ⟨tinyElf_allGood st.mem, fun _ => ⟨hle, fun _ => ⟨0, by decide, hblock⟩⟩⟩
    exact ⟨rfl, rfl, by decide, htame, tinyElf_passes st.mem⟩
  exact ((hkept st msg tinyElf hsent hready).args 0 (by decide)).1 hword

end Noxis.Mm
