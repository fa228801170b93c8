import Noxis.Fixes.Ascii
import Noxis.Fixes.Current
import Noxis.Fixes.FbPixels
import Noxis.Fixes.Heap

/-!
# 23-fixes: numbers in local buffers

`print_tasks`, `cmd_kill` and `cmd_mem` of drivers/shell.c and `fb_init` of drivers/fb.c pass local
buffers to `int_to_ascii` and `hex_to_ascii`, which take no length.

* `Frame`, `Conversion`   the memory from a buffer on, and what a conversion did to it
* `printTasks`, `cmdKill`, `cmdMem`, `fbInitNumbers`   the conversions of the functions
* `Short`, `FbShort`      the numbers, and what is left on the stack, that there is room for
* `conversions_iff`       **the conversions stay inside exactly if the numbers are short**
-/

namespace Noxis.Fixes
open Run Signed Numeral

/-- the memory from a local buffer on, with all that is left there -/
structure Frame where
  mem : List Char
  room : 24 ≤ mem.length

/-- a conversion: the size of the buffer, and what was stored from there on -/
structure Conversion where
  size : Nat
  result : Str

def Conversion.Inside (c : Conversion) : Prop := ∀ k ∈ c.result.written, k < c.size

def decimalIn (size : Nat) (n : Int) (f : Frame) : Conversion := ⟨size, intToAscii n ⟨f.mem, []⟩⟩

def hexIn (size : Nat) (v : BitVec 32) (f : Frame) : Conversion := ⟨size, hexToAscii v ⟨f.mem, []⟩⟩

/-! ## drivers/shell.c -/

/-- `task_count` -/
def taskCount (s : Sys) : Nat :=
  (List.finRange maxTasks).countP fun i =>
    (s.tasks i).state = .ready || (s.tasks i).state = .running

/-- the conversions of `print_tasks` -/
def printTasks (s : Sys) (idbuf tbuf wbuf : Slot → Frame) (cbuf : Frame) : List Conversion :=
  ((List.finRange maxTasks).flatMap fun i =>
    let t := s.tasks i
    if t.state = .dead then []
    else [decimalIn 8 t.id (idbuf i), decimalIn 8 (int t.ticks) (tbuf i),
      decimalIn 8 t.weight (wbuf i)]) ++
  [decimalIn 8 (taskCount s) cbuf]

/-- `args[i] - '0'` -/
def digitOf (c : Char) : Int := (BitVec.ofNat 8 c.toNat).toInt - 48

/-- the number that `cmd_kill` reads -/
def killId (args : List Char) : Int :=
  let (sign, i) := if args.head? = some '-' then (-1, 1) else (1, 0)
  let id := (args.drop i).foldl (fun id c => int (int (id * 10) + digitOf c)) 0
  int (id * sign)

/-- `cmd_kill`: the table, and the conversion that either message makes -/
def cmdKill (s : Sys) (args : Option (List Char)) (ibuf : Frame) : Sys × List Conversion :=
  match args with
  | none => (s, [])
  | some args =>
    if args = [] then (s, [])
    else ((taskKill s (killId args)).1, [decimalIn 8 (killId args) ibuf])

/-- the conversions of `cmd_mem` -/
def cmdMem (freeMemAddr : Nat) (buf buf' : Frame) : List Conversion :=
  let allocated := (freeMemAddr : Int) - heapStart
  [decimalIn 12 (int allocated) buf, decimalIn 12 (int (heapSize - allocated)) buf']

/-! ## drivers/fb.c -/

/-- the conversions of `fb_init`; each buffer has what is left on the stack -/
def fbInitNumbers (b : BootInfo) (stack : Fin 7 → Frame) : List Conversion :=
  [hexIn 12 b.magic (stack 0)] ++
  if b.magic ≠ MB_BOOT_MAGIC ∨ b.mbiAddr = 0 then []
  else
    [hexIn 12 b.flags (stack 1)] ++
    if b.flags &&& MBI_FLAG_FB = 0 then []
    else
      [hexIn 12 (b.fbType.setWidth 32) (stack 2), hexIn 12 (b.bpp.setWidth 32) (stack 3),
        hexIn 12 b.lo (stack 4), decimalIn 12 b.w.toInt (stack 5), decimalIn 12 b.h.toInt (stack 6)]

/-! ## the run -/

inductive NumberEvent where
  | op (o : Op)
  /-- TASKS and PS -/
  | tasks (idbuf tbuf wbuf : Slot → Frame) (cbuf : Frame)
  | kill (args : Option (List Char)) (ibuf : Frame)
  | mem (buf buf' : Frame)

def NumberEvent.step (L : Layout) (s : Sys) : NumberEvent → Sys
  | .op o => o.step L s
  | .kill args ibuf => (cmdKill s args ibuf).1
  | _ => s

def NumberEvent.conversions (s : Sys) : NumberEvent → List Conversion
  | .op _ => []
  | .tasks idbuf tbuf wbuf cbuf => printTasks s idbuf tbuf wbuf cbuf
  | .kill args ibuf => (cmdKill s args ibuf).2
  | .mem buf buf' => cmdMem s.freeMemAddr buf buf'

/-- every conversion stays in its buffer -/
def AllInside (s : Sys) (e : NumberEvent) (_ : Sys) : Prop := ∀ c ∈ e.conversions s, c.Inside

/-- a number of 7 characters at most; of the least `int` only two are written -/
def Short (n : Int) : Prop := n = -2 ^ 31 ∨ -10 ^ 6 < n ∧ n < 10 ^ 7

instance (n : Int) : Decidable (Short n) := inferInstanceAs (Decidable (_ ∨ _))

/-- what the characters stand for, each one as a digit -/
def digitsValue (l : List Char) : Int := l.foldl (fun v c => v * 10 + digitOf c) 0

/-- the number that is typed behind KILL -/
def typedNumber (args : List Char) : Int :=
  if args.head? = some '-' then -digitsValue (args.drop 1) else digitsValue args

/-- the counters of the tasks are short, or the number behind KILL, as an `int` -/
def ShortNumbers (s : Sys) (e : NumberEvent) (_ : Sys) : Prop :=
  match e with
  | .tasks _ _ _ _ => ∀ i, (s.tasks i).state ≠ .dead → Short (int (s.tasks i).ticks)
  | .kill args _ => ∀ l, args = some l → l ≠ [] → Short (int (typedNumber l))
  | _ => True

/-- there is room for the numeral and its 0x behind what is left on the stack -/
def HexShort (v : BitVec 32) (f : Frame) : Prop :=
  strlen f.mem + (numeral HEXLOW v.toNat).length ≤ 9

/-- this holds for what `fb_init` comes to -/
def FbShort (b : BootInfo) (stack : Fin 7 → Frame) : Prop :=
  HexShort b.magic (stack 0) ∧
  (b.magic = MB_BOOT_MAGIC → b.mbiAddr ≠ 0 → HexShort b.flags (stack 1) ∧
    (b.flags &&& MBI_FLAG_FB ≠ 0 → HexShort (b.fbType.setWidth 32) (stack 2) ∧
      HexShort (b.bpp.setWidth 32) (stack 3) ∧ HexShort b.lo (stack 4)))

section
variable {L : Layout} {s : Sys} {n : Int}

/-! ## the conversions -/

theorem decimalIn_inside (h : Signed.Fits n) (size : Nat) (f : Frame) :
    (decimalIn size n f).Inside ↔ (asciiOf n).length + 1 ≤ size := by
  have hlen := length_asciiOf_le h
  have hroom := f.room
  exact intToAscii_inside (b := ⟨f.mem, []⟩) h (by show _ ≤ f.mem.length; omega) size

/-- an `int` has room in 12 bytes -/
theorem decimalIn_inside_twelve (h : Signed.Fits n) (f : Frame) : (decimalIn 12 n f).Inside := by
  rw [decimalIn_inside h]
  have := length_asciiOf_le h
  omega

theorem decimalIn_inside_eight (h : Signed.Fits n) (f : Frame) :
    (decimalIn 8 n f).Inside ↔ Short n := by
  rw [decimalIn_inside h]
  unfold asciiOf Short
  by_cases hmin : n = -2 ^ 31
  · rw [if_pos hmin]
    exact ⟨fun _ => .inl hmin, fun _ => by decide⟩
  · have hlen := length_decimal_le (n := n) (k := 6) (by decide)
    rw [if_neg hmin]
    constructor
    · intro hle
      exact .inr (hlen.mp (by omega))
    · rintro (h | h)
      · exact absurd h hmin
      · have := hlen.mpr h
        omega

theorem hexIn_inside (v : BitVec 32) (f : Frame) : (hexIn 12 v f).Inside ↔ HexShort v f := by
  have h := hexToAscii_inside v f.mem f.room
  unfold HexShort
  unfold Conversion.Inside hexIn
  rw [h]
  omega

/-- **fb_init** -/
theorem fbInitNumbers_inside (b : BootInfo) (stack : Fin 7 → Frame) :
    (∀ c ∈ fbInitNumbers b stack, c.Inside) ↔ FbShort b stack := by
  unfold fbInitNumbers FbShort
  rw [List.forall_mem_append, List.forall_mem_singleton, hexIn_inside]
  refine and_congr_right fun _ => ?_
  by_cases hboot : b.magic ≠ MB_BOOT_MAGIC ∨ b.mbiAddr = 0
  · rw [if_pos hboot]
    refine ⟨fun _ hm ha => ?_, fun _ => List.forall_mem_nil _⟩
    rcases hboot with h | h
    · exact absurd hm h
    · exact absurd h ha
  · rw [if_neg hboot, List.forall_mem_append, List.forall_mem_singleton, hexIn_inside]
    rw [not_or, not_not] at hboot
    rw [forall_prop_of_true hboot.1, forall_prop_of_true hboot.2]
    refine and_congr_right fun _ => ?_
    by_cases hflag : b.flags &&& MBI_FLAG_FB = 0
    · rw [if_pos hflag]
      exact ⟨fun _ h => absurd hflag h, fun _ => List.forall_mem_nil _⟩
    · have hw (f : Frame) : (decimalIn 12 b.w.toInt f).Inside :=
        decimalIn_inside_twelve ⟨BitVec.le_toInt _, BitVec.toInt_lt⟩ f
      have hh (f : Frame) : (decimalIn 12 b.h.toInt f).Inside :=
        decimalIn_inside_twelve ⟨BitVec.le_toInt _, BitVec.toInt_lt⟩ f
      rw [if_neg hflag, forall_prop_of_true hflag]
      simp only [List.forall_mem_cons, hexIn_inside, hw, hh, List.not_mem_nil, false_imp_iff,
        implies_true, and_true]

/-! ## the other numbers of the table -/

/-- ids are slots, and weights are bytes -/
def SmallNumbers (s : Sys) : Prop := ∀ i, (s.tasks i).id < maxTasks ∧ (s.tasks i).weight < 256

theorem SmallNumbers.update {s' : Sys} (h : SmallNumbers s) (i : Slot) {t : Task}
    (hs : s'.tasks = Function.update s.tasks i t) (ht : t.id < maxTasks ∧ t.weight < 256) :
    SmallNumbers s' := by
  intro j
  rw [hs]
  by_cases hj : j = i
  · rw [hj, Function.update_self]
    exact ht
  · rw [Function.update_of_ne hj]
    exact h j

theorem SmallNumbers.setTask (h : SmallNumbers s) (i : Slot) {f : Task → Task}
    (hid : ∀ t, (f t).id = t.id) (hw : ∀ t, (f t).weight = t.weight) : SmallNumbers (s.setTask i f) :=
  h.update i rfl (by rw [hid, hw]; exact h i)

theorem SmallNumbers.congr {s' : Sys} (h : SmallNumbers s) (ht : s'.tasks = s.tasks) :
    SmallNumbers s' := fun i => by
  rw [ht]
  exact h i

theorem search_numbers (tick : Nat) (cur : Option Slot) (n i : Nat) (ts : Slot → Task) (j : Slot) :
    ((search tick cur n i ts).1 j).id = (ts j).id ∧
    ((search tick cur n i ts).1 j).weight = (ts j).weight := by
  rcases search_cases tick cur n i ts with ⟨o, heq, -⟩ | ⟨d, -, heq⟩
  · rw [heq]
    exact ⟨rfl, rfl⟩
  · rw [heq]
    dsimp only
    by_cases hj : j = d
    · rw [hj, Function.update_self]
      exact ⟨rfl, rfl⟩
    · rw [Function.update_of_ne hj]
      exact ⟨rfl, rfl⟩

theorem SmallNumbers.saveCurrent (h : SmallNumbers s) (r : Nat) : SmallNumbers (saveCurrent s r) := by
  unfold Fixes.saveCurrent
  cases s.currentTask with
  | none => exact h
  | some c => exact h.setTask c (fun _ => rfl) fun _ => rfl

theorem SmallNumbers.goIdle (h : SmallNumbers s) (r : Nat) : SmallNumbers (goIdle s r) := by
  unfold Fixes.goIdle
  cases s.currentTask with
  | none => exact h
  | some c =>
    by_cases hc : c = 0
    · simp only [if_pos hc]
      exact h.setTask 0 (fun _ => rfl) fun _ => rfl
    · simp only [if_neg hc]
      exact h.update 0 rfl (h 0)

theorem SmallNumbers.schedulerTick (h : SmallNumbers s) (r : Nat) :
    SmallNumbers (schedulerTick s r) := by
  have hsave := h.saveCurrent r
  unfold Fixes.schedulerTick
  dsimp only
  generalize Fixes.saveCurrent s r = u at hsave
  cases quantumTask u with
  | some c => exact hsave.setTask c (fun _ => rfl) fun _ => rfl
  | none =>
    have hsearch : ∀ i, ((search u.tick u.currentTask maxTasks 1 u.tasks).1 i).id < maxTasks ∧
        ((search u.tick u.currentTask maxTasks 1 u.tasks).1 i).weight < 256 := by
      intro i
      obtain ⟨hid, hw⟩ := search_numbers u.tick u.currentTask maxTasks 1 u.tasks i
      rw [hid, hw]
      exact hsave i
    cases hs : search u.tick u.currentTask maxTasks 1 u.tasks with
    | mk tasks o =>
      rw [hs] at hsearch
      have hu : SmallNumbers { u with tasks := tasks } := hsearch
      cases o with
      | none => exact hu.goIdle r
      | some next => exact hu.update next rfl (hu next)

theorem SmallNumbers.create (h : SmallNumbers s) (name : List Char) (entry : Nat) (weight : Fin 256) :
    SmallNumbers (taskCreatePrio L s name entry weight).1 := by
  unfold taskCreatePrio
  cases freeSlot s.tasks with
  | none => exact h
  | some slot =>
    have hstack : SmallNumbers (slotStack s slot).2 := by
      unfold slotStack
      by_cases hb : (s.tasks slot).stackBase ≠ 0
      · rw [if_pos hb]
        exact h
      · rw [if_neg hb]
        cases kmalloc s.freeMemAddr taskStackSize true with
        | mk stack free =>
          have hfree : SmallNumbers { s with freeMemAddr := free } := h
          simp only
          by_cases h0 : stack = 0
          · rw [if_pos h0]
            exact hfree
          · rw [if_neg h0]
            exact hfree.update slot rfl (hfree slot)
    simp only
    by_cases h0 : (slotStack s slot).1 = 0
    · rw [if_pos h0]
      exact hstack
    · rw [if_neg h0]
      refine hstack.update slot rfl ⟨slot.isLt, ?_⟩
      show (if weight = 0 then 1 else weight.val) < 256
      split
      · decide
      · exact weight.isLt

theorem SmallNumbers.kill (h : SmallNumbers s) (id : Int) : SmallNumbers (taskKill s id).1 := by
  unfold taskKill
  by_cases hid : 0 < id ∧ id < maxTasks
  · rw [dif_pos hid]
    by_cases hd : (s.tasks ⟨id.toNat, by omega⟩).state = .dead
    · simp only [if_pos hd]
      exact h
    · simp only [if_neg hd]
      exact h.setTask _ (fun _ => rfl) fun _ => rfl
  · rw [dif_neg hid]
    exact h

theorem SmallNumbers.step (h : SmallNumbers s) (o : Op) : SmallNumbers (o.step L s) := by
  cases o with
  | run mem => exact h.congr rfl
  | create name entry weight => exact h.create name entry weight
  | kill id => exact h.kill id
  | exit =>
    show SmallNumbers (taskExit s)
    unfold taskExit
    cases s.currentTask with
    | none => exact h
    | some me => exact h.setTask me (fun _ => rfl) fun _ => rfl
  | sleep ms r =>
    have hs : SmallNumbers (taskSleep s ms).1 := by
      unfold taskSleep
      cases s.currentTask with
      | none => exact h
      | some me =>
        by_cases hd : me = 0 ∨ (s.tasks me).state = .dead
        · simp only [if_pos hd]
          exact h
        · simp only [if_neg hd]
          exact h.setTask me (fun _ => rfl) fun _ => rfl
    unfold Op.step
    dsimp only
    cases hres : taskSleep s ms with
    | mk t y =>
      rw [hres] at hs
      cases y with
      | false => exact hs
      | true => exact hs.schedulerTick r
  | tick timer r =>
    have hs : SmallNumbers { s with tick := if timer then (s.tick + 1) % 2 ^ 32 else s.tick } := h
    exact hs.schedulerTick r

theorem afterInit_small (tick freeMemAddr : Nat) (mem : Nat → Nat) :
    SmallNumbers (afterInit tick freeMemAddr mem) := by
  intro i
  show (taskInit i).id < maxTasks ∧ (taskInit i).weight < 256
  unfold taskInit
  by_cases hi : i = 0
  · rw [hi, Function.update_self]
    exact ⟨by decide, by decide⟩
  · rw [Function.update_of_ne hi]
    exact ⟨by decide, by decide⟩

/-! ## the events -/

theorem short_of_nat {m : Nat} (h : m < 256) : Short m := .inr ⟨by omega, by omega⟩

theorem printTasks_inside (h : SmallNumbers s) (idbuf tbuf wbuf : Slot → Frame) (cbuf : Frame) :
    (∀ c ∈ printTasks s idbuf tbuf wbuf cbuf, c.Inside) ↔
      ∀ i, (s.tasks i).state ≠ .dead → Short (int (s.tasks i).ticks) := by
  have hsmall {m : Nat} (hm : m < 256) (f : Frame) : (decimalIn 8 m f).Inside :=
    (decimalIn_inside_eight ⟨by omega, by omega⟩ f).mpr (short_of_nat hm)
  have hcount : taskCount s < 256 := by
    have hle : taskCount s ≤ (List.finRange maxTasks).length := List.countP_le_length
    rw [List.length_finRange] at hle
    exact hle.trans_lt (by decide)
  unfold printTasks
  rw [List.forall_mem_append, List.forall_mem_singleton, and_iff_left (hsmall hcount cbuf)]
  constructor
  · intro hall i hi
    rw [← decimalIn_inside_eight ⟨le_int _, int_lt _⟩ (tbuf i)]
    refine hall _ (List.mem_flatMap.mpr ⟨i, List.mem_finRange i, ?_⟩)
    rw [if_neg hi]
    exact List.mem_cons_of_mem _ List.mem_cons_self
  · intro hall c hc
    obtain ⟨i, -, hc⟩ := List.mem_flatMap.mp hc
    by_cases hi : (s.tasks i).state = .dead
    · rw [if_pos hi] at hc
      exact absurd hc List.not_mem_nil
    · obtain ⟨hid, hw⟩ := h i
      rw [if_neg hi, List.mem_cons, List.mem_cons, List.mem_singleton] at hc
      rcases hc with rfl | rfl | rfl
      · exact hsmall (hid.trans (by decide)) _
      · exact (decimalIn_inside_eight ⟨le_int _, int_lt _⟩ _).mpr (hall i hi)
      · exact hsmall hw _

theorem foldl_int (l : List Char) (v : Int) :
    l.foldl (fun id c => int (int (id * 10) + digitOf c)) (int v) =
      int (l.foldl (fun v c => v * 10 + digitOf c) v) := by
  induction l generalizing v with
  | nil => rfl
  | cons c l ih =>
    rw [List.foldl_cons, int_mul, int_add]
    exact ih (v * 10 + digitOf c)

/-- the number that is read is the one that is typed, as an `int` -/
theorem killId_eq (l : List Char) : killId l = int (typedNumber l) := by
  unfold killId typedNumber
  by_cases hsign : l.head? = some '-'
  · rw [if_pos hsign, if_pos hsign]
    show int ((l.drop 1).foldl _ (int 0) * -1) = _
    rw [foldl_int, int_mul, Int.mul_neg_one]
    rfl
  · rw [if_neg hsign, if_neg hsign]
    show int (l.foldl _ (int 0) * 1) = _
    rw [foldl_int, int_mul, Int.mul_one]
    rfl

theorem allInside_iff {e : NumberEvent} {t : Sys} (h : SmallNumbers s) :
    AllInside s e t ↔ ShortNumbers s e t := by
  unfold AllInside ShortNumbers
  cases e with
  | op o => exact ⟨fun _ => trivial, fun _ => List.forall_mem_nil _⟩
  | tasks idbuf tbuf wbuf cbuf => exact printTasks_inside h idbuf tbuf wbuf cbuf
  | mem buf buf' =>
    refine ⟨fun _ => trivial, fun _ c hc => ?_⟩
    have hc : c ∈ [_, _] := hc
    rw [List.mem_cons, List.mem_singleton] at hc
    rcases hc with rfl | rfl
    · exact decimalIn_inside_twelve ⟨le_int _, int_lt _⟩ _
    · exact decimalIn_inside_twelve ⟨le_int _, int_lt _⟩ _
  | kill args ibuf =>
    show (∀ c ∈ (cmdKill s args ibuf).2, c.Inside) ↔ _
    unfold cmdKill
    cases args with
    | none => exact ⟨fun _ l hl => (by cases hl), fun _ => List.forall_mem_nil _⟩
    | some l =>
      dsimp only
      by_cases hl : l = []
      · rw [if_pos hl]
        refine ⟨fun _ l' hl' hne => ?_, fun _ => List.forall_mem_nil _⟩
        cases hl'
        exact absurd hl hne
      · rw [if_neg hl, List.forall_mem_singleton, killId_eq,
          decimalIn_inside_eight ⟨le_int _, int_lt _⟩]
        refine ⟨fun hs l' hl' _ => ?_, fun hall => hall l rfl hl⟩
        cases hl'
        exact hs

theorem SmallNumbers.event (h : SmallNumbers s) (e : NumberEvent) : SmallNumbers (e.step L s) := by
  cases e with
  | op o => exact h.step o
  | tasks idbuf tbuf wbuf cbuf => exact h
  | mem buf buf' => exact h
  | kill args ibuf =>
    show SmallNumbers (cmdKill s args ibuf).1
    unfold cmdKill
    cases args with
    | none => exact h
    | some l =>
      dsimp only
      split
      · exact h
      · exact h.kill _

end

/-- **The conversions** stay in their buffers exactly if the numbers are short: in `fb_init`, and in
every run of the tasks and the commands after `task_init`. -/
theorem conversions_iff (L : Layout) (tick freeMemAddr : Nat) (mem : Nat → Nat) (b : BootInfo)
    (stack : Fin 7 → Frame) (es : List NumberEvent) :
    ((∀ c ∈ fbInitNumbers b stack, c.Inside) ↔ FbShort b stack) ∧
    (Always (fun s e t => t = NumberEvent.step L s e) AllInside (afterInit tick freeMemAddr mem) es ↔
      Always (fun s e t => t = NumberEvent.step L s e) ShortNumbers
        (afterInit tick freeMemAddr mem) es) := by
  refine ⟨fbInitNumbers_inside b stack, ?_⟩
  refine Always.iff_of_inv (I := SmallNumbers) ?_ ?_ es _ (afterInit_small tick freeMemAddr mem)
  · intro s e t hs _
    exact allInside_iff hs
  · intro s e t hs ht _
    rw [ht]
    exact hs.event e

/-- what an earlier call can leave on the stack: a string of `n` characters -/
def usedFrame (n : Nat) : Frame where
  mem := List.replicate n 'z' ++ List.replicate 24 NUL
  room := by
    rw [List.length_append, List.length_replicate, List.length_replicate]
    omega

/-- two characters in front of the magic number, and KILL with eight digits -/
theorem conversions_fail :
    (¬ ∀ c ∈ fbInitNumbers modeInfo fun _ => usedFrame 2, c.Inside) ∧
    ∀ L : Layout, ¬ Always (fun s e t => t = NumberEvent.step L s e) AllInside
      (afterInit 0 heapStart fun _ => 0)
      [.kill (some ['1', '2', '3', '4', '5', '6', '7', '8']) (usedFrame 0)] := by
  constructor
  · rw [fbInitNumbers_inside]
    rintro ⟨hmagic, -⟩
    have hmagic : strlen (usedFrame 2).mem + _ ≤ 9 := hmagic
    have hlen : strlen (usedFrame 2).mem = 2 := by decide
    have h8 : ¬ (numeral HEXLOW modeInfo.magic.toNat).length ≤ 7 := by
      rw [length_numeral_le (by decide) (by decide)]
      decide
    omega
  · intro L h
    have hinside := (h _ rfl).1
    rw [allInside_iff (afterInit_small _ _ _)] at hinside
    have hid : int (typedNumber ['1', '2', '3', '4', '5', '6', '7', '8']) = 12345678 := by
      decide +kernel
    have hshort := hinside _ rfl (List.cons_ne_nil _ _)
    rw [hid] at hshort
    unfold Short at hshort
    omega

end Noxis.Fixes
