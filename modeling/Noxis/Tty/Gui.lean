import Noxis.Tty.Keyboard
import Noxis.Lib.Ring
import Noxis.Wm.Explorer

/-!
# 25-osfs11/kernel/tty.c: keys for the graphics owner

While the desktop owns the screen, `in_process` turns a key into a code and parks it in a ring of 64
codes, from which `tty_gui_getchar` takes them.

* `Gui`             the ring
* `inProcessGui`    `in_process` while graphics is active
* `codeOf`          the code that a key stands for
* `Event`, `run`    keys and calls of `tty_gui_getchar`, in any order
* `Exact`           the codes are those of the keys, and Delete alone deletes
* `codes_iff`       so they are exactly if End is not pressed
* `codes_fails`     End deletes
-/

namespace Noxis.Tty
open Wm (GUI_KEY_UP GUI_KEY_DOWN GUI_KEY_PGUP GUI_KEY_PGDN GUI_KEY_HOME GUI_KEY_END GUI_KEY_DEL)

namespace Gui

/-! ## the ring -/

def GUI_BUF_SIZE : Nat := 64

/-- `gui_buf`, `gui_head`, `gui_tail` and `gui_count` -/
structure Ring where
  buf : Nat → Byte
  head : Nat
  tail : Nat
  count : Nat

/-- `tty_gui_flush` -/
def Ring.flush (g : Ring) : Ring := { g with head := 0, tail := 0, count := 0 }

/-- `gui_put_char` -/
def Ring.putChar (g : Ring) (c : Byte) : Ring :=
  let g := if g.count = GUI_BUF_SIZE then
      { g with tail := (g.tail + 1) % GUI_BUF_SIZE, count := g.count - 1 }
    else g
  { g with
    buf := Function.update g.buf g.head c
    head := (g.head + 1) % GUI_BUF_SIZE
    count := g.count + 1 }

/-- `tty_gui_getchar`; -1 is `none` -/
def Ring.getchar (g : Ring) : Ring × Option Byte :=
  if g.count = 0 then (g, none)
  else ({ g with tail := (g.tail + 1) % GUI_BUF_SIZE, count := g.count - 1 }, some (g.buf g.tail))

/-- the codes that are pending, the oldest first -/
def Ring.pending (g : Ring) : List Byte := Ring.contents GUI_BUF_SIZE g.buf g.tail g.count

/-! ## keys -/

/-- `(char)(key & 0xFF)` -/
def keyChar (key : Nat) : Byte := BitVec.ofNat 8 key

/-- `in_process` while graphics is active; `case END` runs on into `case DELETE` -/
def inProcessGui (g : Ring) (key : Nat) : Ring :=
  if key &&& FLAG_EXT = 0 then g.putChar (keyChar key)
  else if key &&& MASK_RAW = ENTER then g.putChar 0x0A
  else if key &&& MASK_RAW = BACKSPACE then g.putChar 0x08
  else if key &&& MASK_RAW = TAB then g.putChar 0x20
  else if key &&& MASK_RAW = UP then g.putChar GUI_KEY_UP
  else if key &&& MASK_RAW = DOWN then g.putChar GUI_KEY_DOWN
  else if key &&& MASK_RAW = PAGEUP then g.putChar GUI_KEY_PGUP
  else if key &&& MASK_RAW = PAGEDOWN then g.putChar GUI_KEY_PGDN
  else if key &&& MASK_RAW = HOME then g.putChar GUI_KEY_HOME
  else if key &&& MASK_RAW = END then (g.putChar GUI_KEY_END).putChar GUI_KEY_DEL
  else if key &&& MASK_RAW = DELETE then g.putChar GUI_KEY_DEL
  else g

def IsEnd (key : Nat) : Prop := key &&& FLAG_EXT ≠ 0 ∧ key &&& MASK_RAW = END

def IsDelete (key : Nat) : Prop := key &&& FLAG_EXT ≠ 0 ∧ key &&& MASK_RAW = DELETE

instance IsEnd.decidable (key : Nat) : Decidable (IsEnd key) := inferInstanceAs (Decidable (_ ∧ _))

instance IsDelete.decidable (key : Nat) : Decidable (IsDelete key) :=
  inferInstanceAs (Decidable (_ ∧ _))

/-- the code that a key stands for: one for each key that is mapped -/
def codeOf (key : Nat) : Option Byte :=
  if key &&& FLAG_EXT = 0 then some (keyChar key)
  else if key &&& MASK_RAW = ENTER then some 0x0A
  else if key &&& MASK_RAW = BACKSPACE then some 0x08
  else if key &&& MASK_RAW = TAB then some 0x20
  else if key &&& MASK_RAW = UP then some GUI_KEY_UP
  else if key &&& MASK_RAW = DOWN then some GUI_KEY_DOWN
  else if key &&& MASK_RAW = PAGEUP then some GUI_KEY_PGUP
  else if key &&& MASK_RAW = PAGEDOWN then some GUI_KEY_PGDN
  else if key &&& MASK_RAW = HOME then some GUI_KEY_HOME
  else if key &&& MASK_RAW = END then some GUI_KEY_END
  else if key &&& MASK_RAW = DELETE then some GUI_KEY_DEL
  else none

/-- a key that some calls of `keyboard_read` pass to `in_process` -/
structure Key where
  val : Nat
  decoded : ∃ junk k bufs k' keys, keyboardReads junk k bufs = some (k', keys) ∧ val ∈ keys

/-! ## keys and readers in any order -/

inductive Event where
  | key (key : Key)
  | getchar

/-- the ring, and the codes that `tty_gui_getchar` delivered -/
def run (g : Ring) : List Event → Ring × List Byte
  | [] => (g, [])
  | .key key :: es => run (inProcessGui g key.val) es
  | .getchar :: es =>
    match g.getchar with
    | (g, none) => run g es
    | (g, some c) => ((run g es).1, c :: (run g es).2)

/-- a queue of at most 64 codes, whose oldest one is dropped for a new one -/
def push (q : List Byte) : Option Byte → List Byte
  | none => q
  | some c => if q.length = GUI_BUF_SIZE then q.tail ++ [c] else q ++ [c]

/-- the codes that are pending and those that were delivered, one code for each mapped key -/
def specRun (q : List Byte) : List Event → List Byte × List Byte
  | [] => (q, [])
  | .key key :: es => specRun (push q (codeOf key.val)) es
  | .getchar :: es =>
    match q with
    | [] => specRun [] es
    | c :: q => ((specRun q es).1, c :: (specRun q es).2)

def Event.isEnd : Event → Bool
  | .key k => IsEnd k.val
  | .getchar => false

def Event.isDelete : Event → Bool
  | .key k => IsDelete k.val
  | .getchar => false

/-- **what a run has to show**: the codes are those of the keys; GUI_KEY_DEL is delivered at most once
for each Delete; and a delivered code unlinks a file only after a Delete -/
structure Exact (g : Ring) (es : List Event) : Prop where
  codes : ((run g es).1.pending, (run g es).2) = specRun [] es
  delete : (run g es).2.count GUI_KEY_DEL ≤ es.countP Event.isDelete
  unlink : ∀ c ∈ (run g es).2, ∀ (f : Wm.Files) (fs : Wm.Fs), (f.explKey fs c).2 ≠ none →
    ∃ e ∈ es, e.isDelete = true

variable {g : Ring} {q : List Byte} {es : List Event} {key : Nat} {c : Byte}

/-! ## the ring is a queue -/

/-- the ring has the queue `q` in it -/
structure Queued (g : Ring) (q : List Byte) : Prop where
  holds : Ring.Holds GUI_BUF_SIZE g.buf g.tail q
  count : g.count = q.length
  length_le : q.length ≤ GUI_BUF_SIZE
  tail_lt : g.tail < GUI_BUF_SIZE
  head : g.head = (g.tail + q.length) % GUI_BUF_SIZE

theorem Queued.flush (g : Ring) : Queued g.flush [] where
  holds := Ring.Holds.nil _ _ _
  count := rfl
  length_le := Nat.zero_le _
  tail_lt := Nat.zero_lt_succ _
  head := rfl

theorem Queued.pending (h : Queued g q) : g.pending = q := by
  unfold Ring.pending
  rw [h.count]
  exact h.holds.contents_eq

/-- the oldest code is taken -/
theorem Queued.pop (h : Queued g (c :: q)) :
    g.buf g.tail = c ∧
      Queued { g with tail := (g.tail + 1) % GUI_BUF_SIZE, count := g.count - 1 } q := by
  have hlen : q.length + 1 ≤ GUI_BUF_SIZE := h.length_le
  refine ⟨h.holds.head h.tail_lt, ?_⟩
  exact
    { holds := h.holds.pop
      count := by
        show g.count - 1 = q.length
        rw [h.count, List.length_cons, Nat.add_sub_cancel]
      length_le := by omega
      tail_lt := Nat.mod_lt _ (by decide)
      head := by
        show g.head = ((g.tail + 1) % GUI_BUF_SIZE + q.length) % GUI_BUF_SIZE
        rw [h.head, List.length_cons, Nat.mod_add_mod]
        congr 1
        omega }

/-- there is room for a code -/
theorem Queued.append (h : Queued g q) (hq : q.length < GUI_BUF_SIZE) (c : Byte) :
    Queued { g with buf := Function.update g.buf g.head c, head := (g.head + 1) % GUI_BUF_SIZE,
                    count := g.count + 1 } (q ++ [c]) where
  holds := by
    show Ring.Holds GUI_BUF_SIZE (Function.update g.buf g.head c) g.tail (q ++ [c])
    rw [h.head]
    exact h.holds.push hq c
  count := by
    show g.count + 1 = (q ++ [c]).length
    rw [h.count, List.length_append, List.length_singleton]
  length_le := by
    rw [List.length_append, List.length_singleton]
    exact hq
  tail_lt := h.tail_lt
  head := by
    show (g.head + 1) % GUI_BUF_SIZE = (g.tail + (q ++ [c]).length) % GUI_BUF_SIZE
    rw [h.head, List.length_append, List.length_singleton, Nat.mod_add_mod, Nat.add_assoc]

theorem Queued.putChar (h : Queued g q) (c : Byte) : Queued (g.putChar c) (push q (some c)) := by
  unfold Ring.putChar push
  by_cases hfull : g.count = GUI_BUF_SIZE
  · have hq : q.length = GUI_BUF_SIZE := h.count.symm.trans hfull
    simp only [if_pos hfull, if_pos hq]
    cases q with
    | nil => exact absurd hq (by decide)
    | cons d q =>
      rw [List.length_cons] at hq
      exact h.pop.2.append (by omega) c
  · have hq : q.length ≠ GUI_BUF_SIZE := fun hc => hfull (h.count.trans hc)
    simp only [if_neg hfull, if_neg hq]
    exact h.append (lt_of_le_of_ne h.length_le hq) c

/-! ## one event -/

theorem elim_ite {β : Type*} {p : Prop} [Decidable p] (c : Byte) (o : Option Byte) (b : β)
    (f : Byte → β) : (if p then some c else o).elim b f = if p then f c else o.elim b f := by
  split_ifs <;> rfl

/-- every other key puts its own code into the ring -/
theorem inProcessGui_eq (g : Ring) (hend : ¬ IsEnd key) :
    inProcessGui g key = (codeOf key).elim g g.putChar := by
  unfold inProcessGui codeOf
  by_cases hext : key &&& FLAG_EXT = 0
  · rw [if_pos hext, if_pos hext]
    rfl
  · have hne : ¬ key &&& MASK_RAW = END := fun hc => hend ⟨hext, hc⟩
    rw [if_neg hext, if_neg hext, elim_ite, elim_ite, elim_ite, elim_ite, elim_ite, elim_ite,
      elim_ite, elim_ite, elim_ite, elim_ite, if_neg hne, if_neg hne]
    rfl

theorem Queued.inProcess (h : Queued g q) (hend : ¬ IsEnd key) :
    Queued (inProcessGui g key) (push q (codeOf key)) := by
  rw [inProcessGui_eq g hend]
  cases codeOf key with
  | none => exact h
  | some c => exact h.putChar c

/-- End leaves GUI_KEY_DEL behind its own code -/
theorem Queued.end_key (h : Queued g q) (hend : IsEnd key) :
    Queued (inProcessGui g key) (push (push q (some GUI_KEY_END)) (some GUI_KEY_DEL)) := by
  obtain ⟨hext, hraw⟩ := hend
  unfold inProcessGui
  rw [if_neg hext, hraw, if_neg (by decide), if_neg (by decide), if_neg (by decide),
    if_neg (by decide), if_neg (by decide), if_neg (by decide), if_neg (by decide),
    if_neg (by decide), if_pos rfl]
  exact (h.putChar _).putChar _

theorem codeOf_end (hend : IsEnd key) : codeOf key = some GUI_KEY_END := by
  obtain ⟨hext, hraw⟩ := hend
  unfold codeOf
  rw [if_neg hext, hraw, if_neg (by decide), if_neg (by decide), if_neg (by decide),
    if_neg (by decide), if_neg (by decide), if_neg (by decide), if_neg (by decide),
    if_neg (by decide), if_pos rfl]

theorem push_getLast (q : List Byte) (c : Byte) : (push q (some c)).getLast? = some c := by
  unfold push
  split_ifs <;> rw [List.getLast?_concat]

theorem push_ne (q : List Byte) :
    push (push q (some GUI_KEY_END)) (some GUI_KEY_DEL) ≠ push q (some GUI_KEY_END) := by
  intro h
  have hlast := congrArg List.getLast? h
  rw [push_getLast, push_getLast] at hlast
  exact absurd hlast (by decide)

theorem Queued.getchar_nil (h : Queued g []) : g.getchar = (g, none) := if_pos h.count

theorem Queued.getchar_cons (h : Queued g (c :: q)) :
    ∃ g', g.getchar = (g', some c) ∧ Queued g' q := by
  obtain ⟨hc, hq⟩ := h.pop
  have hcount : g.count ≠ 0 := by
    rw [h.count]
    exact Nat.succ_ne_zero _
  refine ⟨_, ?_, hq⟩
  unfold Ring.getchar
  rw [if_neg hcount, hc]

/-! ## runs -/

theorem run_key (g : Ring) (k : Key) (es : List Event) :
    run g (.key k :: es) = run (inProcessGui g k.val) es := rfl

theorem run_getchar_nil (h : Queued g []) (es : List Event) : run g (.getchar :: es) = run g es := by
  rw [run, h.getchar_nil]

theorem run_getchar_cons (h : Queued g (c :: q)) (es : List Event) :
    ∃ g', Queued g' q ∧ run g (.getchar :: es) = ((run g' es).1, c :: (run g' es).2) := by
  obtain ⟨g', hg, hq⟩ := h.getchar_cons
  refine ⟨g', hq, ?_⟩
  rw [run, hg]

/-- with no End the ring is the queue -/
theorem run_spec (h : Queued g q) (hend : ∀ e ∈ es, e.isEnd = false) :
    Queued (run g es).1 (specRun q es).1 ∧ (run g es).2 = (specRun q es).2 := by
  induction es generalizing g q with
  | nil => exact ⟨h, rfl⟩
  | cons e es ih =>
    obtain ⟨he, hes⟩ := List.forall_mem_cons.mp hend
    cases e with
    | key k => exact ih (h.inProcess (of_decide_eq_false he)) hes
    | getchar =>
      cases q with
      | nil =>
        rw [run_getchar_nil h]
        exact ih h hes
      | cons c q =>
        obtain ⟨g', hq, hrun⟩ := run_getchar_cons h es
        obtain ⟨h1, h2⟩ := ih hq hes
        rw [hrun]
        exact ⟨h1, congrArg (c :: ·) h2⟩

/-- the first End shows -/
theorem no_end (h : Queued g q) (ha : ∀ n, ((run g (es.take n)).1.pending, (run g (es.take n)).2) =
    specRun q (es.take n)) : ∀ e ∈ es, e.isEnd = false := by
  induction es generalizing g q with
  | nil => exact fun e he => absurd he List.not_mem_nil
  | cons e es ih =>
    cases e with
    | key k =>
      have hk : ¬ IsEnd k.val := by
        intro hend
        have h1 := ha 1
        rw [List.take_succ_cons, List.take_zero, run_key] at h1
        have hp : (inProcessGui g k.val).pending = push q (codeOf k.val) := congrArg Prod.fst h1
        rw [(h.end_key hend).pending, codeOf_end hend] at hp
        exact push_ne q hp
      refine List.forall_mem_cons.mpr ⟨decide_eq_false hk, ?_⟩
      exact ih (h.inProcess hk) fun n => ha (n + 1)
    | getchar =>
      refine List.forall_mem_cons.mpr ⟨rfl, ?_⟩
      cases q with
      | nil =>
        refine ih h fun n => ?_
        have hn := ha (n + 1)
        rw [List.take_succ_cons, run_getchar_nil h] at hn
        exact hn
      | cons c q =>
        obtain ⟨g', hg, hq⟩ := h.getchar_cons
        refine ih hq fun n => ?_
        have hn := ha (n + 1)
        rw [List.take_succ_cons, run, hg] at hn
        obtain ⟨h1, h2⟩ := Prod.mk.inj hn
        exact Prod.ext h1 (List.cons.inj h2).2

/-! ## Delete -/

/-- no character is a control character -/
def Typed (key : Nat) : Prop := key % 512 < 256 → key % 512 = 0 ∨ 32 ≤ key % 512

theorem typed_pressed (k : Keyboard) {key : Nat} (h : ∀ b : Bool,
    Typed (if PAD_SLASH ≤ key ∧ key ≤ PAD_9 then padKey b key else key)) : Typed (k.pressed key) := by
  unfold Typed
  rw [pressed_mod]
  exact h k.numLock

theorem turn_typed (k : Keyboard) (l : Local) (x : Scan) : ∀ key ∈ (turn k l x).2.2, Typed key := by
  have hmap : ∀ (k' : Keyboard) (row column : Nat), Typed (k'.pressed (keymap row column)) := by
    intro k' row column
    refine typed_pressed k' ?_
    unfold Typed
    exact keymap_all (P := fun key => ∀ b : Bool,
      (if PAD_SLASH ≤ key ∧ key ≤ PAD_9 then padKey b key else key) % 512 < 256 →
        (if PAD_SLASH ≤ key ∧ key ≤ PAD_9 then padKey b key else key) % 512 = 0 ∨
          32 ≤ (if PAD_SLASH ≤ key ∧ key ≤ PAD_9 then padKey b key else key) % 512)
      (by decide +kernel) (by decide) row column
  have hspecial : ∀ key, key = PAUSEBREAK ∨ key = PRINTSCREEN → Typed (k.pressed key) := by
    rintro key (rfl | rfl)
    · exact typed_pressed k (by unfold Typed; decide)
    · exact typed_pressed k (by unfold Typed; decide)
  intro key hkey
  unfold turn at hkey
  simp only at hkey
  by_cases hdec : (l.special x.special).key ≠ PAUSEBREAK ∧ (l.special x.special).key ≠ PRINTSCREEN
  · rw [if_pos hdec] at hkey
    by_cases hm : (decode k x).2.make = true
    · rw [if_pos hm] at hkey
      rw [List.mem_singleton.mp hkey]
      exact hmap _ _ _
    · rw [if_neg hm] at hkey
      exact absurd hkey List.not_mem_nil
  · rw [if_neg hdec] at hkey
    by_cases hm : (l.special x.special).make = true
    · simp only [if_pos hm] at hkey
      rw [List.mem_singleton.mp hkey]
      refine hspecial _ ?_
      by_contra hne
      exact hdec (not_or.mp hne)
    · simp only [if_neg hm] at hkey
      exact absurd hkey List.not_mem_nil

theorem readLoop_typed (n : Nat) (k k' : Keyboard) (l : Local) (buf : List Byte) (keys : List Nat)
    (h : readLoop n k l buf = some (k', keys)) : ∀ key ∈ keys, Typed key := by
  induction n generalizing k l buf keys with
  | zero =>
    cases buf with
    | nil =>
      rw [← (Prod.mk.inj (Option.some.inj h)).2]
      exact fun key hk => absurd hk List.not_mem_nil
    | cons c s => exact absurd h (by simp [readLoop])
  | succ n ih =>
    cases buf with
    | nil =>
      rw [← (Prod.mk.inj (Option.some.inj h)).2]
      exact fun key hk => absurd hk List.not_mem_nil
    | cons c s =>
      have hstep : ((scan (c :: s)).bind fun p => (readLoop n (turn k l p.1).1 (turn k l p.1).2.1 p.2).map
          fun r => (r.1, (turn k l p.1).2.2 ++ r.2)) = some (k', keys) := h
      obtain ⟨⟨x, rest⟩, -, h⟩ := Option.bind_eq_some_iff.mp hstep
      obtain ⟨⟨k1, keys1⟩, hrest, h⟩ := Option.map_eq_some_iff.mp h
      obtain ⟨rfl, rfl⟩ := Prod.mk.inj h
      intro key hk
      rcases List.mem_append.mp hk with hk | hk
      · exact turn_typed k l x key hk
      · exact ih _ _ _ _ hrest key hk

theorem keyboardReads_typed (junk : Nat → Bool) (k k' : Keyboard) (bufs : List (List Byte))
    (keys : List Nat) (h : keyboardReads junk k bufs = some (k', keys)) :
    ∀ key ∈ keys, Typed key := by
  induction bufs generalizing junk k keys with
  | nil =>
    rw [← (Prod.mk.inj (Option.some.inj h)).2]
    exact fun key hk => absurd hk List.not_mem_nil
  | cons buf bufs ih =>
    obtain ⟨⟨k1, keys1⟩, h1, h⟩ := Option.bind_eq_some_iff.mp h
    obtain ⟨⟨k2, keys2⟩, h2, h⟩ := Option.map_eq_some_iff.mp h
    obtain ⟨rfl, rfl⟩ := Prod.mk.inj h
    intro key hk
    rcases List.mem_append.mp hk with hk | hk
    · exact readLoop_typed _ _ _ _ _ _ h1 key hk
    · exact ih _ _ _ h2 key hk

theorem Key.typed (k : Key) : Typed k.val := by
  obtain ⟨junk, kb, bufs, k', keys, h, hmem⟩ := k.decoded
  exact keyboardReads_typed junk kb k' bufs keys h k.val hmem

theorem ext_iff (key : Nat) : key &&& FLAG_EXT = 0 ↔ key % 512 < 256 := by
  have hall : ∀ v < 512, (v &&& FLAG_EXT = 0 ↔ v < 256) := by decide +kernel
  have hmod : key &&& FLAG_EXT = key % 512 &&& FLAG_EXT := by
    have h := Nat.and_mod_two_pow (a := key) (b := FLAG_EXT) (n := 9)
    rwa [Nat.mod_eq_of_lt (lt_of_le_of_lt Nat.and_le_right (by decide)),
      Nat.mod_eq_of_lt (show FLAG_EXT < 2 ^ 9 by decide)] at h
  rw [hmod]
  exact hall _ (Nat.mod_lt _ (by decide))

/-- **GUI_KEY_DEL stands for Delete alone** -/
theorem codeOf_del (hk : Typed key) (h : codeOf key = some GUI_KEY_DEL) : IsDelete key := by
  unfold codeOf at h
  by_cases hext : key &&& FLAG_EXT = 0
  · rw [if_pos hext] at h
    have h7 : key % 256 = 7 := congrArg BitVec.toNat (Option.some.inj h)
    have hlt := (ext_iff key).mp hext
    have := hk hlt
    omega
  · refine ⟨hext, ?_⟩
    by_contra hdel
    have hne : ∀ {p : Prop} [Decidable p] {c : Byte} {o : Option Byte}, c ≠ GUI_KEY_DEL →
        o ≠ some GUI_KEY_DEL → (if p then some c else o) ≠ some GUI_KEY_DEL := by
      intro p _ c o hc ho
      split
      · exact fun h => hc (Option.some.inj h)
      · exact ho
    rw [if_neg hext, if_neg hdel] at h
    refine absurd h ?_
    iterate 9 refine hne (by decide) ?_
    exact nofun

theorem count_push (q : List Byte) (o : Option Byte) :
    (push q o).count GUI_KEY_DEL ≤ q.count GUI_KEY_DEL + if o = some GUI_KEY_DEL then 1 else 0 := by
  cases o with
  | none => exact Nat.le_refl _
  | some c =>
    have htail : q.tail.count GUI_KEY_DEL ≤ q.count GUI_KEY_DEL := (List.tail_sublist q).count_le _
    have hone : ([c] : List Byte).count GUI_KEY_DEL = if some c = some GUI_KEY_DEL then 1 else 0 := by
      by_cases hc : c = GUI_KEY_DEL
      · rw [hc, List.count_singleton_self, if_pos rfl]
      · rw [if_neg fun h => hc (Option.some.inj h), List.count_eq_zero]
        exact fun hm => hc (List.mem_singleton.mp hm).symm
    unfold push
    by_cases hfull : q.length = GUI_BUF_SIZE
    · simp only [if_pos hfull]
      rw [List.count_append, hone]
      omega
    · simp only [if_neg hfull]
      rw [List.count_append, hone]

/-- each GUI_KEY_DEL that is pending or was delivered has a Delete of its own -/
theorem count_del (q : List Byte) (es : List Event) :
    (specRun q es).2.count GUI_KEY_DEL + (specRun q es).1.count GUI_KEY_DEL ≤
      q.count GUI_KEY_DEL + es.countP Event.isDelete := by
  induction es generalizing q with
  | nil =>
    show ([] : List Byte).count GUI_KEY_DEL + q.count GUI_KEY_DEL ≤ _
    rw [List.count_nil]
    omega
  | cons e es ih =>
    cases e with
    | key k =>
      have hpush := count_push q (codeOf k.val)
      have hone : (if codeOf k.val = some GUI_KEY_DEL then 1 else 0) ≤
          if (Event.key k).isDelete = true then 1 else 0 := by
        by_cases hc : codeOf k.val = some GUI_KEY_DEL
        · have hd : (Event.key k).isDelete = true := decide_eq_true (codeOf_del k.typed hc)
          rw [if_pos hc, if_pos hd]
        · rw [if_neg hc]
          exact Nat.zero_le _
      have hrest := ih (push q (codeOf k.val))
      rw [List.countP_cons]
      show (specRun (push q (codeOf k.val)) es).2.count GUI_KEY_DEL +
        (specRun (push q (codeOf k.val)) es).1.count GUI_KEY_DEL ≤ _
      omega
    | getchar =>
      have hdel : (Event.getchar :: es).countP Event.isDelete = es.countP Event.isDelete :=
        List.countP_cons_of_neg (by decide)
      rw [hdel]
      cases q with
      | nil => exact ih []
      | cons c q =>
        have hrest := ih q
        show (c :: (specRun q es).2).count GUI_KEY_DEL + (specRun q es).1.count GUI_KEY_DEL ≤ _
        rw [List.count_cons, List.count_cons]
        omega

/-- the explorer unlinks a file for GUI_KEY_DEL alone -/
theorem explKey_unlink (f : Wm.Files) (fs : Wm.Fs) (c : Byte) (h : (f.explKey fs c).2 ≠ none) :
    c = GUI_KEY_DEL := by
  by_contra hc
  refine h ?_
  unfold Wm.Files.explKey
  simp only [if_neg hc]
  split_ifs <;> rfl

/-- **Deleting needs the Delete key**: in every run of keys and calls of `tty_gui_getchar` the codes are
those of the keys, and GUI_KEY_DEL comes from Delete alone, exactly if no key is End. -/
theorem codes_iff (g : Ring) (es : List Event) :
    (∀ n, Exact g.flush (es.take n)) ↔ ∀ e ∈ es, e.isEnd = false := by
  constructor
  · intro h
    exact no_end (Queued.flush g) fun n => (h n).codes
  · intro h n
    have hn : ∀ e ∈ es.take n, e.isEnd = false := fun e he => h e (List.mem_of_mem_take he)
    obtain ⟨hq, hout⟩ := run_spec (Queued.flush g) hn
    have hcount := count_del [] (es.take n)
    rw [List.count_nil, ← hout] at hcount
    exact
      { codes := Prod.ext hq.pending hout
        delete := by omega
        unlink := by
          intro c hc f fs hu
          obtain rfl := explKey_unlink f fs c hu
          have hpos : 0 < ((run g.flush (es.take n)).2).count GUI_KEY_DEL := List.count_pos_iff.mpr hc
          obtain ⟨e, he, hd⟩ := List.countP_pos_iff.mp
            (show 0 < (es.take n).countP Event.isDelete by omega)
          exact ⟨e, he, hd⟩ }

/-! ## End and two calls of `tty_gui_getchar` -/

/-- the End key, without num lock or modifiers -/
def endKey : Key := ⟨END, fun _ => false, Keyboard.init, [[0xE0, 0x4F]], Keyboard.init, [END], by decide⟩

/-- the second code is GUI_KEY_DEL -/
theorem codes_fails :
    ¬ ∀ n, Exact (Ring.flush ⟨fun _ => 0, 0, 0, 0⟩) ([.key endKey, .getchar, .getchar].take n) := by
  rw [codes_iff]
  intro h
  exact absurd (h (.key endKey) List.mem_cons_self) (by decide)

end Gui

end Noxis.Tty
