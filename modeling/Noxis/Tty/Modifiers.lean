import Noxis.Lib.Run
import Noxis.Tty.Batches

/-!
# 25-osfs11/kernel/keyboard.c: the modifiers

The six flags beside the keys that are held.  A run is a stream of key sequences, split into calls of
`keyboard_read` anywhere between two of them.

* `Scan.modifier`   the key that a scan code belongs to, if it is one of the six;
* `Moment`          the driver in the middle of a call, and what is held then;
* `Mirrors`         the flags are those of the keys that are held, and so are the flags of what is
                    passed to `in_process`;
* `Meets`           the sequence is not one that the driver gets wrong;
* `mirrored_iff`    the run mirrors the keyboard exactly if every sequence meets this;
* `played_eq`       the run is `keyboard_read`, call after call.
-/

namespace Noxis.Tty

/-! ## the six keys -/

inductive Modifier where
  | shiftL
  | shiftR
  | ctrlL
  | ctrlR
  | altL
  | altR
  deriving DecidableEq, Repr

namespace Modifier

def all : List Modifier := [.shiftL, .shiftR, .ctrlL, .ctrlR, .altL, .altR]

/-- the make code, and whether 0xE0 comes before it -/
def code : Modifier → Byte × Bool
  | .shiftL => (0x2A, false)
  | .shiftR => (0x36, false)
  | .ctrlL => (0x1D, false)
  | .ctrlR => (0x1D, true)
  | .altL => (0x38, false)
  | .altR => (0x38, true)

/-- the flag of a key that is passed on -/
def flag : Modifier → Nat
  | .shiftL => FLAG_SHIFT_L
  | .shiftR => FLAG_SHIFT_R
  | .ctrlL => FLAG_CTRL_L
  | .ctrlR => FLAG_CTRL_R
  | .altL => FLAG_ALT_L
  | .altR => FLAG_ALT_R

/-- `keymap` has it as this key -/
def key : Modifier → Nat
  | .shiftL => SHIFT_L
  | .shiftR => SHIFT_R
  | .ctrlL => CTRL_L
  | .ctrlR => CTRL_R
  | .altL => ALT_L
  | .altR => ALT_R

/-- what the keyboard sends -/
def bytes (m : Modifier) (make : Bool) : List Byte :=
  (if m.code.2 then [0xE0] else []) ++ [if make then m.code.1 else m.code.1 ||| 0x80]

/-- what a turn finds then -/
def scan (m : Modifier) (make : Bool) : Scan :=
  ⟨if make then m.code.1 else m.code.1 ||| 0x80, m.code.2, none⟩

theorem bytes_parses (m : Modifier) (make : Bool) :
    Tty.scan (m.bytes make) = some (m.scan make, []) := by
  revert m make
  have h : ∀ m ∈ all, ∀ make, Tty.scan (m.bytes make) = some (m.scan make, []) := by decide
  intro m
  cases m <;> exact h _ (by decide)

def seq (m : Modifier) (make : Bool) : KeySeq := ⟨m.bytes make, m.scan make, m.bytes_parses make⟩

end Modifier

/-- the key by its code; the special sequences are other keys -/
def Scan.modifier (x : Scan) : Option Modifier :=
  if x.special = none then
    Modifier.all.find? fun m => decide (m.code = (x.scanCode &&& 0x7F, x.codeWithE0))
  else none

/-- the six flags -/
def Keyboard.flag (k : Keyboard) : Modifier → Bool
  | .shiftL => k.shiftL
  | .shiftR => k.shiftR
  | .ctrlL => k.ctrlL
  | .ctrlR => k.ctrlR
  | .altL => k.altL
  | .altR => k.altR

/-! ## runs -/

/-- what is held after a sequence: the last event of the key was a make -/
def heldAfter (held : Modifier → Bool) (x : Scan) : Modifier → Bool :=
  match x.modifier with
  | none => held
  | some m => Function.update held m x.make

/-- the driver between two turns of its loop; `out` is what the last turn has passed to `in_process` -/
structure Moment where
  kbd : Keyboard
  loc : Local
  held : Modifier → Bool
  out : List Nat

/-- a call of `keyboard_read`, with what `make` has in it, or a turn of its loop -/
inductive Event where
  | call (make : Bool)
  | turn (q : KeySeq)

def Moment.next (s : Moment) : Event → Moment
  | .call make => { s with loc := ⟨0, make⟩, out := [] }
  | .turn q =>
    let (k, l, out) := Tty.turn s.kbd s.loc q.what
    ⟨k, l, heldAfter s.held q.what, out⟩

def step (s : Moment) (e : Event) (t : Moment) : Prop := t = s.next e

/-- nothing is held when `init_keyboard` ends -/
def Moment.start : Moment := ⟨.init, ⟨0, false⟩, fun _ => false, []⟩

/-- the flags are those of what is held, also in the keys that are passed on -/
structure Mirrors (t : Moment) : Prop where
  flags : ∀ m, t.kbd.flag m = t.held m
  keys : ∀ key ∈ t.out, ∀ m, decide (key &&& m.flag ≠ 0) = t.held m

/-- `key` is left from a Pause or PrintScreen of the same call -/
def Local.Stale (l : Local) : Prop := l.key = PAUSEBREAK ∨ l.key = PRINTSCREEN

instance Local.decidableStale (l : Local) : Decidable l.Stale := inferInstanceAs (Decidable (_ ∨ _))

/-- one of the six keys that comes behind a Pause or PrintScreen in the same call has its flag already,
and the right Alt key is only released, and only while the left one is not held -/
def Meets (s : Moment) : Event → Prop
  | .call _ => True
  | .turn q =>
    match q.what.modifier with
    | none => True
    | some m =>
      if s.loc.Stale then s.kbd.flag m = q.what.make
      else m = .altR → q.what.make = false ∧ s.kbd.altL = false

/-! ## the table -/

variable {k : Keyboard} {l : Local} {x : Scan} {m : Modifier} {s : Moment} {key : Nat}

theorem modifier_mem (m : Modifier) : m ∈ Modifier.all := by
  cases m <;> decide

/-- a code of the six finds its key, shifted or not -/
theorem keymap_modifier (m : Modifier) (column : Nat) (hc : column = 0 ∨ column = 1) :
    keymap m.code.1.toNat (if m.code.2 then 2 else column) = m.key := by
  have h : ∀ m ∈ Modifier.all, ∀ column ∈ [0, 1],
      keymap m.code.1.toNat (if m.code.2 then 2 else column) = m.key := by decide
  refine h m (modifier_mem m) column ?_
  rcases hc with rfl | rfl
  · decide
  · decide

/-- no other code does -/
theorem keymap_ne (row : Nat) (e0 : Bool) (column : Nat) (hrow : row < 0x80)
    (hc : column = 0 ∨ column = 1)
    (h : ∀ m : Modifier, ¬ (m.code.1.toNat = row ∧ m.code.2 = e0)) :
    ∀ m : Modifier, keymap row (if e0 then 2 else column) ≠ m.key := by
  have hall : ∀ row < 0x80, ∀ e0 : Bool, ∀ column ∈ [0, 1],
      (∀ m ∈ Modifier.all, ¬ (m.code.1.toNat = row ∧ m.code.2 = e0)) →
        ∀ m ∈ Modifier.all, keymap row (if e0 then 2 else column) ≠ m.key := by
    decide +kernel
  have hmem : column ∈ [0, 1] := by
    rcases hc with rfl | rfl
    · decide
    · decide
  exact fun m => hall row hrow e0 column hmem (fun m _ => h m) m (modifier_mem m)

/-- the keys of the table are below the flags -/
theorem keymap_lt (row column : Nat) (numLock : Bool) :
    keymap row column < 512 ∧ padKey numLock (keymap row column) < 512 := by
  have hall : ∀ r ∈ keymapRows, ∀ key ∈ r, ∀ b : Bool, key < 512 ∧ padKey b key < 512 := by
    decide +kernel
  obtain ⟨h1, h2⟩ := keymap_all (P := fun key => ∀ b, key < 512 ∧ padKey b key < 512) hall
    (by decide) row column numLock
  exact ⟨h1, h2⟩

theorem row_eq (x : Scan) : x.scanCode.toNat % 0x80 = (x.scanCode &&& 0x7F).toNat := by
  rw [BitVec.toNat_and]
  exact (Nat.and_two_pow_sub_one_eq_mod x.scanCode.toNat 7).symm

theorem modifier_some (h : x.modifier = some m) :
    x.special = none ∧ m.code = (x.scanCode &&& 0x7F, x.codeWithE0) := by
  unfold Scan.modifier at h
  obtain ⟨hx, hfind⟩ := Option.ite_none_right_eq_some.mp h
  have hm := List.find?_some hfind
  exact ⟨hx, of_decide_eq_true hm⟩

theorem modifier_none (hx : x.special = none) (h : x.modifier = none) :
    ∀ m : Modifier, m.code ≠ (x.scanCode &&& 0x7F, x.codeWithE0) := by
  unfold Scan.modifier at h
  rw [if_pos hx] at h
  intro m hm
  exact List.find?_eq_none.mp h m (modifier_mem m) (decide_eq_true hm)

/-- the column by 0xE0, or by Shift and Caps Lock -/
theorem key_column (k : Keyboard) (x : Scan) : ∃ column, (column = 0 ∨ column = 1) ∧
    x.key k = keymap (x.scanCode &&& 0x7F).toNat (if x.codeWithE0 then 2 else column) := by
  have hcaps : ∀ caps : Bool, (if caps then 1 else 0) = 0 ∨ (if caps then 1 else 0) = 1 := by decide
  rw [← row_eq]
  refine ⟨_, ?_, rfl⟩
  exact hcaps _

/-- the key of one of the six -/
theorem key_modifier (k : Keyboard) (h : x.modifier = some m) : x.key k = m.key := by
  obtain ⟨-, hcode⟩ := modifier_some h
  obtain ⟨column, hc, hkey⟩ := key_column k x
  rw [hkey, ← show m.code.1 = x.scanCode &&& 0x7F from congrArg Prod.fst hcode,
    ← show m.code.2 = x.codeWithE0 from congrArg Prod.snd hcode]
  exact keymap_modifier m column hc

theorem key_other (k : Keyboard) (hx : x.special = none) (h : x.modifier = none) :
    ∀ m : Modifier, x.key k ≠ m.key := by
  obtain ⟨column, hc, hkey⟩ := key_column k x
  rw [hkey]
  refine keymap_ne _ _ column ?_ hc fun m hm => modifier_none hx h m ?_
  · rw [← row_eq]
    exact Nat.mod_lt _ (by decide)
  · exact Prod.ext (BitVec.eq_of_toNat_eq hm.1) hm.2

/-! ## the flags -/

/-- the right Alt key sets the flag of the left one -/
theorem switch_modifier (k : Keyboard) (m : Modifier) (make : Bool) :
    (k.switch m.key make).flag =
      Function.update k.flag (if m = .altR then .altL else m) make := by
  funext i
  cases m <;> cases i <;> rfl

theorem switch_other (k : Keyboard) (make : Bool) (h : ∀ m : Modifier, key ≠ m.key) :
    (k.switch key make).flag = k.flag := by
  have h1 : key ≠ SHIFT_L := h .shiftL
  have h2 : key ≠ SHIFT_R := h .shiftR
  have h3 : key ≠ CTRL_L := h .ctrlL
  have h4 : key ≠ CTRL_R := h .ctrlR
  have h5 : key ≠ ALT_L := h .altL
  have h6 : key ≠ ALT_R := h .altR
  unfold Keyboard.switch
  rw [if_neg h1, if_neg h2, if_neg h3, if_neg h4, if_neg h5, if_neg h6]
  split_ifs <;> rfl

theorem flags_and (k : Keyboard) (m : Modifier) : decide (k.flags &&& m.flag ≠ 0) = k.flag m := by
  have h : ∀ m ∈ Modifier.all, ∀ a b c d e f : Bool,
      decide (Keyboard.flags ⟨a, b, c, d, e, f, false, false, false⟩ &&& m.flag ≠ 0) =
        Keyboard.flag ⟨a, b, c, d, e, f, false, false, false⟩ m := by
    decide +kernel
  have hm := h m (modifier_mem m) k.shiftL k.shiftR k.altL k.altR k.ctrlL k.ctrlR
  cases m <;> exact hm

theorem low_and (hk : key < 512) (m : Modifier) : key &&& m.flag = 0 := by
  have h : ∀ key < 512, ∀ m ∈ Modifier.all, key &&& m.flag = 0 := by decide +kernel
  exact h key hk m (modifier_mem m)

/-- the flags of a key that is passed on -/
theorem pressed_and (k : Keyboard) (m : Modifier) (hk : key < 512)
    (hp : padKey k.numLock key < 512) : decide (k.pressed key &&& m.flag ≠ 0) = k.flag m := by
  have hpad : (if PAD_SLASH ≤ key ∧ key ≤ PAD_9 then FLAG_PAD else 0) &&& m.flag = 0 := by
    split
    · cases m <;> rfl
    · exact Nat.zero_and _
  have hbase :
      (if PAD_SLASH ≤ key ∧ key ≤ PAD_9 then padKey k.numLock key else key) &&& m.flag = 0 := by
    split
    · exact low_and hp m
    · exact low_and hk m
  unfold Keyboard.pressed
  simp only
  rw [Nat.and_or_distrib_right, Nat.and_or_distrib_right, hbase, hpad, Nat.zero_or, Nat.or_zero]
  exact flags_and k m

/-! ## one turn -/

/-- what a turn of the common path does to the flags -/
theorem decode_flag (k : Keyboard) (hx : x.special = none) :
    (decode k x).1.flag = match x.modifier with
      | none => k.flag
      | some m => Function.update k.flag (if m = .altR then .altL else m) x.make := by
  show (k.switch (x.key k) x.make).flag = _
  cases hm : x.modifier with
  | none => exact switch_other k x.make (key_other k hx hm)
  | some m =>
    rw [key_modifier k hm]
    exact switch_modifier k m x.make

theorem special_none (h : ¬ ((l.special x.special).key = PAUSEBREAK ∨
    (l.special x.special).key = PRINTSCREEN)) :
    x.special = none ∧ l.key ≠ PAUSEBREAK ∧ l.key ≠ PRINTSCREEN := by
  cases hx : x.special with
  | none =>
    rw [hx] at h
    exact ⟨rfl, not_or.mp h⟩
  | some sp =>
    rw [hx] at h
    cases sp with
    | pauseBreak => exact absurd (.inl rfl) h
    | printScreen make => exact absurd (.inr rfl) h

/-- what is passed on has the flags of the state after the turn -/
theorem turn_keys (k : Keyboard) (l : Local) (x : Scan) :
    ∀ key ∈ (turn k l x).2.2, ∀ m : Modifier,
      decide (key &&& m.flag ≠ 0) = (turn k l x).1.flag m := by
  have hlow : ∀ k : Keyboard, ∀ key, key = PAUSEBREAK ∨ key = PRINTSCREEN → ∀ m : Modifier,
      decide (k.pressed key &&& m.flag ≠ 0) = k.flag m := by
    rintro k key (rfl | rfl) m
    · exact pressed_and k m (by decide) (by cases k.numLock <;> decide)
    · exact pressed_and k m (by decide) (by cases k.numLock <;> decide)
  by_cases hstale : (l.special x.special).key = PAUSEBREAK ∨ (l.special x.special).key = PRINTSCREEN
  · rw [turn_skip rfl hstale]
    split
    · intro key hkey m
      rw [List.mem_singleton.mp hkey]
      exact hlow k _ hstale m
    · intro key hkey
      exact absurd hkey List.not_mem_nil
  · obtain ⟨hx, hl⟩ := special_none hstale
    rw [turn_decode hx hl]
    split
    · intro key hkey m
      rw [List.mem_singleton.mp hkey]
      exact pressed_and _ m (keymap_lt _ _ true).1 (keymap_lt _ _ _).2
    · intro key hkey
      exact absurd hkey List.not_mem_nil

/-- the flags after a turn -/
theorem turn_flag (k : Keyboard) (l : Local) (x : Scan) :
    (turn k l x).1.flag = match x.modifier with
      | none => k.flag
      | some m =>
        if l.Stale then k.flag
        else Function.update k.flag (if m = .altR then .altL else m) x.make := by
  by_cases hstale : (l.special x.special).key = PAUSEBREAK ∨ (l.special x.special).key = PRINTSCREEN
  · have hk : (turn k l x).1 = k := by
      rw [turn_skip rfl hstale]
      split <;> rfl
    rw [hk]
    cases hm : x.modifier with
    | none => rfl
    | some m =>
      rw [(modifier_some hm).1] at hstale
      exact (if_pos hstale).symm
  · obtain ⟨hx, hl⟩ := special_none hstale
    have hk : (turn k l x).1 = (decode k x).1 := by
      rw [turn_decode hx hl]
      split <;> rfl
    rw [hk, decode_flag k hx]
    cases x.modifier with
    | none => rfl
    | some m => exact (if_neg (not_or.mpr hl)).symm

/-! ## the run -/

/-- the flags are right, and the one of the right Alt key was never set -/
structure Right (s : Moment) : Prop where
  flags : ∀ m, s.kbd.flag m = s.held m
  altR : s.kbd.altR = false

theorem Right.start : Right .start := ⟨fun m => by cases m <;> rfl, rfl⟩

/-- what a turn passes on has the right flags if the state has -/
theorem mirrors_iff (s : Moment) (q : KeySeq) :
    Mirrors (s.next (.turn q)) ↔
      (turn s.kbd s.loc q.what).1.flag = heldAfter s.held q.what := by
  refine ⟨fun h => funext h.flags, fun h => ⟨fun m => congrFun h m, fun key hkey m => ?_⟩⟩
  exact (turn_keys s.kbd s.loc q.what key hkey m).trans (congrFun h m)

/-- a sequence keeps the flags right exactly if it meets the condition -/
theorem Right.turn_iff (h : Right s) (q : KeySeq) :
    Mirrors (s.next (.turn q)) ↔ Meets s (.turn q) := by
  have hheld : s.held = s.kbd.flag := (funext h.flags).symm
  rw [mirrors_iff, turn_flag]
  unfold Meets heldAfter
  simp only
  cases q.what.modifier with
  | none => exact ⟨fun _ => trivial, fun _ => hheld.symm⟩
  | some m =>
    simp only
    rw [hheld]
    by_cases hstale : s.loc.Stale
    · rw [if_pos hstale, if_pos hstale, eq_comm, Function.update_eq_self_iff]
      exact eq_comm
    rw [if_neg hstale, if_neg hstale]
    by_cases hm : m = .altR
    · subst hm
      rw [if_pos rfl]
      constructor
      · intro heq _
        have hright := congrFun heq .altR
        have hleft := congrFun heq .altL
        rw [Function.update_of_ne (by decide), Function.update_self] at hright
        rw [Function.update_self, Function.update_of_ne (by decide)] at hleft
        have hmake : q.what.make = false := hright.symm.trans h.altR
        exact ⟨hmake, hleft.symm.trans hmake⟩
      · intro hmeets
        obtain ⟨hmake, hleft⟩ := hmeets rfl
        have hl : Function.update s.kbd.flag .altL q.what.make = s.kbd.flag :=
          Function.update_eq_self_iff.mpr (hmake.trans hleft.symm)
        have hr : Function.update s.kbd.flag .altR q.what.make = s.kbd.flag :=
          Function.update_eq_self_iff.mpr (hmake.trans h.altR.symm)
        rw [hl, hr]
    · rw [if_neg hm]
      exact ⟨fun _ hc => absurd hc hm, fun _ => rfl⟩

theorem Right.next {e : Event} (h : Right s) (hm : Mirrors (s.next e)) : Right (s.next e) := by
  refine ⟨hm.flags, ?_⟩
  cases e with
  | call make => exact h.altR
  | turn q =>
    show (turn s.kbd s.loc q.what).1.flag .altR = false
    rw [turn_flag]
    cases q.what.modifier with
    | none => exact h.altR
    | some m =>
      simp only
      split
      · exact h.altR
      · rw [Function.update_of_ne]
        · exact h.altR
        · split
          · decide
          · exact fun hc => absurd hc.symm ‹_›

/-- **The run mirrors the keyboard**, after every turn and in every key that is passed on, exactly if
every sequence meets the condition. -/
theorem mirrored_iff (es : List Event) :
    Run.Always step (fun _ _ t => Mirrors t) .start es ↔
      Run.Always step (fun s e _ => Meets s e) .start es := by
  have hiff : ∀ s e t, Right s → step s e t → (Mirrors t ↔ Meets s e) := by
    rintro s e t hs rfl
    cases e with
    | call make =>
      exact ⟨fun _ => trivial, fun _ => ⟨hs.flags, fun key hkey => absurd hkey List.not_mem_nil⟩⟩
    | turn q => exact hs.turn_iff q
  refine Run.Always.iff_of_inv hiff (fun s e t hs ht hq => ?_) es _ Right.start
  have hm := (hiff s e t hs ht).mpr hq
  obtain rfl := ht
  exact hs.next hm

/-- the right Alt key is pressed; and Shift is pressed behind a PrintScreen -/
theorem mirrored_fails :
    (¬ Run.Always step (fun _ _ t => Mirrors t) .start [.call false, .turn (Modifier.altR.seq true)]) ∧
    ¬ Run.Always step (fun _ _ t => Mirrors t) .start
      [.call false, .turn printScreenMake, .turn (Modifier.shiftL.seq true)] := by
  constructor
  · intro h
    have halt := ((h _ rfl).2 _ rfl).1.flags .altR
    exact absurd halt (by decide)
  · intro h
    have hshift := (((h _ rfl).2 _ rfl).2 _ rfl).1.flags .shiftL
    exact absurd hshift (by decide)

/-! ## the calls -/

/-- the events of a stream in buffers -/
def events (junk : Nat → Bool) : List (List KeySeq) → List Event
  | [] => []
  | qs :: bs => .call (junk 0) :: (qs.map Event.turn ++ events (fun n => junk (n + 1)) bs)

/-- the state at the end of a run, and what was passed on -/
def played (s : Moment) : List Event → Moment × List Nat
  | [] => (s, [])
  | e :: es => ((played (s.next e) es).1, (s.next e).out ++ (played (s.next e) es).2)

theorem played_append (s : Moment) (es es' : List Event) :
    played s (es ++ es') = ((played (played s es).1 es').1,
      (played s es).2 ++ (played (played s es).1 es').2) := by
  induction es generalizing s with
  | nil => rfl
  | cons e es ih =>
    rw [List.cons_append, played, played, ih, List.append_assoc]

theorem turns_cons (k : Keyboard) (l : Local) (x : Scan) (xs : List Scan) :
    turns k l (x :: xs) = ((turns (turn k l x).1 (turn k l x).2.1 xs).1,
      (turn k l x).2.2 ++ (turns (turn k l x).1 (turn k l x).2.1 xs).2) := rfl

theorem calls_cons (junk : Nat → Bool) (k : Keyboard) (xs : List Scan) (bs : List (List Scan)) :
    calls junk k (xs :: bs) = ((calls (fun n => junk (n + 1)) (turns k ⟨0, junk 0⟩ xs).1 bs).1,
      (turns k ⟨0, junk 0⟩ xs).2 ++
        (calls (fun n => junk (n + 1)) (turns k ⟨0, junk 0⟩ xs).1 bs).2) := rfl

/-- the turns of one call -/
theorem played_turns (s : Moment) (qs : List KeySeq) :
    turns s.kbd s.loc (qs.map KeySeq.what) =
      ((played s (qs.map Event.turn)).1.kbd, (played s (qs.map Event.turn)).2) := by
  induction qs generalizing s with
  | nil => rfl
  | cons q qs ih =>
    rw [List.map_cons, turns_cons]
    have h : turns (turn s.kbd s.loc q.what).1 (turn s.kbd s.loc q.what).2.1
        (qs.map KeySeq.what) = _ := ih (s.next (.turn q))
    rw [h]
    rfl

theorem played_calls (junk : Nat → Bool) (s : Moment) (bs : List (List KeySeq)) :
    calls junk s.kbd (bs.map (List.map KeySeq.what)) =
      ((played s (events junk bs)).1.kbd, (played s (events junk bs)).2) := by
  induction bs generalizing junk s with
  | nil => rfl
  | cons qs bs ih =>
    have hturns : turns s.kbd ⟨0, junk 0⟩ (qs.map KeySeq.what) = _ :=
      played_turns (s.next (.call (junk 0))) qs
    rw [List.map_cons, calls_cons, hturns, ih, events, played, played_append]
    rfl

/-- **The run is `keyboard_read`**, call after call. -/
theorem played_eq (junk : Nat → Bool) (bs : List (List KeySeq)) :
    keyboardReads junk .init (bs.map buffer) =
      some ((played .start (events junk bs)).1.kbd, (played .start (events junk bs)).2) := by
  rw [keyboardReads_eq]
  exact congrArg some (played_calls junk .start bs)

end Noxis.Tty
