import Noxis.Tty.Keyboard

/-!
# 25-osfs11/kernel/keyboard.c: how the scan codes are split into calls

A stream of key sequences reaches `keyboard_read` in buffers that end where a sequence ends.

* `calls`         what the calls do, on sequences instead of bytes;
* `ownCall`       the same stream with one call for each sequence;
* `Fits`          no sequence meets what PrintScreen or Pause left in the local variables;
* `batched_iff`   the buffers make no difference exactly if `Fits`;
* `batched_fails` PrintScreen and `a` in one buffer.
-/

namespace Noxis.Tty

variable {k k' : Keyboard} {l : Local} {x : Scan} {junk junk' : Nat → Bool}

/-! ## sequences -/

/-- the bytes of one key press or release -/
structure KeySeq where
  bytes : List Byte
  what : Scan
  parses : scan bytes = some (what, [])

/-- `kb_in` with these sequences in it -/
def buffer (l : List KeySeq) : List Byte := (l.map KeySeq.bytes).flatten

/-- the same calls, when the stream ends after `n` sequences -/
def firstSeqs {α : Type*} : Nat → List (List α) → List (List α)
  | _, [] => []
  | n, b :: bs => b.take n :: firstSeqs (n - b.length) bs

theorem firstSeqs_map {α β : Type*} (f : α → β) (n : Nat) (bs : List (List α)) :
    (firstSeqs n bs).map (List.map f) = firstSeqs n (bs.map (List.map f)) := by
  induction bs generalizing n with
  | nil => rfl
  | cons b bs ih =>
    simp only [firstSeqs, List.map_cons, List.map_take, List.length_map]
    rw [ih]

theorem firstSeqs_flatten {α : Type*} (n : Nat) (bs : List (List α)) :
    (firstSeqs n bs).flatten = bs.flatten.take n := by
  induction bs generalizing n with
  | nil => simp [firstSeqs]
  | cons b bs ih => rw [firstSeqs, List.flatten_cons, List.flatten_cons, ih, List.take_append]

theorem firstSeqs_zero {α : Type*} (bs : List (List α)) :
    firstSeqs 0 bs = bs.map fun _ => [] := by
  induction bs with
  | nil => rfl
  | cons b bs ih => rw [firstSeqs, Nat.zero_sub, ih, List.take_zero, List.map_cons]

/-! ## a sequence is parsed whatever follows it -/

theorem scanPause_append {want l r : List Byte} (h : scanPause want l = some (x, r)) (t : List Byte) :
    scanPause want (l ++ t) = some (x, r ++ t) := by
  induction want generalizing l with
  | nil =>
    obtain ⟨rfl, rfl⟩ := Prod.mk.inj (Option.some.inj h)
    rfl
  | cons w want ih =>
    cases l with
    | nil => exact absurd h (by simp [scanPause])
    | cons c l =>
      rw [List.cons_append]
      rw [scanPause] at h ⊢
      by_cases hc : c = w
      · rw [if_pos hc] at h ⊢
        exact ih h
      · rw [if_neg hc] at h ⊢
        obtain ⟨rfl, rfl⟩ := Prod.mk.inj (Option.some.inj h)
        rfl

theorem scanPrint_append {want : Byte} {make : Bool} {l r : List Byte}
    (h : scanPrint want make l = some (x, r)) (t : List Byte) :
    scanPrint want make (l ++ t) = some (x, r ++ t) := by
  match l, h with
  | [c], h =>
    by_cases hc : c = 0xE0
    · rw [scanPrint, if_pos hc] at h
      exact absurd h (by simp)
    · rw [scanPrint, if_neg hc] at h
      obtain ⟨rfl, rfl⟩ := Prod.mk.inj (Option.some.inj h)
      cases t with
      | nil => rw [List.append_nil, scanPrint, if_neg hc, List.append_nil]
      | cons d t => rw [List.cons_append, List.nil_append, scanPrint, if_neg hc]
  | c :: d :: l, h =>
    rw [List.cons_append, List.cons_append]
    by_cases hc : c = 0xE0
    · rw [scanPrint, if_pos hc] at h ⊢
      obtain ⟨rfl, rfl⟩ := Prod.mk.inj (Option.some.inj h)
      rfl
    · rw [scanPrint, if_neg hc] at h ⊢
      obtain ⟨rfl, rfl⟩ := Prod.mk.inj (Option.some.inj h)
      rfl

theorem scanE0_append {l r : List Byte} (h : scanE0 l = some (x, r)) (t : List Byte) :
    scanE0 (l ++ t) = some (x, r ++ t) := by
  match l, h with
  | c :: l, h =>
    rw [List.cons_append]
    rw [scanE0] at h ⊢
    by_cases h2A : c = 0x2A
    · rw [if_pos h2A] at h ⊢
      exact scanPrint_append h t
    · rw [if_neg h2A] at h ⊢
      by_cases hB7 : c = 0xB7
      · rw [if_pos hB7] at h ⊢
        exact scanPrint_append h t
      · rw [if_neg hB7] at h ⊢
        obtain ⟨rfl, rfl⟩ := Prod.mk.inj (Option.some.inj h)
        rfl

theorem scan_append {l r : List Byte} (h : scan l = some (x, r)) (t : List Byte) :
    scan (l ++ t) = some (x, r ++ t) := by
  match l, h with
  | c :: l, h =>
    rw [List.cons_append]
    rw [scan] at h ⊢
    by_cases hE1 : c = 0xE1
    · rw [if_pos hE1] at h ⊢
      exact scanPause_append h t
    · rw [if_neg hE1] at h ⊢
      by_cases hE0 : c = 0xE0
      · rw [if_pos hE0] at h ⊢
        exact scanE0_append h t
      · rw [if_neg hE0] at h ⊢
        obtain ⟨rfl, rfl⟩ := Prod.mk.inj (Option.some.inj h)
        rfl

theorem KeySeq.bytes_ne (q : KeySeq) : q.bytes ≠ [] := by
  intro h
  have hp := q.parses
  rw [h] at hp
  exact absurd hp (by simp [scan])

/-! ## the calls on sequences -/

/-- the loop of one call -/
def turns : Keyboard → Local → List Scan → Keyboard × List Nat
  | k, _, [] => (k, [])
  | k, l, x :: xs =>
    let (k, l, out) := turn k l x
    let (k, keys) := turns k l xs
    (k, out ++ keys)

/-- call after call -/
def calls (junk : Nat → Bool) (k : Keyboard) : List (List Scan) → Keyboard × List Nat
  | [] => (k, [])
  | xs :: bs =>
    let (k, keys) := turns k ⟨0, junk 0⟩ xs
    let (k, more) := calls (fun n => junk (n + 1)) k bs
    (k, keys ++ more)

theorem readLoop_eq (qs : List KeySeq) (n : Nat) (hn : (buffer qs).length ≤ n) (k : Keyboard)
    (l : Local) : readLoop n k l (buffer qs) = some (turns k l (qs.map KeySeq.what)) := by
  induction qs generalizing n k l with
  | nil => cases n <;> rfl
  | cons q qs ih =>
    have hb : buffer (q :: qs) = q.bytes ++ buffer qs := rfl
    have hlen : (buffer (q :: qs)).length = q.bytes.length + (buffer qs).length := by
      rw [hb, List.length_append]
    have hpos : 0 < q.bytes.length := List.length_pos_iff.mpr q.bytes_ne
    have hscan : scan (buffer (q :: qs)) = some (q.what, buffer qs) := by
      rw [hb]
      exact scan_append q.parses (buffer qs)
    obtain ⟨m, rfl⟩ : ∃ m, n = m + 1 := ⟨n - 1, by omega⟩
    obtain ⟨c, s, hcs⟩ : ∃ c s, buffer (q :: qs) = c :: s := by
      refine List.exists_cons_of_ne_nil fun h0 => ?_
      rw [h0] at hlen
      simp only [List.length_nil] at hlen
      omega
    rw [hcs] at hscan ⊢
    show ((scan (c :: s)).bind fun p =>
      (readLoop m (turn k l p.1).1 (turn k l p.1).2.1 p.2).map fun r =>
        (r.1, (turn k l p.1).2.2 ++ r.2)) = _
    rw [hscan, Option.bind_some, ih m (by omega)]
    rfl

theorem keyboardReads_eq (junk : Nat → Bool) (k : Keyboard) (bs : List (List KeySeq)) :
    keyboardReads junk k (bs.map buffer) = some (calls junk k (bs.map (List.map KeySeq.what))) := by
  induction bs generalizing junk k with
  | nil => rfl
  | cons b bs ih =>
    have hb : keyboardRead (junk 0) k (buffer b) = some (turns k ⟨0, junk 0⟩ (b.map KeySeq.what)) :=
      readLoop_eq b _ le_rfl k _
    rw [List.map_cons, keyboardReads, hb, Option.bind_some]
    show (keyboardReads _ (turns k ⟨0, junk 0⟩ (b.map KeySeq.what)).1 (bs.map buffer)).map _ = _
    rw [ih]
    rfl

/-- one call for each sequence -/
def ownCall {α : Type*} (l : List α) : List (List α) := l.map fun a => [a]

theorem buffer_own (l : List KeySeq) : (ownCall l).map buffer = l.map KeySeq.bytes := by
  rw [ownCall, List.map_map]
  exact List.map_congr_left fun q _ => List.append_nil q.bytes

theorem ownCall_map {α β : Type*} (f : α → β) (l : List α) :
    (ownCall l).map (List.map f) = ownCall (l.map f) := by
  rw [ownCall, ownCall, List.map_map, List.map_map]
  rfl

/-! ## what a turn leaves behind -/

/-- the keys that the common path never finds -/
def IsSpecial (key : Nat) : Prop := key % 512 = PRINTSCREEN ∨ key % 512 = PAUSEBREAK

theorem not_isSpecial {key : Nat} (h : ¬ IsSpecial key) : key ≠ PAUSEBREAK ∧ key ≠ PRINTSCREEN := by
  constructor
  · rintro rfl
    exact h (.inr rfl)
  · rintro rfl
    exact h (.inl rfl)

theorem keymap_not_special (row column : Nat) (numLock : Bool) :
    ¬ IsSpecial (keymap row column) ∧ ¬ IsSpecial (padKey numLock (keymap row column)) := by
  have hall : ∀ r ∈ keymapRows, ∀ key ∈ r, ∀ b : Bool,
      (key % 512 ≠ PRINTSCREEN ∧ key % 512 ≠ PAUSEBREAK) ∧
        padKey b key % 512 ≠ PRINTSCREEN ∧ padKey b key % 512 ≠ PAUSEBREAK := by
    decide +kernel
  obtain ⟨⟨h1, h2⟩, h3, h4⟩ := keymap_all hall (by decide) row column numLock
  exact ⟨not_or.mpr ⟨h1, h2⟩, not_or.mpr ⟨h3, h4⟩⟩

theorem pressed_printScreen (k : Keyboard) : k.pressed PRINTSCREEN = PRINTSCREEN ||| k.flags := by
  show PRINTSCREEN ||| (k.flags ||| 0) = _
  rw [Nat.or_zero]

theorem pressed_printScreen_mod (k : Keyboard) : k.pressed PRINTSCREEN % 512 = PRINTSCREEN :=
  pressed_mod k PRINTSCREEN

/-- `key` keeps PRINTSCREEN for the next turn unless a modifier is held -/
theorem pressed_printScreen_eq (k : Keyboard) : k.pressed PRINTSCREEN = PRINTSCREEN ↔ k.flags = 0 := by
  rw [pressed_printScreen]
  have h : ∀ a b c d e f : Bool,
      PRINTSCREEN ||| Keyboard.flags ⟨a, b, c, d, e, f, false, false, false⟩ = PRINTSCREEN ↔
        Keyboard.flags ⟨a, b, c, d, e, f, false, false, false⟩ = 0 := by
    decide
  exact h k.shiftL k.shiftR k.altL k.altR k.ctrlL k.ctrlR

theorem key_not_special (k : Keyboard) (x : Scan) : ¬ IsSpecial (x.key k) :=
  (keymap_not_special _ _ true).1

theorem pressed_not_special (k k' : Keyboard) (x : Scan) : ¬ IsSpecial (k'.pressed (x.key k)) := by
  unfold IsSpecial
  rw [pressed_mod]
  split
  · exact (keymap_not_special _ _ k'.numLock).2
  · exact (keymap_not_special _ _ true).1

/-- the common path -/
theorem turn_decode (hx : x.special = none) (hl : l.key ≠ PAUSEBREAK ∧ l.key ≠ PRINTSCREEN) :
    turn k l x =
      if x.make then
        ((decode k x).1, ⟨(decode k x).1.pressed (x.key k), true⟩, [(decode k x).1.pressed (x.key k)])
      else ((decode k x).1, ⟨x.key k, false⟩, []) := by
  have hdec : (decode k x).2 = ⟨x.key k, x.make⟩ := rfl
  simp only [turn, hx, Local.special]
  rw [if_pos hl]
  simp only [hdec]
  cases x.make <;> rfl

/-- the common path is skipped -/
theorem turn_skip {l' : Local} (hl : l.special x.special = l')
    (hkey : l'.key = PAUSEBREAK ∨ l'.key = PRINTSCREEN) :
    turn k l x =
      if l'.make then (k, { l' with key := k.pressed l'.key }, [k.pressed l'.key])
      else (k, l', []) := by
  have hskip : ¬ (l'.key ≠ PAUSEBREAK ∧ l'.key ≠ PRINTSCREEN) := by
    rintro ⟨h1, h2⟩
    exact hkey.elim h1 h2
  unfold turn
  simp only [hl]
  rw [if_neg hskip]

/-! ## when a sequence fits behind the others of its call -/

/-- the modifiers after a sequence with a call of its own -/
def after (k : Keyboard) (x : Scan) : Keyboard := if x.special = none then (decode k x).1 else k

/-- `key` is not special, or still PRINTSCREEN from a sequence before -/
def Left (l : Local) : Option Bool → Prop
  | none => l.key ≠ PAUSEBREAK ∧ l.key ≠ PRINTSCREEN
  | some make => l = ⟨PRINTSCREEN, make⟩

/-- a key press clears PRINTSCREEN only when a modifier is held -/
def leftAfter (k : Keyboard) (left : Option Bool) (x : Scan) : Option Bool :=
  match x.special with
  | some (.printScreen make) => if make ∧ k.flags ≠ 0 then none else some make
  | _ => left

/-- `x` does the same as in a call of its own: it is not Pause, which does not set `make`, and if
PRINTSCREEN was left, `x` is another PrintScreen, or both are releases and `x` changes nothing -/
def FitsNow (k : Keyboard) (left : Option Bool) (x : Scan) : Prop :=
  match x.special, left with
  | some .pauseBreak, _ => False
  | some (.printScreen _), _ => True
  | none, none => True
  | none, some make => make = false ∧ x.make = false ∧ (decode k x).1 = k

/-- every sequence of one call -/
def FitsCall : Keyboard → Option Bool → List Scan → Prop
  | _, _, [] => True
  | k, left, x :: xs => FitsNow k left x ∧ FitsCall (after k x) (leftAfter k left x) xs

/-- every sequence of every call; a call starts with `key = 0` -/
def Fits : Keyboard → List (List Scan) → Prop
  | _, [] => True
  | k, xs :: bs => FitsCall k none xs ∧ Fits (xs.foldl after k) bs

/-- what a turn does outside of the call -/
def shown (k : Keyboard) (l : Local) (x : Scan) : Keyboard × List Nat :=
  ((turn k l x).1, (turn k l x).2.2)

theorem turn_fits {left : Option Bool} (hl : Left l left) (h : FitsNow k left x) (make : Bool) :
    (turn k l x).1 = after k x ∧ shown k l x = shown k ⟨0, make⟩ x ∧
      Left (turn k l x).2.1 (leftAfter k left x) := by
  have h0 : (0 : Nat) ≠ PAUSEBREAK ∧ (0 : Nat) ≠ PRINTSCREEN := by decide
  match hx : x.special, left, hl, h with
  | some .pauseBreak, _, _, h =>
    unfold FitsNow at h
    rw [hx] at h
    exact h.elim
  | some (.printScreen m), left, _, _ =>
    have hs : ∀ l : Local, l.special x.special = ⟨PRINTSCREEN, m⟩ := by
      intro l
      rw [hx]
      rfl
    have hturn : ∀ l : Local, turn k l x =
        if m then (k, ⟨k.pressed PRINTSCREEN, m⟩, [k.pressed PRINTSCREEN])
        else (k, ⟨PRINTSCREEN, m⟩, []) := by
      intro l
      exact turn_skip (hs l) (.inr rfl)
    have hafter : after k x = k := by
      unfold after
      rw [hx]
      exact if_neg (by simp)
    have hleft : leftAfter k left x = if m ∧ k.flags ≠ 0 then none else some m := by
      unfold leftAfter
      rw [hx]
    unfold shown
    rw [hturn, hturn, hafter, hleft]
    cases m with
    | false => exact ⟨rfl, rfl, rfl⟩
    | true =>
      refine ⟨rfl, rfl, ?_⟩
      by_cases hf : k.flags = 0
      · rw [if_neg fun hc : true = true ∧ k.flags ≠ 0 => hc.2 hf]
        show (⟨k.pressed PRINTSCREEN, true⟩ : Local) = ⟨PRINTSCREEN, true⟩
        rw [(pressed_printScreen_eq k).mpr hf]
      · rw [if_pos (⟨rfl, hf⟩ : true = true ∧ k.flags ≠ 0)]
        refine ⟨fun hc => ?_, fun hc => hf ((pressed_printScreen_eq k).mp hc)⟩
        have hmod := pressed_printScreen_mod k
        rw [show k.pressed PRINTSCREEN = PAUSEBREAK from hc] at hmod
        exact absurd hmod (by decide)
  | none, none, hl, _ =>
    have hafter : after k x = (decode k x).1 := if_pos hx
    have hleft : leftAfter k none x = none := by
      unfold leftAfter
      rw [hx]
    unfold shown
    rw [turn_decode hx hl, turn_decode hx h0, hafter, hleft]
    cases x.make with
    | false => exact ⟨rfl, rfl, not_isSpecial (key_not_special k x)⟩
    | true => exact ⟨rfl, rfl, not_isSpecial (pressed_not_special k _ x)⟩
  | none, some m, hl, h =>
    unfold FitsNow at h
    rw [hx] at h
    obtain ⟨rfl, hm, hd⟩ := h
    obtain rfl : l = ⟨PRINTSCREEN, false⟩ := hl
    have hafter : after k x = k := by
      rw [after, if_pos hx, hd]
    have hturn : turn k ⟨PRINTSCREEN, false⟩ x = (k, ⟨PRINTSCREEN, false⟩, []) := by
      rw [turn_skip (congrArg _ hx) (.inr rfl)]
      rfl
    have hleft : leftAfter k (some false) x = some false := by
      unfold leftAfter
      rw [hx]
    unfold shown
    rw [hturn, turn_decode hx h0, hm, hd, hafter, hleft]
    exact ⟨rfl, rfl, rfl⟩

theorem turn_unfit {left : Option Bool} (hl : Left l left) (h : ¬ FitsNow k left x) :
    ∃ make, shown k l x ≠ shown k ⟨0, make⟩ x := by
  have h0 : (0 : Nat) ≠ PAUSEBREAK ∧ (0 : Nat) ≠ PRINTSCREEN := by decide
  unfold FitsNow at h
  match hx : x.special, left, hl, h with
  | some .pauseBreak, _, _, _ =>
    have hturn : ∀ l : Local, shown k l x = (k, if l.make then [k.pressed PAUSEBREAK] else []) := by
      intro l
      have hs : l.special x.special = ⟨PAUSEBREAK, l.make⟩ := by
        rw [hx]
        rfl
      unfold shown
      rw [turn_skip hs (.inl rfl)]
      cases l.make <;> rfl
    refine ⟨!l.make, ?_⟩
    rw [hturn, hturn]
    show (k, if l.make then [k.pressed PAUSEBREAK] else []) ≠
      (k, if !l.make then [k.pressed PAUSEBREAK] else [])
    cases l.make with
    | false => exact fun hc => absurd (congrArg Prod.snd hc) (by simp)
    | true => exact fun hc => absurd (congrArg Prod.snd hc) (by simp)
  | some (.printScreen m), _, _, h =>
    exact absurd trivial h
  | none, none, _, h =>
    exact absurd trivial h
  | none, some m, hl, h =>
    obtain rfl : l = ⟨PRINTSCREEN, m⟩ := hl
    have hturn : shown k ⟨PRINTSCREEN, m⟩ x = (k, if m then [k.pressed PRINTSCREEN] else []) := by
      have hs : (⟨PRINTSCREEN, m⟩ : Local).special x.special = ⟨PRINTSCREEN, m⟩ := by
        rw [hx]
        rfl
      unfold shown
      rw [turn_skip hs (.inr rfl)]
      cases m <;> rfl
    refine ⟨true, ?_⟩
    rw [hturn]
    unfold shown
    rw [turn_decode hx h0]
    intro hc
    have hout := congrArg Prod.snd hc
    have hk := congrArg Prod.fst hc
    cases hm : x.make with
    | false =>
      rw [hm] at hout hk
      cases m with
      | false => exact h ⟨rfl, hm, hk.symm⟩
      | true => exact absurd hout (by simp)
    | true =>
      rw [hm] at hout
      cases m with
      | false => exact absurd hout (by simp)
      | true =>
        have hkey : k.pressed PRINTSCREEN = (decode k x).1.pressed (x.key k) :=
          (List.cons.inj hout).1
        refine pressed_not_special k (decode k x).1 x (.inl ?_)
        rw [← hkey]
        exact pressed_printScreen_mod k

/-! ## the whole stream -/

/-- from the middle of a call: the rest `xs` of it, then the calls `bs` -/
def rest (junk : Nat → Bool) (k : Keyboard) (l : Local) (xs : List Scan) (bs : List (List Scan)) :
    Keyboard × List Nat :=
  let (k, keys) := turns k l xs
  let (k, more) := calls junk k bs
  (k, keys ++ more)

/-- wherever the stream ends, the calls do what one call for each sequence does -/
def Same (k : Keyboard) (l : Local) (xs : List Scan) (bs : List (List Scan)) : Prop :=
  ∀ n junk junk', rest junk k l (xs.take n) (firstSeqs (n - xs.length) bs) =
    calls junk' k (ownCall ((xs ++ bs.flatten).take n))

theorem rest_cons (junk : Nat → Bool) (k : Keyboard) (l : Local) (x : Scan) (xs : List Scan)
    (bs : List (List Scan)) :
    rest junk k l (x :: xs) bs =
      ((rest junk (turn k l x).1 (turn k l x).2.1 xs bs).1,
        (turn k l x).2.2 ++ (rest junk (turn k l x).1 (turn k l x).2.1 xs bs).2) := by
  show ((rest junk (turn k l x).1 (turn k l x).2.1 xs bs).1, ((turn k l x).2.2 ++ _) ++ _) = _
  rw [List.append_assoc]
  rfl

theorem ownCall_cons (junk : Nat → Bool) (k : Keyboard) (x : Scan) (xs : List Scan) :
    calls junk k (ownCall (x :: xs)) =
      ((calls (fun n => junk (n + 1)) (shown k ⟨0, junk 0⟩ x).1 (ownCall xs)).1,
        (shown k ⟨0, junk 0⟩ x).2 ++
          (calls (fun n => junk (n + 1)) (shown k ⟨0, junk 0⟩ x).1 (ownCall xs)).2) := by
  show (_, ((turn k ⟨0, junk 0⟩ x).2.2 ++ []) ++ _) = _
  rw [List.append_nil]
  rfl

theorem rest_empty (junk : Nat → Bool) (k : Keyboard) (l : Local) (bs : List (List Scan)) :
    rest junk k l [] (bs.map fun _ => []) = (k, []) := by
  induction bs generalizing junk l with
  | nil => rfl
  | cons b bs ih => exact ih (fun n => junk (n + 1)) ⟨0, junk 0⟩

/-- nothing is left of the call -/
theorem rest_nil (junk : Nat → Bool) (k : Keyboard) (l : Local) (n : Nat) (bs : List (List Scan)) :
    rest junk k l (([] : List Scan).take n) (firstSeqs (n - ([] : List Scan).length) bs) =
      calls junk k (firstSeqs n bs) := by
  rw [List.take_nil, List.length_nil, Nat.sub_zero]
  rfl

theorem same_nil_iff (k : Keyboard) (l : Local) (bs : List (List Scan)) :
    Same k l [] bs ↔ ∀ n junk junk',
      calls junk k (firstSeqs n bs) = calls junk' k (ownCall (bs.flatten.take n)) := by
  unfold Same
  simp only [rest_nil, List.nil_append]

theorem same_nil (k : Keyboard) (l : Local) : Same k l [] [] := by
  rw [same_nil_iff]
  intro n junk junk'
  rw [List.flatten_nil, List.take_nil]
  rfl

/-- the next call -/
theorem same_call (k : Keyboard) (l : Local) (xs : List Scan) (bs : List (List Scan)) :
    Same k l [] (xs :: bs) ↔ ∀ make, Same k ⟨0, make⟩ xs bs := by
  rw [same_nil_iff]
  constructor
  · intro h make n junk junk'
    exact h n (fun m => if m = 0 then make else junk (m - 1)) junk'
  · intro h n junk junk'
    exact h (junk 0) n (fun m => junk (m + 1)) junk'

/-- a sequence that fits -/
theorem same_cons {left : Option Bool} (hl : Left l left) (h : FitsNow k left x) (xs : List Scan)
    (bs : List (List Scan)) : Same k l (x :: xs) bs ↔ Same (after k x) (turn k l x).2.1 xs bs := by
  have hk : (turn k l x).1 = after k x := (turn_fits hl h true).1
  have hown : ∀ make, shown k ⟨0, make⟩ x = (after k x, (turn k l x).2.2) := by
    intro make
    rw [← (turn_fits hl h make).2.1, ← hk]
    rfl
  have hstep : ∀ n junk junk',
      rest junk k l ((x :: xs).take (n + 1)) (firstSeqs (n + 1 - (x :: xs).length) bs) =
          calls junk' k (ownCall ((x :: xs ++ bs.flatten).take (n + 1))) ↔
        rest junk (after k x) (turn k l x).2.1 (xs.take n) (firstSeqs (n - xs.length) bs) =
          calls (fun m => junk' (m + 1)) (after k x) (ownCall ((xs ++ bs.flatten).take n)) := by
    intro n junk junk'
    rw [List.cons_append, List.take_succ_cons, List.take_succ_cons, List.length_cons,
      Nat.add_sub_add_right, rest_cons, ownCall_cons, hown, hk]
    constructor
    · intro heq
      obtain ⟨h1, h2⟩ := Prod.mk.inj heq
      exact Prod.ext h1 (List.append_cancel_left h2)
    · intro heq
      rw [heq]
  constructor
  · intro hs n junk junk'
    exact (hstep n junk fun m => junk' (m - 1)).mp (hs (n + 1) junk fun m => junk' (m - 1))
  · intro hs n junk junk'
    cases n with
    | zero =>
      rw [Nat.zero_sub, firstSeqs_zero, List.take_zero, rest_empty]
      rfl
    | succ n => exact (hstep n junk junk').mpr (hs n junk _)

/-- a sequence that does not fit -/
theorem not_same {left : Option Bool} (hl : Left l left) (h : ¬ FitsNow k left x) (xs : List Scan)
    (bs : List (List Scan)) : ¬ Same k l (x :: xs) bs := by
  intro hs
  obtain ⟨make, hne⟩ := turn_unfit hl h
  have h1 := hs 1 (fun _ => make) (fun _ => make)
  rw [List.cons_append, List.take_succ_cons, List.take_succ_cons, List.take_zero, List.take_zero,
    List.length_cons, show 1 - (xs.length + 1) = 0 by omega, firstSeqs_zero, rest_cons, rest_empty,
    ownCall_cons] at h1
  refine hne ?_
  obtain ⟨hk, hout⟩ := Prod.mk.inj h1
  refine Prod.ext hk ?_
  rw [List.append_nil] at hout
  rw [show (shown k l x).2 = (turn k l x).2.2 from rfl, hout]
  exact List.append_nil _

theorem same_iff (bs : List (List Scan)) (xs : List Scan) (k : Keyboard) (l : Local)
    (left : Option Bool) (hl : Left l left) :
    Same k l xs bs ↔ FitsCall k left xs ∧ Fits (xs.foldl after k) bs := by
  induction bs generalizing xs k l left with
  | nil =>
    induction xs generalizing k l left with
    | nil => exact ⟨fun _ => ⟨trivial, trivial⟩, fun _ => same_nil k l⟩
    | cons x xs ih =>
      by_cases h : FitsNow k left x
      · rw [same_cons hl h, ih _ _ _ (turn_fits hl h true).2.2]
        exact ⟨fun hc => ⟨⟨h, hc.1⟩, hc.2⟩, fun hc => ⟨hc.1.2, hc.2⟩⟩
      · exact ⟨fun hc => absurd hc (not_same hl h xs []), fun hc => absurd hc.1.1 h⟩
  | cons b bs ihb =>
    induction xs generalizing k l left with
    | nil =>
      have h0 : ∀ make, Left ⟨0, make⟩ none := fun _ => by
        show (0 : Nat) ≠ PAUSEBREAK ∧ (0 : Nat) ≠ PRINTSCREEN
        decide
      rw [same_call]
      constructor
      · intro h
        exact ⟨trivial, (ihb b k ⟨0, true⟩ none (h0 true)).mp (h true)⟩
      · rintro ⟨-, h⟩ make
        exact (ihb b k ⟨0, make⟩ none (h0 make)).mpr h
    | cons x xs ih =>
      by_cases h : FitsNow k left x
      · rw [same_cons hl h, ih _ _ _ (turn_fits hl h true).2.2]
        exact ⟨fun hc => ⟨⟨h, hc.1⟩, hc.2⟩, fun hc => ⟨hc.1.2, hc.2⟩⟩
      · exact ⟨fun hc => absurd hc (not_same hl h xs (b :: bs)), fun hc => absurd hc.1.1 h⟩

/-- **The buffers make no difference**: at every point of the stream the keys passed to `in_process`
and the modifiers and locks are those of one call for each sequence, whatever the uninitialized `make`
has in it in either case, exactly if every sequence fits behind the others of its call. -/
theorem batched_iff (k : Keyboard) (bs : List (List KeySeq)) :
    (∀ n junk junk', keyboardReads junk k ((firstSeqs n bs).map buffer) =
      keyboardReads junk' k ((firstSeqs n bs).flatten.map KeySeq.bytes)) ↔
    Fits k (bs.map (List.map KeySeq.what)) := by
  have hcalls : ∀ n junk junk',
      (keyboardReads junk k ((firstSeqs n bs).map buffer) =
        keyboardReads junk' k ((firstSeqs n bs).flatten.map KeySeq.bytes)) ↔
      calls junk k (firstSeqs n (bs.map (List.map KeySeq.what))) =
        calls junk' k (ownCall ((bs.map (List.map KeySeq.what)).flatten.take n)) := by
    intro n junk junk'
    rw [← buffer_own, keyboardReads_eq, keyboardReads_eq, ownCall_map, firstSeqs_map,
      firstSeqs_flatten, Option.some.injEq, List.map_take, List.map_flatten]
  have h0 : Left ⟨0, true⟩ none := by
    show (0 : Nat) ≠ PAUSEBREAK ∧ (0 : Nat) ≠ PRINTSCREEN
    decide
  have hiff := same_iff (bs.map (List.map KeySeq.what)) [] k ⟨0, true⟩ none h0
  rw [same_nil_iff] at hiff
  constructor
  · intro h
    exact (hiff.mp fun n junk junk' => (hcalls n junk junk').mp (h n junk junk')).2
  · intro h n junk junk'
    exact (hcalls n junk junk').mpr (hiff.mpr ⟨trivial, h⟩ n junk junk')

/-! ## PrintScreen and a letter in one buffer -/

def printScreenMake : KeySeq := ⟨[0xE0, 0x2A, 0xE0, 0x37], ⟨0x37, true, some (.printScreen true)⟩, rfl⟩

def aMake : KeySeq := ⟨[0x1E], ⟨0x1E, false, none⟩, rfl⟩

/-- `a` is passed as a second PrintScreen -/
theorem batched_fails :
    ¬ ∀ n junk junk', keyboardReads junk Keyboard.init
        ((firstSeqs n [[printScreenMake, aMake]]).map buffer) =
      keyboardReads junk' Keyboard.init
        ((firstSeqs n [[printScreenMake, aMake]]).flatten.map KeySeq.bytes) := by
  intro h
  have h2 := h 2 (fun _ => false) (fun _ => false)
  exact absurd h2 (by decide)

end Noxis.Tty
