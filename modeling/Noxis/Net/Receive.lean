import Noxis.Net.Drain

/-!
# net/ne2000.c: the receive path as a queue

* `Env`        what the card does meanwhile: it accepts a frame, or sets bits of ISR;
* `Inv`        the two rings, and the queue that they stand for;
* `drain_wp`   a drain that only the card disturbs reads the frames of the ring one by one;
* `drain_watch` at its end it has read those that it has seen in CURR, `limit` at most;
* `recv_wp`    `ne2000_recv` returns the first frame of the queue, whatever is drained meanwhile.
-/

namespace Noxis.Net.Rx
open Prog Relation

abbrev Frames := Fifo (List Byte)

/-- a full `sw_ring` has SW_RING - 1 frames -/
abbrev Drains : Frames → Frames → Prop := ReflTransGen (Fifo.Drain (SW_RING - 1))

abbrev Steps : Frames → Frames → Prop := ReflTransGen (Fifo.Step (SW_RING - 1))

/-! ## the card -/

def State.accept (s : State) (e : Entry) : State :=
  { s with card := s.card.accept e, accepted := s.accepted ++ [e.frame] }

def State.setIsr (s : State) (v : Byte) : State := { s with card := { s.card with isr := v } }

/-- what the card does -/
inductive Env (s : State) : State → Prop
  | accept (e : Entry) (fits : s.card.Fits e) : Env s (s.accept e)
  | isr (v : Byte) : Env s (s.setIsr v)

/-! ## the rings -/

/-- the frame in a slot of `sw_ring` -/
def State.slot (s : State) (h : Nat) : List Byte := (List.range (s.swLen h)).map (s.swRing h)

/-- the card has the frames `l`, from the page `r` to the page `w`, and `sw_ring` has the frames
`q` -/
structure Inv (r : Nat) (l : List Entry) (w : Nat) (q : List (List Byte)) (a : Frames) (s : State) :
    Prop where
  card : s.card.Holds r l w
  pending : a.pending = l.map Entry.frame
  accepted : s.accepted = a.accepted
  ring : Ring.Holds SW_RING s.slot s.swTail q
  head : s.swHead = (s.swTail + q.length) % SW_RING
  tail : s.swTail < SW_RING
  room : q.length < SW_RING

variable {r w tl : Nat} {l l' front : List Entry} {q aq : List (List Byte)} {a a' a₀ : Frames}
  {s t : State} {e : Entry} {port : Port}

theorem Card.Holds.congr {c c' : Card} (h : c.Holds r l w) (hm : c'.mem = c.mem)
    (hb : c'.bnry = c.bnry) (hc : c'.curr = c.curr) : c'.Holds r l w := by
  refine ⟨?_, (congrArg nextPage hb).trans h.bnry, hc.trans h.curr, h.room⟩
  rw [hm]
  exact h.stored

theorem Inv.accept (h : Inv r l w q a s) (hf : s.card.Fits e) :
    Inv r (l ++ [e]) (w + e.pages) q
      { a with accepted := a.accepted ++ [e.frame], pending := a.pending ++ [e.frame] }
      (s.accept e) where
  card := h.card.accept hf
  pending := by
    rw [List.map_append, ← h.pending]
    rfl
  accepted := by
    show s.accepted ++ [e.frame] = _
    rw [h.accepted]
  ring := h.ring
  head := h.head
  tail := h.tail
  room := h.room

/-- `sw_ring` has the queue `aq`, or the first frame of the card's ring too -/
def Ahead (aq : List (List Byte)) (l : List Entry) (q : List (List Byte)) : Prop :=
  q = aq ∨ ∃ e l', l = e :: l' ∧ q = aq ++ [e.frame]

theorem Ahead.append (h : Ahead aq l q) (l' : List Entry) : Ahead aq (l ++ l') q := by
  refine h.imp id ?_
  rintro ⟨e, l₀, rfl, hq⟩
  exact ⟨e, l₀ ++ l', rfl, hq⟩

/-- `front` are the first frames in the ring; more may follow -/
def During (a₀ : Frames) (tl r : Nat) (front : List Entry) (aq q : List (List Byte)) (s : State) :
    Prop :=
  s.swTail = tl ∧
    ∃ l w a, Inv r (front ++ l) w q a s ∧ Drains a₀ a ∧ a.queue = aq ∧ Ahead aq front q

theorem During.env (h : During a₀ tl r front aq q s) (hst : Env s t) :
    During a₀ tl r front aq q t := by
  obtain ⟨htl, l, w, a, hi, hd, hq⟩ := h
  cases hst with
  | accept e fits =>
    refine ⟨htl, l ++ [e], w + e.pages, _, ?_, hd.tail (.accept e.frame), hq⟩
    rw [← List.append_assoc]
    exact hi.accept fits
  | isr v => exact ⟨htl, l, w, a, { hi with card := hi.card.congr rfl rfl rfl }, hd, hq⟩

theorem During.stable : Stable Env (During a₀ tl r front aq q) := fun _ _ hst h => h.env hst

/-- a part of the state that the card leaves alone -/
theorem stable_of {β : Type} (g : State → β) (x : β) (ha : ∀ s e, g (State.accept s e) = g s)
    (hi : ∀ s v, g (State.setIsr s v) = g s) : Stable Env fun s => g s = x := by
  intro s t hst hs
  cases hst with
  | accept e _ => exact (ha s e).trans hs
  | isr v => exact (hi s v).trans hs

/-- registers that are not BNRY or CURR -/
theorem During.card {c : Card} (h : During a₀ tl r front aq q s) (hm : c.mem = s.card.mem)
    (hb : c.bnry = s.card.bnry) (hc : c.curr = s.card.curr) :
    During a₀ tl r front aq q { s with card := c } := by
  obtain ⟨htl, l, w, a, hi, hd, hq⟩ := h
  exact ⟨htl, l, w, a, { hi with card := hi.card.congr hm hb hc }, hd, hq⟩

/-- the slot behind the queue -/
theorem During.slot {sw : Nat → Buffer} {len : Nat → Nat} (h : During a₀ tl r front aq q s)
    (hsw : ∀ i, i ≠ (tl + q.length) % SW_RING → sw i = s.swRing i ∧ len i = s.swLen i) :
    During a₀ tl r front aq q { s with swRing := sw, swLen := len } := by
  obtain ⟨htl, l, w, a, hi, hd, hq⟩ := h
  refine ⟨htl, l, w, a, { hi with ring := hi.ring.congr ?_ }, hd, hq⟩
  intro j hj
  have hroom := hi.room
  have hne : (s.swTail + j) % SW_RING ≠ (tl + q.length) % SW_RING := by
    rw [htl]
    exact Ring.mod_ne (by omega) (by omega)
  obtain ⟨h1, h2⟩ := hsw _ hne
  show (List.range (len _)).map (sw _) = (List.range (s.swLen _)).map (s.swRing _)
  rw [h1, h2]

/-! ## remote_read -/

/-- the bytes of the first frame in the ring, header and all -/
def bytesOf (e : Entry) (r : Nat) : List Byte := e.image (page (r + e.pages))

theorem During.byte (h : During a₀ tl r (e :: front) aq q s) {j : Nat}
    (hj : j < e.frame.length + 4) :
    s.card.mem (ringAddr (256 * r + j)) = (bytesOf e r).getD j 0 := by
  obtain ⟨-, l, w, a, hi, -, -⟩ := h
  have hlen : j < (bytesOf e r).length := hj
  rw [List.getD_eq_getElem _ _ hlen]
  exact hi.card.stored.1.bytes j hj

/-- the first `n` bytes are in the slot -/
def Filled (buf : Option Nat) (e : Entry) (r o n len : Nat) (s : State) : Prop :=
  ∀ h, buf = some h → ∀ j < n, j < len → s.swRing h j = (bytesOf e r).getD (o + j) 0

/-- where remote DMA stands after `i` words -/
def Moving (buf : Option Nat) (e : Entry) (r o i len : Nat) (s : State) : Prop :=
  s.card.page1 = false ∧ s.card.rsar = ringAddr (256 * r + o + 2 * i) ∧
    Filled buf e r o (2 * i) len s

theorem page1_stable (b : Bool) : Stable Env fun s => s.card.page1 = b :=
  stable_of (fun s => s.card.page1) b (fun _ _ => rfl) fun _ _ => rfl

theorem rsar_stable (x : Nat) : Stable Env fun s => s.card.rsar = x :=
  stable_of (fun s => s.card.rsar) x (fun _ _ => rfl) fun _ _ => rfl

theorem Filled.stable {buf : Option Nat} {o n len : Nat} :
    Stable Env (Filled buf e r o n len) := by
  intro s t hst hs
  cases hst with
  | accept e _ => exact hs
  | isr v => exact hs

theorem Moving.stable {buf : Option Nat} {o i len : Nat} : Stable Env (Moving buf e r o i len) :=
  (page1_stable false).and ((rsar_stable _).and Filled.stable)

section
variable {buf : Option Nat} {o i len : Nat}

/-- the two bytes at the data port -/
theorem Moving.word (hd : During a₀ tl r (e :: front) aq q s) (hm : Moving buf e r o i len s)
    (ho : o % 2 = 0) (hi : o + 2 * i < e.frame.length + 4) :
    s.card.word.1 = (bytesOf e r).getD (o + 2 * i) 0 ∧ (o + 2 * i + 1 < e.frame.length + 4 →
      s.card.word.2 = (bytesOf e r).getD (o + 2 * i + 1) 0) := by
  have hw := word_ringAddr (c := s.card) (o := 256 * r + o + 2 * i) (by omega) hm.2.1
  rw [hw, Nat.add_assoc (256 * r)]
  refine ⟨hd.byte hi, fun h => ?_⟩
  rw [Nat.add_assoc (256 * r)]
  exact hd.byte h

/-- **One word** goes from the ring to the buffer. -/
theorem moveWord_step (port : Port) (hd : During a₀ tl r (e :: front) aq q s)
    (hm : Moving buf e r o i len s)
    (hbuf : ∀ h, buf = some h → h = (tl + q.length) % SW_RING) (ho : o % 2 = 0)
    (hi : 2 * i < len) (hlen : o + len ≤ e.frame.length + 4) :
    During a₀ tl r (e :: front) aq q ((moveWord port buf len i).next s).1 ∧
      Moving buf e r o (i + 1) len ((moveWord port buf len i).next s).1 := by
  obtain ⟨hp, hr, hf⟩ := hm
  obtain ⟨hw1, hw2⟩ := Moving.word hd ⟨hp, hr, hf⟩ ho (by omega)
  have hnext : (s.card.nextWord).rsar = ringAddr (256 * r + o + 2 * (i + 1)) :=
    nextWord_ringAddr (o := 256 * r + o + 2 * i) (by omega) hr
  have hd' : During a₀ tl r (e :: front) aq q { s with card := s.card.nextWord } :=
    hd.card rfl rfl rfl
  cases buf with
  | none => exact ⟨hd', hp, hnext, nofun⟩
  | some h =>
    have hh := hbuf h rfl
    refine ⟨hd'.slot ?_, hp, hnext, ?_⟩
    · intro j hj
      rw [← hh] at hj
      exact ⟨Function.update_of_ne hj _ _, rfl⟩
    · rintro _ ⟨⟩ j hj hjl
      show Function.update s.swRing h _ h j = _
      rw [Function.update_self]
      unfold putWord
      by_cases h0 : j = 2 * i
      · rw [if_pos h0, h0, hw1]
      · rw [if_neg h0]
        by_cases h1 : j = 2 * i + 1
        · rw [if_pos ⟨h1, .inr (by omega)⟩, h1, hw2 (by omega)]
          rfl
        · rw [if_neg fun hc => h1 hc.1]
          exact hf h rfl j (by omega) hjl

/-- what `remote_read` returns: the bytes from `o` on, as far as the frame goes -/
def BytesFrom (e : Entry) (r o : Nat) (bytes : List Byte) : Prop :=
  ∀ j < bytes.length, o + j < e.frame.length + 4 → bytes.getD j 0 = (bytesOf e r).getD (o + j) 0

theorem BytesFrom.cons {w : Byte × Byte} {bytes : List Byte} (h : BytesFrom e r (o + 2) bytes)
    (h1 : w.1 = (bytesOf e r).getD o 0)
    (h2 : o + 1 < e.frame.length + 4 → w.2 = (bytesOf e r).getD (o + 1) 0) :
    BytesFrom e r o (w.1 :: w.2 :: bytes) := by
  intro j hj hjo
  match j with
  | 0 => exact h1
  | 1 => exact h2 hjo
  | j + 2 =>
    have hb := h j (Nat.lt_of_succ_lt_succ (Nat.lt_of_succ_lt_succ hj)) (by omega)
    rw [Nat.add_right_comm, Nat.add_assoc] at hb
    exact hb

variable {I : State → Prop}

/-- the words one by one -/
theorem moveWords_wp {n : Nat} (hI : ∀ s, During a₀ tl r (e :: front) aq q s → I s)
    (hbuf : ∀ h, buf = some h → h = (tl + q.length) % SW_RING) (ho : o % 2 = 0)
    (hlen : o + len ≤ e.frame.length + 4) (hn : 2 * (i + n) ≤ len + 1)
    (hd : During a₀ tl r (e :: front) aq q s) (hm : Moving buf e r o i len s) :
    (moveWords port buf len n i).Wp Env I (fun bytes t => During a₀ tl r (e :: front) aq q t ∧
      Moving buf e r o (i + n) len t ∧ bytes.length = 2 * n ∧
      BytesFrom e r (o + 2 * i) bytes) s := by
  induction n generalizing i s with
  | zero =>
    refine Wp.ret (During.stable.and Moving.stable) (fun t ht => ⟨ht.1, ht.2, rfl, ?_⟩)
      ⟨hd, hm⟩
    exact fun j hj => absurd hj (Nat.not_lt_zero j)
  | succ n ih =>
    refine Wp.act (During.stable.and Moving.stable) (fun t ht => ⟨hI t ht.1, ?_⟩) ⟨hd, hm⟩
    obtain ⟨hd', hm'⟩ := ht
    obtain ⟨hw1, hw2⟩ := hm'.word hd' ho (by omega)
    obtain ⟨hd1, hm1⟩ := moveWord_step port hd' hm' hbuf ho (by omega) hlen
    show (moveWords port buf len n (i + 1) >>= fun bytes =>
      pure (t.card.word.1 :: t.card.word.2 :: bytes)).Wp Env I _ _
    refine Wp.bind (Wp.mono (ih (i := i + 1) (by omega) hd1 hm1) ?_)
    rintro bytes u ⟨hdu, hmu, hl, hb⟩
    rw [Nat.add_right_comm, Nat.add_assoc i] at hmu
    refine Wp.ret (During.stable.and Moving.stable) (fun v hv => ⟨hv.1, hv.2, ?_, ?_⟩)
      ⟨hdu, hmu⟩
    · rw [List.length_cons, List.length_cons, hl]
      omega
    · exact BytesFrom.cons hb hw1 hw2

theorem spinRdc_wp {P : State → Prop} (hP : Stable Env P) (hI : ∀ s, P s → I s) (n : Nat)
    (hs : P s) : (spinRdc n).Wp Env I (fun _ t => P t) s := by
  induction n generalizing s with
  | zero => exact Wp.ret hP (fun t ht => ht) hs
  | succ n ih =>
    refine Wp.get_bind hP (fun t ht => ⟨hI t ht, ?_⟩) hs
    split
    · exact Wp.ret hP (fun t ht => ht) ht
    · exact ih ht

/-- a register is written -/
theorem regOut_wp {α : Type} {Q : α → State → Prop} {P : State → Prop} (P' : State → Prop)
    {k : Unit → Io α} {reg v : Nat} (hP : Stable Env P) (hI : ∀ s, P s → I s)
    (hf : ∀ s, P s → P' { s with card := s.card.write reg v })
    (hk : ∀ s, P' s → (k ()).Wp Env I Q s) (hs : P s) : (regOut reg v >>= k).Wp Env I Q s :=
  Wp.modify_bind hP (fun t ht => ⟨hI t ht, hk _ (hf t ht)⟩) hs

/-- on page 0 -/
theorem write_page0 {c : Card} (h : c.page1 = false) (v : Nat) :
    c.write REG_BNRY v = { c with bnry := v } ∧
      c.write REG_ISR v = { c with isr := c.isr &&& ~~~ BitVec.ofNat 8 v } ∧
      c.write REG_RSAR0 v = { c with rsar := c.rsar / 256 * 256 + v } ∧
      c.write REG_RSAR1 v = { c with rsar := v * 256 + c.rsar % 256 } ∧
      c.write REG_RBCR0 v = { c with rbcr := c.rbcr / 256 * 256 + v } ∧
      c.write REG_RBCR1 v = { c with rbcr := v * 256 + c.rbcr % 256 } := by
  unfold Card.write
  rw [h]
  exact ⟨rfl, rfl, rfl, rfl, rfl, rfl⟩

/-- page 0 is selected, and remote DMA starts at `addr` -/
def Aimed (a₀ : Frames) (tl r : Nat) (front : List Entry) (aq q : List (List Byte)) (addr : Nat)
    (s : State) : Prop :=
  During a₀ tl r front aq q s ∧ s.card.page1 = false ∧ s.card.rsar = addr

theorem Aimed.stable {addr : Nat} : Stable Env (Aimed a₀ tl r front aq q addr) :=
  During.stable.and ((page1_stable false).and (rsar_stable addr))

/-- the byte count -/
theorem Aimed.count {addr v : Nat} (h : Aimed a₀ tl r front aq q addr s) :
    Aimed a₀ tl r front aq q addr { s with card := s.card.write REG_RBCR0 v } ∧
      Aimed a₀ tl r front aq q addr { s with card := s.card.write REG_RBCR1 v } := by
  obtain ⟨hd, hp, hr⟩ := h
  rw [(write_page0 hp _).2.2.2.2.1, (write_page0 hp _).2.2.2.2.2]
  exact ⟨⟨hd.card rfl rfl rfl, hp, hr⟩, hd.card rfl rfl rfl, hp, hr⟩

theorem moved_eq (hport : port ≠ .osfs11) (n : Nat) : port.moved n = n := by
  cases port with
  | fixes | counted => rfl
  | osfs11 => exact absurd rfl hport

/-- nothing is left of what the array had -/
theorem localBytes_full {n : Nat} {bytes : List Byte} (stack : Buffer) (h : bytes.length = n) :
    localBytes n bytes stack = bytes := by
  unfold localBytes
  rw [h, Nat.sub_self, List.range'_zero, List.map_nil, List.append_nil]

/-- **remote_read** of bytes of the first frame: they are returned and stand in the buffer -/
theorem remoteRead_wp (hport : port ≠ .osfs11) {addr : Nat}
    (hI : ∀ s, During a₀ tl r (e :: front) aq q s → I s)
    (hbuf : ∀ h, buf = some h → h = (tl + q.length) % SW_RING) (ho : o % 2 = 0)
    (hlen : o + len ≤ e.frame.length + 4) (haddr : addr = ringAddr (256 * r + o))
    (hd : During a₀ tl r (e :: front) aq q s) :
    (remoteRead port addr len buf).Wp Env I (fun bytes t => During a₀ tl r (e :: front) aq q t ∧
      t.card.page1 = false ∧ Filled buf e r o len len t ∧ len ≤ bytes.length ∧
      BytesFrom e r o bytes) s := by
  have hpage : Stable Env fun s => During a₀ tl r (e :: front) aq q s ∧ s.card.page1 = false :=
    During.stable.and (page1_stable false)
  have hlow : Stable Env fun s => (During a₀ tl r (e :: front) aq q s ∧ s.card.page1 = false) ∧
      s.card.rsar % 256 = addr % 256 :=
    hpage.and (stable_of (fun s => s.card.rsar % 256) _ (fun _ _ => rfl) fun _ _ => rfl)
  -- CR
  refine regOut_wp (fun s => During a₀ tl r (e :: front) aq q s ∧ s.card.page1 = false)
    During.stable hI (fun t ht => ⟨ht.card rfl rfl rfl, rfl⟩) ?_ hd
  intro s hs
  -- RSAR0, RSAR1
  refine regOut_wp (fun s => (During a₀ tl r (e :: front) aq q s ∧ s.card.page1 = false) ∧
    s.card.rsar % 256 = addr % 256) hpage (fun t ht => hI t ht.1) ?_ ?_ hs
  · rintro t ⟨hd, hp⟩
    rw [(write_page0 hp _).2.2.1]
    refine ⟨⟨hd.card rfl rfl rfl, hp⟩, ?_⟩
    show (t.card.rsar / 256 * 256 + addr % 256) % 256 = addr % 256
    omega
  intro s hs
  refine regOut_wp (Aimed a₀ tl r (e :: front) aq q addr) hlow (fun t ht => hI t ht.1.1) ?_ ?_ hs
  · rintro t ⟨⟨hd, hp⟩, hr⟩
    rw [(write_page0 hp _).2.2.2.1]
    refine ⟨hd.card rfl rfl rfl, hp, ?_⟩
    show addr / 256 * 256 + t.card.rsar % 256 = addr
    omega
  intro s hs
  -- RBCR0, RBCR1, CR
  have haim : Stable Env (Aimed a₀ tl r (e :: front) aq q addr) := Aimed.stable
  refine regOut_wp _ haim (fun t ht => hI t ht.1) (fun t ht => ht.count.1) ?_ hs
  intro s hs
  refine regOut_wp _ haim (fun t ht => hI t ht.1) (fun t ht => ht.count.2) ?_ hs
  intro s hs
  refine regOut_wp (Aimed a₀ tl r (e :: front) aq q addr) haim (fun t ht => hI t ht.1)
    (fun t ht => ⟨ht.1.card rfl rfl rfl, rfl, ht.2.2⟩) ?_ hs
  rintro s ⟨hd, hp, hr⟩
  rw [moved_eq hport]
  -- the data
  have hm : Moving buf e r o 0 len s :=
    ⟨hp, hr.trans haddr, fun h _ j hj => absurd hj (Nat.not_lt_zero j)⟩
  refine Wp.bind (Wp.mono (moveWords_wp hI hbuf ho hlen (by omega) hd hm) ?_)
  rintro bytes s ⟨hd, ⟨hp, -, hf⟩, hl, hb⟩
  have hfilled : Filled buf e r o len len s := by
    intro h hh j hj hjl
    exact hf h hh j (by omega) hjl
  have hdone : Stable Env fun s => During a₀ tl r (e :: front) aq q s ∧ s.card.page1 = false ∧
      Filled buf e r o len len s := During.stable.and ((page1_stable false).and Filled.stable)
  refine Wp.bind (Wp.mono (spinRdc_wp hdone (fun t ht => hI t ht.1) _ ⟨hd, hp, hfilled⟩) ?_)
  intro _ s hs
  refine Wp.act hdone (fun t ht => ⟨hI t ht.1, ?_⟩) hs
  obtain ⟨hd, hp, hf⟩ := ht
  rw [(write_page0 hp _).2.1]
  rw [localBytes_full t.stack (show bytes.length = (len + 1) / 2 * 2 by omega)]
  exact Wp.ret hdone (fun u hu => ⟨hu.1, hu.2.1, hu.2.2, by omega, hb⟩)
    ⟨hd.card rfl rfl rfl, hp, hf⟩

end

/-! ## a frame goes into the software ring -/

theorem During.indices (h : During a₀ tl r front aq q s) :
    s.swHead = (tl + q.length) % SW_RING ∧ s.swTail = tl ∧ tl < SW_RING ∧ q.length < SW_RING := by
  obtain ⟨htl, l, w, a, hi, -, -⟩ := h
  rw [← htl]
  exact ⟨hi.head, rfl, hi.tail, hi.room⟩

/-- `sw_head` goes on: the frame in its slot is the last one of the queue -/
theorem During.push (h : During a₀ tl r (e :: front) aq aq s)
    (hf : s.slot ((tl + aq.length) % SW_RING) = e.frame) (hq : aq.length + 1 < SW_RING) :
    During a₀ tl r (e :: front) aq (aq ++ [e.frame])
      { s with swHead := ((tl + aq.length) % SW_RING + 1) % SW_RING } := by
  obtain ⟨htl, l, w, a, hi, hd, hqa, -⟩ := h
  have hlen : (aq ++ [e.frame]).length = aq.length + 1 := List.length_append
  refine ⟨htl, l, w, a, ⟨hi.card, hi.pending, hi.accepted, ?_, ?_, hi.tail, by omega⟩, hd, hqa,
    .inr ⟨e, front, rfl, rfl⟩⟩
  · have hpush := hi.ring.push hi.room e.frame
    rw [htl, ← hf, Function.update_eq_self, hf] at hpush
    show Ring.Holds SW_RING s.slot s.swTail (aq ++ [e.frame])
    rw [htl]
    exact hpush
  · show ((tl + aq.length) % SW_RING + 1) % SW_RING =
      (s.swTail + (aq ++ [e.frame]).length) % SW_RING
    rw [htl, hlen, Nat.mod_add_mod, Nat.add_assoc]

/-- the bytes behind the header -/
theorem bytesOf_frame (e : Entry) (r : Nat) {j : Nat} (hj : j < e.frame.length) :
    (bytesOf e r).getD (4 + j) 0 = e.frame[j] := by
  have hlen : 4 + j < (bytesOf e r).length := by
    show 4 + j < e.frame.length + 4
    omega
  rw [List.getD_eq_getElem _ _ hlen]
  show (e.status :: _ :: _ :: _ :: e.frame)[4 + j] = _
  simp only [Nat.add_comm 4 j, List.getElem_cons_succ]

/-- a slot that was filled has the frame in it -/
theorem Filled.slot {h : Nat} (hf : Filled (some h) e r 4 e.frame.length e.frame.length s)
    (hl : s.swLen h = e.frame.length) : s.slot h = e.frame := by
  unfold State.slot
  rw [hl]
  refine List.ext_getElem ?_ fun j h1 h2 => ?_
  · rw [List.length_map, List.length_range]
  · rw [List.getElem_map, List.getElem_range, hf h rfl j h2 h2, bytesOf_frame e r h2]

variable {I : State → Prop}

/-- **The first frame of the card's ring** is the last one of the queue, unless it is full. -/
theorem push_wp (hport : port ≠ .osfs11) (hI : ∀ q s, During a₀ tl r (e :: front) aq q s → I s)
    (hd : During a₀ tl r (e :: front) aq aq s) (hp : s.card.page1 = false) :
    (push port (page r) e.frame.length).Wp Env I (fun _ t =>
      During a₀ tl r (e :: front) aq
        (if aq.length = SW_RING - 1 then aq else aq ++ [e.frame]) t ∧ t.card.page1 = false) s := by
  have hpage : ∀ q, Stable Env fun s => During a₀ tl r (e :: front) aq q s ∧ s.card.page1 = false :=
    fun q => During.stable.and (page1_stable false)
  obtain ⟨-, -, htl, hlen⟩ := hd.indices
  refine Wp.get_bind (hpage aq) (fun t ht => ⟨hI _ t ht.1, ?_⟩) ⟨hd, hp⟩
  rw [ht.1.indices.1]
  refine Wp.get_bind (hpage aq) (fun t ht => ⟨hI _ t ht.1, ?_⟩) ht
  rw [ht.1.indices.2.1]
  by_cases hfull : ((tl + aq.length) % SW_RING + 1) % SW_RING = tl
  · -- dropped
    have hseven : aq.length = SW_RING - 1 := by
      unfold SW_RING at *
      omega
    rw [if_pos hfull]
    refine Wp.ret (hpage aq) (fun t ht => ?_) ht
    rw [if_pos hseven]
    exact ht
  · have hroom : aq.length ≠ SW_RING - 1 := by
      unfold SW_RING at *
      omega
    rw [if_neg hfull]
    refine Wp.get_bind (hpage aq) (fun t ht => ⟨hI _ t ht.1, ?_⟩) ht
    rw [ht.1.indices.1]
    have haddr : (page r * 256 + 4) % 65536 = ringAddr (256 * r + 4) := by
      have hlt := ringAddr_lt (256 * r + 4)
      rw [page_addr r (by omega)]
      unfold RX_STOP at hlt
      omega
    have hbuf : ∀ h, some ((tl + aq.length) % SW_RING) = some h → h = (tl + aq.length) % SW_RING :=
      fun h hh => (Option.some.inj hh).symm
    refine Wp.bind (Wp.mono (remoteRead_wp (o := 4) hport (hI aq) hbuf rfl (by omega) haddr ht.1) ?_)
    rintro bytes t ⟨hd, hp, hf, -, -⟩
    -- the length of the slot
    have hdone : Stable Env fun s => (During a₀ tl r (e :: front) aq aq s ∧ s.card.page1 = false) ∧
        Filled (some ((tl + aq.length) % SW_RING)) e r 4 e.frame.length e.frame.length s :=
      (hpage aq).and Filled.stable
    refine Wp.get_bind hdone (fun t ht => ⟨hI _ t ht.1.1, ?_⟩) ⟨⟨hd, hp⟩, hf⟩
    rw [ht.1.1.indices.1]
    refine Wp.modify_bind hdone (fun t ht => ⟨hI _ t ht.1.1, ?_⟩) ht
    have hslot : Stable Env fun s => (During a₀ tl r (e :: front) aq aq s ∧ s.card.page1 = false) ∧
        s.slot ((tl + aq.length) % SW_RING) = e.frame :=
      (hpage aq).and (stable_of (fun s => s.slot _) _ (fun _ _ => rfl) fun _ _ => rfl)
    have hset : (During a₀ tl r (e :: front) aq aq
        { t with swLen := Function.update t.swLen ((tl + aq.length) % SW_RING) e.frame.length } ∧
        t.card.page1 = false) ∧ State.slot
        { t with swLen := Function.update t.swLen ((tl + aq.length) % SW_RING) e.frame.length }
        ((tl + aq.length) % SW_RING) = e.frame := by
      refine ⟨⟨ht.1.1.slot fun i hi => ⟨rfl, Function.update_of_ne hi _ _⟩, ht.1.2⟩, ?_⟩
      exact Filled.slot (r := r) ht.2 (Function.update_self ..)
    -- sw_head
    refine Wp.act hslot (fun t ht => ⟨hI _ t ht.1.1, ?_⟩) hset
    refine Wp.ret (hpage (aq ++ [e.frame])) (fun t ht => ?_) ?_
    · rw [if_neg hroom]
      exact ht
    · exact ⟨ht.1.1.push ht.2 (by omega), ht.1.2⟩

/-! ## what is drained, and when the driver has looked last -/

/-- `d` of the frames that were accepted are drained, and the others are in the ring; `g` frames were
accepted at some time before -/
structure Counted (d : Int) (g : Nat) (s : State) : Prop where
  holds : ∃ r l w, s.card.Holds r l w
  count : d + s.card.waiting = s.accepted.length
  before : g ≤ s.accepted.length

variable {d limit : Int} {g : Nat}

theorem Counted.stable : Stable Env (Counted d g) := by
  intro s t hst hs
  obtain ⟨r, l, w, h⟩ := hs.holds
  have hcount := hs.count
  have hbefore := hs.before
  cases hst with
  | accept e fits =>
    have hlen : (s.accept e).accepted.length = s.accepted.length + 1 := List.length_append
    have hadd : (s.card.accept e).waiting = s.card.waiting + 1 := by
      rw [(h.accept fits).waiting, h.waiting, List.length_append, List.length_singleton]
    refine ⟨⟨r, l ++ [e], w + e.pages, h.accept fits⟩, ?_, by omega⟩
    show d + (s.card.accept e).waiting = _
    omega
  | isr v =>
    have h' : (s.setIsr v).card.Holds r l w := h.congr rfl rfl rfl
    have hsame : (s.setIsr v).card.waiting = s.card.waiting := by rw [h'.waiting, h.waiting]
    refine ⟨⟨r, l, w, h'⟩, ?_, hbefore⟩
    rw [hsame]
    exact hcount

theorem Counted.congr (h : Counted d g s) (hm : t.card.mem = s.card.mem)
    (hb : t.card.bnry = s.card.bnry) (hc : t.card.curr = s.card.curr)
    (ha : t.accepted = s.accepted) : Counted d g t := by
  obtain ⟨r, l, w, hh⟩ := h.holds
  have hh' := hh.congr hm hb hc
  refine ⟨⟨r, l, w, hh'⟩, ?_, ha ▸ h.before⟩
  rw [hh'.waiting, ← hh.waiting, ha]
  exact h.count

/-- while page 0 is selected -/
def Counted0 (d : Int) (g : Nat) (s : State) : Prop := s.card.page1 = false ∧ Counted d g s

theorem Counted0.stable : Stable Env (Counted0 d g) := (page1_stable false).and Counted.stable

/-- a register of remote DMA, or ISR -/
theorem Counted0.write {reg v : Nat} (h : Counted0 d g s) (hcr : reg ≠ REG_CR) (hb : reg ≠ REG_BNRY) :
    Counted0 d g { s with card := s.card.write reg v } := by
  have hpage : ¬ s.card.page1 = true := by
    rw [h.1]
    exact Bool.false_ne_true
  have hsame : (s.card.write reg v).page1 = s.card.page1 ∧ (s.card.write reg v).mem = s.card.mem ∧
      (s.card.write reg v).bnry = s.card.bnry ∧ (s.card.write reg v).curr = s.card.curr := by
    unfold Card.write
    rw [if_neg hcr, if_neg hpage, if_neg hb]
    split
    · exact ⟨rfl, rfl, rfl, rfl⟩
    split
    · exact ⟨rfl, rfl, rfl, rfl⟩
    split
    · exact ⟨rfl, rfl, rfl, rfl⟩
    split
    · exact ⟨rfl, rfl, rfl, rfl⟩
    split <;> exact ⟨rfl, rfl, rfl, rfl⟩
  exact ⟨hsame.1.trans h.1, h.2.congr hsame.2.1 hsame.2.2.1 hsame.2.2.2 rfl⟩

theorem regOut_keeps (d : Int) (g v : Nat) {reg : Nat} (hcr : reg ≠ REG_CR) (hb : reg ≠ REG_BNRY) :
    (regOut reg v).Keeps (Counted0 d g) := Keeps.modify fun _ h => h.write hcr hb

/-- page 0 is selected -/
theorem regOut_cr_keeps (d : Int) (g : Nat) {v : Nat} (hv : decide (v / 64 % 4 = 1) = false) :
    (regOut REG_CR v).Keeps (Counted0 d g) :=
  Keeps.modify fun _ h => ⟨hv, h.2.congr rfl rfl rfl rfl⟩

theorem moveWords_keeps (port : Port) (buf : Option Nat) (len n i : Nat) (d : Int) (g : Nat) :
    (moveWords port buf len n i).Keeps (Counted0 d g) := by
  induction n generalizing i with
  | zero => exact Keeps.pure _ _
  | succ n ih =>
    have hword : (moveWord port buf len i).Keeps (Counted0 d g) :=
      ⟨fun _ h => ⟨h.1, h.2.congr rfl rfl rfl rfl⟩, fun _ => trivial⟩
    exact hword.bind fun _ => (ih (i + 1)).bind fun _ => Keeps.pure _ _

theorem spinRdc_keeps (n : Nat) (d : Int) (g : Nat) : (spinRdc n).Keeps (Counted0 d g) := by
  induction n with
  | zero => exact Keeps.pure _ _
  | succ n ih =>
    refine (Keeps.get _ _).bind fun isr => ?_
    split
    · exact Keeps.pure _ _
    · exact ih

theorem remoteRead_keeps (port : Port) (addr len : Nat) (d : Int) (g : Nat) (buf : Option Nat) :
    (remoteRead port addr len buf).Keeps (Counted0 d g) := by
  refine (regOut_cr_keeps d g (by decide)).bind fun _ => ?_
  refine (regOut_keeps d g _ (by decide) (by decide)).bind fun _ => ?_
  refine (regOut_keeps d g _ (by decide) (by decide)).bind fun _ => ?_
  refine (regOut_keeps d g _ (by decide) (by decide)).bind fun _ => ?_
  refine (regOut_keeps d g _ (by decide) (by decide)).bind fun _ => ?_
  refine (regOut_cr_keeps d g (by decide)).bind fun _ => ?_
  refine (moveWords_keeps port buf len _ 0 d g).bind fun bytes => ?_
  refine Keeps.bind (spinRdc_keeps 100000 d g) fun _ => ?_
  exact ⟨fun s h => h.write (by decide) (by decide), fun _ => trivial⟩

theorem push_keeps (port : Port) (pkt len : Nat) (d : Int) (g : Nat) :
    (push port pkt len).Keeps (Counted0 d g) := by
  refine (Keeps.get _ _).bind fun head => (Keeps.get _ _).bind fun tail => ?_
  split
  · exact Keeps.pure _ _
  · refine (Keeps.get _ _).bind fun slot => (remoteRead_keeps port _ len d g _).bind fun _ => ?_
    refine (Keeps.get _ _).bind fun slot => ?_
    refine (Keeps.modify fun s h => ?_).bind fun _ => Keeps.modify fun s h => ?_
    · exact ⟨h.1, h.2.congr rfl rfl rfl rfl⟩
    · exact ⟨h.1, h.2.congr rfl rfl rfl rfl⟩

/-- the driver reads register page 1, where only CURR is read: the ghost counts the frames that were
accepted then -/
def look (s t : State) (g : Nat) : Nat :=
  if s.card.page1 = true ∧ t.card.page1 = true then s.accepted.length else g

theorem look_page0 (h : s.card.page1 = false) : look s t g = g := by
  refine if_neg fun hp => ?_
  rw [h] at hp
  exact Bool.false_ne_true hp.1

theorem look_page1 (h : t.card.page1 = false) : look s t g = g := by
  refine if_neg fun hp => ?_
  rw [h] at hp
  exact Bool.false_ne_true hp.2

/-- a register is written -/
theorem regOut_watch {α : Type} {Q : α → State × Nat → Prop} {P : State × Nat → Prop}
    (P' : State × Nat → Prop) {k : Unit → Io α} {reg v : Nat} {x : State × Nat}
    (hP : Stable (Beside Env) P) (hI : ∀ x, P x → I x.1)
    (hf : ∀ x, P x → P' ({ x.1 with card := x.1.card.write reg v },
      look x.1 { x.1 with card := x.1.card.write reg v } x.2))
    (hk : ∀ x, P' x → ((k ()).watch look).Wp (Beside Env) (fun x => I x.1) Q x) (hs : P x) :
    ((regOut reg v >>= k).watch look).Wp (Beside Env) (fun x => I x.1) Q x :=
  Wp.act hP (fun y hy => ⟨hI y hy, hk _ (hf y hy)⟩) hs

/-- a part of the drain that does not look -/
theorem Wp.look {α : Type} {p : Io α} {Q : α → State → Prop} (h : p.Wp Env I Q s)
    (hk : p.Keeps (Counted0 d g)) (hc : Counted0 d g s) :
    (p.watch Rx.look).Wp (Beside Env) (fun x => I x.1)
      (fun a x => (Q a x.1 ∧ Counted0 d g x.1) ∧ x.2 = g) (s, g) :=
  Wp.weaken (Wp.watched (fun _ _ _ hi => look_page0 hi.2.1) (h.and (hk.wp Counted0.stable hc)))
    fun _ hi => hi.1

/-- at the end of a drain that goes as far as the frame `limit`: it has come so far, or the ring was
empty when it looked last -/
def Drained (limit : Int) (x : State × Nat) : Prop :=
  ∃ d, Counted0 d x.2 x.1 ∧ d ≤ x.2 ∧ d ≤ limit ∧ (d = limit ∨ d = x.2)

theorem Drained.stable : Stable (Beside Env) (Drained limit) := by
  refine Stable.beside fun g s t hst hs => ?_
  obtain ⟨d, hc, hd⟩ := hs
  exact ⟨d, Counted0.stable s t hst hc, hd⟩

/-! ## the drain -/

theorem prevPage_page (r : Nat) : prevPage (page r) = page (r + 57) := by
  show (if (page r + 255) % 256 < RX_START then RX_STOP - 1 else (page r + 255) % 256) =
    page (r + 57)
  unfold page RX_STOP RX_START
  rw [ringPages_eq]
  split <;> omega

/-- BNRY is the page before -/
theorem nextPage_prevPage (r : Nat) : nextPage (prevPage (page r)) = page r := by
  rw [prevPage_page, nextPage_page]
  unfold page
  rw [ringPages_eq]
  omega

/-- the queue when a frame has come -/
def enqueued (q : List (List Byte)) (f : List Byte) : List (List Byte) :=
  if q.length = SW_RING - 1 then q else q ++ [f]

/-- BNRY goes on: the first frame is drained -/
theorem During.advance (h : During a₀ tl r (e :: front) aq (enqueued aq e.frame) s) :
    During a₀ tl (r + e.pages) front (enqueued aq e.frame) (enqueued aq e.frame)
      { s with card := { s.card with bnry := prevPage (page (r + e.pages)) } } := by
  obtain ⟨htl, l, w, a, hi, hd, hq, -⟩ := h
  have hpend : a.pending = e.frame :: (front ++ l).map Entry.frame := hi.pending
  have hdrain : Fifo.Drain (SW_RING - 1) a
      { a with queue := enqueued aq e.frame, pending := (front ++ l).map Entry.frame } := by
    have hroom := hi.room
    unfold enqueued at hroom ⊢
    by_cases hfull : aq.length = SW_RING - 1
    · rw [if_pos hfull, ← hq]
      exact .drop hpend (by rw [hq, hfull])
    · rw [if_neg hfull] at hroom ⊢
      rw [List.length_append] at hroom
      have hlt : a.queue.length < SW_RING - 1 := by
        rw [hq]
        show aq.length < SW_RING - 1
        rw [List.length_singleton] at hroom
        omega
      rw [← hq]
      exact .keep hpend hlt
  refine ⟨htl, l, w, _, ?_, hd.tail hdrain, rfl, .inl rfl⟩
  exact ⟨hi.card.tail (nextPage_prevPage _), rfl, hi.accepted, hi.ring, hi.head, hi.tail, hi.room⟩

/-- the length in the header of a frame -/
theorem frameLen_header {hdr : List Byte} (hl : 4 ≤ hdr.length) (hb : BytesFrom e r 0 hdr)
    (hshort : e.frame.length ≤ NE_FRAME_MAX) : frameLen hdr = e.frame.length := by
  have h2 : hdr.getD 2 0 = BitVec.ofNat 8 (e.frame.length + 4) := hb 2 (by omega) (by omega)
  have h3 : hdr.getD 3 0 = BitVec.ofNat 8 ((e.frame.length + 4) / 256) := hb 3 (by omega) (by omega)
  unfold NE_FRAME_MAX at hshort
  have hcount : (hdr.getD 2 0).toNat + 256 * (hdr.getD 3 0).toNat = e.frame.length + 4 := by
    rw [h2, h3, BitVec.toNat_ofNat, BitVec.toNat_ofNat]
    omega
  unfold frameLen NE_FRAME_MAX
  simp only [hcount]
  have h4 : ¬ e.frame.length + 4 < 4 := by omega
  rw [if_neg h4, Nat.add_sub_cancel, if_neg (by omega)]

theorem next_header {hdr : List Byte} (hl : 4 ≤ hdr.length) (hb : BytesFrom e r 0 hdr) :
    (hdr.getD 1 0).toNat = page (r + e.pages) := by
  have h1 : hdr.getD 1 0 = BitVec.ofNat 8 (page (r + e.pages)) := hb 1 (by omega) (by omega)
  have hlt := (page_lt (r + e.pages)).2
  unfold RX_STOP at hlt
  rw [h1, BitVec.toNat_ofNat, Nat.mod_eq_of_lt (by omega)]

/-- BNRY goes on: one frame more is drained -/
theorem Counted.advance (hc : Counted d g s) (h : s.card.Holds r (e :: l) w) :
    Counted (d + 1) g { s with card := { s.card with bnry := prevPage (page (r + e.pages)) } } := by
  have hcount := hc.count
  have htail : Card.Holds { s.card with bnry := prevPage (page (r + e.pages)) } (r + e.pages) l w :=
    h.tail (nextPage_prevPage _)
  rw [h.waiting, List.length_cons] at hcount
  refine ⟨⟨_, l, w, htail⟩, ?_, hc.before⟩
  rw [htail.waiting]
  show d + 1 + (l.length : Int) = s.accepted.length
  omega

theorem During.holds (h : During a₀ tl r front aq q s) : ∃ l w, s.card.Holds r (front ++ l) w := by
  obtain ⟨-, l, w, a, hi, -, -⟩ := h
  exact ⟨l, w, hi.card⟩

/-- what holds at the end of a drain -/
def After (a₀ : Frames) (tl : Nat) (limit : Int) (x : State × Nat) : Prop :=
  ((∃ r aq, During a₀ tl r [] aq aq x.1) ∧ x.1.card.page1 = false) ∧ Drained limit x

theorem After.ret {x : State × Nat} (hd : During a₀ tl r [] aq aq x.1) (h : Drained limit x) :
    (Prog.ret () : Prog (State × Nat) Unit).Wp (Beside Env) (fun x => I x.1)
      (fun _ x => After a₀ tl limit x) x := by
  have hst : Stable (Beside Env) fun x : State × Nat =>
      During a₀ tl r [] aq aq x.1 ∧ Drained limit x :=
    (Stable.beside fun _ => During.stable).and Drained.stable
  refine Wp.ret hst (fun y hy => ⟨⟨⟨r, aq, hy.1⟩, ?_⟩, hy.2⟩) ⟨hd, h⟩
  obtain ⟨d, hc, -⟩ := hy.2
  exact hc.1

/-- within a turn of the drain, on register page 1 or 0 -/
def Turn (a₀ : Frames) (tl r : Nat) (front : List Entry) (aq q : List (List Byte)) (page1 : Bool)
    (d : Int) (g : Nat) (x : State × Nat) : Prop :=
  x.2 = g ∧ During a₀ tl r front aq q x.1 ∧ x.1.card.page1 = page1 ∧ Counted d g x.1

theorem Turn.stable {b : Bool} : Stable (Beside Env) (Turn a₀ tl r front aq q b d g) := by
  refine Stable.beside fun g' s t hst hs => ⟨hs.1, ?_⟩
  exact (During.stable.and ((page1_stable b).and Counted.stable)) s t hst hs.2

/-- another register page is selected -/
theorem Turn.select {b : Bool} {x : State × Nat} {v : Nat} (h : Turn a₀ tl r front aq q b d g x)
    (hv : b = true → decide (v / 64 % 4 = 1) = false) :
    Turn a₀ tl r front aq q (decide (v / 64 % 4 = 1)) d g
      ({ x.1 with card := x.1.card.write REG_CR v },
        look x.1 { x.1 with card := x.1.card.write REG_CR v } x.2) := by
  obtain ⟨hg, hd, hp, hc⟩ := h
  refine ⟨?_, hd.card rfl rfl rfl, rfl, hc.congr rfl rfl rfl rfl⟩
  cases b with
  | false => exact (look_page0 hp).trans hg
  | true => exact (look_page1 (hv rfl)).trans hg

/-- the loop: each turn drains a frame, up to the end of the ring; the ghost is the number of frames
that were accepted when it last looked at CURR -/
theorem drainLoop_watch (hport : port ≠ .osfs11) {bnry : Nat}
    (hI : ∀ r front aq q s, During a₀ tl r front aq q s → I s) (n : Nat)
    (hpkt : nextPage bnry = page r) (hd : During a₀ tl r [] aq aq s) (hc : Counted0 d g s)
    (hn : d + n = limit) (h0 : n = 0 → d ≤ g) :
    ((drainLoop port n bnry).watch look).Wp (Beside Env) (fun x => I x.1)
      (fun _ x => After a₀ tl limit x) (s, g) := by
  induction n generalizing r aq s bnry d g with
  | zero => exact After.ret hd ⟨d, hc, h0 rfl, by omega, .inl (by omega)⟩
  | succ n ih =>
    have hin {q : List (List Byte)} {front : List Entry} {b : Bool} {d : Int} {g : Nat}
        (x : State × Nat) (hx : Turn a₀ tl r front aq q b d g x) : I x.1 := hI _ _ _ _ _ hx.2.1
    refine regOut_watch (Turn a₀ tl r [] aq aq true d g) Turn.stable hin
      (fun x hx => hx.select fun h => by cases h) ?_ ⟨rfl, hd, hc.1, hc.2⟩
    intro x hx
    -- CURR
    refine Wp.act Turn.stable ?_ hx
    rintro ⟨t, g'⟩ ⟨-, hd, hp, hc⟩
    refine ⟨hI _ _ _ _ t hd, ?_⟩
    obtain ⟨htl, l, w, a, hi, hda, hq, -⟩ := hd
    have hcurr : t.card.read REG_CURR = page w := by
      unfold Card.read
      rw [hp]
      exact hi.card.curr
    have hlook : look t t g' = t.accepted.length := if_pos ⟨hp, hp⟩
    have hcount : d + t.card.waiting = t.accepted.length := hc.count
    have hc : Counted d t.accepted.length t := ⟨hc.holds, hcount, Nat.le_refl _⟩
    rw [hi.card.waiting, List.nil_append] at hcount
    show (Prog.watch look (regOut _ _ >>= fun _ => if nextPage bnry = t.card.read REG_CURR then _
      else _)).Wp _ _ _ (t, look t t g')
    rw [hcurr, hpkt, hlook]
    generalize t.accepted.length = g at *
    cases l with
    | nil =>
      -- the ring is empty
      have hw : page r = page w := hi.card.nil_iff.mpr rfl
      have hd : During a₀ tl r [] aq aq t := ⟨htl, [], w, a, hi, hda, hq, .inl rfl⟩
      have hnil : d = g := by
        rw [List.length_nil] at hcount
        omega
      refine regOut_watch (Turn a₀ tl r [] aq aq false d g) Turn.stable hin
        (fun x hx => hx.select fun _ => rfl) ?_ ⟨rfl, hd, hp, hc⟩
      rintro ⟨u, g'⟩ ⟨hg, hd, hc⟩
      obtain rfl : g = g' := hg.symm
      rw [if_pos hw]
      exact After.ret hd ⟨d, hc, by omega, by omega, .inr hnil⟩
    | cons e l =>
      have hw : page r ≠ page w := fun hw => by cases hi.card.nil_iff.mp hw
      have hshort := hi.card.stored.1.short
      have hd : During a₀ tl r [e] aq aq t := ⟨htl, l, w, a, hi, hda, hq, .inl rfl⟩
      have hmore : d + 1 ≤ g := by
        rw [List.length_cons] at hcount
        omega
      refine regOut_watch (Turn a₀ tl r [e] aq aq false d g) Turn.stable hin
        (fun x hx => hx.select fun _ => rfl) ?_ ⟨rfl, hd, hp, hc⟩
      rintro ⟨u, g'⟩ ⟨hg, hd, hc⟩
      obtain rfl : g = g' := hg.symm
      rw [if_neg hw, watch_bind]
      -- the header
      have haddr : page r * 256 = ringAddr (256 * r + 0) :=
        (Nat.add_zero (page r * 256)).symm.trans (page_addr r (o := 0) (by decide))
      have hfour : 0 + 4 ≤ e.frame.length + 4 := by omega
      have hbuf : ∀ h, (none : Option Nat) = some h → h = (tl + aq.length) % SW_RING :=
        fun h hh => by cases hh
      refine Wp.bind (Wp.mono (Wp.look (remoteRead_wp hport (hI r [e] aq aq) hbuf rfl hfour haddr hd)
        (remoteRead_keeps port _ 4 d _ none) hc) ?_)
      rintro hdr ⟨u, g'⟩ ⟨⟨⟨hd, hp, -, hl, hb⟩, hc⟩, hg⟩
      obtain rfl : g = g' := hg.symm
      have hnext := next_header hl hb
      have hrange : ¬ (page (r + e.pages) < RX_START ∨ RX_STOP ≤ page (r + e.pages)) := by
        have hlt := page_lt (r + e.pages)
        omega
      simp only [hnext]
      rw [if_neg hrange, frameLen_header hl hb hshort, watch_bind]
      -- the frame
      refine Wp.bind (Wp.mono (Wp.look (push_wp hport (hI r [e] aq) hd hp)
        (push_keeps port _ _ d _) hc) ?_)
      rintro _ ⟨u, g'⟩ ⟨⟨⟨hd, -⟩, hc⟩, hg⟩
      obtain rfl : g = g' := hg.symm
      -- BNRY
      refine regOut_watch (fun x => x.2 = g ∧ During a₀ tl (r + e.pages) [] (enqueued aq e.frame)
        (enqueued aq e.frame) x.1 ∧ Counted0 (d + 1) g x.1) Turn.stable hin ?_ ?_
        ⟨rfl, hd, hc.1, hc.2⟩
      · rintro x ⟨hg, hd, hp, hc⟩
        obtain ⟨l', w', hh⟩ := hd.holds
        rw [look_page0 hp, (write_page0 hp _).1]
        exact ⟨hg, hd.advance, hp, hc.advance hh⟩
      · rintro ⟨u, g'⟩ ⟨hg, hd, hc⟩
        obtain rfl : g = g' := hg.symm
        exact ih (nextPage_prevPage _) hd hc (by omega) fun _ => hmore

/-- **A drain** that only the card disturbs goes 32 frames further, or sees an empty ring. -/
theorem drain_watch (hport : port ≠ .osfs11)
    (hI : ∀ r front aq q s, During a₀ tl r front aq q s → I s)
    (hd : During a₀ tl r [] aq aq s) (hc : Counted0 d g s) :
    ((drain port).watch look).Wp (Beside Env) (fun x => I x.1)
      (fun _ x => After a₀ tl (d + 32) x) (s, g) := by
  refine Wp.act (Turn.stable (b := false)) ?_ ⟨rfl, hd, hc.1, hc.2⟩
  rintro ⟨t, g'⟩ ⟨hg, hd, hp, hc⟩
  obtain rfl : g = g' := hg.symm
  refine ⟨hI _ _ _ _ t hd, ?_⟩
  have hread : nextPage (t.card.read REG_BNRY) = page r := by
    obtain ⟨l, w, hh⟩ := hd.holds
    unfold Card.read
    rw [hp]
    exact hh.bnry
  rw [look_page0 hp]
  exact drainLoop_watch hport hI 32 hread hd ⟨hp, hc⟩ rfl fun h => absurd h (by decide)

theorem drain_wp (hport : port ≠ .osfs11)
    (hI : ∀ r front aq q s, During a₀ tl r front aq q s → I s)
    (hd : During a₀ tl r [] aq aq s) (hp : s.card.page1 = false) :
    (drain port).Wp Env I (fun _ t =>
      (∃ r aq, During a₀ tl r [] aq aq t) ∧ t.card.page1 = false) s := by
  obtain ⟨l, w, hh⟩ := hd.holds
  have hc : Counted0 (s.accepted.length - s.card.waiting) s.accepted.length s :=
    ⟨hp, ⟨r, l, w, hh⟩, by omega, Nat.le_refl _⟩
  exact Wp.unwatched (Wp.mono (drain_watch hport hI hd hc) fun _ x hx => hx.1)

/-- the interrupt handler, whatever it has read from ISR -/
theorem irqRest_wp (hport : port ≠ .osfs11) (isr : Nat)
    (hI : ∀ r front aq q s, During a₀ tl r front aq q s → I s)
    (hd : During a₀ tl r [] aq aq s) (hp : s.card.page1 = false) :
    (irqRest port isr).Wp Env I (fun _ t =>
      (∃ r aq, During a₀ tl r [] aq aq t) ∧ t.card.page1 = false) s := by
  have hstable : ∀ r aq, Stable Env fun s => During a₀ tl r [] aq aq s ∧ s.card.page1 = false :=
    fun r aq => During.stable.and (page1_stable false)
  have hend : ∀ s, (∃ r aq, During a₀ tl r [] aq aq s) ∧ s.card.page1 = false →
      (regOut REG_ISR (isr % 128)).Wp Env I (fun _ t =>
        (∃ r aq, During a₀ tl r [] aq aq t) ∧ t.card.page1 = false) s := by
    rintro s ⟨⟨r, aq, hd⟩, hp⟩
    refine Wp.act (hstable r aq) (fun t ht => ⟨hI _ _ _ _ t ht.1, ?_⟩) ⟨hd, hp⟩
    rw [(write_page0 ht.2 _).2.1]
    exact Wp.ret (hstable r aq) (fun t ht => ⟨⟨r, aq, ht.1⟩, ht.2⟩) ⟨ht.1.card rfl rfl rfl, ht.2⟩
  refine Wp.bind (Wp.mono ?_ fun _ s => hend s)
  unfold drainIf
  by_cases hprx : isr % 2 = 1
  · rw [if_pos hprx]
    exact drain_wp hport hI hd hp
  · rw [if_neg hprx]
    exact Wp.ret (hstable r aq) (fun t ht => ⟨⟨r, aq, ht.1⟩, ht.2⟩) ⟨hd, hp⟩

/-! ## ne2000_recv -/

/-- nothing is under way, and `ret` is what was returned -/
def Good (ret : List (Option (List Byte))) (s : State) : Prop :=
  s.card.page1 = false ∧
    ∃ r l w a, Steps Fifo.empty a ∧ a.returned = ret ∧ Inv r l w a.queue a s

/-- what may happen to the task: the card and the interrupt handler have run -/
def Later (s t : State) : Prop :=
  t.swTail = s.swTail ∧ (s.card.page1 = false → t.card.page1 = false) ∧
    ∀ r l w a, Inv r l w a.queue a s →
      ∃ r l w a', Inv r l w a'.queue a' t ∧ Drains a a'

variable {ret : List (Option (List Byte))}

/-- the first frame of the queue is `f` -/
def Front (ret : List (Option (List Byte))) (tl : Nat) (f : List Byte) (s : State) : Prop :=
  s.card.page1 = false ∧ s.swTail = tl ∧
    ∃ r l w a q, Steps Fifo.empty a ∧ a.returned = ret ∧ a.queue = f :: q ∧ Inv r l w a.queue a s

theorem Good.stable : Stable Later (Good ret) := by
  rintro s t ⟨-, hp, hi⟩ ⟨hp0, r, l, w, a, ha, hret, hinv⟩
  obtain ⟨r', l', w', a', hinv', hd⟩ := hi r l w a hinv
  exact ⟨hp hp0, r', l', w', a', ha.trans (Fifo.Drain.steps hd), (Fifo.Drain.keeps hd).2.trans hret,
    hinv'⟩

theorem Front.stable {f : List Byte} : Stable Later (Front ret tl f) := by
  rintro s t ⟨htl, hp, hi⟩ ⟨hp0, htl0, r, l, w, a, q, ha, hret, hq, hinv⟩
  obtain ⟨r', l', w', a', hinv', hd⟩ := hi r l w a hinv
  obtain ⟨⟨q', hpre⟩, hret'⟩ := Fifo.Drain.keeps hd
  refine ⟨hp hp0, htl.trans htl0, r', l', w', a', q ++ q', ha.trans (Fifo.Drain.steps hd),
    hret'.trans hret, ?_, hinv'⟩
  rw [← hpre, hq]
  rfl

theorem Front.good {f : List Byte} (h : Front ret tl f s) : Good ret s := by
  obtain ⟨hp, -, r, l, w, a, q, ha, hret, -, hinv⟩ := h
  exact ⟨hp, r, l, w, a, ha, hret, hinv⟩

/-- the slot at the tail has the frame -/
theorem Front.slot {f : List Byte} (h : Front ret tl f s) :
    s.swTail = tl ∧ s.swLen tl = f.length ∧ ∀ j (hj : j < f.length), s.swRing tl j = f[j] := by
  obtain ⟨-, htl, r, l, w, a, q, -, -, hq, hinv⟩ := h
  have hring := hinv.ring
  have htail := hinv.tail
  rw [hq, htl] at hring
  rw [htl] at htail
  have hslot : s.slot tl = f := hring.head htail
  unfold State.slot at hslot
  have hlen : s.swLen tl = f.length := by
    rw [← hslot, List.length_map, List.length_range]
  refine ⟨htl, hlen, fun j hj => ?_⟩
  simp only [← hslot, List.getElem_map, List.getElem_range]

/-- `sw_tail` goes on -/
theorem Front.recv {f : List Byte} (h : Front ret tl f s) :
    Good (ret ++ [some f]) { s with swTail := (tl + 1) % SW_RING } := by
  obtain ⟨hp, htl, r, l, w, a, q, ha, hret, hq, hinv⟩ := h
  refine ⟨hp, r, l, w, { a with queue := q, returned := a.returned ++ [some f] },
    ha.tail (.recv hq), by rw [hret], ?_⟩
  have hring := hinv.ring
  have hhead := hinv.head
  have hroom := hinv.room
  rw [hq, htl] at hring hhead
  rw [hq, List.length_cons] at hroom
  refine ⟨hinv.card, hinv.pending, hinv.accepted, hring.pop, ?_, ?_, Nat.lt_of_succ_lt hroom⟩
  · show s.swHead = ((tl + 1) % SW_RING + q.length) % SW_RING
    rw [hhead, List.length_cons, Nat.mod_add_mod]
    congr 1
    omega
  · exact Nat.mod_lt _ (by decide)

/-- the bytes one by one -/
theorem copyOut_wp {f : List Byte} {n i : Nat} (hI : ∀ s, Good ret s → I s) (hn : i + n = f.length)
    (h : Front ret tl f s) :
    (copyOut tl n i).Wp Later I (fun bytes t => bytes = f.drop i ∧ Front ret tl f t) s := by
  induction n generalizing i s with
  | zero =>
    refine Wp.ret Front.stable (fun t ht => ⟨?_, ht⟩) h
    rw [List.drop_eq_nil_of_le (by omega)]
  | succ n ih =>
    refine Wp.get_bind Front.stable (fun t ht => ⟨hI t ht.good, ?_⟩) h
    have hi : i < f.length := by omega
    rw [ht.slot.2.2 i hi]
    refine Wp.bind (Wp.mono (ih (by omega) ht) ?_)
    rintro bytes u ⟨hb, hu⟩
    refine Wp.ret Front.stable (fun v hv => ⟨?_, hv⟩) hu
    rw [hb, List.drop_eq_getElem_cons hi]

/-- **ne2000_recv** returns the first frame of the queue, or nothing while it is empty. -/
theorem recv_wp (hI : ∀ s, Good ret s → I s) (h : Good ret s) :
    ne2000Recv.Wp Later I (fun res t => Good (ret ++ [res]) t) s := by
  have htail : Stable Later fun t => Good ret t ∧ t.swTail = s.swTail := by
    intro t u htu ht
    exact ⟨Good.stable t u htu ht.1, htu.1.trans ht.2⟩
  refine Wp.get_bind htail (fun t ht => ⟨hI t ht.1, ?_⟩) ⟨h, rfl⟩
  rw [ht.2]
  refine Wp.get_bind htail (fun t ht => ⟨hI t ht.1, ?_⟩) ht
  obtain ⟨⟨hp, r, l, w, a, ha, hret, hinv⟩, htl⟩ := ht
  have hhead := hinv.head
  have hroom := hinv.room
  have htl8 := hinv.tail
  rw [htl] at hhead htl8
  cases hq : a.queue with
  | nil =>
    -- the queue is empty
    rw [hq, List.length_nil, Nat.add_zero, Nat.mod_eq_of_lt htl8] at hhead
    rw [if_pos hhead.symm]
    refine Wp.ret Good.stable (fun t ht => ht) ⟨hp, r, l, w, _, ha.tail (.none hq), by rw [hret], ?_⟩
    exact ⟨hinv.card, hinv.pending, hinv.accepted, hinv.ring, hinv.head, hinv.tail, hinv.room⟩
  | cons f q =>
    have hne : s.swTail ≠ t.swHead := by
      rw [hhead]
      rw [hq, List.length_cons] at hroom ⊢
      unfold SW_RING at *
      omega
    rw [if_neg hne]
    have hfront : Front ret s.swTail f t := ⟨hp, htl, r, l, w, a, q, ha, hret, hq, hinv⟩
    refine Wp.get_bind Front.stable (fun t ht => ⟨hI t ht.good, ?_⟩) hfront
    rw [ht.slot.1]
    refine Wp.get_bind Front.stable (fun t ht => ⟨hI t ht.good, ?_⟩) ht
    rw [ht.slot.2.1]
    refine Wp.get_bind Front.stable (fun t ht => ⟨hI t ht.good, ?_⟩) ht
    rw [ht.slot.1]
    refine Wp.bind (Wp.mono (copyOut_wp hI (Nat.zero_add _) ht) ?_)
    rintro bytes u ⟨hb, hu⟩
    rw [List.drop_zero] at hb
    refine Wp.get_bind Front.stable (fun t ht => ⟨hI t ht.good, ?_⟩) hu
    rw [ht.slot.1]
    refine Wp.modify_bind Front.stable (fun t ht => ⟨hI t ht.good, ?_⟩) ht
    rw [hb]
    exact Wp.ret Good.stable (fun t ht => ht) ht.recv

/-! ## the interrupt handler and ne2000_poll -/

/-- what holds within a drain too: the rings stand for frames, and `ret` is what was returned -/
def Seen (ret : List (Option (List Byte))) (s : State) : Prop :=
  ∃ r l w q a, Steps Fifo.empty a ∧ a.returned = ret ∧ Ahead a.queue l q ∧ Inv r l w q a s

theorem Good.seen (h : Good ret s) : Seen ret s := by
  obtain ⟨-, r, l, w, a, ha, hret, hi⟩ := h
  exact ⟨r, l, w, a.queue, a, ha, hret, .inl rfl, hi⟩

theorem During.seen (ha : Steps Fifo.empty a₀) (hret : a₀.returned = ret)
    (h : During a₀ tl r front aq q s) : Seen ret s := by
  obtain ⟨-, l, w, a, hi, hd, rfl, hahead⟩ := h
  exact ⟨r, front ++ l, w, q, a, ha.trans (Fifo.Drain.steps hd), (Fifo.Drain.keeps hd).2.trans hret,
    hahead.append l, hi⟩

theorem Inv.during (h : Inv r l w a.queue a s) : During a s.swTail r [] a.queue a.queue s :=
  ⟨rfl, l, w, a, h, .refl, rfl, .inl rfl⟩

theorem During.good (ha : Steps Fifo.empty a₀) (hret : a₀.returned = ret)
    (h : During a₀ tl r [] aq aq s) (hp : s.card.page1 = false) : Good ret s := by
  obtain ⟨-, l, w, a, hi, hd, hq, -⟩ := h
  refine ⟨hp, r, l, w, a, ha.trans (Fifo.Drain.steps hd), (Fifo.Drain.keeps hd).2.trans hret, ?_⟩
  rw [hq]
  exact hi

theorem Env.later (h : Env s t) : Later s t := by
  cases h with
  | accept e fits =>
    exact ⟨rfl, id, fun r l w a hi =>
      ⟨r, l ++ [e], w + e.pages, _, hi.accept fits, .single (.accept e.frame)⟩⟩
  | isr v =>
    exact ⟨rfl, id, fun r l w a hi =>
      ⟨r, l, w, a, { hi with card := hi.card.congr rfl rfl rfl }, .refl⟩⟩

theorem Seen.stable : Stable Env (Seen ret) := by
  rintro s t hst ⟨r, l, w, q, a, ha, hret, hq, hi⟩
  cases hst with
  | accept e fits => exact ⟨r, l ++ [e], w + e.pages, q, _, ha.tail (.drain (.accept e.frame)), hret,
      hq.append [e], hi.accept fits⟩
  | isr v => exact ⟨r, l, w, q, a, ha, hret, hq, { hi with card := hi.card.congr rfl rfl rfl }⟩

/-- registers that are not BNRY or CURR -/
theorem Seen.card {c : Card} (h : Seen ret s) (hm : c.mem = s.card.mem) (hb : c.bnry = s.card.bnry)
    (hc : c.curr = s.card.curr) : Seen ret { s with card := c } := by
  obtain ⟨r, l, w, q, a, ha, hret, hq, hi⟩ := h
  exact ⟨r, l, w, q, a, ha, hret, hq, { hi with card := hi.card.congr hm hb hc }⟩

/-- **The interrupt handler**: the task finds more frames in the queue. -/
theorem irq_later (hport : port ≠ .osfs11) {isr : Nat} (h : Good ret s) :
    (irqRest port isr).Wp Env (Seen ret) (fun _ t => Later s t) s := by
  obtain ⟨hp, r, l, w, a, ha, hret, hi⟩ := h
  have hrun := irqRest_wp hport isr (fun _ _ _ _ _ h => During.seen ha hret h)
    hi.during hp
  have hall : ∀ x : { x : Nat × List Entry × Nat × Frames //
      Inv x.1 x.2.1 x.2.2.1 x.2.2.2.queue x.2.2.2 s },
      (irqRest port isr).Wp Env (fun _ => True) (fun _ t =>
        (∃ r aq, During x.1.2.2.2 s.swTail r [] aq aq t) ∧ t.card.page1 = false) s :=
    fun x => irqRest_wp hport isr (fun _ _ _ _ _ _ => trivial) x.2.during hp
  refine Wp.mono (Wp.all hrun hall) ?_
  rintro _ t ⟨⟨⟨_, _, hd⟩, hp'⟩, hx⟩
  refine ⟨hd.1, fun _ => hp', fun r l w a hi => ?_⟩
  obtain ⟨⟨r', aq, -, l', w', a', hi', hd', hq, -⟩, -⟩ := hx ⟨(r, l, w, a), hi⟩
  rw [← hq] at hi'
  exact ⟨r', l', w', a', hi', hd'⟩

/-- ne2000_poll that only the card disturbs -/
theorem poll_wp (hport : port ≠ .osfs11) (h : Good ret s) :
    (drain port).Wp Env (Seen ret) (fun _ t => Good ret t) s := by
  obtain ⟨hp, r, l, w, a, ha, hret, hi⟩ := h
  refine Wp.mono (drain_wp hport (fun _ _ _ _ _ h => During.seen ha hret h) hi.during hp) ?_
  rintro _ t ⟨⟨r, aq, hd⟩, hp⟩
  exact hd.good ha hret hp

end Noxis.Net.Rx
