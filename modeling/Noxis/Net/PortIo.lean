import Noxis.Net.Drain

/-!
# net/ne2000.c, kernel/kliba.asm: remote DMA

`remote_read` and `remote_write` of 25-osfs11 when nothing else runs.  The data port yields or takes a
word for each access; which words it yields after the card is aimed at `addr` is `cardWord`.

* `portRead`, `portWrite`          the string instructions of kliba.asm;
* `remoteRead`, `remoteWrite`      the driver;
* `ReadExact`, `WriteExact`        all bytes are moved, in order, and nothing else;
* `moved_iff`                      for which lengths they are;
* `alone_remoteRead`, `remoteWrite_sram`   the other models of the two functions.
-/

namespace Noxis.Net.Dma
open Rx

def CR_RWRITE : Nat := 0x10

/-- the card and the memory; `stored` and `sent` are records of the past which nothing reads, of what
`insw` has stored and what `outsw` has given to the card -/
structure Machine where
  card : Card
  mem : Buffer
  stored : List (Nat × Byte)
  sent : List (Byte × Byte)

/-! ## kliba.asm -/

/-- a word from the data port to the memory -/
def Machine.insw (s : Machine) (edi : Nat) : Machine :=
  { s with
    card := s.card.nextWord
    mem := Function.update (Function.update s.mem edi s.card.word.1) (edi + 1) s.card.word.2
    stored := s.stored ++ [(edi, s.card.word.1), (edi + 1, s.card.word.2)] }

/-- the card takes a word -/
def putCard (c : Card) (w : Byte × Byte) : Card :=
  { c.nextWord with
    mem := Function.update (Function.update c.mem c.rsar w.1) (c.rsar + 1) w.2 }

def Machine.outsw (s : Machine) (w : Byte × Byte) : Machine :=
  { s with card := putCard s.card w, sent := s.sent ++ [w] }

/-- `rep insw`, with ECX words left -/
def repInsw : Nat → Nat → Machine → Machine
  | 0, _, s => s
  | ecx + 1, edi, s => repInsw ecx (edi + 2) (s.insw edi)

/-- `rep outsw` -/
def repOutsw (src : Buffer) : Nat → Nat → Machine → Machine
  | 0, _, s => s
  | ecx + 1, esi, s => repOutsw src ecx (esi + 2) (s.outsw (src esi, src (esi + 1)))

def portRead (port : Port) (buf n : Nat) (s : Machine) : Machine := repInsw (port.moved n) buf s

def portWrite (port : Port) (src : Buffer) (buf n : Nat) (s : Machine) : Machine :=
  repOutsw src (port.moved n) buf s

/-! ## the driver -/

/-- the address and the number of bytes go to the card, then the command -/
def aim (c : Card) (addr words cmd : Nat) : Card :=
  let c := c.write REG_CR (CR_START ||| CR_NODMA ||| CR_PAGE0)
  let c := c.write REG_RSAR0 (addr % 256)
  let c := c.write REG_RSAR1 (addr / 256)
  let c := c.write REG_RBCR0 (words * 2 % 256)
  let c := c.write REG_RBCR1 (words * 2 / 256 % 256)
  c.write REG_CR (CR_START ||| cmd ||| CR_PAGE0)

/-- `for (spin = 0; spin < 100000; spin++)`; the reads of ISR change nothing -/
def spinRdc : Nat → Card → Card
  | 0, c => c
  | n + 1, c => if BitVec.ofNat 8 (c.read REG_ISR) &&& ISR_RDC ≠ 0 then c else spinRdc n c

def ackRdc (s : Machine) : Machine :=
  { s with card := (spinRdc 100000 s.card).write REG_ISR ISR_RDC.toNat }

def remoteRead (port : Port) (addr len : BitVec 16) (buf : Nat) (s : Machine) : Machine :=
  let words := (len.toNat + 1) / 2
  ackRdc (portRead port buf words { s with card := aim s.card addr.toNat words CR_RREAD })

/-- `tmp`, with the bytes at `buf` and a zero behind them -/
def padded (mem : Buffer) (buf len : Nat) : Buffer := fun a => if a < len then mem (buf + a) else 0

def remoteWrite (port : Port) (addr len : BitVec 16) (buf : Nat) (s : Machine) : Machine :=
  let words := (len.toNat + 1) / 2
  if NE_FRAME_MAX < words * 2 then s
  else
    let t := { s with card := aim s.card addr.toNat words CR_RWRITE }
    ackRdc (if len.toNat % 2 = 1 then portWrite port (padded s.mem buf len.toNat) 0 words t
      else portWrite port s.mem buf words t)

/-! ## what the data port yields -/

/-- where remote DMA is after `i` words -/
def wordAddr (addr : Nat) : Nat → Nat
  | 0 => addr
  | i + 1 => if wordAddr addr i + 2 = RX_STOP * 256 then RX_START * 256 else wordAddr addr i + 2

def cardWord (mem : Buffer) (addr i : Nat) : Byte × Byte :=
  (mem (wordAddr addr i), mem (wordAddr addr i + 1))

/-- the bytes of these words -/
def cardByte (mem : Buffer) (addr j : Nat) : Byte :=
  if j % 2 = 0 then (cardWord mem addr (j / 2)).1 else (cardWord mem addr (j / 2)).2

/-- the word at `2 * i` of the bytes to send -/
def paddedWord (mem : Buffer) (buf len i : Nat) : Byte × Byte :=
  (padded mem buf len (2 * i), padded mem buf len (2 * i + 1))

/-- `remote_read` stores the card's bytes from `addr` on, `len` of them rounded up to even, in order,
and changes no other byte -/
structure ReadExact (port : Port) (addr len : BitVec 16) (buf : Nat) (s : Machine) : Prop where
  stored : (remoteRead port addr len buf s).stored = s.stored ++
    (List.range ((len.toNat + 1) / 2 * 2)).map fun j =>
      (buf + j, cardByte s.card.mem addr.toNat j)
  mem : ∀ a, (remoteRead port addr len buf s).mem a =
    if buf ≤ a ∧ a < buf + (len.toNat + 1) / 2 * 2 then cardByte s.card.mem addr.toNat (a - buf)
    else s.mem a

/-- `remote_write` gives the card the bytes at `buf`, `len` of them and a zero behind an odd number,
in order -/
structure WriteExact (port : Port) (addr len : BitVec 16) (buf : Nat) (s : Machine) : Prop where
  sent : (remoteWrite port addr len buf s).sent = s.sent ++
    (List.range ((len.toNat + 1) / 2)).map (paddedWord s.mem buf len.toNat)
  mem : (remoteWrite port addr len buf s).mem = s.mem

/-! ## the string instructions -/

variable {port : Port} {addr len : BitVec 16} {buf : Nat} {s : Machine} {c : Card} {src : Buffer}

theorem wordAddr_succ (addr i : Nat) :
    wordAddr (if addr + 2 = RX_STOP * 256 then RX_START * 256 else addr + 2) i =
      wordAddr addr (i + 1) := by
  induction i with
  | zero => rfl
  | succ i ih =>
    show (if wordAddr _ i + 2 = _ then _ else wordAddr _ i + 2) = _
    rw [ih]
    rfl

/-- one word more from the card -/
theorem cardWord_nextWord (c : Card) (i : Nat) :
    cardWord c.nextWord.mem c.nextWord.rsar i = cardWord c.mem c.rsar (i + 1) := by
  have h : wordAddr c.nextWord.rsar i = wordAddr c.rsar (i + 1) := wordAddr_succ c.rsar i
  unfold cardWord
  rw [h]
  rfl

theorem cardByte_nextWord (c : Card) (j : Nat) :
    cardByte c.nextWord.mem c.nextWord.rsar j = cardByte c.mem c.rsar (j + 2) := by
  unfold cardByte
  rw [cardWord_nextWord, show (j + 2) % 2 = j % 2 by omega, show (j + 2) / 2 = j / 2 + 1 by omega]

/-- `n` words are `n * 2` bytes -/
theorem range_words {α : Type} (f : Nat → α) (n : Nat) :
    (List.range ((n + 1) * 2)).map f =
      [f 0, f 1] ++ (List.range (n * 2)).map fun j => f (j + 2) := by
  rw [show (n + 1) * 2 = 2 + n * 2 by omega, List.range_add, List.map_append, List.map_map]
  refine congrArg₂ (· ++ ·) rfl (List.map_congr_left fun j _ => ?_)
  show f (2 + j) = f (j + 2)
  rw [Nat.add_comm]

theorem repInsw_stored (n edi : Nat) (s : Machine) :
    (repInsw n edi s).stored = s.stored ++
      (List.range (n * 2)).map fun j => (edi + j, cardByte s.card.mem s.card.rsar j) := by
  induction n generalizing edi s with
  | zero => exact (List.append_nil _).symm
  | succ n ih =>
    show (repInsw n (edi + 2) (s.insw edi)).stored = _
    rw [ih, range_words, ← List.append_assoc]
    refine congrArg₂ (· ++ ·) rfl (List.map_congr_left fun j _ => ?_)
    refine Prod.ext ?_ (cardByte_nextWord s.card j)
    show edi + 2 + j = edi + (j + 2)
    omega

theorem repInsw_mem (n edi : Nat) (s : Machine) (a : Nat) :
    (repInsw n edi s).mem a =
      if edi ≤ a ∧ a < edi + n * 2 then cardByte s.card.mem s.card.rsar (a - edi) else s.mem a := by
  induction n generalizing edi s with
  | zero => exact (if_neg (by omega)).symm
  | succ n ih =>
    show (repInsw n (edi + 2) (s.insw edi)).mem a = _
    rw [ih]
    by_cases hbehind : edi + 2 ≤ a ∧ a < edi + 2 + n * 2
    · rw [if_pos hbehind, if_pos (by omega)]
      have hj : a - edi = a - (edi + 2) + 2 := by omega
      rw [hj]
      exact cardByte_nextWord s.card (a - (edi + 2))
    · rw [if_neg hbehind]
      show Function.update (Function.update s.mem edi s.card.word.1) (edi + 1) s.card.word.2 a = _
      by_cases h1 : a = edi + 1
      · rw [h1, Function.update_self, if_pos (by omega), show edi + 1 - edi = 1 by omega]
        rfl
      rw [Function.update_of_ne h1]
      by_cases h0 : a = edi
      · rw [h0, Function.update_self, if_pos (by omega), Nat.sub_self]
        rfl
      rw [Function.update_of_ne h0, if_neg (by omega)]

theorem repOutsw_sent (src : Buffer) (n esi : Nat) (s : Machine) :
    (repOutsw src n esi s).sent = s.sent ++
      (List.range n).map fun i => (src (esi + 2 * i), src (esi + 2 * i + 1)) := by
  induction n generalizing esi s with
  | zero => exact (List.append_nil _).symm
  | succ n ih =>
    show (repOutsw src n (esi + 2) (s.outsw (src esi, src (esi + 1)))).sent = _
    rw [ih, List.range_succ_eq_map, List.map_cons, List.map_map, ← List.singleton_append,
      ← List.append_assoc]
    refine congrArg₂ (· ++ ·) rfl (List.map_congr_left fun i _ => ?_)
    show (src (esi + 2 + 2 * i), src (esi + 2 + 2 * i + 1)) =
      (src (esi + 2 * (i + 1)), src (esi + 2 * (i + 1) + 1))
    rw [show esi + 2 + 2 * i = esi + 2 * (i + 1) by omega]

theorem repOutsw_mem (src : Buffer) (n esi : Nat) (s : Machine) :
    (repOutsw src n esi s).mem = s.mem := by
  induction n generalizing esi s with
  | zero => rfl
  | succ n ih => exact ih (esi + 2) _

/-! ## the driver -/

theorem spinRdc_eq (n : Nat) (c : Card) : spinRdc n c = c := by
  induction n with
  | zero => rfl
  | succ n ih =>
    show (if _ then c else spinRdc n c) = c
    rw [ih, ite_self]

theorem write_mem (c : Card) (reg v : Nat) : (c.write reg v).mem = c.mem := by
  unfold Card.write
  split_ifs <;> rfl

theorem ackRdc_mem (s : Machine) : (ackRdc s).card.mem = s.card.mem := by
  show ((spinRdc 100000 s.card).write REG_ISR ISR_RDC.toNat).mem = _
  rw [write_mem, spinRdc_eq]

theorem aim_mem (c : Card) (addr words cmd : Nat) : (aim c addr words cmd).mem = c.mem := rfl

theorem aim_rsar (c : Card) (addr words cmd : Nat) (hcmd : cmd = CR_RREAD ∨ cmd = CR_RWRITE) :
    (aim c addr words cmd).rsar = addr := by
  have h : (aim c addr words cmd).rsar =
      addr / 256 * 256 + (c.rsar / 256 * 256 + addr % 256) % 256 := by
    rcases hcmd with rfl | rfl
    · rfl
    · rfl
  rw [h]
  omega

theorem remoteRead_eq (port : Port) (addr len : BitVec 16) (buf : Nat) (s : Machine) :
    remoteRead port addr len buf s = ackRdc (repInsw (port.moved ((len.toNat + 1) / 2)) buf
      { s with card := aim s.card addr.toNat ((len.toNat + 1) / 2) CR_RREAD }) := rfl

theorem remoteRead_stored (port : Port) (addr len : BitVec 16) (buf : Nat) (s : Machine) :
    (remoteRead port addr len buf s).stored = s.stored ++
      (List.range (port.moved ((len.toNat + 1) / 2) * 2)).map fun j =>
        (buf + j, cardByte s.card.mem addr.toNat j) := by
  rw [remoteRead_eq]
  show (repInsw _ buf _).stored = _
  rw [repInsw_stored]
  show s.stored ++ List.map (fun j => (buf + j, cardByte s.card.mem
    (aim s.card addr.toNat ((len.toNat + 1) / 2) CR_RREAD).rsar j)) _ = _
  rw [aim_rsar _ _ _ _ (Or.inl rfl)]

theorem remoteRead_mem (port : Port) (addr len : BitVec 16) (buf : Nat) (s : Machine) (a : Nat) :
    (remoteRead port addr len buf s).mem a =
      if buf ≤ a ∧ a < buf + port.moved ((len.toNat + 1) / 2) * 2 then
        cardByte s.card.mem addr.toNat (a - buf)
      else s.mem a := by
  rw [remoteRead_eq]
  show (repInsw _ buf _).mem a = _
  rw [repInsw_mem]
  show (if _ then cardByte s.card.mem
    (aim s.card addr.toNat ((len.toNat + 1) / 2) CR_RREAD).rsar (a - buf) else s.mem a) = _
  rw [aim_rsar _ _ _ _ (Or.inl rfl)]

theorem moved_le (port : Port) (n : Nat) : port.moved n ≤ n := by
  cases port with
  | fixes | counted => exact Nat.le_refl n
  | osfs11 => exact Nat.div_le_self n 2

/-- what is sent, whichever of the two buffers it comes from -/
theorem remoteWrite_words (port : Port) (addr len : BitVec 16) (buf : Nat) (s : Machine)
    (hmax : (len.toNat + 1) / 2 * 2 ≤ NE_FRAME_MAX) :
    ∃ src esi,
      remoteWrite port addr len buf s =
        ackRdc (repOutsw src (port.moved ((len.toNat + 1) / 2)) esi
          { s with card := aim s.card addr.toNat ((len.toNat + 1) / 2) CR_RWRITE }) ∧
      ∀ i < (len.toNat + 1) / 2,
        (src (esi + 2 * i), src (esi + 2 * i + 1)) = paddedWord s.mem buf len.toNat i := by
  unfold remoteWrite
  rw [if_neg (by omega)]
  by_cases hodd : len.toNat % 2 = 1
  · refine ⟨padded s.mem buf len.toNat, 0, congrArg ackRdc (if_pos hodd), fun i _ => ?_⟩
    rw [Nat.zero_add]
    rfl
  · refine ⟨s.mem, buf, congrArg ackRdc (if_neg hodd), fun i hi => ?_⟩
    unfold paddedWord padded
    rw [if_pos (by omega), if_pos (by omega), Nat.add_assoc]

theorem remoteWrite_sent (port : Port) (addr len : BitVec 16) (buf : Nat) (s : Machine)
    (hmax : (len.toNat + 1) / 2 * 2 ≤ NE_FRAME_MAX) :
    (remoteWrite port addr len buf s).sent = s.sent ++
      (List.range (port.moved ((len.toNat + 1) / 2))).map (paddedWord s.mem buf len.toNat) := by
  obtain ⟨src, esi, heq, hword⟩ := remoteWrite_words port addr len buf s hmax
  have hle := moved_le port ((len.toNat + 1) / 2)
  rw [heq]
  show (repOutsw src _ esi _).sent = _
  rw [repOutsw_sent]
  refine congrArg₂ (· ++ ·) rfl (List.map_congr_left fun i hi => hword i ?_)
  have hi' := List.mem_range.mp hi
  omega

theorem remoteWrite_mem (port : Port) (addr len : BitVec 16) (buf : Nat) (s : Machine) :
    (remoteWrite port addr len buf s).mem = s.mem := by
  by_cases hmax : (len.toNat + 1) / 2 * 2 ≤ NE_FRAME_MAX
  · obtain ⟨src, esi, heq, -⟩ := remoteWrite_words port addr len buf s hmax
    rw [heq]
    exact repOutsw_mem _ _ _ _
  · unfold remoteWrite
    rw [if_pos (by omega)]

/-! ## what is moved -/

/-- all bytes are read if the instruction is repeated for every word -/
theorem readExact_iff :
    ReadExact port addr len buf s ↔
      port.moved ((len.toNat + 1) / 2) = (len.toNat + 1) / 2 := by
  constructor
  · intro h
    have hlen := congrArg List.length h.stored
    rw [remoteRead_stored, List.length_append, List.length_append, List.length_map,
      List.length_map, List.length_range, List.length_range] at hlen
    omega
  · intro h
    refine ⟨?_, fun a => ?_⟩
    · rw [remoteRead_stored, h]
    · rw [remoteRead_mem, h]

/-- they are written then too, unless the frame is too long -/
theorem writeExact_iff :
    WriteExact port addr len buf s ↔
      port.moved ((len.toNat + 1) / 2) = (len.toNat + 1) / 2 ∧
        (len.toNat + 1) / 2 * 2 ≤ NE_FRAME_MAX := by
  by_cases hmax : (len.toNat + 1) / 2 * 2 ≤ NE_FRAME_MAX
  · constructor
    · intro h
      have hlen := congrArg List.length h.sent
      rw [remoteWrite_sent _ _ _ _ _ hmax, List.length_append, List.length_append,
        List.length_map, List.length_map, List.length_range, List.length_range] at hlen
      exact ⟨by omega, hmax⟩
    · rintro ⟨h, -⟩
      refine ⟨?_, remoteWrite_mem port addr len buf s⟩
      rw [remoteWrite_sent _ _ _ _ _ hmax, h]
  · refine ⟨fun h => ?_, fun h => absurd h.2 hmax⟩
    have hlen := congrArg List.length h.sent
    unfold remoteWrite at hlen
    rw [if_pos (by omega), List.length_append, List.length_map, List.length_range] at hlen
    unfold NE_FRAME_MAX at hmax
    omega

/-- **Remote DMA of 25-osfs11** moves the bytes that are asked for only if there are none. -/
theorem moved_iff (addr len : BitVec 16) (buf : Nat) (s : Machine) :
    (ReadExact .osfs11 addr len buf s ↔ len = 0) ∧
      (WriteExact .osfs11 addr len buf s ↔ len = 0) := by
  have hzero : len = 0 ↔ len.toNat = 0 :=
    ⟨fun h => by rw [h]; rfl, fun h => BitVec.eq_of_toNat_eq h⟩
  have hhalf : Port.osfs11.moved ((len.toNat + 1) / 2) = (len.toNat + 1) / 2 ↔ len.toNat = 0 := by
    show (len.toNat + 1) / 2 / 2 = (len.toNat + 1) / 2 ↔ _
    omega
  refine ⟨?_, ?_⟩
  · rw [readExact_iff, hhalf, hzero]
  · rw [writeExact_iff, hhalf, hzero]
    refine ⟨fun h => h.1, fun h => ⟨h, ?_⟩⟩
    rw [h]
    decide

/-- a machine at the start -/
def fresh : Machine :=
  { card := ⟨fun _ => 0, false, 0, 0, 0x7F, 0x46, 0, fun _ => 0⟩, mem := fun _ => 0, stored := []
    sent := [] }

/-- the header of a frame, and a frame of 60 bytes to send -/
theorem moved_fails :
    ¬ ((∀ addr len buf s, ReadExact .osfs11 addr len buf s) ∧
      ∀ addr len buf s, len.toNat ≤ 1520 → WriteExact .osfs11 addr len buf s) ∧
    ¬ ReadExact .osfs11 0x4600 4 0 fresh ∧ ¬ WriteExact .osfs11 0x4000 60 0 fresh := by
  have hread : ¬ ReadExact .osfs11 0x4600 4 0 fresh := fun h =>
    absurd (readExact_iff.mp h) (by decide)
  have hwrite : ¬ WriteExact .osfs11 0x4000 60 0 fresh := fun h =>
    absurd (writeExact_iff.mp h).1 (by decide)
  exact ⟨fun h => hread (h.1 _ _ _ _), hread, hwrite⟩

/-! ## the other models of the two functions -/

theorem repOutsw_card (n esi : Nat) (s : Machine) (hfit : s.card.rsar + n * 2 < RX_STOP * 256)
    (a : Nat) :
    (repOutsw src n esi s).card.mem a =
      if s.card.rsar ≤ a ∧ a < s.card.rsar + n * 2 then src (esi + (a - s.card.rsar))
      else s.card.mem a := by
  induction n generalizing esi s with
  | zero => exact (if_neg (by omega)).symm
  | succ n ih =>
    have hnext : (s.outsw (src esi, src (esi + 1))).card.rsar = s.card.rsar + 2 :=
      if_neg (by omega)
    show (repOutsw src n (esi + 2) (s.outsw (src esi, src (esi + 1)))).card.mem a = _
    rw [ih _ _ (by omega), hnext]
    by_cases hbehind : s.card.rsar + 2 ≤ a ∧ a < s.card.rsar + 2 + n * 2
    · rw [if_pos hbehind, if_pos (by omega)]
      exact congrArg src (by omega)
    · rw [if_neg hbehind]
      show Function.update (Function.update s.card.mem s.card.rsar (src esi)) (s.card.rsar + 1)
        (src (esi + 1)) a = _
      by_cases h1 : a = s.card.rsar + 1
      · rw [h1, Function.update_self, if_pos (by omega), Nat.add_sub_cancel_left]
      rw [Function.update_of_ne h1]
      by_cases h0 : a = s.card.rsar
      · rw [h0, Function.update_self, if_pos (by omega), Nat.sub_self, Nat.add_zero]
      rw [Function.update_of_ne h0, if_neg (by omega)]

/-- to the staging buffer it is the `remote_write` of `eth_send` -/
theorem remoteWrite_sram (hport : port ≠ .fixes) (len : BitVec 16) (buf : Nat) (s : Machine) :
    (fun a => (remoteWrite port 0x4000 len buf s).card.mem (0x4000 + a)) =
      Net.remoteWrite port (fun a => s.card.mem (0x4000 + a)) len.toNat fun a => s.mem (buf + a) := by
  funext a
  by_cases hmax : (len.toNat + 1) / 2 * 2 ≤ NE_FRAME_MAX
  · obtain ⟨src, esi, heq, hword⟩ := remoteWrite_words port 0x4000 len buf s hmax
    have hle := moved_le port ((len.toNat + 1) / 2)
    have hrsar : (aim s.card 0x4000 ((len.toNat + 1) / 2) CR_RWRITE).rsar = 0x4000 :=
      aim_rsar _ _ _ _ (Or.inr rfl)
    have hmem := @repOutsw_card src (port.moved ((len.toNat + 1) / 2)) esi
      { s with card := aim s.card 0x4000 ((len.toNat + 1) / 2) CR_RWRITE }
      (by
        show (aim s.card 0x4000 ((len.toNat + 1) / 2) CR_RWRITE).rsar + _ < _
        rw [hrsar]
        unfold NE_FRAME_MAX at hmax
        unfold RX_STOP
        omega) (0x4000 + a)
    have hlt : ¬ (port ≠ .fixes ∧ NE_FRAME_MAX < (len.toNat + 1) / 2 * 2) := by omega
    unfold Net.remoteWrite writeWords
    rw [if_neg hlt, heq, ackRdc_mem]
    refine hmem.trans ?_
    simp only [hrsar, aim_mem]
    by_cases hin : a < port.moved ((len.toNat + 1) / 2) * 2
    · rw [if_pos (by omega), if_pos hin]
      have h := hword (a / 2) (by omega)
      show _ = padded s.mem buf len.toNat a
      rw [Nat.add_sub_cancel_left]
      by_cases heven : a % 2 = 0
      · have h1 := congrArg Prod.fst h
        simp only [paddedWord, show 2 * (a / 2) = a by omega] at h1
        exact h1
      · have h2 := congrArg Prod.snd h
        simp only [paddedWord, show esi + 2 * (a / 2) + 1 = esi + a by omega,
          show 2 * (a / 2) + 1 = a by omega] at h2
        exact h2
    · rw [if_neg (by omega), if_neg hin]
  · unfold remoteWrite Net.remoteWrite
    rw [if_pos (by omega), if_pos ⟨hport, by omega⟩]

/-- the driver's state with the card, and the slot `h` of `sw_ring`, of a machine -/
def withMachine (h : Nat) (t : State) (s : Machine) : State :=
  { t with card := s.card, swRing := Function.update t.swRing h s.mem }

theorem alone_moveWord (hport : port ≠ .fixes) (h n i : Nat) (t : State) (s : Machine) :
    ((moveWord port (some h) n i).alone (withMachine h t s)).2 =
      withMachine h t (s.insw (2 * i)) := by
  have hput : putWord port n i s.card.word s.mem =
      Function.update (Function.update s.mem (2 * i) s.card.word.1) (2 * i + 1) s.card.word.2 := by
    funext a
    unfold putWord
    by_cases h0 : a = 2 * i
    · rw [if_pos h0, h0, Function.update_of_ne (by omega), Function.update_self]
    rw [if_neg h0]
    by_cases h1 : a = 2 * i + 1
    · rw [if_pos ⟨h1, Or.inl hport⟩, h1, Function.update_self]
    · rw [if_neg fun hc => h1 hc.1, Function.update_of_ne h1, Function.update_of_ne h0]
  show State.mk s.card.nextWord (Function.update (Function.update t.swRing h s.mem) h
    (putWord port n i s.card.word (Function.update t.swRing h s.mem h))) _ _ _ _ _ = _
  rw [Function.update_self, Function.update_idem, hput]
  rfl

theorem alone_moveWords (hport : port ≠ .fixes) (h len n i : Nat) (t : State) (s : Machine) :
    ((moveWords port (some h) len n i).alone (withMachine h t s)).2 =
      withMachine h t (repInsw n (2 * i) s) := by
  induction n generalizing i s with
  | zero => rfl
  | succ n ih =>
    show ((moveWord port (some h) len i >>= _).alone _).2 = _
    rw [Prog.alone_bind, alone_moveWord hport]
    show ((moveWords port (some h) len n (i + 1) >>= _).alone _).2 = _
    rw [Prog.alone_bind, ih]
    rfl

theorem alone_spinRdc (n : Nat) (t : State) : ((Rx.spinRdc n).alone t).2 = t := by
  induction n with
  | zero => rfl
  | succ n ih =>
    show ((if _ then _ else Rx.spinRdc n : Io Unit).alone t).2 = t
    split
    · rfl
    · exact ih

/-- when nothing disturbs the receive path, its `remote_read` is this one -/
theorem alone_remoteRead (hport : port ≠ .fixes) (h : Nat) (addr len : BitVec 16)
    (hlen : len.toNat ≤ NE_FRAME_MAX) (t : State) (s : Machine) :
    ((Rx.remoteRead port addr.toNat len.toNat (some h)).alone (withMachine h t s)).2 =
      withMachine h t (remoteRead port addr len 0 s) := by
  have hhigh : (len.toNat + 1) / 2 * 2 / 256 % 256 = (len.toNat + 1) / 2 * 2 / 256 := by
    unfold NE_FRAME_MAX at hlen
    omega
  have hread : remoteRead port addr len 0 s =
      (fun r : Machine => { r with card := r.card.write REG_ISR ISR_RDC.toNat })
        (repInsw (port.moved ((len.toNat + 1) / 2)) 0
          { s with card := aim s.card addr.toNat ((len.toNat + 1) / 2) CR_RREAD }) := by
    rw [remoteRead_eq]
    unfold ackRdc
    rw [spinRdc_eq]
  have hmoved := alone_moveWords hport h len.toNat (port.moved ((len.toNat + 1) / 2)) 0 t
    { s with card := aim s.card addr.toNat ((len.toNat + 1) / 2) CR_RREAD }
  rw [hread]
  unfold aim at hmoved ⊢
  rw [hhigh] at hmoved ⊢
  show ((moveWords port (some h) len.toNat (port.moved ((len.toNat + 1) / 2)) 0 >>= _).alone _).2 = _
  rw [Prog.alone_bind, Prog.alone_bind, alone_spinRdc]
  exact congrArg (fun u : State => { u with card := u.card.write REG_ISR ISR_RDC.toNat }) hmoved

end Noxis.Net.Dma
