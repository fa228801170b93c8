import Noxis.Wm.OnScreen
import Noxis.Lib.Bytes

/-!
# 25-osfs11/kernel/mouse.c: packets of three bytes

* `Mouse.handler`        `mouse_handler`, with what it reads from the two ports
* `Mouse.run`            interrupt after interrupt
* `Mouse.Bounded`        the position is on the screen, the buttons are three bits
* `Packet`               an aligned packet without overflow, with its two 9-bit movements
* `Mouse.run_packet`     what one packet does, whatever else raises the interrupt meanwhile
* `decode_exact`         both halves, after any history
* `moveMouse_follows`    the desktop's pointer is put where the driver's is
-/

namespace Noxis.Wm

/-! ## the handler -/

def MOUSE_V_BIT : Byte := 0x08

structure Mouse where
  mouseX : Int
  mouseY : Int
  mouseButtons : Int
  mouseCycle : Nat
  packet0 : Byte
  packet1 : Byte
  packet2 : Byte
  deriving DecidableEq, Repr

/-- the initial values -/
def Mouse.init : Mouse := ⟨gfxFbW / 2, gfxFbH / 2, 0, 0, 0, 0, 0⟩

/-- `dx = mouse_packet[1]`, and `dx |= 0xFFFFFF00` for the sign -/
def signExtend (sign : Bool) (data : Byte) : Int :=
  (if sign then data.setWidth 32 ||| 0xFFFFFF00#32 else data.setWidth 32).toInt

/-- a complete packet -/
def Mouse.process (m : Mouse) : Mouse :=
  -- an overflow: the packet is dropped
  if m.packet0 &&& 0xC0 ≠ 0 then m
  else
    let dx := signExtend (m.packet0 &&& 0x10 ≠ 0) m.packet1
    let dy := signExtend (m.packet0 &&& 0x20 ≠ 0) m.packet2
    let x := int (m.mouseX + dx)
    let y := int (m.mouseY - dy)
    let x := if x < 0 then 0 else x
    let x := if x ≥ gfxFbW then gfxFbW - 1 else x
    let y := if y < 0 then 0 else y
    let y := if y ≥ gfxFbH then gfxFbH - 1 else y
    { m with mouseButtons := (m.packet0 &&& 0x07).toNat, mouseX := x, mouseY := y }

/-- what the ports hold at an interrupt -/
structure Irq where
  status : Byte
  data : Byte
  deriving DecidableEq, Repr

/-- the byte in the buffer is from the mouse -/
def Irq.aux (i : Irq) : Bool := i.status &&& 0x20 ≠ 0

/-- `switch (mouse_cycle)` -/
def Mouse.byte (m : Mouse) (data : Byte) : Mouse :=
  if m.mouseCycle = 0 then
    -- out of step: the byte is dropped
    if data &&& MOUSE_V_BIT ≠ 0 then { m with packet0 := data, mouseCycle := 1 } else m
  else if m.mouseCycle = 1 then { m with packet1 := data, mouseCycle := 2 }
  else if m.mouseCycle = 2 then { m with packet2 := data, mouseCycle := 0 }.process
  else m

/-- a byte of the keyboard is left in the buffer -/
def Mouse.handler (m : Mouse) (i : Irq) : Mouse := if i.aux then m.byte i.data else m

def Mouse.run (m : Mouse) (irqs : List Irq) : Mouse := irqs.foldl handler m

theorem Mouse.run_append (m : Mouse) (l l' : List Irq) :
    m.run (l ++ l') = (m.run l).run l' := List.foldl_append

/-! ## bounds -/

structure Mouse.Bounded (m : Mouse) : Prop where
  x : 0 ≤ m.mouseX ∧ m.mouseX < gfxFbW
  y : 0 ≤ m.mouseY ∧ m.mouseY < gfxFbH
  buttons : 0 ≤ m.mouseButtons ∧ m.mouseButtons < 2 ^ 3

variable {m : Mouse}

theorem Mouse.Bounded.init : Mouse.init.Bounded :=
  ⟨by decide, by decide, by decide⟩

theorem low_bits (b : Byte) : (b &&& 0x07).toNat < 2 ^ 3 := by
  rw [BitVec.toNat_and]
  exact Nat.and_lt_two_pow _ (by decide)

/-- the clamp alone bounds the position -/
theorem Mouse.Bounded.process (h : m.Bounded) : m.process.Bounded := by
  unfold Mouse.process
  split_ifs
  · exact h
  · have hb := low_bits m.packet0
    refine ⟨?_, ?_, ?_, ?_⟩
    · simp only [gfxFbW]
      split_ifs <;> omega
    · simp only [gfxFbH]
      split_ifs <;> omega
    · exact Int.natCast_nonneg _
    · exact Int.ofNat_lt.mpr hb

theorem Mouse.Bounded.byte (h : m.Bounded) (data : Byte) : (m.byte data).Bounded := by
  have hkeep : ∀ c p0 p1 p2, Mouse.Bounded ⟨m.mouseX, m.mouseY, m.mouseButtons, c, p0, p1, p2⟩ :=
    fun c p0 p1 p2 => ⟨h.x, h.y, h.buttons⟩
  unfold Mouse.byte
  by_cases h0 : m.mouseCycle = 0
  · rw [if_pos h0]
    by_cases hv : data &&& MOUSE_V_BIT ≠ 0
    · rw [if_pos hv]
      exact hkeep ..
    · rw [if_neg hv]
      exact h
  · rw [if_neg h0]
    by_cases h1 : m.mouseCycle = 1
    · rw [if_pos h1]
      exact hkeep ..
    · rw [if_neg h1]
      by_cases h2 : m.mouseCycle = 2
      · rw [if_pos h2]
        exact (hkeep ..).process
      · rw [if_neg h2]
        exact h

theorem Mouse.Bounded.bytes (h : m.Bounded) (l : List Byte) : (l.foldl Mouse.byte m).Bounded := by
  induction l generalizing m with
  | nil => exact h
  | cons b l ih => exact ih (h.byte b)

/-! ## packets -/

/-- **An aligned packet without overflow**: bit 3 of its first byte is set, bits 6 and 7 are not. -/
structure Packet where
  header : Byte
  second : Byte
  third : Byte
  sync : header.getLsbD 3 = true
  fits : header.getLsbD 6 = false ∧ header.getLsbD 7 = false

def Packet.bytes (p : Packet) : List Byte := [p.header, p.second, p.third]

/-- nine bits with a sign -/
def Packet.dx (p : Packet) : Int := (BitVec.ofBool (p.header.getLsbD 4) ++ p.second).toInt

def Packet.dy (p : Packet) : Int := (BitVec.ofBool (p.header.getLsbD 5) ++ p.third).toInt

def Packet.buttons (p : Packet) : Int := p.header.toNat % 2 ^ 3

/-- the nearest place on a screen of `size` -/
def onto (size v : Int) : Int := max 0 (min v (size - 1))

/-- the bytes that interrupts take from the mouse -/
def delivered (irqs : List Irq) : List Byte := (irqs.filter Irq.aux).map Irq.data

theorem and_bit (b : Byte) (i : Nat) (h : i < 8) :
    decide (b &&& BitVec.twoPow 8 i ≠ 0) = b.getLsbD i := by
  rw [BitVec.and_twoPow]
  cases b.getLsbD i with
  | true =>
    rw [if_pos rfl, decide_eq_true_eq]
    intro h0
    have := congrArg (BitVec.getLsbD · i) h0
    simp [h] at this
  | false =>
    rw [if_neg Bool.false_ne_true]
    rfl

theorem signExtend_eq (sign : Bool) (b : Byte) :
    signExtend sign b = (BitVec.ofBool sign ++ b).toInt := by
  have hpad : b.setWidth 32 = 0#24 ++ b := BitVec.setWidth_eq_append (by omega)
  have hsign : (BitVec.ofBool sign ++ b).toInt = 2 ^ 8 * (BitVec.ofBool sign).toInt + b.toNat :=
    BitVec.toInt_append
  unfold signExtend
  rw [hsign, hpad]
  cases sign with
  | false => exact BitVec.toInt_append
  | true =>
    have hor : 0#24 ++ b ||| 0xFFFFFF00#32 = 0xFFFFFF#24 ++ b := by
      rw [show 0xFFFFFF00#32 = 0xFFFFFF#24 ++ 0#8 from rfl, BitVec.or_append, BitVec.or_zero]
      rfl
    rw [if_pos rfl, hor]
    exact BitVec.toInt_append

/-- nine bits are between -256 and 255 -/
theorem Packet.dx_range (p : Packet) : -256 ≤ p.dx ∧ p.dx < 256 := by
  unfold Packet.dx
  exact ⟨BitVec.le_toInt _, BitVec.toInt_lt⟩

theorem Packet.dy_range (p : Packet) : -256 ≤ p.dy ∧ p.dy < 256 := by
  unfold Packet.dy
  exact ⟨BitVec.le_toInt _, BitVec.toInt_lt⟩

/-- the three ifs of a coordinate that is not far from the screen -/
theorem onto_eq {size v : Int} (hs : 0 < size) (h1 : -2 ^ 31 ≤ v) (h2 : v < 2 ^ 31) :
    (if (if int v < 0 then 0 else int v) ≥ size then size - 1
      else if int v < 0 then 0 else int v) = onto size v := by
  rw [int_of_range h1 h2]
  unfold onto
  split_ifs <;> omega

theorem Packet.no_overflow (p : Packet) : ¬ p.header &&& 0xC0 ≠ 0 := by
  have h6 : p.header &&& BitVec.twoPow 8 6 = 0#8 := by
    rw [BitVec.and_twoPow, p.fits.1, if_neg Bool.false_ne_true]
  have h7 : p.header &&& BitVec.twoPow 8 7 = 0#8 := by
    rw [BitVec.and_twoPow, p.fits.2, if_neg Bool.false_ne_true]
  rw [not_not, show (0xC0 : Byte) = BitVec.twoPow 8 6 ||| BitVec.twoPow 8 7 from rfl,
    BitVec.and_or_distrib_left, h6, h7]
  rfl

/-- **a complete packet** -/
theorem Mouse.process_eq (h : m.Bounded) (p : Packet) (c : Nat) :
    Mouse.process ⟨m.mouseX, m.mouseY, m.mouseButtons, c, p.header, p.second, p.third⟩ =
      ⟨onto gfxFbW (m.mouseX + p.dx), onto gfxFbH (m.mouseY - p.dy), p.buttons, c,
        p.header, p.second, p.third⟩ := by
  obtain ⟨⟨hx0, hx1⟩, ⟨hy0, hy1⟩, -⟩ := h
  have hdx := p.dx_range
  have hdy := p.dy_range
  have hW : gfxFbW = 800 := rfl
  have hH : gfxFbH = 600 := rfl
  have hbits : ((p.header &&& 0x07).toNat : Int) = p.buttons := by
    rw [BitVec.toNat_and]
    exact congrArg Nat.cast (Nat.and_two_pow_sub_one_eq_mod p.header.toNat 3)
  have h4 : decide (p.header &&& 0x10 ≠ 0) = p.header.getLsbD 4 := and_bit p.header 4 (by omega)
  have h5 : decide (p.header &&& 0x20 ≠ 0) = p.header.getLsbD 5 := and_bit p.header 5 (by omega)
  have hdx' : signExtend (decide (p.header &&& 0x10 ≠ 0)) p.second = p.dx := by
    rw [h4, signExtend_eq, Packet.dx]
  have hdy' : signExtend (decide (p.header &&& 0x20 ≠ 0)) p.third = p.dy := by
    rw [h5, signExtend_eq, Packet.dy]
  unfold Mouse.process
  simp only
  rw [if_neg p.no_overflow, hdx', hdy', hbits, onto_eq (by omega) (by omega) (by omega),
    onto_eq (by omega) (by omega) (by omega)]

/-! ## streams -/

/-- the driver sees the mouse's bytes alone -/
theorem Mouse.run_eq (m : Mouse) (irqs : List Irq) :
    m.run irqs = (delivered irqs).foldl Mouse.byte m := by
  induction irqs generalizing m with
  | nil => rfl
  | cons i irqs ih =>
    show (m.handler i).run irqs = _
    rw [ih]
    unfold Mouse.handler delivered
    by_cases hi : i.aux = true
    · rw [if_pos hi, List.filter_cons_of_pos hi]
      rfl
    · rw [if_neg hi, List.filter_cons_of_neg hi]

theorem Mouse.Bounded.run (h : m.Bounded) (irqs : List Irq) : (m.run irqs).Bounded := by
  rw [Mouse.run_eq]
  exact h.bytes (delivered irqs)

/-- **one packet from a packet boundary**, which leads to the next boundary -/
theorem Mouse.byte_packet (h : m.Bounded) (h0 : m.mouseCycle = 0) (p : Packet) :
    p.bytes.foldl Mouse.byte m =
      ⟨onto gfxFbW (m.mouseX + p.dx), onto gfxFbH (m.mouseY - p.dy), p.buttons, 0,
        p.header, p.second, p.third⟩ := by
  have hv : p.header &&& MOUSE_V_BIT ≠ 0 :=
    of_decide_eq_true ((and_bit p.header 3 (by omega)).trans p.sync)
  have h1 : m.byte p.header = { m with packet0 := p.header, mouseCycle := 1 } := by
    rw [Mouse.byte, if_pos h0, if_pos hv]
  show ((m.byte p.header).byte p.second).byte p.third = _
  rw [h1]
  exact Mouse.process_eq h p 0

theorem Mouse.run_packet {irqs : List Irq} {p : Packet} (h : m.Bounded) (h0 : m.mouseCycle = 0)
    (hd : delivered irqs = p.bytes) :
    m.run irqs =
      ⟨onto gfxFbW (m.mouseX + p.dx), onto gfxFbH (m.mouseY - p.dy), p.buttons, 0,
        p.header, p.second, p.third⟩ := by
  rw [Mouse.run_eq, hd, Mouse.byte_packet h h0]

/-- whole packets keep the driver in step -/
theorem Mouse.run_packets {irqs : List Irq} {ps : List Packet} (h : m.Bounded)
    (h0 : m.mouseCycle = 0) (hd : delivered irqs = ps.flatMap Packet.bytes) :
    (m.run irqs).mouseCycle = 0 := by
  rw [Mouse.run_eq, hd]
  clear hd
  induction ps generalizing m with
  | nil => exact h0
  | cons p ps ih =>
    rw [List.flatMap_cons, List.foldl_append]
    refine ih (h.bytes p.bytes) ?_
    rw [Mouse.byte_packet h h0]

/-- **Mouse decoding**: after any interrupts at all the position is on the screen and the buttons are
three bits; and when the driver is at a packet boundary then, in any stream of aligned packets without
overflow that follows, with the keyboard's interrupts anywhere between their bytes, each packet moves
the position by its two 9-bit numbers, y inverted, as far as the screen goes, and sets the buttons. -/
theorem decode_exact (irqs : List Irq) :
    (Mouse.init.run irqs).Bounded ∧
    ((Mouse.init.run irqs).mouseCycle = 0 →
      ∀ (before next : List Irq) (ps : List Packet) (p : Packet),
        delivered before = ps.flatMap Packet.bytes → delivered next = p.bytes →
        ((Mouse.init.run irqs).run (before ++ next)).mouseX =
            onto gfxFbW (((Mouse.init.run irqs).run before).mouseX + p.dx) ∧
          ((Mouse.init.run irqs).run (before ++ next)).mouseY =
            onto gfxFbH (((Mouse.init.run irqs).run before).mouseY - p.dy) ∧
          ((Mouse.init.run irqs).run (before ++ next)).mouseButtons = p.buttons) := by
  have hb : (Mouse.init.run irqs).Bounded := Mouse.Bounded.init.run irqs
  refine ⟨hb, fun h0 before next ps p hbefore hnext => ?_⟩
  have h0' := Mouse.run_packets hb h0 hbefore
  rw [Mouse.run_append, Mouse.run_packet (hb.run before) h0' hnext]
  exact ⟨rfl, rfl, rfl⟩

/-- the left button held, 100 to the left and 50 up -/
def leftUp : Packet := ⟨0x19, 0x9C, 0x32, rfl, rfl, rfl⟩

/-- a key is pressed between its bytes -/
theorem decode_exact_leftUp :
    (Mouse.init.run [⟨0x21, 0x19⟩, ⟨0x01, 0x1E⟩, ⟨0x21, 0x9C⟩, ⟨0x21, 0x32⟩]).mouseX = 300 ∧
      (Mouse.init.run [⟨0x21, 0x19⟩, ⟨0x01, 0x1E⟩, ⟨0x21, 0x9C⟩, ⟨0x21, 0x32⟩]).mouseY = 250 :=
  have h := (decode_exact []).2 rfl [] [⟨0x21, 0x19⟩, ⟨0x01, 0x1E⟩, ⟨0x21, 0x9C⟩, ⟨0x21, 0x32⟩] []
    leftUp rfl rfl
  ⟨h.1.trans (by decide), h.2.1.trans (by decide)⟩

/-! ## the desktop -/

/-- `desktop` passes the difference between the two pointers on -/
theorem moveMouse_follows (d : Desktop) (h : m.Bounded) :
    (d.moveMouse (m.mouseX - d.mouseX) (m.mouseY - d.mouseY)).mouseX = m.mouseX ∧
      (d.moveMouse (m.mouseX - d.mouseX) (m.mouseY - d.mouseY)).mouseY = m.mouseY := by
  obtain ⟨⟨hx0, hx1⟩, ⟨hy0, hy1⟩, -⟩ := h
  have hW : gfxFbW = 800 := rfl
  have hH : gfxFbH = 600 := rfl
  unfold Desktop.moveMouse
  simp only
  rw [show d.mouseX + (m.mouseX - d.mouseX) = m.mouseX by omega,
    show d.mouseY + (m.mouseY - d.mouseY) = m.mouseY by omega,
    int_of_range (by omega) (by omega), int_of_range (by omega) (by omega)]
  constructor
  · split_ifs <;> omega
  · split_ifs <;> omega

end Noxis.Wm
