import Noxis.Lib.Prog
import Noxis.Net.Card

/-!
# net/ne2000.c: the receive path

The drain of the card's ring into the software ring is a program of atomic actions: a port access, a
word from the data port to a buffer, an access to a static variable.  The two kernels have the same
one, in `drain_card_ring` of 23-fixes and `ne2000_poll` of 25-osfs11; what differs is the last byte
of an odd number of bytes, and that `port_read` of 25-osfs11 moves half of the words.

* `remoteRead`   bytes of the card's memory, word by word;
* `push`         the frame at a page goes into `sw_ring`;
* `drain`        the frames of the card's ring, at most 32;
* `ne2000Irq`    the interrupt handler;
* `ne2000Recv`   the first frame of `sw_ring`.
-/

namespace Noxis.Net.Rx
open Prog Relation

def SW_RING : Nat := 8

/-- the card and the driver's variables; `stack` is what a local array has in it that was not written,
`accepted` is a record of the past which no action reads -/
structure State where
  card : Card
  swRing : Nat → Buffer
  swLen : Nat → Nat
  swHead : Nat
  swTail : Nat
  stack : Buffer
  accepted : List (List Byte)

abbrev Io := Prog State

def regIn (reg : Nat) : Io Nat := Prog.get fun s => s.card.read reg

def regOut (reg v : Nat) : Io Unit := Prog.modify fun s => { s with card := s.card.write reg v }

/-! ## remote_read -/

/-- a word goes into `buf`: of an odd length, 25-osfs11 stores one byte more -/
def putWord (port : Port) (len i : Nat) (w : Byte × Byte) (buf : Buffer) : Buffer := fun a =>
  if a = 2 * i then w.1
  else if a = 2 * i + 1 ∧ (port ≠ .fixes ∨ 2 * i + 1 < len) then w.2
  else buf a

/-- a word from the data port to `buf`, which is a local array or a slot of `sw_ring` -/
def moveWord (port : Port) (buf : Option Nat) (len i : Nat) : Io (Byte × Byte) :=
  .act (fun s =>
    { s with
      card := s.card.nextWord
      swRing := match buf with
        | none => s.swRing
        | some h => Function.update s.swRing h (putWord port len i s.card.word (s.swRing h)) })
    fun s => .ret s.card.word

/-- `n` words more, and their bytes -/
def moveWords (port : Port) (buf : Option Nat) (len : Nat) : Nat → Nat → Io (List Byte)
  | 0, _ => pure []
  | n + 1, i => do
    let w ← moveWord port buf len i
    let bytes ← moveWords port buf len n (i + 1)
    pure (w.1 :: w.2 :: bytes)

/-- `for (spin = 0; spin < 100000; spin++)` -/
def spinRdc : Nat → Io Unit
  | 0 => pure ()
  | n + 1 => do
    let isr ← regIn REG_ISR
    if BitVec.ofNat 8 isr &&& ISR_RDC ≠ 0 then pure () else spinRdc n

/-- the bytes of a local array of `n` bytes, of which the first ones were stored -/
def localBytes (n : Nat) (bytes : List Byte) (stack : Buffer) : List Byte :=
  bytes ++ (List.range' bytes.length (n - bytes.length)).map stack

/-- the acknowledgement, and the array as it is then -/
def ackRdc (n : Nat) (bytes : List Byte) : Io (List Byte) :=
  .act (fun s => { s with card := s.card.write REG_ISR ISR_RDC.toNat }) fun s =>
    .ret (localBytes n bytes s.stack)

def remoteRead (port : Port) (addr len : Nat) (buf : Option Nat) : Io (List Byte) := do
  let words := (len + 1) / 2
  regOut REG_CR (CR_START ||| CR_NODMA ||| CR_PAGE0)
  regOut REG_RSAR0 (addr % 256)
  regOut REG_RSAR1 (addr / 256)
  regOut REG_RBCR0 (words * 2 % 256)
  regOut REG_RBCR1 (words * 2 / 256)
  regOut REG_CR (CR_START ||| CR_RREAD)
  let bytes ← moveWords port buf len (port.moved words) 0
  spinRdc 100000
  ackRdc (words * 2) bytes

/-! ## the drain -/

/-- `bnry = next - 1; if (bnry < RX_START) bnry = RX_STOP - 1` -/
def prevPage (next : Nat) : Nat :=
  let bnry := (next + 255) % 256
  if bnry < RX_START then RX_STOP - 1 else bnry

/-- the length in a header, without the header, cut to NE_FRAME_MAX -/
def frameLen (hdr : List Byte) : Nat :=
  let count := (hdr.getD 2 0).toNat + 256 * (hdr.getD 3 0).toNat
  let count := if count < 4 then 4 else count
  if NE_FRAME_MAX < count - 4 then NE_FRAME_MAX else count - 4

/-- the frame at the page `pkt` goes into `sw_ring`, unless it is full -/
def push (port : Port) (pkt len : Nat) : Io Unit := do
  let head ← Prog.get State.swHead
  let tail ← Prog.get State.swTail
  if (head + 1) % SW_RING = tail then pure ()
  else
    let slot ← Prog.get State.swHead
    let _ ← remoteRead port ((pkt * 256 + 4) % 65536) len (some slot)
    let slot ← Prog.get State.swHead
    Prog.modify fun s => { s with swLen := Function.update s.swLen slot len }
    Prog.modify fun s => { s with swHead := (head + 1) % SW_RING }

/-- `for (n = 0; n < 32; n++)`, with `n` turns left -/
def drainLoop (port : Port) : Nat → Nat → Io Unit
  | 0, _ => pure ()
  | n + 1, bnry => do
    regOut REG_CR (CR_START ||| CR_NODMA ||| CR_PAGE1)
    let curr ← regIn REG_CURR
    regOut REG_CR (CR_START ||| CR_NODMA ||| CR_PAGE0)
    if nextPage bnry = curr then pure ()
    else
      let hdr ← remoteRead port (nextPage bnry * 256) 4 none
      let next := (hdr.getD 1 0).toNat
      if next < RX_START ∨ RX_STOP ≤ next then pure ()
      else
        push port (nextPage bnry) (frameLen hdr)
        regOut REG_BNRY (prevPage next)
        drainLoop port n (prevPage next)

/-- `drain_card_ring`, `ne2000_poll` -/
def drain (port : Port) : Io Unit := do
  let bnry ← regIn REG_BNRY
  drainLoop port 32 bnry

/-- `if (isr & ISR_PRX)` -/
def drainIf (port : Port) (isr : Nat) : Io Unit :=
  if isr % 2 = 1 then drain port else pure ()

/-- `ne2000_irq` behind its read of ISR -/
def irqRest (port : Port) (isr : Nat) : Io Unit := do
  drainIf port isr
  regOut REG_ISR (isr % 128)

def ne2000Irq (port : Port) : Io Unit := do
  let isr ← regIn REG_ISR
  irqRest port isr

/-! ## ne2000_recv -/

/-- `memory_copy` of `n` bytes more -/
def copyOut (slot : Nat) : Nat → Nat → Io (List Byte)
  | 0, _ => pure []
  | n + 1, i => do
    let b ← Prog.get fun s => s.swRing slot i
    let bytes ← copyOut slot n (i + 1)
    pure (b :: bytes)

/-- the bytes that are copied to `buf`; `none` for -1 -/
def ne2000Recv : Io (Option (List Byte)) := do
  let tail ← Prog.get State.swTail
  let head ← Prog.get State.swHead
  if tail = head then pure none
  else
    let slot ← Prog.get State.swTail
    let len ← Prog.get fun s => s.swLen slot
    let slot ← Prog.get State.swTail
    let bytes ← copyOut slot len 0
    let tail ← Prog.get State.swTail
    Prog.modify fun s => { s with swTail := (tail + 1) % SW_RING }
    pure (some bytes)

end Noxis.Net.Rx
