import Noxis.Lib.Fifo
import Noxis.Lib.Ring
import Noxis.Net.Frame

/-!
# The NE2000 card: registers, remote DMA and the receive ring

The pages RX_START to RX_STOP - 1 of the card's memory are a ring.  A frame that the card accepts is
stored from the page CURR on, behind a header of four bytes with the next page and the length; the
pages from BNRY + 1 on are those that the driver has not read yet.

* `Card.read`, `Card.write`, `Card.word`   the registers and the data port;
* `Card.accept`                            a frame that has room in the ring;
* `Stored`                                 the frames that stand in the ring, one behind another;
* `Card.waiting`                           how many they are, as the registers and headers say
-/

namespace Noxis.Net.Rx

def RX_START : Nat := 0x46
def RX_STOP : Nat := 0x80

/-- pages, and bytes, of the ring -/
def ringPages : Nat := RX_STOP - RX_START
def ringBytes : Nat := 256 * ringPages

def REG_CR : Nat := 0x00
def REG_BNRY : Nat := 0x03
def REG_ISR : Nat := 0x07
def REG_CURR : Nat := 0x07
def REG_RSAR0 : Nat := 0x08
def REG_RSAR1 : Nat := 0x09
def REG_RBCR0 : Nat := 0x0A
def REG_RBCR1 : Nat := 0x0B

def CR_PAGE0 : Nat := 0x00
def CR_PAGE1 : Nat := 0x40
def CR_NODMA : Nat := 0x20
def CR_RREAD : Nat := 0x08
def CR_START : Nat := 0x02

def ISR_PRX : Byte := 0x01
def ISR_RDC : Byte := 0x40

structure Card where
  /-- what remote DMA can read -/
  mem : Buffer
  /-- the register page that CR selects is 1 -/
  page1 : Bool
  rsar : Nat
  rbcr : Nat
  bnry : Nat
  curr : Nat
  isr : Byte
  /-- the other registers of page 1, by their offset -/
  par : Nat → Nat

/-! ## registers -/

/-- the driver reads BNRY, ISR and CURR -/
def Card.read (c : Card) (reg : Nat) : Nat :=
  if c.page1 then if reg = REG_CURR then c.curr else c.par reg
  else if reg = REG_ISR then c.isr.toNat else c.bnry

/-- it writes CR, BNRY, ISR, RSAR and RBCR -/
def Card.write (c : Card) (reg v : Nat) : Card :=
  if reg = REG_CR then { c with page1 := decide (v / 64 % 4 = 1) }
  else if c.page1 then
    if reg = REG_CURR then { c with curr := v } else { c with par := Function.update c.par reg v }
  else if reg = REG_BNRY then { c with bnry := v }
  else if reg = REG_ISR then { c with isr := c.isr &&& ~~~ BitVec.ofNat 8 v }
  else if reg = REG_RSAR0 then { c with rsar := c.rsar / 256 * 256 + v }
  else if reg = REG_RSAR1 then { c with rsar := v * 256 + c.rsar % 256 }
  else if reg = REG_RBCR0 then { c with rbcr := c.rbcr / 256 * 256 + v }
  else if reg = REG_RBCR1 then { c with rbcr := v * 256 + c.rbcr % 256 }
  else c

/-- the two bytes at the data port -/
def Card.word (c : Card) : Byte × Byte := (c.mem c.rsar, c.mem (c.rsar + 1))

/-- remote DMA goes on, from RX_STOP to RX_START -/
def Card.nextWord (c : Card) : Card :=
  { c with
    rsar := if c.rsar + 2 = RX_STOP * 256 then RX_START * 256 else c.rsar + 2
    rbcr := c.rbcr - 2
    isr := if c.rbcr ≤ 2 then c.isr ||| ISR_RDC else c.isr }

/-! ## the ring -/

/-- the page behind `bnry`, as the driver computes it -/
def nextPage (bnry : Nat) : Nat :=
  let pkt := (bnry + 1) % 256
  if RX_STOP ≤ pkt then RX_START else pkt

/-- a page of the ring by its number, which goes on counting when the ring starts again -/
def page (r : Nat) : Nat := RX_START + r % ringPages

/-- the address of a byte of the ring by its number -/
def ringAddr (o : Nat) : Nat := RX_START * 256 + o % ringBytes

/-- a frame in the ring: the status in its header, and the pages that it takes -/
structure Entry where
  status : Byte
  frame : List Byte
  pages : Nat

/-- the header and the frame; `next` is the page behind them -/
def Entry.image (e : Entry) (next : Nat) : List Byte :=
  e.status :: BitVec.ofNat 8 next :: BitVec.ofNat 8 (e.frame.length + 4) ::
    BitVec.ofNat 8 ((e.frame.length + 4) / 256) :: e.frame

/-- the bytes go into the ring from the one with number `o` on -/
def store (mem : Buffer) (o : Nat) (bytes : List Byte) : Buffer := fun a =>
  if RX_START * 256 ≤ a ∧ a < RX_STOP * 256 then
    bytes.getD ((a - RX_START * 256 + (ringBytes - o % ringBytes)) % ringBytes) (mem a)
  else mem a

/-- the pages that the driver has not read yet -/
def Card.used (c : Card) : Nat := (c.curr + ringPages - nextPage c.bnry) % ringPages

/-- a frame of at most NE_FRAME_MAX bytes fits, and the ring does not become full -/
def Card.Fits (c : Card) (e : Entry) : Prop :=
  e.frame.length ≤ NE_FRAME_MAX ∧ e.frame.length + 4 ≤ 256 * e.pages ∧
    c.used + e.pages < ringPages

instance Card.decidableFits (c : Card) (e : Entry) : Decidable (c.Fits e) :=
  inferInstanceAs (Decidable (_ ∧ _))

/-- CURR goes behind the frame -/
def Card.accept (c : Card) (e : Entry) : Card :=
  let next := page (c.curr - RX_START + e.pages)
  { c with
    mem := store c.mem (256 * (c.curr - RX_START)) (e.image next)
    curr := next
    isr := c.isr ||| ISR_PRX }

/-- the frames from the page `pkt` on, by the page numbers in their headers -/
def Card.countFrom (c : Card) : Nat → Nat → Nat
  | 0, _ => 0
  | n + 1, pkt => if pkt = c.curr then 0 else c.countFrom n (c.mem (pkt * 256 + 1)).toNat + 1

/-- how many frames are in the ring -/
def Card.waiting (c : Card) : Nat := c.countFrom ringPages (nextPage c.bnry)

/-! ## addresses -/

variable {mem mem' : Buffer} {o x j r w : Nat} {bytes : List Byte} {e : Entry} {l : List Entry}
  {c : Card}

theorem ringBytes_eq : ringBytes = 14848 := rfl
theorem ringPages_eq : ringPages = 58 := rfl

theorem page_lt (r : Nat) : RX_START ≤ page r ∧ page r < RX_STOP := by
  have h : r % ringPages < ringPages := Nat.mod_lt _ (by decide)
  rw [ringPages_eq] at h
  unfold page RX_START RX_STOP
  rw [ringPages_eq]
  omega

/-- two pages of the ring are the same only a whole turn apart -/
theorem page_inj (h : page r = page w) (hrw : r ≤ w) (hlt : w < r + ringPages) : r = w := by
  unfold page at h
  rw [ringPages_eq] at h hlt
  omega

theorem nextPage_page (r : Nat) : nextPage (page r) = page (r + 1) := by
  show (if RX_STOP ≤ (page r + 1) % 256 then RX_START else (page r + 1) % 256) = page (r + 1)
  unfold page RX_STOP RX_START
  rw [ringPages_eq]
  split <;> omega

theorem page_addr (r : Nat) (ho : o < 256) : page r * 256 + o = ringAddr (256 * r + o) := by
  unfold page ringAddr RX_START
  rw [ringPages_eq, ringBytes_eq]
  omega

theorem ringAddr_lt (o : Nat) : RX_START * 256 ≤ ringAddr o ∧ ringAddr o < RX_STOP * 256 := by
  unfold ringAddr RX_START RX_STOP
  rw [ringBytes_eq]
  omega

/-! ## remote DMA in the ring -/

theorem word_ringAddr (ho : o % 2 = 0) (h : c.rsar = ringAddr o) :
    c.word = (c.mem (ringAddr o), c.mem (ringAddr (o + 1))) := by
  have h1 : ringAddr o + 1 = ringAddr (o + 1) := by
    unfold ringAddr
    rw [ringBytes_eq]
    omega
  unfold Card.word
  rw [h, h1]

theorem nextWord_ringAddr (ho : o % 2 = 0) (h : c.rsar = ringAddr o) :
    c.nextWord.rsar = ringAddr (o + 2) := by
  show (if c.rsar + 2 = RX_STOP * 256 then RX_START * 256 else c.rsar + 2) = _
  rw [h]
  unfold ringAddr RX_START RX_STOP
  rw [ringBytes_eq]
  split <;> omega

/-! ## storing -/

/-- where a byte of the ring is, seen from the byte `o` -/
theorem store_ringAddr (mem : Buffer) (o x : Nat) (bytes : List Byte) :
    store mem o bytes (ringAddr x) =
      bytes.getD ((x % ringBytes + (ringBytes - o % ringBytes)) % ringBytes) (mem (ringAddr x)) := by
  have hx : ringAddr x - RX_START * 256 = x % ringBytes := by
    unfold ringAddr
    omega
  unfold store
  rw [if_pos (ringAddr_lt x), hx]

theorem store_at (hj : j < bytes.length) (hlen : bytes.length ≤ ringBytes) :
    store mem o bytes (ringAddr (o + j)) = bytes[j] := by
  have hi : ((o + j) % ringBytes + (ringBytes - o % ringBytes)) % ringBytes = j := by
    rw [ringBytes_eq] at hlen ⊢
    omega
  rw [store_ringAddr, hi, List.getD_eq_getElem _ _ hj]

/-- the bytes behind what is stored, to the same place on the next turn -/
theorem store_before (hx : x < o) (hlen : o + bytes.length ≤ x + ringBytes) :
    store mem o bytes (ringAddr x) = mem (ringAddr x) := by
  have hi : bytes.length ≤ (x % ringBytes + (ringBytes - o % ringBytes)) % ringBytes := by
    rw [ringBytes_eq] at hlen ⊢
    omega
  rw [store_ringAddr, List.getD_eq_default _ _ hi]

theorem store_mod (ho : o % ringBytes = x % ringBytes) : store mem o bytes = store mem x bytes := by
  unfold store
  rw [ho]

/-! ## the frames in the ring -/

theorem Entry.image_length (e : Entry) (next : Nat) : (e.image next).length = e.frame.length + 4 :=
  rfl

/-- the frame stands in the ring from the page `r` on -/
structure Entry.At (e : Entry) (mem : Buffer) (r : Nat) : Prop where
  short : e.frame.length ≤ NE_FRAME_MAX
  fits : e.frame.length + 4 ≤ 256 * e.pages
  bytes : ∀ j (h : j < (e.image (page (r + e.pages))).length),
    mem (ringAddr (256 * r + j)) = (e.image (page (r + e.pages)))[j]

/-- the frames stand in the ring one behind another, from the page `r` to the page `w` -/
def Stored (mem : Buffer) : Nat → List Entry → Nat → Prop
  | r, [], w => r = w
  | r, e :: l, w => e.At mem r ∧ Stored mem (r + e.pages) l w

theorem Stored.le (h : Stored mem r l w) : r ≤ w := by
  induction l generalizing r with
  | nil => exact Nat.le_of_eq h
  | cons e l ih => exact Nat.le_trans (Nat.le_add_right _ _) (ih h.2)

theorem Stored.snoc (h : Stored mem r l w) (he : e.At mem w) :
    Stored mem r (l ++ [e]) (w + e.pages) := by
  induction l generalizing r with
  | nil =>
    cases h
    exact ⟨he, rfl⟩
  | cons d l ih => exact ⟨h.1, ih h.2⟩

/-- bytes that belong to none of the frames may change -/
theorem Stored.congr (h : Stored mem r l w)
    (hm : ∀ x, 256 * r ≤ x → x < 256 * w → mem' (ringAddr x) = mem (ringAddr x)) :
    Stored mem' r l w := by
  induction l generalizing r with
  | nil => exact h
  | cons e l ih =>
    have hle := Stored.le h.2
    refine ⟨{ h.1 with bytes := ?_ }, ih h.2 fun x hx => hm x (by omega)⟩
    intro j hj
    have hfit := h.1.fits
    have hj' := hj
    rw [Entry.image_length] at hj'
    rw [hm _ (by omega) (by omega)]
    exact h.1.bytes j hj

/-- what the registers say of the frames between `r` and `w` -/
structure Card.Holds (c : Card) (r : Nat) (l : List Entry) (w : Nat) : Prop where
  stored : Stored c.mem r l w
  bnry : nextPage c.bnry = page r
  curr : c.curr = page w
  room : w < r + ringPages

theorem Card.Holds.used (h : c.Holds r l w) : c.used = w - r := by
  have hle := h.stored.le
  have hroom := h.room
  unfold Card.used
  rw [h.bnry, h.curr]
  unfold page RX_START
  rw [ringPages_eq] at hroom ⊢
  omega

/-- the ring is empty exactly if the page behind BNRY is CURR -/
theorem Card.Holds.nil_iff (h : c.Holds r l w) : page r = page w ↔ l = [] := by
  constructor
  · intro hp
    have hrw := page_inj hp h.stored.le h.room
    cases l with
    | nil => rfl
    | cons e l =>
      have hle := Stored.le h.stored.2
      have hfit := h.stored.1.fits
      omega
  · rintro rfl
    rw [show r = w from h.stored]

theorem Stored.countFrom {n : Nat} (h : Stored c.mem r l w) (hcurr : c.curr = page w)
    (hroom : w < r + ringPages) (hn : w - r ≤ n) : c.countFrom n (page r) = l.length := by
  induction l generalizing r n with
  | nil =>
    have hrw : r = w := h
    cases n with
    | zero => rfl
    | succ n => exact if_pos (by rw [hcurr, hrw])
  | cons e l ih =>
    have hle := Stored.le h.2
    have hfit := h.1.fits
    have hne : page r ≠ c.curr := fun heq => by
      have hrw := page_inj (heq.trans hcurr) (by omega) hroom
      omega
    have hnext : (c.mem (page r * 256 + 1)).toNat = page (r + e.pages) := by
      have hbyte := h.1.bytes 1 (by rw [Entry.image_length]; omega)
      have hlt := (page_lt (r + e.pages)).2
      unfold RX_STOP at hlt
      rw [page_addr r (by decide), hbyte]
      show (BitVec.ofNat 8 (page (r + e.pages))).toNat = _
      rw [BitVec.toNat_ofNat, Nat.mod_eq_of_lt (by omega)]
    cases n with
    | zero => exact absurd hn (by omega)
    | succ n =>
      show (if page r = c.curr then 0 else c.countFrom n (c.mem (page r * 256 + 1)).toNat + 1) = _
      rw [if_neg hne, hnext, ih h.2 (by omega) (by omega)]
      rfl

theorem Card.Holds.waiting (h : c.Holds r l w) : c.waiting = l.length := by
  have hroom := h.room
  unfold Card.waiting
  rw [h.bnry]
  exact Stored.countFrom h.stored h.curr hroom (by omega)

/-- **A frame that is accepted** stands behind the others. -/
theorem Card.Holds.accept (h : c.Holds r l w) (hf : c.Fits e) :
    (c.accept e).Holds r (l ++ [e]) (w + e.pages) := by
  obtain ⟨hshort, hfit, hroom⟩ := hf
  rw [h.used] at hroom
  have hle := h.stored.le
  have hw : c.curr - RX_START = w % ringPages := by
    rw [h.curr]
    unfold page
    omega
  have hnext : page (c.curr - RX_START + e.pages) = page (w + e.pages) := by
    rw [hw]
    unfold page
    rw [Nat.mod_add_mod]
  have hmem : (c.accept e).mem = store c.mem (256 * w) (e.image (page (w + e.pages))) := by
    show store c.mem (256 * (c.curr - RX_START)) (e.image (page (c.curr - RX_START + e.pages))) = _
    rw [hnext, hw]
    refine store_mod ?_
    rw [ringPages_eq, ringBytes_eq]
    omega
  have hlen : (e.image (page (w + e.pages))).length ≤ ringBytes := by
    have hmax : NE_FRAME_MAX = 1536 := rfl
    rw [Entry.image_length, ringBytes_eq]
    omega
  refine ⟨Stored.snoc (Stored.congr h.stored ?_) ⟨hshort, hfit, ?_⟩, h.bnry, hnext, ?_⟩
  · intro x hx hxw
    rw [hmem]
    refine store_before hxw ?_
    rw [Entry.image_length, ringBytes_eq]
    rw [ringPages_eq] at hroom
    omega
  · intro j hj
    rw [hmem]
    exact store_at hj hlen
  · omega

/-- the first frame has been read -/
theorem Card.Holds.tail {b : Nat} (h : c.Holds r (e :: l) w)
    (hb : nextPage b = page (r + e.pages)) :
    ({ c with bnry := b } : Card).Holds (r + e.pages) l w := by
  have hroom := h.room
  exact ⟨h.stored.2, hb, h.curr, by omega⟩

end Noxis.Net.Rx
