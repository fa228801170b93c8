import Noxis.Fs.LogMap
import Noxis.Lib.Run

/-!
# 25-osfs11/fs/disklog.c: the text of the log

The log is the last NR_SECTS_FOR_LOG sectors of the device.  The first 64 bytes are its header, the
last sector is its clock; message text goes in between, from the static `pos` on, which only grows.

* `DiskLog.disklog`   one call
* `DiskLog.Stays`     what was written lies in the log, and message text neither in the header nor in
                      the last sector
* `stays_iff`         a run stays in the log exactly when the text fits
-/

namespace Noxis.Fs
open Run

def NR_SECTS_FOR_LOG : Nat := NR_DEFAULT_FILE_SECTS

def MAX_IO_BYTES : Nat := 256

def LOGDISKBUF_SIZE : Nat := 0x100000

/-! ## the header -/

/-- `i2a` with base 10 -/
def i2a (val : Nat) : List Byte :=
  let m := BitVec.ofNat 8 (val % 10 + 0x30)
  if val / 10 = 0 then [m] else i2a (val / 10) ++ [m]

/-- a number in `vsprintf`, with `cs` in front of it up to `alignNr` characters -/
def fmtD (cs : Byte) (alignNr m : Nat) : List Byte :=
  List.replicate (alignNr - (i2a m).length) cs ++ i2a m

/-- the text and the byte that ends it -/
def sprintf (buf : Buffer) (o : Nat) (text : List Byte) : Buffer :=
  physCopy buf o (fun i => text.getD i 0) 0 (text.length + 1)

def memset (buf : Buffer) (o : Nat) (c : Byte) (n : Nat) : Buffer := physCopy buf o (fun _ => c) 0 n

/-- `struct time` -/
structure Time where
  year : Nat
  month : Nat
  day : Nat
  hour : Nat
  minute : Nat
  second : Nat

/-- the position and the time, in 64 bytes -/
def logHeader (pos : Nat) (t : Time) (logdiskbuf : Buffer) : Buffer :=
  let logdiskbuf := sprintf logdiskbuf 0 (fmtD 0x20 8 pos ++ [0x0A])
  let logdiskbuf := memset logdiskbuf 9 0x20 22
  let logdiskbuf := Function.update logdiskbuf 31 0x0A
  let logdiskbuf := sprintf logdiskbuf 32
    ([0x3C] ++ fmtD 0x20 0 t.year ++ [0x2D] ++ fmtD 0x30 2 t.month ++ [0x2D] ++ fmtD 0x30 2 t.day ++
      [0x20] ++ fmtD 0x30 2 t.hour ++ [0x3A] ++ fmtD 0x30 2 t.minute ++ [0x3A] ++
      fmtD 0x30 2 t.second ++ [0x3E, 0x0A])
  let logdiskbuf := memset logdiskbuf (32 + 22) 0x20 9
  Function.update logdiskbuf 63 0x0A

/-! ## disklog -/

inductive LogUse where
  | fill
  /-- message text from this byte of the sector on -/
  | text (off : Nat)
  | header
  | clock

/-- `count` sectors that were written, from the one on that the driver gets to see -/
structure LogWrite where
  use : LogUse
  sect : Nat
  count : Nat

/-- the file system, the variables of `disklog` that outlive a call, and what it wrote after it set the
sector map -/
structure DiskLog where
  fs : FsState
  pos : Nat
  logdiskbuf : Buffer
  writes : List LogWrite

namespace DiskLog

def setBuf (logdiskbuf : Buffer) (l : DiskLog) : DiskLog := { l with logdiskbuf := logdiskbuf }

/-- `DISKLOG_RD_SECT` -/
def read (sectNr : Nat) (l : DiskLog) : DiskLog :=
  l.setBuf (physCopy l.logdiskbuf 0 (rdSect l.fs.disk sectNr) 0 SECTOR_SIZE)

/-- `DISKLOG_WR_SECT` -/
def write (use : LogUse) (sectNr : Nat) (l : DiskLog) : DiskLog :=
  { l with
    fs := { l.fs with disk := wrSect l.fs.disk sectNr l.logdiskbuf }
    writes := l.writes ++ [⟨use, sectOf sectNr, 1⟩] }

/-- `n` chunks of blanks from sector `i` on -/
def fill (chunk : Nat) : Nat → Nat → DiskLog → Option DiskLog
  | 0, _, l => some l
  | n + 1, i, l =>
    let logdiskbuf := memset l.logdiskbuf 0 0x20 (chunk * SECTOR_SIZE)
    (wrSectors l.fs.disk i chunk logdiskbuf).bind fun d =>
      fill chunk n (i + chunk)
        { l with
          fs := { l.fs with disk := d }
          logdiskbuf := logdiskbuf
          writes := l.writes ++ [⟨.fill, sectOf i, chunk⟩] }

/-- the first call; `none` is an assertion that fails, or the panic -/
def first (l : DiskLog) : Option DiskLog :=
  (reserveLog NR_SECTS_FOR_LOG l.fs).bind fun fs =>
    let chunk := min MAX_IO_BYTES (LOGDISKBUF_SIZE / SECTOR_SIZE)
    let turns := (NR_SECTS_FOR_LOG + chunk - 1) / chunk
    if chunk = 256 ∧ turns * chunk = NR_SECTS_FOR_LOG then
      ({ l with fs := fs, pos := 0x40 } : DiskLog).fill chunk turns (fs.sb.logStart NR_SECTS_FOR_LOG)
    else none

/-- the bytes that fit in the sector -/
def bytes (l : DiskLog) (bytesLeft : Nat) : Nat := min bytesLeft (SECTOR_SIZE - l.pos % SECTOR_SIZE)

/-- one turn of `while (bytes_left)` -/
def turn (logstr : Buffer) (bytes p sectNr : Nat) (l : DiskLog) : DiskLog :=
  let off := l.pos % SECTOR_SIZE
  let l := l.read sectNr
  let l := (l.setBuf (physCopy l.logdiskbuf off logstr p bytes)).write (.text off) sectNr
  { l with pos := l.pos + bytes }

def text (logstr : Buffer) (bytesLeft p sectNr : Nat) (l : DiskLog) : DiskLog :=
  if bytesLeft = 0 then l
  else
    text logstr (bytesLeft - l.bytes bytesLeft) (p + l.bytes bytesLeft) (sectNr + 1)
      (l.turn logstr (l.bytes bytesLeft) p sectNr)
termination_by bytesLeft
decreasing_by
  have := Nat.mod_lt l.pos (Nat.succ_pos 511)
  unfold bytes SECTOR_SIZE
  omega

/-- the header and the clock -/
def stamp (t : Time) (l : DiskLog) : DiskLog :=
  let nrLogBlk0Nr := l.fs.sb.logStart NR_SECTS_FOR_LOG
  let l := l.read nrLogBlk0Nr
  let l := (l.setBuf (logHeader l.pos t l.logdiskbuf)).write .header nrLogBlk0Nr
  let l := l.setBuf (memset l.logdiskbuf 64 (l.logdiskbuf (32 + 19)) (512 - 64))
  l.write .clock (nrLogBlk0Nr + NR_SECTS_FOR_LOG - 1)

/-- `disklog` -/
def disklog (logstr : List Byte) (t : Time) (l : DiskLog) : Option DiskLog :=
  (if l.pos = 0 then l.first else some l).map fun l =>
    let sectNr := l.fs.sb.logStart NR_SECTS_FOR_LOG + l.pos / SECTOR_SIZE
    (l.text (fun i => logstr.getD i 0) logstr.length 0 sectNr).stamp t

end DiskLog

/-- a call, or what else is written to the disk between two calls -/
inductive LogEvent where
  | disklog (logstr : List Byte) (t : Time)
  | others (d : Disk)

def DiskLog.event (l : DiskLog) : LogEvent → Option DiskLog
  | .disklog logstr t => l.disklog logstr t
  | .others d => some { l with fs := { l.fs with disk := d } }

/-! ## what is written -/

/-- **the write stays in the log**, and message text neither in the header nor in the last sector -/
structure LogWrite.Ok (sb : Super) (w : LogWrite) : Prop where
  first : sb.logStart NR_SECTS_FOR_LOG ≤ w.sect
  last : w.sect + w.count ≤ sb.nrSects
  clock : ∀ off, w.use = .text off → w.sect + 1 ≠ sb.nrSects
  header : ∀ off, w.use = .text off → w.sect = sb.logStart NR_SECTS_FOR_LOG → 64 ≤ off

def DiskLog.Stays (l : DiskLog) : Prop := ∀ w ∈ l.writes, w.Ok l.fs.sb

/-- where the clock begins, in bytes of the log -/
def logEnd : Nat := (NR_SECTS_FOR_LOG - 1) * SECTOR_SIZE

/-- the bytes of all the strings -/
def LogEvent.size : LogEvent → Nat
  | .disklog logstr _ => logstr.length
  | .others _ => 0

def LogEvent.isCall : LogEvent → Bool
  | .disklog _ _ => true
  | .others _ => false

section
variable {sb : Super} {l m l' : DiskLog} {logstr : Buffer} {n b i p chunk : Nat} {use : LogUse}
  {w : LogWrite} {t : Time}

theorem logSects : NR_SECTS_FOR_LOG = 2048 := rfl

theorem logEnd_eq : logEnd = 2047 * 512 := rfl

theorem logStart_add (hle : 2048 ≤ sb.nrSects) :
    sb.logStart NR_SECTS_FOR_LOG + 2048 = sb.nrSects := Nat.sub_add_cancel hle

/-- a sector from 2^22 on is never taken for one of the log -/
theorem sectOf_outside (h : 2 ^ 22 ≤ i) (hi : i < 2 ^ 28) : sectOf i + 2048 ≤ i ∨ i < sectOf i := by
  unfold sectOf sectNr position
  by_cases hlt : i * 512 % 2 ^ 32 < 2 ^ 31
  · rw [if_pos hlt]
    omega
  · rw [if_neg hlt]
    omega

namespace DiskLog

theorem setBuf_sb (logdiskbuf : Buffer) : (l.setBuf logdiskbuf).fs.sb = l.fs.sb := rfl

theorem setBuf_pos (logdiskbuf : Buffer) : (l.setBuf logdiskbuf).pos = l.pos := rfl

theorem stays_setBuf (logdiskbuf : Buffer) : (l.setBuf logdiskbuf).Stays ↔ l.Stays := Iff.rfl

theorem read_sb : (l.read i).fs.sb = l.fs.sb := rfl

theorem read_pos : (l.read i).pos = l.pos := rfl

theorem stays_read : (l.read i).Stays ↔ l.Stays := Iff.rfl

theorem write_sb : (l.write use i).fs.sb = l.fs.sb := rfl

theorem write_pos : (l.write use i).pos = l.pos := rfl

theorem stays_write : (l.write use i).Stays ↔ l.Stays ∧ LogWrite.Ok l.fs.sb ⟨use, sectOf i, 1⟩ := by
  unfold Stays
  rw [show (l.write use i).writes = l.writes ++ [⟨use, sectOf i, 1⟩] from rfl, List.forall_mem_append,
    List.forall_mem_singleton]
  exact Iff.rfl

theorem turn_sb : (l.turn logstr n p i).fs.sb = l.fs.sb := rfl

theorem turn_pos : (l.turn logstr n p i).pos = l.pos + n := rfl

theorem stays_turn : (l.turn logstr n p i).Stays ↔
    l.Stays ∧ LogWrite.Ok l.fs.sb ⟨.text (l.pos % SECTOR_SIZE), sectOf i, 1⟩ :=
  stays_write

/-- the chunks that the first call writes -/
theorem fill_spec (h : fill chunk n i l = some m) (hle : i + n * chunk ≤ l.fs.sb.nrSects)
    (hi : l.fs.sb.nrSects ≤ 2 ^ 22) (hfirst : l.fs.sb.logStart NR_SECTS_FOR_LOG ≤ i)
    (hc : 0 < chunk) : m.Stays ↔ l.Stays := by
  induction n generalizing i l with
  | zero =>
    cases h
    exact Iff.rfl
  | succ n ih =>
    rw [fill] at h
    obtain ⟨d, -, h⟩ := Option.bind_eq_some_iff.mp h
    rw [Nat.succ_mul] at hle
    rw [ih h (by rw [Nat.add_assoc, Nat.add_comm chunk]; exact hle) hi
      (Nat.le_add_right_of_le hfirst)]
    unfold Stays
    simp only
    rw [List.forall_mem_append, List.forall_mem_singleton]
    refine and_iff_left ⟨?_, ?_, (fun off ho => nomatch ho), fun off ho => nomatch ho⟩
    · rw [sectOf_of_lt (by omega)]
      exact hfirst
    · simp only
      rw [sectOf_of_lt (by omega)]
      omega

theorem fill_kept (h : fill chunk n i l = some m) : m.fs.sb = l.fs.sb ∧ m.pos = l.pos := by
  induction n generalizing i l with
  | zero =>
    cases h
    exact ⟨rfl, rfl⟩
  | succ n ih =>
    rw [fill] at h
    obtain ⟨d, -, h⟩ := Option.bind_eq_some_iff.mp h
    have hrest := ih h
    exact hrest

theorem fill_some (hc : chunk ≤ 256) : ∃ m, fill chunk n i l = some m := by
  induction n generalizing i l with
  | zero => exact ⟨_, rfl⟩
  | succ n ih =>
    rw [fill, wrSectors_some hc, Option.bind_some]
    exact ih

/-! ## the loop over a string -/

theorem bytes_pos (h : b ≠ 0) : 0 < l.bytes b := by
  have := Nat.mod_lt l.pos (Nat.succ_pos 511)
  unfold bytes SECTOR_SIZE
  omega

theorem text_zero : text logstr 0 p i l = l := by
  rw [text, if_pos rfl]

theorem text_turn (h : b ≠ 0) : text logstr b p i l =
    text logstr (b - l.bytes b) (p + l.bytes b) (i + 1) (l.turn logstr (l.bytes b) p i) := by
  rw [text, if_neg h]

theorem text_kept (logstr : Buffer) (b p i : Nat) (l : DiskLog) :
    (text logstr b p i l).fs.sb = l.fs.sb ∧ (text logstr b p i l).pos = l.pos + b ∧
      ((text logstr b p i l).Stays → l.Stays) := by
  induction b using Nat.strong_induction_on generalizing p i l with
  | h b ih =>
    by_cases hb : b = 0
    · subst hb
      rw [text_zero]
      exact ⟨rfl, rfl, id⟩
    · have hpos := bytes_pos (l := l) hb
      have hle : l.bytes b ≤ b := Nat.min_le_left _ _
      rw [text_turn hb]
      obtain ⟨hsb, hpos', hstays⟩ := ih (b - l.bytes b) (by omega) _ _ _
      refine ⟨hsb.trans turn_sb, ?_, fun h => (stays_turn.mp (hstays h)).1⟩
      rw [hpos', turn_pos]
      omega

/-- **The text of one string**: it stays between the header and the clock when it fits. -/
theorem text_stays (hi : l.fs.sb.nrSects ≤ 2 ^ 22) (hle : 2048 ≤ l.fs.sb.nrSects) (h64 : 64 ≤ l.pos)
    (hend : l.pos ≤ logEnd)
    (hsect : b = 0 ∨ i = l.fs.sb.logStart NR_SECTS_FOR_LOG + l.pos / SECTOR_SIZE) :
    (text logstr b p i l).Stays ↔ l.Stays ∧ l.pos + b ≤ logEnd := by
  have hstart := logStart_add hle
  have hend' := logEnd_eq
  induction b using Nat.strong_induction_on generalizing p i l with
  | h b ih =>
    rcases hsect with rfl | hsect
    · rw [text_zero]
      exact (and_iff_left hend).symm
    by_cases hb : b = 0
    · subst hb
      rw [text_zero]
      exact (and_iff_left hend).symm
    have hpos := bytes_pos (l := l) hb
    have hmin : l.bytes b = min b (512 - l.pos % 512) := rfl
    have hsect' : i = l.fs.sb.logStart NR_SECTS_FOR_LOG + l.pos / 512 := hsect
    have hseen : sectOf i = i := sectOf_of_lt (by omega)
    rw [text_turn hb]
    by_cases hlast : l.pos = logEnd
    · -- the next byte goes to the last sector
      refine iff_of_false (fun h => ?_) fun h => absurd h.2 (by omega)
      have hclock := (stays_turn.mp ((text_kept ..).2.2 h)).2.clock _ rfl
      simp only at hclock
      omega
    · have hok : LogWrite.Ok l.fs.sb ⟨.text (l.pos % SECTOR_SIZE), sectOf i, 1⟩ := by
        refine ⟨?_, ?_, fun off ho => ?_, fun off ho h0 => ?_⟩
        · rw [hseen, hsect]
          exact Nat.le_add_right _ _
        · simp only
          omega
        · simp only
          omega
        · cases ho
          show 64 ≤ l.pos % 512
          simp only at h0
          omega
      have hrest := ih (b - l.bytes b) (by omega) (p := p + l.bytes b) (i := i + 1)
        (l := l.turn logstr (l.bytes b) p i) hi hle (by rw [turn_pos]; omega)
        (by rw [turn_pos]; omega) (by rw [turn_pos, turn_sb]; unfold SECTOR_SIZE; omega) hstart
      refine hrest.trans ?_
      rw [stays_turn, turn_pos, and_iff_left hok]
      refine and_congr_right fun _ => ?_
      omega

/-! ## a call -/

theorem stamp_sb : (l.stamp t).fs.sb = l.fs.sb := by
  unfold stamp
  rw [write_sb, setBuf_sb, write_sb, setBuf_sb, read_sb]

theorem stamp_pos : (l.stamp t).pos = l.pos := by
  unfold stamp
  rw [write_pos, setBuf_pos, write_pos, setBuf_pos, read_pos]

theorem stamp_writes : (l.stamp t).Stays ↔ l.Stays ∧
    LogWrite.Ok l.fs.sb ⟨.header, sectOf (l.fs.sb.logStart NR_SECTS_FOR_LOG), 1⟩ ∧
    LogWrite.Ok l.fs.sb
      ⟨.clock, sectOf (l.fs.sb.logStart NR_SECTS_FOR_LOG + NR_SECTS_FOR_LOG - 1), 1⟩ := by
  unfold stamp
  rw [stays_write, stays_setBuf, stays_write, stays_setBuf, stays_read, setBuf_sb, setBuf_sb, write_sb,
    setBuf_sb, read_sb, and_assoc]

/-- the header and the clock are in the log when every sector has its own number -/
theorem stays_stamp (hb : l.fs.sb.nrSects < 2 ^ 28) (hle : 2048 ≤ l.fs.sb.nrSects) :
    (l.stamp t).Stays ↔ l.Stays ∧ l.fs.sb.nrSects ≤ 2 ^ 22 := by
  have hstart := logStart_add hle
  have hsects := logSects
  have hclock : l.fs.sb.logStart NR_SECTS_FOR_LOG + NR_SECTS_FOR_LOG - 1 = l.fs.sb.nrSects - 1 := by
    omega
  rw [stamp_writes, hclock]
  refine and_congr_right fun _ => ⟨fun h => ?_, fun h => ⟨?_, ?_⟩⟩
  · by_contra hfar
    have hout := sectOf_outside (show 2 ^ 22 ≤ l.fs.sb.nrSects - 1 by omega) (by omega)
    have hfirst := h.2.first
    have hlast := h.2.last
    simp only at hfirst hlast
    omega
  · rw [sectOf_of_lt (by omega)]
    refine ⟨le_rfl, ?_, (fun off ho => nomatch ho), fun off ho => nomatch ho⟩
    simp only
    omega
  · rw [sectOf_of_lt (by omega)]
    refine ⟨?_, ?_, (fun off ho => nomatch ho), fun off ho => nomatch ho⟩
    · simp only
      omega
    · simp only
      omega

/-- the first call, up to its string -/
theorem first_spec (h : l.first = some m) : m.fs.sb = l.fs.sb ∧ m.pos = 64 ∧
    (2048 ≤ l.fs.sb.nrSects → l.fs.sb.nrSects ≤ 2 ^ 22 → (m.Stays ↔ l.Stays)) := by
  unfold first at h
  obtain ⟨fs, hres, h⟩ := Option.bind_eq_some_iff.mp h
  have hsb := reserveLog_sb hres
  simp only at h
  rw [if_pos (by decide)] at h
  obtain ⟨hkept, hpos⟩ := fill_kept h
  refine ⟨hkept.trans hsb, hpos, fun hle hi => ?_⟩
  rw [← hsb] at hle hi
  have hstart := logStart_add hle
  have hfill := fill_spec h (show fs.sb.logStart NR_SECTS_FOR_LOG + 8 * 256 ≤ fs.sb.nrSects by omega) hi
    le_rfl (by decide)
  rw [hfill]
  unfold Stays
  simp only
  rw [hsb]

theorem first_some {fs : FsState} (h : reserveLog NR_SECTS_FOR_LOG l.fs = some fs) :
    ∃ m, l.first = some m := by
  unfold first
  rw [h, Option.bind_some]
  simp only
  rw [if_pos (by decide)]
  exact fill_some (by decide)

/-- the text, the header and the clock of a call -/
theorem rest_stays (hb : l.fs.sb.nrSects < 2 ^ 28) (hle : 2048 ≤ l.fs.sb.nrSects) (h64 : 64 ≤ l.pos)
    (hend : l.pos ≤ logEnd) :
    ((text logstr b 0 (l.fs.sb.logStart NR_SECTS_FOR_LOG + l.pos / SECTOR_SIZE) l).stamp t).Stays ↔
      l.Stays ∧ l.fs.sb.nrSects ≤ 2 ^ 22 ∧ l.pos + b ≤ logEnd := by
  have hsb := (text_kept logstr b 0 (l.fs.sb.logStart NR_SECTS_FOR_LOG + l.pos / SECTOR_SIZE) l).1
  rw [stays_stamp (by rw [hsb]; exact hb) (by rw [hsb]; exact hle), hsb]
  constructor
  · rintro ⟨htext, hi⟩
    obtain ⟨hl, hfits⟩ := (text_stays hi hle h64 hend (.inr rfl)).mp htext
    exact ⟨hl, hi, hfits⟩
  · rintro ⟨hl, hi, hfits⟩
    exact ⟨(text_stays hi hle h64 hend (.inr rfl)).mpr ⟨hl, hfits⟩, hi⟩

/-- a call comes back when the bits of the log are clear, or were taken before -/
theorem disklog_some (logtext : List Byte) (t : Time)
    (h : l.pos = 0 → ∃ fs, reserveLog NR_SECTS_FOR_LOG l.fs = some fs) :
    ∃ m, l.disklog logtext t = some m := by
  unfold disklog
  by_cases h0 : l.pos = 0
  · obtain ⟨fs, hres⟩ := h h0
    obtain ⟨k, hk⟩ := first_some hres
    rw [if_pos h0, hk, Option.map_some]
    exact ⟨_, rfl⟩
  · rw [if_neg h0, Option.map_some]
    exact ⟨_, rfl⟩

/-! ## runs -/

/-- between two calls: the position is behind the header, and when the log stayed where it belongs
it is in front of the clock -/
structure Begun (l : DiskLog) : Prop where
  sects : l.fs.sb.nrSects < 2 ^ 28
  room : 2048 ≤ l.fs.sb.nrSects
  header : 64 ≤ l.pos
  clock : l.Stays → l.fs.sb.nrSects ≤ 2 ^ 22 ∧ l.pos ≤ logEnd

/-- the rest of a call, from where its text begins -/
theorem rest_kept
    (h : (text logstr b 0 (l.fs.sb.logStart NR_SECTS_FOR_LOG + l.pos / SECTOR_SIZE) l).stamp t = m) :
    m.fs.sb = l.fs.sb ∧ m.pos = l.pos + b ∧ (m.Stays → l.Stays) := by
  obtain ⟨hsb, hpos, hstays⟩ := text_kept logstr b 0
    (l.fs.sb.logStart NR_SECTS_FOR_LOG + l.pos / SECTOR_SIZE) l
  rw [← h]
  exact ⟨stamp_sb.trans hsb, stamp_pos.trans hpos, fun hm => hstays (stamp_writes.mp hm).1⟩

theorem rest_begun (hb : l.fs.sb.nrSects < 2 ^ 28) (hle : 2048 ≤ l.fs.sb.nrSects) (h64 : 64 ≤ l.pos)
    (hend : l.Stays → l.pos ≤ logEnd)
    (h : (text logstr b 0 (l.fs.sb.logStart NR_SECTS_FOR_LOG + l.pos / SECTOR_SIZE) l).stamp t = m) :
    m.Begun ∧ (m.Stays ↔ l.Stays ∧ l.fs.sb.nrSects ≤ 2 ^ 22 ∧ l.pos + b ≤ logEnd) := by
  obtain ⟨hsb, hpos, hmono⟩ := rest_kept h
  have hstays : m.Stays ↔ l.Stays ∧ l.fs.sb.nrSects ≤ 2 ^ 22 ∧ l.pos + b ≤ logEnd := by
    by_cases hl : l.Stays
    · rw [← h]
      exact rest_stays hb hle h64 (hend hl)
    · exact iff_of_false (fun hm => hl (hmono hm)) fun hr => hl hr.1
  refine ⟨⟨?_, ?_, ?_, fun hm => ?_⟩, hstays⟩
  · rw [hsb]
    exact hb
  · rw [hsb]
    exact hle
  · omega
  · rw [hsb, hpos]
    exact (hstays.mp hm).2

/-- a step of a run, once the log has begun -/
theorem event_begun {e : LogEvent} (hl : l.Begun) (h : l.event e = some m) :
    m.Begun ∧ m.fs.sb = l.fs.sb ∧ m.pos = l.pos + e.size ∧
      (m.Stays ↔ l.Stays ∧ l.pos + e.size ≤ logEnd) := by
  cases e with
  | others d =>
    cases h
    refine ⟨⟨hl.sects, hl.room, hl.header, hl.clock⟩, rfl, rfl, ?_⟩
    exact ⟨fun hs => ⟨hs, (hl.clock hs).2⟩, And.left⟩
  | disklog logstr t =>
    have hheader := hl.header
    have hcall : l.disklog logstr t = some m := h
    unfold disklog at hcall
    rw [if_neg (by omega), Option.map_some, Option.some.injEq] at hcall
    obtain ⟨hsb, hpos, -⟩ := rest_kept hcall
    obtain ⟨hm, hstays⟩ := rest_begun hl.sects hl.room hheader (fun hs => (hl.clock hs).2) hcall
    refine ⟨hm, hsb, hpos, hstays.trans ?_⟩
    exact ⟨fun ⟨hs, _, hfits⟩ => ⟨hs, hfits⟩, fun ⟨hs, hfits⟩ => ⟨hs, (hl.clock hs).1, hfits⟩⟩

theorem exec_some (es : List LogEvent) (hl : l.Begun) : ∃ m, exec event l es = some m := by
  induction es generalizing l with
  | nil => exact ⟨l, rfl⟩
  | cons e es ih =>
    have hstep : ∃ k, l.event e = some k := by
      cases e with
      | others d => exact ⟨_, rfl⟩
      | disklog logstr t => exact disklog_some logstr t fun h0 => absurd hl.header (by omega)
    obtain ⟨k, hk⟩ := hstep
    rw [exec, hk, Option.bind_some]
    exact ih (event_begun hl hk).1

/-- **A run from a call on.** -/
theorem exec_begun (es : List LogEvent) (hl : l.Begun) (h : exec event l es = some m) :
    m.Stays ↔ l.Stays ∧ l.pos + (es.map LogEvent.size).sum ≤ logEnd := by
  induction es generalizing l with
  | nil =>
    cases h
    exact ⟨fun hs => ⟨hs, (hl.clock hs).2⟩, And.left⟩
  | cons e es ih =>
    obtain ⟨k, hk, hrest⟩ := exec_cons h
    obtain ⟨hbegun, -, hpos, hstays⟩ := event_begun hl hk
    rw [ih hbegun hrest, hstays, hpos, List.map_cons, List.sum_cons]
    constructor
    · rintro ⟨⟨hs, -⟩, hfits⟩
      exact ⟨hs, by omega⟩
    · rintro ⟨hs, hfits⟩
      exact ⟨⟨hs, by omega⟩, by omega⟩

/-- the first call of a run -/
theorem first_begun {logtext : List Byte} (hb : l.fs.sb.nrSects < 2 ^ 28)
    (hle : 2048 ≤ l.fs.sb.nrSects) (h0 : l.pos = 0) (h : l.disklog logtext t = some m) :
    m.Begun ∧ m.fs.sb = l.fs.sb ∧ m.pos = 64 + logtext.length ∧
      (m.Stays ↔ l.Stays ∧ l.fs.sb.nrSects ≤ 2 ^ 22 ∧ 64 + logtext.length ≤ logEnd) := by
  unfold disklog at h
  rw [if_pos h0] at h
  obtain ⟨k, hfirst, hcall⟩ := Option.map_eq_some_iff.mp h
  obtain ⟨hsb, hpos, hfill⟩ := first_spec hfirst
  obtain ⟨hsb', hpos', -⟩ := rest_kept hcall
  obtain ⟨hm, hstays⟩ := rest_begun (by rw [hsb]; exact hb) (by rw [hsb]; exact hle) (by omega)
    (fun _ => by rw [hpos]; decide) hcall
  rw [hsb, hpos] at hstays
  refine ⟨hm, hsb'.trans hsb, by rw [hpos', hpos], hstays.trans ?_⟩
  constructor
  · rintro ⟨hk, hi, hfits⟩
    exact ⟨(hfill hle hi).mp hk, hi, hfits⟩
  · rintro ⟨hl, hi, hfits⟩
    exact ⟨(hfill hle hi).mpr hl, hi, hfits⟩

end DiskLog
end

/-- **When the log stays in its region**: along a run, when the device has no sector from 2^22 on and
all the strings together end in front of the clock. -/
theorem stays_iff {l l' : DiskLog} (es : List LogEvent) (hb : l.fs.sb.nrSects < 2 ^ 28)
    (hle : NR_SECTS_FOR_LOG ≤ l.fs.sb.nrSects) (h0 : l.pos = 0) (hw : l.writes = [])
    (h : exec DiskLog.event l es = some l') :
    l'.Stays ↔ ((∃ e ∈ es, e.isCall) →
      l.fs.sb.nrSects ≤ 2 ^ 22 ∧ 64 + (es.map LogEvent.size).sum ≤ logEnd) := by
  have hl : l.Stays := by
    unfold DiskLog.Stays
    rw [hw]
    exact List.forall_mem_nil _
  induction es generalizing l with
  | nil =>
    cases h
    exact iff_of_true hl fun ⟨e, he, _⟩ => nomatch he
  | cons e es ih =>
    obtain ⟨k, hk, hrest⟩ := exec_cons h
    cases e with
    | others d =>
      cases hk
      have hrun := ih (l := { l with fs := { l.fs with disk := d } }) hb hle h0 hw hrest hl
      refine hrun.trans ?_
      rw [List.map_cons, List.sum_cons, show LogEvent.size (.others d) = 0 from rfl, Nat.zero_add,
        List.exists_mem_cons_iff, show LogEvent.isCall (.others d) = false from rfl,
        or_iff_right Bool.false_ne_true]
    | disklog logstr t =>
      obtain ⟨hbegun, -, hpos, hstays⟩ := DiskLog.first_begun hb hle h0 hk
      rw [DiskLog.exec_begun es hbegun hrest, hstays, hpos, List.map_cons, List.sum_cons]
      have hsize : LogEvent.size (.disklog logstr t) = logstr.length := rfl
      constructor
      · rintro ⟨⟨-, hi, -⟩, hfits⟩ -
        exact ⟨hi, by omega⟩
      · intro hcall
        obtain ⟨hi, hfits⟩ := hcall ⟨_, List.mem_cons_self .., rfl⟩
        exact ⟨⟨hl, hi, by omega⟩, by omega⟩

/-- the log of a blank volume -/
def blankLog : DiskLog := ⟨blank zeros .small, 0, fun _ => 0, []⟩

theorem blankLog_first (logstr : List Byte) (t : Time) (es : List LogEvent) :
    ∃ k l', blankLog.disklog logstr t = some k ∧ k.Begun ∧ k.pos = 64 + logstr.length ∧
      exec DiskLog.event blankLog (.disklog logstr t :: es) = some l' ∧
      exec DiskLog.event k es = some l' := by
  have hres : ∃ fs, reserveLog NR_SECTS_FOR_LOG blankLog.fs = some fs :=
    reserveLog_some (s := blank zeros .small) (by decide) (by decide) fun k _ _ => mapBit_zeros 3 k
  obtain ⟨k, hk⟩ := DiskLog.disklog_some (l := blankLog) logstr t fun _ => hres
  obtain ⟨hbegun, -, hpos, -⟩ := DiskLog.first_begun (show 0x20000 < 2 ^ 28 by decide)
    (show 2048 ≤ 0x20000 by decide) rfl hk
  obtain ⟨l', hl⟩ := DiskLog.exec_some es hbegun
  refine ⟨k, l', hk, hbegun, hpos, ?_, hl⟩
  rw [exec, show blankLog.event (.disklog logstr t) = blankLog.disklog logstr t from rfl, hk,
    Option.bind_some]
  exact hl

/-- `hi` -/
theorem stays_iff_short : ∃ l',
    exec DiskLog.event blankLog [.disklog [0x68, 0x69] ⟨2008, 11, 20, 16, 22, 45⟩] = some l' ∧
      (l'.Stays ↔ ((∃ e ∈ [LogEvent.disklog [0x68, 0x69] ⟨2008, 11, 20, 16, 22, 45⟩], e.isCall) →
        blankLog.fs.sb.nrSects ≤ 2 ^ 22 ∧
        64 + ([LogEvent.disklog [0x68, 0x69] ⟨2008, 11, 20, 16, 22, 45⟩].map LogEvent.size).sum ≤
          logEnd)) := by
  obtain ⟨-, l', -, -, -, hl, -⟩ := blankLog_first [0x68, 0x69] ⟨2008, 11, 20, 16, 22, 45⟩ []
  exact ⟨l', hl,
    stays_iff _ (show 0x20000 < 2 ^ 28 by decide) (show 2048 ≤ 0x20000 by decide) rfl rfl hl⟩

/-- a piece of a graph, as `dump_fd_graph` cuts it -/
def dumpPiece : LogEvent := .disklog (List.replicate 511 0x2E) ⟨2008, 11, 20, 16, 22, 45⟩

theorem dumpPiece_sum (n : Nat) : ((List.replicate n dumpPiece).map LogEvent.size).sum = n * 511 := by
  have hsize : dumpPiece.size = 511 := by rw [dumpPiece, LogEvent.size, List.length_replicate]
  rw [List.map_replicate, List.sum_replicate, hsize, nsmul_eq_mul, Nat.cast_id]

theorem dumpPieces_leave {n : Nat} (hn : 2050 ≤ n) : ∃ l',
    exec DiskLog.event blankLog (dumpPiece :: List.replicate n dumpPiece) = some l' ∧ ¬ l'.Stays := by
  obtain ⟨k, l', -, hbegun, hpos, hl, hrest⟩ := blankLog_first (List.replicate 511 0x2E)
    ⟨2008, 11, 20, 16, 22, 45⟩ (List.replicate n dumpPiece)
  refine ⟨l', hl, fun hs => ?_⟩
  have hfits := ((DiskLog.exec_begun _ hbegun hrest).mp hs).2
  rw [hpos, List.length_replicate, dumpPiece_sum, logEnd_eq] at hfits
  omega

/-- the 2051st piece goes over the end -/
theorem log_leaves :
    ∃ l', exec DiskLog.event blankLog (dumpPiece :: List.replicate 2050 dumpPiece) = some l' ∧
      ¬ l'.Stays :=
  dumpPieces_leave le_rfl

end Noxis.Fs
