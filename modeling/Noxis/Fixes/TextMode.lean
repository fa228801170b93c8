import Noxis.Fixes.Screen
import Noxis.Lib.Terminal

/-!
# 23-fixes/drivers/screen.c: the bytes of the text screen

`Vga` has the text memory by cells.  Here it is the bytes that `print_char` and `memory_copy` write,
with the two registers of the CRTC, and a record of where they are written.

* `TextMem`       the memory from VIDEO_ADDRESS on;
* `TextMem.vga`   its cells: `kprint_at` on the bytes is `kprint_at` on the cells;
* `Feeds`         what a terminal of 25 rows makes of a character;
* `kprint_refines` **`kprint` leaves the memory and the cursor as that terminal does, and writes
                  within its 4000 bytes.**
-/

namespace Noxis.Fixes

/-! ## the code -/

/-- the byte at an offset from VIDEO_ADDRESS; the registers 14 and 15; the offsets that were written -/
structure TextMem where
  mem : Int → Byte
  high : Byte
  low : Byte
  written : List Int

namespace TextMem

def put (m : TextMem) (offset : Int) (b : Byte) : TextMem :=
  { m with mem := Function.update m.mem offset b, written := m.written ++ [offset] }

/-- `memory_copy` of `n` bytes -/
def memoryCopy (m : TextMem) (source dest : Int) : Nat → TextMem
  | 0 => m
  | n + 1 =>
    let m := m.memoryCopy source dest n
    m.put (dest + n) (m.mem (source + n))

/-- where the cursor is, counted in cells -/
def place (m : TextMem) : Nat := m.high.toNat * 256 + m.low.toNat

def getCursorOffset (m : TextMem) : Int := m.place * 2

def setCursorOffset (m : TextMem) (offset : Int) : TextMem :=
  let offset := offset.tdiv 2
  { m with high := BitVec.ofInt 8 (offset / 256), low := BitVec.ofInt 8 offset }

/-- the rows 1 to `n` move up by one -/
def copyRows (m : TextMem) : Nat → TextMem
  | 0 => m
  | n + 1 => (m.copyRows n).memoryCopy (getOffset 0 (n + 1)) (getOffset 0 n) (MAX_COLS * 2)

/-- the first `n` bytes of the last row -/
def blankLine (m : TextMem) : Nat → TextMem
  | 0 => m
  | n + 1 => (m.blankLine n).put (getOffset 0 (MAX_ROWS - 1) + n) 0

def scroll (m : TextMem) : TextMem := (m.copyRows (MAX_ROWS - 1)).blankLine (MAX_COLS * 2)

/-- the end of `print_char` -/
def printEnd (m : TextMem) (offset : Int) : Int × TextMem :=
  if MAX_ROWS * MAX_COLS * 2 ≤ offset then
    (offset - 2 * MAX_COLS, m.scroll.setCursorOffset (offset - 2 * MAX_COLS))
  else (offset, m.setCursorOffset offset)

def printChar (m : TextMem) (c : Byte) (col row : Int) (attr : Byte) : Int × TextMem :=
  let attr := if attr = 0 then WHITE_ON_BLACK else attr
  if MAX_COLS ≤ col ∨ MAX_ROWS ≤ row then
    (getOffset col row,
      (m.put (2 * MAX_COLS * MAX_ROWS - 2) 0x45).put (2 * MAX_COLS * MAX_ROWS - 1) RED_ON_WHITE)
  else
    let offset := if 0 ≤ col ∧ 0 ≤ row then getOffset col row else m.getCursorOffset
    if c = 0x0A then m.printEnd (getOffset 0 (getOffsetRow offset + 1))
    else if c = 0x08 then ((m.put offset 0x20).put (offset + 1) attr).printEnd offset
    else ((m.put offset c).put (offset + 1) attr).printEnd (offset + 2)

/-- the loop of `kprint_at`, up to the NUL -/
def printLoop (m : TextMem) : List Byte → Int → Int → TextMem
  | [], _, _ => m
  | c :: message, col, row =>
    if c = 0 then m
    else
      let (offset, m) := m.printChar c col row WHITE_ON_BLACK
      m.printLoop message (getOffsetCol offset) (getOffsetRow offset)

def kprintAt (m : TextMem) (message : List Byte) (col row : Int) : TextMem :=
  if 0 ≤ col ∧ 0 ≤ row then m.printLoop message col row
  else
    let offset := m.getCursorOffset
    m.printLoop message (getOffsetCol offset) (getOffsetRow offset)

def kprint (m : TextMem) (message : List Byte) : TextMem := m.kprintAt message (-1) (-1)

end TextMem

/-! ## what is written -/

/-- what `m'` has written since `m` is within the 4000 bytes -/
def TextMem.Within (m m' : TextMem) : Prop :=
  ∃ offsets, m'.written = m.written ++ offsets ∧ ∀ o ∈ offsets, 0 ≤ o ∧ o < 4000

/-! ## the terminal -/

/-- a character and its attribute -/
abbrev TextCell := Byte × Byte

/-- a letter is put, and a backspace clears the cell at the cursor -/
def feed (t : Terminal TextCell) (c : Byte) : Terminal TextCell :=
  if c = 0x0A then t.newline (0, 0)
  else if c = 0x08 then t.write (0x20, WHITE_ON_BLACK)
  else t.put (0, 0) (c, WHITE_ON_BLACK)

/-- the memory has the cells of the terminal in the order of their rows, each with its attribute -/
structure TextMem.Cells (m : TextMem) (t : Terminal TextCell) : Prop where
  rows : t.rows = MAX_ROWS
  cols : t.cols = MAX_COLS
  char : ∀ r < MAX_ROWS, ∀ c < MAX_COLS, m.mem (getOffset c r) = (t.cell r c).1
  attr : ∀ r < MAX_ROWS, ∀ c < MAX_COLS, m.mem (getOffset c r + 1) = (t.cell r c).2

/-- and the cursor is that of the terminal -/
structure TextMem.Shows (m : TextMem) (t : Terminal TextCell) : Prop extends m.Cells t where
  cursor : m.getCursorOffset = getOffset t.col t.row

section
variable {m m' m'' : TextMem} {t : Terminal TextCell} {b c : Byte} {n : Nat} {o source dest : Int}

/-! ## writes -/

theorem TextMem.Within.refl (m : TextMem) : m.Within m := ⟨[], (List.append_nil _).symm, by simp⟩

theorem TextMem.Within.trans (h : m.Within m') (h' : m'.Within m'') : m.Within m'' := by
  obtain ⟨l, hl, hin⟩ := h
  obtain ⟨l', hl', hin'⟩ := h'
  refine ⟨l ++ l', by rw [hl', hl, List.append_assoc], fun o ho => ?_⟩
  rcases List.mem_append.mp ho with ho | ho
  · exact hin o ho
  · exact hin' o ho

/-- the registers are not memory -/
theorem TextMem.Within.cursor (h : m.Within m') (o : Int) : m.Within (m'.setCursorOffset o) := h

theorem TextMem.within_put (m : TextMem) (b : Byte) (h0 : 0 ≤ o) (h1 : o < 4000) :
    m.Within (m.put o b) := by
  refine ⟨[o], rfl, fun x hx => ?_⟩
  obtain rfl := List.mem_singleton.mp hx
  exact ⟨h0, h1⟩

theorem TextMem.within_memoryCopy (m : TextMem) (source : Int) (h0 : 0 ≤ dest) (h1 : dest + n ≤ 4000) :
    m.Within (m.memoryCopy source dest n) := by
  induction n with
  | zero => exact .refl m
  | succ n ih =>
    push_cast at h1
    exact (ih (by omega)).trans (within_put _ _ (by omega) (by omega))

theorem TextMem.within_scroll (m : TextMem) : m.Within m.scroll := by
  have hrows : ∀ n ≤ 24, m.Within (m.copyRows n) := by
    intro n hn
    induction n with
    | zero => exact .refl m
    | succ n ih =>
      refine (ih (by omega)).trans (within_memoryCopy _ _ ?_ ?_)
      · unfold getOffset MAX_COLS
        omega
      · unfold getOffset MAX_COLS
        push_cast
        omega
  have hline : ∀ n ≤ 160, (m.copyRows 24).Within ((m.copyRows 24).blankLine n) := by
    intro n hn
    induction n with
    | zero => exact .refl _
    | succ n ih =>
      refine (ih (by omega)).trans (within_put _ _ ?_ ?_)
      · unfold getOffset MAX_COLS MAX_ROWS
        push_cast
        omega
      · unfold getOffset MAX_COLS MAX_ROWS
        push_cast
        omega
  exact (hrows 24 (by omega)).trans (hline 160 (by omega))

/-! ## the bytes of a scrolled screen -/

theorem TextMem.memoryCopy_mem (m : TextMem) (h : dest ≤ source) (n : Nat) (a : Int) :
    (m.memoryCopy source dest n).mem a =
      if dest ≤ a ∧ a < dest + n then m.mem (source + (a - dest)) else m.mem a := by
  induction n generalizing a with
  | zero => exact (if_neg (by push_cast; omega)).symm
  | succ n ih =>
    show Function.update (m.memoryCopy source dest n).mem (dest + n)
      ((m.memoryCopy source dest n).mem (source + n)) a = _
    by_cases ha : a = dest + n
    · rw [ha, Function.update_self, ih, if_neg (by omega), if_pos (by push_cast; omega)]
      congr 1
      omega
    · rw [Function.update_of_ne ha, ih]
      refine if_congr ?_ rfl rfl
      push_cast
      omega

theorem TextMem.copyRows_mem (m : TextMem) (n : Nat) (a : Int) :
    (m.copyRows n).mem a = if 0 ≤ a ∧ a < 160 * n then m.mem (a + 160) else m.mem a := by
  induction n generalizing a with
  | zero => exact (if_neg (by push_cast; omega)).symm
  | succ n ih =>
    show ((m.copyRows n).memoryCopy (getOffset 0 (n + 1)) (getOffset 0 n) (MAX_COLS * 2)).mem a = _
    rw [memoryCopy_mem _ (by unfold getOffset MAX_COLS; omega), ih, ih]
    unfold getOffset MAX_COLS
    push_cast
    by_cases ha : 0 ≤ a ∧ a < 160 * (n + 1)
    · rw [if_pos ha]
      by_cases hn : a < 160 * n
      · rw [if_neg (by omega), if_pos (by omega)]
      · rw [if_pos (by omega), if_neg (by omega)]
        congr 1
        omega
    · rw [if_neg ha, if_neg (by omega), if_neg (by omega)]

theorem TextMem.blankLine_mem (m : TextMem) (n : Nat) (a : Int) :
    (m.blankLine n).mem a = if 3840 ≤ a ∧ a < 3840 + n then 0 else m.mem a := by
  induction n with
  | zero => exact (if_neg (by push_cast; omega)).symm
  | succ n ih =>
    show Function.update (m.blankLine n).mem (getOffset 0 ((MAX_ROWS : Int) - 1) + n) 0 a = _
    have hlast : getOffset 0 ((MAX_ROWS : Int) - 1) = 3840 := by decide
    rw [hlast]
    by_cases ha : a = 3840 + n
    · rw [ha, Function.update_self, if_pos (by push_cast; omega)]
    · rw [Function.update_of_ne ha, ih]
      refine if_congr ?_ rfl rfl
      push_cast
      omega

/-- **the rows move up, and the last one is zeros** -/
theorem TextMem.scroll_mem (m : TextMem) {r c : Nat} (hr : r < 25) (hc : c < 80) (k : Int)
    (hk : k = 0 ∨ k = 1) :
    m.scroll.mem (getOffset c r + k) =
      if r + 1 < 25 then m.mem (getOffset c (r + 1 : Nat) + k) else 0 := by
  show ((m.copyRows 24).blankLine 160).mem _ = _
  rw [blankLine_mem, copyRows_mem]
  unfold getOffset MAX_COLS
  push_cast
  by_cases hlast : r + 1 < 25
  · rw [if_neg (by omega), if_pos (by omega), if_pos hlast]
    congr 1
    omega
  · rw [if_pos (by omega), if_neg hlast]

/-! ## a character -/

theorem TextMem.getCursorOffset_set (m : TextMem) (hn : n < 2000) :
    (m.setCursorOffset (2 * n)).getCursorOffset = 2 * n := by
  have hplace : (2 * (n : Int)).tdiv 2 = n := by
    rw [Int.tdiv_eq_ediv_of_nonneg (by omega)]
    omega
  unfold setCursorOffset getCursorOffset place
  simp only
  rw [hplace, BitVec.toNat_ofInt, BitVec.toNat_ofInt]
  omega

/-- a terminal of this size, with its cursor somewhere else -/
theorem TextMem.Cells.congr {u : Terminal TextCell} (h : m.Cells t) (hr : u.rows = t.rows)
    (hc : u.cols = t.cols) (hcell : u.cell = t.cell) : m.Cells u where
  rows := hr.trans h.rows
  cols := hc.trans h.cols
  char := by
    rw [hcell]
    exact h.char
  attr := by
    rw [hcell]
    exact h.attr

theorem TextMem.Cells.col_lt (h : m.Cells t) : t.col < 80 := t.col_lt.trans_eq h.cols

theorem TextMem.Cells.row_lt (h : m.Cells t) : t.row < 25 := t.row_lt.trans_eq h.rows

theorem TextMem.Cells.scroll (h : m.Cells t) : m.scroll.Cells (t.scroll (0, 0)) := by
  have hrows : t.rows = 25 := h.rows
  refine ⟨h.rows, h.cols, fun r hr c hc => ?_, fun r hr c hc => ?_⟩
  · have hmem := m.scroll_mem hr hc 0 (.inl rfl)
    rw [Int.add_zero, Int.add_zero] at hmem
    show _ = (if r + 1 < t.rows then t.cell (r + 1) c else (0, 0)).1
    rw [hmem, hrows]
    by_cases hlast : r + 1 < 25
    · rw [if_pos hlast, if_pos hlast]
      exact h.char (r + 1) hlast c hc
    · rw [if_neg hlast, if_neg hlast]
  · show _ = (if r + 1 < t.rows then t.cell (r + 1) c else (0, 0)).2
    rw [m.scroll_mem hr hc 1 (.inr rfl), hrows]
    by_cases hlast : r + 1 < 25
    · rw [if_pos hlast, if_pos hlast]
      exact h.attr (r + 1) hlast c hc
    · rw [if_neg hlast, if_neg hlast]

/-- a character and its attribute at the cursor -/
theorem TextMem.Cells.put (h : m.Cells t) (c a : Byte) :
    ((m.put (getOffset t.col t.row) c).put (getOffset t.col t.row + 1) a).Cells (t.write (c, a)) := by
  have hcol := h.col_lt
  have hrow := h.row_lt
  refine ⟨h.rows, h.cols, fun r hr x hx => ?_, fun r hr x hx => ?_⟩
  · have hx' : x < 80 := hx
    show Function.update (Function.update m.mem _ c) _ a _ =
      (if r = t.row ∧ x = t.col then _ else _ : TextCell).1
    rw [Function.update_of_ne (by unfold getOffset MAX_COLS; omega)]
    by_cases hat : r = t.row ∧ x = t.col
    · rw [if_pos hat, hat.1, hat.2, Function.update_self]
    · rw [if_neg hat, Function.update_of_ne (by unfold getOffset MAX_COLS; omega)]
      exact h.char r hr x hx
  · have hx' : x < 80 := hx
    show Function.update (Function.update m.mem _ c) _ a _ =
      (if r = t.row ∧ x = t.col then _ else _ : TextCell).2
    by_cases hat : r = t.row ∧ x = t.col
    · rw [if_pos hat, hat.1, hat.2, Function.update_self]
    · rw [if_neg hat, Function.update_of_ne (by unfold getOffset MAX_COLS; omega),
        Function.update_of_ne (by unfold getOffset MAX_COLS; omega)]
      exact h.attr r hr x hx

/-- what a step of the loop leaves -/
structure TextMem.Printed (m : TextMem) (r : Int × TextMem) (t : Terminal TextCell) : Prop where
  shows : r.2.Shows t
  offset : r.1 = getOffset t.col t.row
  within : m.Within r.2

/-- the cursor goes to the place `n`, on the screen -/
theorem TextMem.Cells.settle (h : m.Cells t) (hplace : n = t.row * 80 + t.col) :
    m.Printed (m.printEnd (2 * n)) t := by
  have hcol := h.col_lt
  have hrow := h.row_lt
  have hoff : (2 * n : Int) = getOffset t.col t.row := by
    unfold getOffset MAX_COLS
    omega
  have hend : m.printEnd (2 * n) = (2 * (n : Int), m.setCursorOffset (2 * n)) := by
    unfold printEnd MAX_ROWS MAX_COLS
    rw [if_neg (by push_cast; omega)]
  rw [hend]
  refine ⟨⟨⟨h.rows, h.cols, h.char, h.attr⟩, ?_⟩, hoff, .refl m⟩
  rw [← hoff]
  exact m.getCursorOffset_set (by omega)

/-- past the end, the screen scrolls -/
theorem TextMem.Cells.settle_last (hcells : m.scroll.Cells t) (hrow : t.row = 24) (hcol : t.col = 0) :
    m.Printed (m.printEnd (2 * (2000 : Nat))) t := by
  have hoff : (2 * (1920 : Nat) : Int) = getOffset t.col t.row := by
    unfold getOffset MAX_COLS
    rw [hrow, hcol]
    decide
  have hback : (2 * (2000 : Nat) : Int) - 2 * MAX_COLS = 2 * (1920 : Nat) := by decide
  have hend : m.printEnd (2 * (2000 : Nat)) =
      ((2 * (1920 : Nat) : Int), m.scroll.setCursorOffset (2 * (1920 : Nat))) := by
    unfold printEnd
    rw [if_pos (by decide), hback]
  rw [hend]
  refine ⟨⟨⟨hcells.rows, hcells.cols, hcells.char, hcells.attr⟩, ?_⟩, hoff, m.within_scroll.cursor _⟩
  rw [← hoff]
  exact m.scroll.getCursorOffset_set (by omega)

theorem Printed.after (h : m.Within m') {r : Int × TextMem} (hp : m'.Printed r t) : m.Printed r t :=
  ⟨hp.shows, hp.offset, h.trans hp.within⟩

/-- the start of the next row -/
theorem TextMem.Cells.newline (h : m.Cells t) :
    m.Printed (m.printEnd (2 * ((t.row + 1) * 80 : Nat))) (t.newline (0, 0)) := by
  have hrow := h.row_lt
  have hrows : t.rows = 25 := h.rows
  unfold Terminal.newline
  by_cases hlast : t.row + 1 < t.rows
  · rw [dif_pos hlast]
    exact (h.congr (u := { t with
      row := t.row + 1, col := 0, row_lt := hlast, col_lt := Nat.zero_lt_of_lt t.col_lt })
      rfl rfl rfl).settle rfl
  · rw [dif_neg hlast, show (t.row + 1) * 80 = 2000 by omega]
    refine TextMem.Cells.settle_last (h.scroll.congr rfl rfl rfl) ?_ rfl
    show t.row = 24
    omega

/-- the next cell -/
theorem TextMem.Cells.advance (h : m.Cells t) :
    m.Printed (m.printEnd (2 * (t.row * 80 + t.col + 1 : Nat))) (t.advance (0, 0)) := by
  have hcol := h.col_lt
  have hcols : t.cols = 80 := h.cols
  unfold Terminal.advance
  by_cases hlast : t.col + 1 < t.cols
  · rw [dif_pos hlast]
    exact (h.congr (u := { t with col := t.col + 1, col_lt := hlast }) rfl rfl rfl).settle rfl
  · rw [dif_neg hlast, show t.row * 80 + t.col + 1 = (t.row + 1) * 80 by omega]
    exact h.newline

/-- **A character.** -/
theorem TextMem.Shows.printChar (h : m.Shows t) (c : Byte) :
    m.Printed (m.printChar c t.col t.row WHITE_ON_BLACK) (feed t c) := by
  have hcol := h.col_lt
  have hrow := h.row_lt
  have hplace : getOffset t.col t.row = 2 * (t.row * 80 + t.col : Nat) := by
    unfold getOffset MAX_COLS
    omega
  have hin : ¬ ((MAX_COLS : Int) ≤ t.col ∨ (MAX_ROWS : Int) ≤ t.row) := by
    unfold MAX_COLS MAX_ROWS
    omega
  have hput : ∀ b, m.Within ((m.put (getOffset t.col t.row) b).put (getOffset t.col t.row + 1)
      WHITE_ON_BLACK) := by
    intro b
    rw [hplace]
    exact (m.within_put b (by omega) (by omega)).trans (within_put _ _ (by omega) (by omega))
  unfold TextMem.printChar feed
  simp only
  rw [if_neg (show ¬ WHITE_ON_BLACK = 0 by decide), if_neg hin,
    if_pos (show (0 : Int) ≤ t.col ∧ (0 : Int) ≤ t.row by omega)]
  by_cases hnl : c = 0x0A
  · have hnext : getOffset 0 (getOffsetRow (getOffset t.col t.row) + 1) =
        2 * ((t.row + 1) * 80 : Nat) := by
      rw [hplace, getOffsetRow_place]
      unfold getOffset MAX_COLS
      omega
    rw [if_pos hnl, if_pos hnl, hnext]
    exact h.toCells.newline
  rw [if_neg hnl, if_neg hnl]
  by_cases hbs : c = 0x08
  · rw [if_pos hbs, if_pos hbs]
    have hcells := h.toCells.put 0x20 WHITE_ON_BLACK
    have hsettle := hcells.settle (n := t.row * 80 + t.col) rfl
    rw [← hplace] at hsettle
    exact Printed.after (hput _) hsettle
  · rw [if_neg hbs, if_neg hbs]
    have hcells := h.toCells.put c WHITE_ON_BLACK
    have hadvance := hcells.advance
    have hnext : getOffset t.col t.row + 2 = 2 * (t.row * 80 + t.col + 1 : Nat) := by
      rw [hplace]
      omega
    rw [hnext]
    exact Printed.after (hput _) hadvance

/-! ## a text -/

/-- what the loop prints -/
def printed (message : List Byte) : List Byte := message.takeWhile (· ≠ 0)

theorem TextMem.Shows.printLoop (h : m.Shows t) (message : List Byte) :
    (m.printLoop message t.col t.row).Shows ((printed message).foldl feed t) ∧
      m.Within (m.printLoop message t.col t.row) := by
  induction message generalizing m t with
  | nil => exact ⟨h, .refl m⟩
  | cons c message ih =>
    unfold printLoop printed
    by_cases hc : c = 0
    · rw [if_pos hc, List.takeWhile_cons_of_neg (by simpa using hc)]
      exact ⟨h, .refl m⟩
    · obtain ⟨hshows, hoff, hwithin⟩ := h.printChar c
      have hplace : getOffset (feed t c).col (feed t c).row =
          2 * ((feed t c).row * 80 + (feed t c).col : Nat) := by
        unfold getOffset MAX_COLS
        omega
      have hcol := hshows.col_lt
      obtain ⟨hrest, hwithin'⟩ := ih hshows
      rw [if_neg hc, List.takeWhile_cons_of_pos (by simpa using hc)]
      simp only
      rw [hoff, hplace, getOffsetCol_place, getOffsetRow_place,
        show ((feed t c).row * 80 + (feed t c).col) % 80 = (feed t c).col by omega,
        show ((feed t c).row * 80 + (feed t c).col) / 80 = (feed t c).row by omega]
      exact ⟨hrest, hwithin.trans hwithin'⟩

/-- the terminal that the memory shows -/
def TextMem.terminal (m : TextMem) (h : m.getCursorOffset < 4000) : Terminal TextCell where
  rows := MAX_ROWS
  cols := MAX_COLS
  cell r c := (m.mem (getOffset c r), m.mem (getOffset c r + 1))
  row := m.place / MAX_COLS
  col := m.place % MAX_COLS
  row_lt := by
    unfold getCursorOffset at h
    unfold MAX_COLS MAX_ROWS
    omega
  col_lt := by
    unfold MAX_COLS
    omega

theorem TextMem.shows_terminal (m : TextMem) (h : m.getCursorOffset < 4000) :
    m.Shows (m.terminal h) := by
  refine ⟨⟨rfl, rfl, fun _ _ _ _ => rfl, fun _ _ _ _ => rfl⟩, ?_⟩
  show (m.place * 2 : Int) = getOffset (m.place % 80 : Nat) (m.place / 80 : Nat)
  unfold getOffset MAX_COLS
  omega

/-- **Text on the screen.**  From any cursor on it, `kprint` leaves the memory and the cursor as the
terminal does; the cursor's offset is even and on the screen, and nothing outside of it is written. -/
theorem kprint_refines (m : TextMem) (message : List Byte) (h : m.getCursorOffset < 4000) :
    (m.kprint message).Shows ((printed message).foldl feed (m.terminal h)) ∧
      ((m.kprint message).getCursorOffset % 2 = 0 ∧ 0 ≤ (m.kprint message).getCursorOffset ∧
        (m.kprint message).getCursorOffset < 4000) ∧
      m.Within (m.kprint message) := by
  have hkprint : m.kprint message =
      m.printLoop message (m.terminal h).col (m.terminal h).row := by
    have hplace : m.getCursorOffset = 2 * m.place := Int.mul_comm _ _
    unfold TextMem.kprint TextMem.kprintAt
    rw [if_neg (by decide), hplace]
    simp only
    rw [getOffsetCol_place, getOffsetRow_place]
    rfl
  obtain ⟨hshows, hwithin⟩ := (m.shows_terminal h).printLoop message
  rw [hkprint]
  refine ⟨hshows, ?_, hwithin⟩
  have hcol := hshows.col_lt
  have hrow := hshows.row_lt
  rw [hshows.cursor]
  unfold getOffset MAX_COLS
  omega

/-- a blank screen -/
def blankText : TextMem := ⟨fun _ => 0, 0x07, 0xCF, []⟩

/-- at the last cell, a letter scrolls the screen -/
theorem kprint_refines_last : blankText.Within (blankText.kprint [0x41, 0x0A, 0x42]) :=
  (kprint_refines blankText [0x41, 0x0A, 0x42] (by decide)).2.2

/-! ## the cells of the memory -/

/-- a byte as a character -/
def chr (b : Byte) : Char := Char.ofNat b.toNat

/-- the screen by cells -/
def TextMem.vga (m : TextMem) : Vga where
  vidmem i := (chr (m.mem (2 * i)), m.mem (2 * i + 1))
  cursor := m.place

theorem chr_toNat (b : Byte) : (chr b).toNat = b.toNat := by
  have hb := b.isLt
  unfold chr Char.ofNat
  rw [dif_pos (show b.toNat.isValidChar from .inl (by omega))]
  rfl

theorem chr_iff (b c : Byte) : chr b = chr c ↔ b = c := by
  constructor
  · intro h
    apply BitVec.eq_of_toNat_eq
    rw [← chr_toNat, h, chr_toNat]
  · intro h
    rw [h]

theorem TextMem.put_vga (m : TextMem) (n : Nat) (c a : Byte) :
    ((m.put (2 * n) c).put (2 * n + 1) a).vga = m.vga.put (2 * n) (chr c) a := by
  have hvidmem : ((m.put (2 * n) c).put (2 * n + 1) a).vga.vidmem =
      Function.update m.vga.vidmem ((2 * n : Int).toNat / 2) (chr c, a) := by
    funext i
    rw [show (2 * n : Int).toNat / 2 = n by omega]
    show (chr (Function.update (Function.update m.mem (2 * n) c) (2 * n + 1) a (2 * i)),
      Function.update (Function.update m.mem (2 * n) c) (2 * n + 1) a (2 * i + 1)) = _
    rw [Function.update_of_ne (by omega)]
    by_cases hi : i = n
    · rw [hi, Function.update_self, Function.update_self, Function.update_self]
    · rw [Function.update_of_ne (by omega), Function.update_of_ne (by omega),
        Function.update_of_ne (by omega), Function.update_of_ne hi]
      rfl
  exact congrArg (fun v => ({ vidmem := v, cursor := m.place } : Vga)) hvidmem

theorem TextMem.memoryCopy_place (m : TextMem) (source dest : Int) (n : Nat) :
    (m.memoryCopy source dest n).place = m.place := by
  induction n with
  | zero => rfl
  | succ n ih => exact ih

theorem TextMem.scroll_place (m : TextMem) : m.scroll.place = m.place := by
  have hrows : ∀ n, (m.copyRows n).place = m.place := by
    intro n
    induction n with
    | zero => rfl
    | succ n ih => exact (memoryCopy_place _ _ _ _).trans ih
  have hline : ∀ n, ((m.copyRows 24).blankLine n).place = (m.copyRows 24).place := by
    intro n
    induction n with
    | zero => rfl
    | succ n ih => exact ih
  exact (hline 160).trans (hrows 24)

theorem TextMem.scroll_vga (m : TextMem) : m.scroll.vga = m.vga.scroll := by
  have hmem : ∀ a, m.scroll.mem a = if 3840 ≤ a ∧ a < 4000 then 0
      else if 0 ≤ a ∧ a < 3840 then m.mem (a + 160) else m.mem a := by
    intro a
    exact (blankLine_mem _ 160 a).trans (if_congr Iff.rfl rfl (copyRows_mem m 24 a))
  have hvidmem : m.scroll.vga.vidmem = m.vga.scroll.vidmem := by
    funext i
    show (chr (m.scroll.mem (2 * i)), m.scroll.mem (2 * i + 1)) =
      if i < 1920 then m.vga.vidmem (i + 80)
      else if i < 2000 then (Char.ofNat 0, 0) else m.vga.vidmem i
    rw [hmem, hmem]
    by_cases hup : i < 1920
    · rw [if_pos hup, if_neg (by omega), if_pos (by omega), if_neg (by omega), if_pos (by omega),
        show (2 * i : Int) + 160 = 2 * (i + 80 : Nat) by omega,
        show (2 * i : Int) + 1 + 160 = 2 * (i + 80 : Nat) + 1 by omega]
      rfl
    rw [if_neg hup]
    by_cases hlast : i < 2000
    · rw [if_pos hlast, if_pos (by omega), if_pos (by omega)]
      rfl
    · rw [if_neg hlast, if_neg (by omega), if_neg (by omega), if_neg (by omega), if_neg (by omega)]
      rfl
  have hcursor : m.scroll.vga.cursor = m.vga.scroll.cursor := m.scroll_place
  calc m.scroll.vga = ⟨m.scroll.vga.vidmem, m.scroll.vga.cursor⟩ := rfl
    _ = ⟨m.vga.scroll.vidmem, m.vga.scroll.cursor⟩ := by rw [hvidmem, hcursor]

theorem TextMem.setCursor_vga (m : TextMem) {o : Int} (h : 0 ≤ o) :
    (m.setCursorOffset o).vga = m.vga.setCursorOffset o := by
  have hcursor : (m.setCursorOffset o).place = (o.tdiv 2).toNat % 2 ^ 16 := by
    unfold setCursorOffset place
    simp only
    rw [Int.tdiv_eq_ediv_of_nonneg h, BitVec.toNat_ofInt, BitVec.toNat_ofInt]
    omega
  exact congrArg (fun n => ({ vidmem := m.vga.vidmem, cursor := n } : Vga)) hcursor

theorem TextMem.printEnd_vga (m : TextMem) {o : Int} (h : 0 ≤ o) :
    (m.printEnd o).1 = (m.vga.printEnd o).1 ∧ (m.printEnd o).2.vga = (m.vga.printEnd o).2 := by
  unfold printEnd Vga.printEnd
  by_cases hlast : (MAX_ROWS * MAX_COLS * 2 : Int) ≤ o
  · have hback : 0 ≤ o - 2 * MAX_COLS := by
      unfold MAX_ROWS MAX_COLS at hlast
      unfold MAX_COLS
      omega
    rw [if_pos hlast, if_pos hlast]
    exact ⟨rfl, by rw [m.scroll.setCursor_vga hback, scroll_vga]⟩
  · rw [if_neg hlast, if_neg hlast]
    exact ⟨rfl, m.setCursor_vga h⟩

theorem TextMem.printChar_vga (m : TextMem) (c : Byte) (col row : Int) (attr : Byte) :
    (m.printChar c col row attr).1 = (m.vga.printChar (chr c) col row attr).1 ∧
      (m.printChar c col row attr).2.vga = (m.vga.printChar (chr c) col row attr).2 := by
  unfold printChar Vga.printChar
  by_cases hin : (MAX_COLS : Int) ≤ col ∨ (MAX_ROWS : Int) ≤ row
  · simp only [if_pos hin]
    exact ⟨trivial, m.put_vga 1999 0x45 RED_ON_WHITE⟩
  simp only [if_neg hin]
  obtain ⟨n, hn⟩ : ∃ n : Nat, (if 0 ≤ col ∧ 0 ≤ row then getOffset col row
      else m.getCursorOffset) = 2 * n := by
    by_cases hpos : 0 ≤ col ∧ 0 ≤ row
    · refine ⟨(row * 80 + col).toNat, ?_⟩
      rw [if_pos hpos]
      unfold getOffset MAX_COLS
      omega
    · refine ⟨m.place, ?_⟩
      rw [if_neg hpos]
      exact Int.mul_comm _ _
  have hcursor : m.vga.getCursorOffset = m.getCursorOffset := rfl
  rw [hcursor, hn]
  have hnl : chr c = '\n' ↔ c = 0x0A := chr_iff c 0x0A
  have hbs : chr c = BS ↔ c = 0x08 := chr_iff c 0x08
  by_cases hc : c = 0x0A
  · rw [if_pos hc, if_pos (hnl.mpr hc)]
    refine m.printEnd_vga ?_
    rw [getOffsetRow_place]
    unfold getOffset MAX_COLS
    omega
  rw [if_neg hc, if_neg (hnl.not.mpr hc)]
  by_cases hc' : c = 0x08
  · rw [if_pos hc', if_pos (hbs.mpr hc')]
    rw [show (' ' : Char) = chr 0x20 from rfl, ← put_vga]
    exact printEnd_vga _ (by omega)
  · rw [if_neg hc', if_neg (hbs.not.mpr hc'), ← put_vga]
    exact printEnd_vga _ (by omega)

/-- **`kprint_at` on the bytes is `kprint_at` on the cells**, wherever the cursor is. -/
theorem TextMem.kprintAt_vga (m : TextMem) (message : List Byte) (col row : Int) :
    (m.kprintAt message col row).vga = m.vga.kprintAt ((printed message).map chr) col row := by
  have hloop : ∀ (m : TextMem) (col row : Int), (m.printLoop message col row).vga =
      m.vga.printLoop ((printed message).map chr) col row := by
    induction message with
    | nil => exact fun _ _ _ => rfl
    | cons c message ih =>
      intro m col row
      unfold printLoop printed
      by_cases hc : c = 0
      · rw [if_pos hc, List.takeWhile_cons_of_neg (by simpa using hc)]
        rfl
      · obtain ⟨hoff, hvga⟩ := m.printChar_vga c col row WHITE_ON_BLACK
        rw [if_neg hc, List.takeWhile_cons_of_pos (by simpa using hc), List.map_cons]
        show ((m.printChar c col row WHITE_ON_BLACK).2.printLoop message
          (getOffsetCol (m.printChar c col row WHITE_ON_BLACK).1)
          (getOffsetRow (m.printChar c col row WHITE_ON_BLACK).1)).vga = _
        rw [ih, hvga, hoff]
        rfl
  unfold kprintAt Vga.kprintAt
  by_cases hpos : 0 ≤ col ∧ 0 ≤ row
  · rw [if_pos hpos, if_pos hpos]
    exact hloop m col row
  · rw [if_neg hpos, if_neg hpos]
    exact hloop m _ _

end

end Noxis.Fixes
