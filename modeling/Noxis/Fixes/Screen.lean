import Noxis.Lib.Bytes
import Noxis.Lib.Sheet

/-!
# 23-fixes/drivers: the text screen and the framebuffer

`kprint` writes to the VGA text memory, or draws into the framebuffer that GRUB has left.

* `Vga`, `Fb`          `screen.c`, and `fb.c` with the pixels of its font;
* `Screen.sheet`       what can be read on either of them, and where the cursor is;
* `Screen.puts`        a letter is put on the sheet, which moves up a row at the last place;
* `Screen.erases`      `kprint_backspace` erases;
* `Screen.ends_prompt` after `kprint("\n> ")` the cursor stands behind the prompt.
-/

namespace Noxis.Fixes

/-! ## drivers/screen.c -/

def MAX_ROWS : Nat := 25
def MAX_COLS : Nat := 80
def WHITE_ON_BLACK : Byte := 0x0f
def RED_ON_WHITE : Byte := 0xf4

/-- the text memory, a character and its attribute at every even offset, and the place of the cursor in
the registers 14 and 15 of the CRTC -/
structure Vga where
  vidmem : Nat → Char × Byte
  cursor : Nat

def getOffset (col row : Int) : Int := 2 * (row * MAX_COLS + col)

def getOffsetRow (offset : Int) : Int := offset.tdiv (2 * MAX_COLS)

def getOffsetCol (offset : Int) : Int := (offset - getOffsetRow offset * 2 * MAX_COLS).tdiv 2

def Vga.getCursorOffset (v : Vga) : Int := v.cursor * 2

/-- the two registers are bytes -/
def Vga.setCursorOffset (v : Vga) (offset : Int) : Vga :=
  { v with cursor := (offset.tdiv 2).toNat % 2 ^ 16 }

def Vga.put (v : Vga) (offset : Int) (c : Char) (attr : Byte) : Vga :=
  { v with vidmem := Function.update v.vidmem (offset.toNat / 2) (c, attr) }

/-- every row but the first moves up, and the last one is filled with zeros -/
def Vga.scroll (v : Vga) : Vga :=
  { v with vidmem := fun i =>
      if i < (MAX_ROWS - 1) * MAX_COLS then v.vidmem (i + MAX_COLS)
      else if i < MAX_ROWS * MAX_COLS then (Char.ofNat 0, 0)
      else v.vidmem i }

def BS : Char := Char.ofNat 8

/-- the end of `print_char`: the offset that is returned, and the screen -/
def Vga.printEnd (v : Vga) (offset : Int) : Int × Vga :=
  if MAX_ROWS * MAX_COLS * 2 ≤ offset then
    (offset - 2 * MAX_COLS, v.scroll.setCursorOffset (offset - 2 * MAX_COLS))
  else (offset, v.setCursorOffset offset)

def Vga.printChar (v : Vga) (c : Char) (col row : Int) (attr : Byte) : Int × Vga :=
  let attr := if attr = 0 then WHITE_ON_BLACK else attr
  if MAX_COLS ≤ col ∨ MAX_ROWS ≤ row then
    (getOffset col row, v.put (2 * MAX_COLS * MAX_ROWS - 2) 'E' RED_ON_WHITE)
  else
    let offset := if 0 ≤ col ∧ 0 ≤ row then getOffset col row else v.getCursorOffset
    if c = '\n' then v.printEnd (getOffset 0 (getOffsetRow offset + 1))
    else if c = BS then (v.put offset ' ' attr).printEnd offset
    else (v.put offset c attr).printEnd (offset + 2)

/-- the loop of `kprint_at` -/
def Vga.printLoop (v : Vga) : List Char → Int → Int → Vga
  | [], _, _ => v
  | c :: message, col, row =>
    let (offset, v) := v.printChar c col row WHITE_ON_BLACK
    v.printLoop message (getOffsetCol offset) (getOffsetRow offset)

def Vga.kprintAt (v : Vga) (message : List Char) (col row : Int) : Vga :=
  if 0 ≤ col ∧ 0 ≤ row then v.printLoop message col row
  else
    let offset := v.getCursorOffset
    v.printLoop message (getOffsetCol offset) (getOffsetRow offset)

def Vga.kprintBackspace (v : Vga) : Vga :=
  let offset := v.getCursorOffset - 2
  (v.printChar BS (getOffsetCol offset) (getOffsetRow offset) WHITE_ON_BLACK).2

def Vga.clearScreen (v : Vga) : Vga :=
  { v with vidmem := fun i => if i < MAX_COLS * MAX_ROWS then (' ', WHITE_ON_BLACK) else v.vidmem i }
    |>.setCursorOffset (getOffset 0 0)

/-! ## drivers/font8x16.c -/

/-- the rows of a glyph from its top, the leftmost pixel of a row first; from 32 to 126 -/
def font8x16 : List (BitVec 128) :=
  [0x00000000000000000000000000000000, 0x0000183c3c3c18181800181800000000,
   0x00666666240000000000000000000000, 0x0000006c6cfe6c6c6cfe6c6c00000000,
   0x18187cc6c2c07c060686c67c18180000, 0x00000000c2c60c183060c68600000000,
   0x0000386c6c3876dccccccc7600000000, 0x00303030600000000000000000000000,
   0x00000c18303030303030180c00000000, 0x000030180c0c0c0c0c0c183000000000,
   0x0000000000663cff3c66000000000000, 0x000000000018187e1818000000000000,
   0x00000000000000000018181830000000, 0x000000000000007e0000000000000000,
   0x00000000000000000000181800000000, 0x0000000002060c183060c08000000000,
   0x00007cc6c6cedef6e6c6c67c00000000, 0x00001838781818181818187e00000000,
   0x00007cc6060c183060c0c6fe00000000, 0x00007cc606063c060606c67c00000000,
   0x00000c1c3c6cccfe0c0c0c1e00000000, 0x0000fec0c0c0fc060606c67c00000000,
   0x00003860c0c0fcc6c6c6c67c00000000, 0x0000fec606060c183030303000000000,
   0x00007cc6c6c67cc6c6c6c67c00000000, 0x00007cc6c6c67e0606060c7800000000,
   0x00000000181800000018180000000000, 0x00000000181800000018183000000000,
   0x000000060c18306030180c0600000000, 0x00000000007e00007e00000000000000,
   0x0000006030180c060c18306000000000, 0x00007cc6c60c18181800181800000000,
   0x00007cc6c6c6dedededcc07c00000000, 0x000010386cc6c6fec6c6c6c600000000,
   0x0000fc6666667c66666666fc00000000, 0x00003c66c2c0c0c0c0c2663c00000000,
   0x0000f86c6666666666666cf800000000, 0x0000fe6662687868606266fe00000000,
   0x0000fe6662687868606060f000000000, 0x00003c66c2c0c0dec6c6663a00000000,
   0x0000c6c6c6c6fec6c6c6c6c600000000, 0x00003c18181818181818183c00000000,
   0x00001e0c0c0c0c0ccccccc7800000000, 0x0000e666666c78786c6666e600000000,
   0x0000f06060606060606266fe00000000, 0x0000c3e7ffffdbc3c3c3c3c300000000,
   0x0000c6e6f6fedecec6c6c6c600000000, 0x00007cc6c6c6c6c6c6c6c67c00000000,
   0x0000fc6666667c60606060f000000000, 0x00007cc6c6c6c6c6c6d6de7c0c0e0000,
   0x0000fc6666667c6c666666e600000000, 0x00007cc6c660380c06c6c67c00000000,
   0x0000ffdb991818181818183c00000000, 0x0000c6c6c6c6c6c6c6c6c67c00000000,
   0x0000c3c3c3c3c3c3c3663c1800000000, 0x0000c3c3c3c3c3dbdbff666600000000,
   0x0000c3c3663c18183c66c3c300000000, 0x0000c3c3c3663c181818183c00000000,
   0x0000ffc3860c183060c1c3ff00000000, 0x00003c30303030303030303c00000000,
   0x00000080c0e070381c0e060200000000, 0x00003c0c0c0c0c0c0c0c0c3c00000000,
   0x10386cc6000000000000000000000000, 0x00000000000000000000000000ff0000,
   0x30301800000000000000000000000000, 0x0000000000780c7ccccccc7600000000,
   0x0000e06060786c666666667c00000000, 0x00000000007cc6c0c0c0c67c00000000,
   0x00001c0c0c3c6ccccccccc7600000000, 0x00000000007cc6fec0c0c67c00000000,
   0x0000386c6460f060606060f000000000, 0x000000000076cccccccccc7c0ccc7800,
   0x0000e060606c7666666666e600000000, 0x00001818003818181818183c00000000,
   0x00000606000e06060606060666663c00, 0x0000e06060666c78786c66e600000000,
   0x00003818181818181818183c00000000, 0x0000000000e6ffdbdbdbdbdb00000000,
   0x0000000000dc66666666666600000000, 0x00000000007cc6c6c6c6c67c00000000,
   0x0000000000dc66666666667c6060f000, 0x000000000076cccccccccc7c0c0c1e00,
   0x0000000000dc7666606060f000000000, 0x00000000007cc660380cc67c00000000,
   0x0000103030fc30303030361c00000000, 0x0000000000cccccccccccc7600000000,
   0x0000000000c3c3c3c3663c1800000000, 0x0000000000c3c3c3dbdbff6600000000,
   0x0000000000c3663c183c66c300000000, 0x0000000000c6c6c6c6c6c67e060cf800,
   0x0000000000fecc183060c6fe00000000, 0x00000e18181870181818180e00000000,
   0x00001818181800181818181800000000, 0x0000701818180e181818187000000000,
   0x000076dc000000000000000000000000]

/-! ## drivers/fb.c -/

def FONT_W : Nat := 8
def FONT_H : Nat := 16
def FONT_FIRST : Nat := 32
def FONT_LAST : Nat := 126

abbrev Rgb := BitVec 24

def FG : Rgb := 0xffffff
def BG : Rgb := 0

/-- the pixel of `c` in column `rx` and row `ry`; nothing outside of the font -/
def glyphBit (c : Char) (rx ry : Nat) : Bool :=
  if FONT_FIRST ≤ c.toNat ∧ c.toNat ≤ FONT_LAST then
    (font8x16.getD (c.toNat - FONT_FIRST) 0).getLsbD (127 - (ry * FONT_W + rx))
  else false

/-- the framebuffer, at least as large as `fb_init` asks for; in 24 bits the bytes of a pixel that are
drawn, which in 32 bits are followed by a zero -/
structure Fb where
  px : Nat → Nat → Rgb
  width : Nat
  height : Nat
  curCol : Nat
  curRow : Nat
  cursorDrawn : Bool
  wide : 8 * 80 ≤ width
  high : FONT_H * 2 ≤ height

def Fb.cellCols (f : Fb) : Nat := f.width / FONT_W
def Fb.cellRows (f : Fb) : Nat := f.height / FONT_H

/-- the pixel is one of the cell -/
def InCell (col row x y : Nat) : Prop :=
  col * FONT_W ≤ x ∧ x < col * FONT_W + FONT_W ∧ row * FONT_H ≤ y ∧ y < row * FONT_H + FONT_H

instance (col row x y : Nat) : Decidable (InCell col row x y) := inferInstanceAs (Decidable (_ ∧ _))

def Fb.drawGlyph (f : Fb) (col row : Nat) (c : Char) (fg bg : Rgb) : Fb :=
  { f with px := fun x y =>
      if InCell col row x y then
        if glyphBit c (x - col * FONT_W) (y - row * FONT_H) then fg else bg
      else f.px x y }

def Fb.cursorXor (f : Fb) : Fb :=
  { f with
    px := fun x y => if InCell f.curCol f.curRow x y then f.px x y ^^^ 0xffffff else f.px x y
    cursorDrawn := !f.cursorDrawn }

def Fb.hideCursor (f : Fb) : Fb := if f.cursorDrawn then f.cursorXor else f

def Fb.showCursor (f : Fb) : Fb := if f.cursorDrawn then f else f.cursorXor

/-- every cell row but the first moves up, and the last one is blank -/
def Fb.scrollUp (f : Fb) : Fb :=
  { f with px := fun x y =>
      if f.width ≤ x then f.px x y
      else if y < (f.cellRows - 1) * FONT_H then f.px x (y + FONT_H)
      else if y < f.cellRows * FONT_H then BG
      else f.px x y }

def Fb.clear (f : Fb) : Fb :=
  { f with
    px := fun x y => if x < f.width ∧ y < f.height then BG else f.px x y
    curCol := 0, curRow := 0, cursorDrawn := false }

/-- for a column and a row that are not negative -/
def Fb.cursorAt (f : Fb) (col row : Nat) : Fb := { f.hideCursor with curCol := col, curRow := row }

def Fb.backspace (f : Fb) : Fb :=
  let f := f.hideCursor
  let f := if 0 < f.curCol then { f with curCol := f.curCol - 1 }
    else if 0 < f.curRow then { f with curRow := f.curRow - 1, curCol := f.cellCols - 1 }
    else f
  (f.drawGlyph f.curCol f.curRow ' ' FG BG).showCursor

/-- the end of `fb_putchar` -/
def Fb.settle (f : Fb) : Fb :=
  if f.cellRows ≤ f.curRow then { f with curRow := f.cellRows - 1 }.scrollUp.showCursor
  else f.showCursor

def Fb.putchar (f : Fb) (c : Char) : Fb :=
  let f := f.hideCursor
  if c = '\n' then { f with curCol := 0, curRow := f.curRow + 1 }.settle
  else if c = BS then f.backspace
  else
    let f : Fb := { f.drawGlyph f.curCol f.curRow c FG BG with curCol := f.curCol + 1 }
    if f.cellCols ≤ f.curCol then { f with curCol := 0, curRow := f.curRow + 1 }.settle else f.settle

/-! ## the screen that the kernel prints on -/

/-- `fb_active` does not change after `fb_init` -/
inductive Screen where
  | text (v : Vga)
  | fb (f : Fb)

namespace Screen

def kprintAt (s : Screen) (message : List Char) (col row : Nat) : Screen :=
  match s with
  | .text v => .text (v.kprintAt message col row)
  | .fb f => .fb (message.foldl Fb.putchar (f.cursorAt col row))

/-- the column and the row are -1 -/
def kprint (s : Screen) (message : List Char) : Screen :=
  match s with
  | .text v => .text (v.kprintAt message (-1) (-1))
  | .fb f => .fb (message.foldl Fb.putchar f)

def kprintBackspace : Screen → Screen
  | .text v => .text v.kprintBackspace
  | .fb f => .fb f.backspace

def clearScreen : Screen → Screen
  | .text v => .text v.clearScreen
  | .fb f => .fb f.clear

end Screen

/-! ## what can be read -/

/-- the cell shows `c` -/
def Fb.Shows (f : Fb) (col row : Nat) (c : Char) : Prop :=
  ∀ rx < FONT_W, ∀ ry < FONT_H,
    f.px (col * FONT_W + rx) (row * FONT_H + ry) = if glyphBit c rx ry then FG else BG

namespace Screen

def cols : Screen → Nat
  | .text _ => MAX_COLS
  | .fb f => f.cellCols

def rows : Screen → Nat
  | .text _ => MAX_ROWS
  | .fb f => f.cellRows

def col : Screen → Nat
  | .text v => v.cursor % MAX_COLS
  | .fb f => f.curCol

def row : Screen → Nat
  | .text v => v.cursor / MAX_COLS
  | .fb f => f.curRow

/-- the cursor is on the screen -/
def Valid (s : Screen) : Prop := s.col < s.cols ∧ s.row < s.rows

/-- the cells in the order of their rows -/
def sheet (s : Screen) : Sheet Char where
  pos := s.row * s.cols + s.col
  reads q c :=
    match s with
    | .text v => v.vidmem q = (c, WHITE_ON_BLACK)
    | .fb f => f.Shows (q % f.cellCols) (q / f.cellCols) c

/-- by how many places the next character moves the screen -/
def moved (s : Screen) : Nat := if s.col + 1 < s.cols ∨ s.row + 1 < s.rows then 0 else s.cols

end Screen

section
variable {v : Vga} {f : Fb} {s : Screen} {c : Char} {n q col row a b : Nat} {message : List Char}

/-! ## the text screen -/

theorem getOffsetRow_place (n : Nat) : getOffsetRow (2 * n) = (n / 80 : Nat) := by
  unfold getOffsetRow MAX_COLS
  rw [Int.tdiv_eq_ediv_of_nonneg (by omega)]
  omega

theorem getOffsetCol_place (n : Nat) : getOffsetCol (2 * n) = (n % 80 : Nat) := by
  unfold getOffsetCol
  rw [getOffsetRow_place, Int.tdiv_eq_ediv_of_nonneg (by unfold MAX_COLS; omega)]
  unfold MAX_COLS
  omega

/-- the end of `print_char`, for the place `n` -/
def Vga.settle (v : Vga) (n : Nat) : Int × Vga :=
  if n < 2000 then (2 * n, { v with cursor := n })
  else (2 * (n - 80 : Nat), { v.scroll with cursor := n - 80 })

/-- `print_char` at the place `n` -/
def Vga.printPlace (v : Vga) (c : Char) (n : Nat) : Int × Vga :=
  if c = '\n' then v.settle ((n / 80 + 1) * 80)
  else if c = BS then (v.put (2 * n) ' ' WHITE_ON_BLACK).settle n
  else (v.put (2 * n) c WHITE_ON_BLACK).settle (n + 1)

theorem Vga.setCursorOffset_place (v : Vga) (hn : n < 2000) :
    v.setCursorOffset (2 * n) = { v with cursor := n } := by
  unfold setCursorOffset
  rw [Int.tdiv_eq_ediv_of_nonneg (by omega), show (2 * (n : Int) / 2).toNat % 2 ^ 16 = n by omega]

theorem Vga.printEnd_place (v : Vga) (hn : n ≤ 2000) : v.printEnd (2 * n) = v.settle n := by
  unfold printEnd settle
  by_cases h : n < 2000
  · rw [if_neg (by unfold MAX_ROWS MAX_COLS; omega), if_pos h, setCursorOffset_place v h]
  · have hback : (2 * n : Int) - 2 * MAX_COLS = 2 * (n - 80 : Nat) := by
      unfold MAX_COLS
      omega
    rw [if_pos (by unfold MAX_ROWS MAX_COLS; omega), if_neg h, hback,
      setCursorOffset_place v.scroll (by omega)]

theorem Vga.printChar_place (v : Vga) (c : Char) {col row : Int} (hn : n < 2000)
    (hcol : col < 80) (hrow : row < 25)
    (hoff : (if 0 ≤ col ∧ 0 ≤ row then getOffset col row else v.getCursorOffset) = 2 * n) :
    v.printChar c col row WHITE_ON_BLACK = v.printPlace c n := by
  have hin : ¬ (MAX_COLS ≤ col ∨ MAX_ROWS ≤ row) := by
    show ¬ ((80 : Int) ≤ col ∨ (25 : Int) ≤ row)
    omega
  unfold printChar printPlace
  rw [if_neg hin]
  simp only [hoff]
  by_cases hnl : c = '\n'
  · have hplace : getOffset 0 (getOffsetRow (2 * n) + 1) = 2 * ((n / 80 + 1) * 80 : Nat) := by
      rw [getOffsetRow_place]
      unfold getOffset MAX_COLS
      omega
    rw [if_pos hnl, if_pos hnl, hplace]
    exact v.printEnd_place (by omega)
  rw [if_neg hnl, if_neg hnl]
  by_cases hbs : c = BS
  · rw [if_pos hbs, if_pos hbs]
    exact (v.put _ _ _).printEnd_place (by omega)
  · rw [if_neg hbs, if_neg hbs, show (2 * n : Int) + 2 = 2 * (n + 1 : Nat) by omega]
    exact (v.put _ _ _).printEnd_place (by omega)

theorem Vga.settle_fst (v : Vga) (n : Nat) : (v.settle n).1 = 2 * (v.settle n).2.cursor := by
  unfold settle
  split <;> rfl

theorem Vga.settle_lt (v : Vga) (hn : n ≤ 2000) : (v.settle n).2.cursor < 2000 := by
  unfold settle
  by_cases h : n < 2000
  · rwa [if_pos h]
  · rw [if_neg h]
    show n - 80 < 2000
    omega

theorem Vga.printPlace_fst (v : Vga) (c : Char) (n : Nat) :
    (v.printPlace c n).1 = 2 * (v.printPlace c n).2.cursor := by
  unfold printPlace
  split
  · exact settle_fst ..
  · split
    · exact settle_fst ..
    · exact settle_fst ..

theorem Vga.printPlace_lt (v : Vga) (c : Char) (hn : n < 2000) :
    (v.printPlace c n).2.cursor < 2000 := by
  unfold printPlace
  split
  · exact v.settle_lt (by omega)
  · split
    · exact settle_lt _ (by omega)
    · exact settle_lt _ (by omega)

/-- a character at the cursor -/
def Vga.putchar (v : Vga) (c : Char) : Vga := (v.printPlace c v.cursor).2

theorem Vga.printLoop_cursor (message : List Char) (h : v.cursor < 2000) :
    v.printLoop message (v.cursor % 80 : Nat) (v.cursor / 80 : Nat) = message.foldl putchar v := by
  induction message generalizing v with
  | nil => rfl
  | cons c message ih =>
    have hoff : (if (0 : Int) ≤ (v.cursor % 80 : Nat) ∧ (0 : Int) ≤ (v.cursor / 80 : Nat)
        then getOffset (v.cursor % 80 : Nat) (v.cursor / 80 : Nat) else v.getCursorOffset) =
        2 * v.cursor := by
      rw [if_pos (by omega)]
      unfold getOffset MAX_COLS
      omega
    show (v.printChar c _ _ _).2.printLoop message (getOffsetCol (v.printChar c _ _ _).1)
      (getOffsetRow (v.printChar c _ _ _).1) = message.foldl putchar (v.putchar c)
    rw [printChar_place v c h (by omega) (by omega) hoff, printPlace_fst, getOffsetCol_place,
      getOffsetRow_place]
    exact ih (v.printPlace_lt c h)

theorem Vga.kprint_eq (message : List Char) (h : v.cursor < 2000) :
    v.kprintAt message (-1) (-1) = message.foldl putchar v := by
  unfold kprintAt
  rw [if_neg (by decide), ← printLoop_cursor message h]
  show v.printLoop message (getOffsetCol v.getCursorOffset) (getOffsetRow v.getCursorOffset) = _
  have hoff : v.getCursorOffset = 2 * v.cursor := Int.mul_comm _ _
  rw [hoff, getOffsetCol_place, getOffsetRow_place]

theorem Vga.printChar_lt (c : Char) (col row : Int) (h : v.cursor < 2000) :
    (v.printChar c col row WHITE_ON_BLACK).2.cursor < 2000 := by
  by_cases hin : col < 80 ∧ row < 25
  · by_cases hpos : 0 ≤ col ∧ 0 ≤ row
    · rw [printChar_place v c (n := (row * 80 + col).toNat) (by omega) hin.1 hin.2 ?_]
      · exact v.printPlace_lt c (by omega)
      · rw [if_pos hpos]
        unfold getOffset MAX_COLS
        omega
    · rw [printChar_place v c h hin.1 hin.2 ?_]
      · exact v.printPlace_lt c h
      · rw [if_neg hpos]
        exact Int.mul_comm _ _
  · have hout : (MAX_COLS : Int) ≤ col ∨ (MAX_ROWS : Int) ≤ row := by
      show (80 : Int) ≤ col ∨ (25 : Int) ≤ row
      omega
    unfold printChar
    rw [if_pos hout]
    exact h

theorem Vga.printLoop_lt (message : List Char) (col row : Int) (h : v.cursor < 2000) :
    (v.printLoop message col row).cursor < 2000 := by
  induction message generalizing v col row with
  | nil => exact h
  | cons c message ih => exact ih _ _ (printChar_lt c col row h)

theorem Vga.kprintAt_lt (message : List Char) (col row : Int) (h : v.cursor < 2000) :
    (v.kprintAt message col row).cursor < 2000 := by
  unfold kprintAt
  split
  · exact printLoop_lt message col row h
  · exact printLoop_lt message _ _ h

/-- at the first place, the character under the cursor is erased -/
theorem Vga.kprintBackspace_eq (h : v.cursor < 2000) :
    v.kprintBackspace = (v.printPlace BS (v.cursor - 1)).2 := by
  unfold kprintBackspace
  by_cases h0 : v.cursor = 0
  · have hoff : v.getCursorOffset - 2 = -2 := by
      unfold getCursorOffset
      omega
    simp only [hoff]
    rw [printChar_place v BS (n := v.cursor - 1) (by omega) (by decide) (by decide)]
    rw [if_neg (by decide)]
    unfold getCursorOffset
    omega
  · have hoff : v.getCursorOffset - 2 = 2 * (v.cursor - 1 : Nat) := by
      unfold getCursorOffset
      omega
    simp only [hoff, getOffsetCol_place, getOffsetRow_place]
    rw [printChar_place v BS (n := v.cursor - 1) (by omega) (by omega) (by omega)]
    rw [if_pos (by omega)]
    unfold getOffset MAX_COLS
    omega

theorem text_pos (v : Vga) : (Screen.text v).sheet.pos = v.cursor := by
  show v.cursor / 80 * 80 + v.cursor % 80 = v.cursor
  omega

theorem text_valid : (Screen.text v).Valid ↔ v.cursor < 2000 := by
  show v.cursor % 80 < 80 ∧ v.cursor / 80 < 25 ↔ v.cursor < 2000
  omega

theorem Vga.put_vidmem (v : Vga) (n : Nat) (c : Char) (i : Nat) :
    (v.put (2 * n) c WHITE_ON_BLACK).vidmem i =
      if i = n then (c, WHITE_ON_BLACK) else v.vidmem i := by
  have hplace : (2 * (n : Int)).toNat / 2 = n := by omega
  show Function.update v.vidmem ((2 * (n : Int)).toNat / 2) (c, WHITE_ON_BLACK) i = _
  rw [hplace, Function.update_apply]

theorem Vga.settle_puts (v : Vga) (c : Char) (h : v.cursor < 2000) :
    (Screen.text v).sheet.Puts
      (Screen.text ((v.put (2 * v.cursor) c WHITE_ON_BLACK).settle (v.cursor + 1)).2).sheet
      (Screen.text v).moved c := by
  by_cases hlast : v.cursor + 1 < 2000
  · have hmoved : (Screen.text v).moved = 0 := by
      refine if_pos ?_
      show v.cursor % 80 + 1 < 80 ∨ v.cursor / 80 + 1 < 25
      omega
    unfold settle
    rw [if_pos hlast, hmoved]
    constructor
    · rw [text_pos, text_pos]
    · intro _
      rw [text_pos]
      show (v.put (2 * v.cursor) c WHITE_ON_BLACK).vidmem v.cursor = _
      rw [put_vidmem, if_pos rfl]
    · intro q y _ hq hread
      rw [text_pos] at hq
      show (v.put (2 * v.cursor) c WHITE_ON_BLACK).vidmem q = _
      rw [put_vidmem, if_neg (by omega)]
      exact hread
  · have hmoved : (Screen.text v).moved = 80 := by
      refine if_neg ?_
      show ¬ (v.cursor % 80 + 1 < 80 ∨ v.cursor / 80 + 1 < 25)
      omega
    have hup : ∀ i, 80 ≤ i → i ≤ v.cursor →
        (v.put (2 * v.cursor) c WHITE_ON_BLACK).scroll.vidmem (i - 80) =
          if i = v.cursor then (c, WHITE_ON_BLACK) else v.vidmem i := by
      intro i hlow hhigh
      rw [← put_vidmem]
      show (if i - 80 < 24 * 80 then (v.put _ c WHITE_ON_BLACK).vidmem (i - 80 + 80) else _) = _
      rw [if_pos (by omega), Nat.sub_add_cancel hlow]
    unfold settle
    rw [if_neg hlast, hmoved]
    constructor
    · rw [text_pos, text_pos]
      show v.cursor + 1 - 80 + 80 = v.cursor + 1
      omega
    · intro hle
      rw [text_pos] at hle ⊢
      exact (hup v.cursor hle (Nat.le_refl _)).trans (if_pos rfl)
    · intro q y hle hq hread
      rw [text_pos] at hq
      exact (hup q hle hq.le).trans ((if_neg hq.ne).trans hread)

theorem Vga.settle_erases (v : Vga) (h : v.cursor < 2000) (h0 : 0 < v.cursor) :
    (Screen.text v).sheet.Erases (Screen.text
      ((v.put (2 * (v.cursor - 1 : Nat)) ' ' WHITE_ON_BLACK).settle (v.cursor - 1)).2).sheet := by
  unfold settle
  rw [if_pos (by omega)]
  constructor
  · rw [text_pos, text_pos]
    exact Nat.sub_add_cancel h0
  · intro q y hq hread
    rw [text_pos] at hq
    show (v.put (2 * (v.cursor - 1 : Nat)) ' ' WHITE_ON_BLACK).vidmem q = _
    rw [put_vidmem, if_neg hq.ne]
    exact hread

/-! ## the framebuffer -/

theorem inCell_iff {rx ry : Nat} (hx : rx < 8) (hy : ry < 16) :
    InCell col row (a * FONT_W + rx) (b * FONT_H + ry) ↔ col = a ∧ row = b := by
  show col * 8 ≤ a * 8 + rx ∧ a * 8 + rx < col * 8 + 8 ∧ row * 16 ≤ b * 16 + ry ∧
    b * 16 + ry < row * 16 + 16 ↔ _
  omega

theorem Fb.drawGlyph_shows (f : Fb) (col row : Nat) (c : Char) :
    (f.drawGlyph col row c FG BG).Shows col row c := by
  intro rx hx ry hy
  show (if InCell col row (col * FONT_W + rx) (row * FONT_H + ry) then _ else _) = _
  rw [if_pos ((inCell_iff hx hy).mpr ⟨rfl, rfl⟩), Nat.add_sub_cancel_left, Nat.add_sub_cancel_left]

/-- a change of one cell leaves the others as they were -/
theorem Fb.shows_of_other {g : Fb} (hpx : ∀ x y, ¬ InCell col row x y → g.px x y = f.px x y)
    (hne : ¬ (col = a ∧ row = b)) : g.Shows a b c ↔ f.Shows a b c := by
  have heq : ∀ rx < 8, ∀ ry < 16,
      g.px (a * FONT_W + rx) (b * FONT_H + ry) = f.px (a * FONT_W + rx) (b * FONT_H + ry) :=
    fun rx hx ry hy => hpx _ _ fun hin => hne ((inCell_iff hx hy).mp hin)
  constructor
  · intro h rx hx ry hy
    rw [← heq rx hx ry hy]
    exact h rx hx ry hy
  · intro h rx hx ry hy
    rw [heq rx hx ry hy]
    exact h rx hx ry hy

theorem Fb.drawGlyph_other (fg bg : Rgb) (x : Char) (hne : ¬ (col = a ∧ row = b)) :
    (f.drawGlyph col row x fg bg).Shows a b c ↔ f.Shows a b c :=
  shows_of_other (fun _ _ hin => if_neg hin) hne

theorem Fb.cursorXor_other (hne : ¬ (f.curCol = a ∧ f.curRow = b)) :
    f.cursorXor.Shows a b c ↔ f.Shows a b c :=
  shows_of_other (fun _ _ hin => if_neg hin) hne

theorem Fb.hideCursor_other (hne : ¬ (f.curCol = a ∧ f.curRow = b)) :
    f.hideCursor.Shows a b c ↔ f.Shows a b c := by
  unfold hideCursor
  split
  · exact cursorXor_other hne
  · exact Iff.rfl

theorem Fb.showCursor_other (hne : ¬ (f.curCol = a ∧ f.curRow = b)) :
    f.showCursor.Shows a b c ↔ f.Shows a b c := by
  unfold showCursor
  split
  · exact Iff.rfl
  · exact cursorXor_other hne

/-- the cells of a row show what those of the next one showed -/
theorem Fb.scrollUp_shows (ha : a < f.cellCols) (hb : b + 1 < f.cellRows) :
    f.scrollUp.Shows a b c ↔ f.Shows a (b + 1) c := by
  have hcols : f.cellCols * 8 ≤ f.width := Nat.div_mul_le_self f.width 8
  have heq : ∀ rx < 8, ∀ ry < 16, f.scrollUp.px (a * FONT_W + rx) (b * FONT_H + ry) =
      f.px (a * FONT_W + rx) ((b + 1) * FONT_H + ry) := by
    intro rx hx ry hy
    show (if f.width ≤ a * 8 + rx then _ else
      if b * 16 + ry < (f.cellRows - 1) * 16 then f.px (a * 8 + rx) (b * 16 + ry + 16) else _) = _
    rw [if_neg (by omega), if_pos (by omega)]
    show _ = f.px (a * 8 + rx) ((b + 1) * 16 + ry)
    rw [show b * 16 + ry + 16 = (b + 1) * 16 + ry by omega]
  constructor
  · intro h rx hx ry hy
    rw [← heq rx hx ry hy]
    exact h rx hx ry hy
  · intro h rx hx ry hy
    rw [heq rx hx ry hy]
    exact h rx hx ry hy

/-- the place of the cursor -/
def Fb.place (f : Fb) : Nat := f.curRow * f.cellCols + f.curCol

def Fb.ShowsAt (f : Fb) (q : Nat) (c : Char) : Prop := f.Shows (q % f.cellCols) (q / f.cellCols) c

theorem Fb.cellCols_pos (f : Fb) : 80 ≤ f.cellCols := by
  have hwide := f.wide
  show 80 ≤ f.width / 8
  omega

theorem Fb.cellRows_pos (f : Fb) : 2 ≤ f.cellRows := by
  have hhigh : 16 * 2 ≤ f.height := f.high
  show 2 ≤ f.height / 16
  omega

@[simp] theorem Fb.hideCursor_curCol (f : Fb) : f.hideCursor.curCol = f.curCol := by
  unfold hideCursor
  split <;> rfl

@[simp] theorem Fb.hideCursor_curRow (f : Fb) : f.hideCursor.curRow = f.curRow := by
  unfold hideCursor
  split <;> rfl

@[simp] theorem Fb.hideCursor_cellCols (f : Fb) : f.hideCursor.cellCols = f.cellCols := by
  unfold hideCursor
  split <;> rfl

@[simp] theorem Fb.hideCursor_cellRows (f : Fb) : f.hideCursor.cellRows = f.cellRows := by
  unfold hideCursor
  split <;> rfl

@[simp] theorem Fb.showCursor_curCol (f : Fb) : f.showCursor.curCol = f.curCol := by
  unfold showCursor
  split <;> rfl

@[simp] theorem Fb.showCursor_curRow (f : Fb) : f.showCursor.curRow = f.curRow := by
  unfold showCursor
  split <;> rfl

@[simp] theorem Fb.showCursor_cellCols (f : Fb) : f.showCursor.cellCols = f.cellCols := by
  unfold showCursor
  split <;> rfl

@[simp] theorem Fb.showCursor_cellRows (f : Fb) : f.showCursor.cellRows = f.cellRows := by
  unfold showCursor
  split <;> rfl

theorem place_of (n q : Nat) : q / n * n + q % n = q := by
  rw [Nat.mul_comm]
  exact Nat.div_add_mod q n

theorem Fb.hideCursor_at (hq : q ≠ f.place) : f.hideCursor.ShowsAt q c ↔ f.ShowsAt q c := by
  unfold ShowsAt
  rw [hideCursor_cellCols]
  refine hideCursor_other fun ⟨hcol, hrow⟩ => hq ?_
  unfold place
  rw [hcol, hrow, place_of]

theorem Fb.showCursor_at (hq : q ≠ f.place) : f.showCursor.ShowsAt q c ↔ f.ShowsAt q c := by
  unfold ShowsAt
  rw [showCursor_cellCols]
  refine showCursor_other fun ⟨hcol, hrow⟩ => hq ?_
  unfold place
  rw [hcol, hrow, place_of]

theorem Fb.drawGlyph_at (x : Char) (hq : q ≠ f.place) :
    (f.drawGlyph f.curCol f.curRow x FG BG).ShowsAt q c ↔ f.ShowsAt q c := by
  refine drawGlyph_other FG BG x fun ⟨hcol, hrow⟩ => hq ((place_of f.cellCols q).symm.trans ?_)
  exact congrArg₂ (fun m n => m * f.cellCols + n) hrow.symm hcol.symm

theorem Fb.drawGlyph_new (f : Fb) (c : Char) (h : f.curCol < f.cellCols) :
    (f.drawGlyph f.curCol f.curRow c FG BG).ShowsAt f.place c := by
  have hrow : f.place / f.cellCols = f.curRow := by
    unfold place
    rw [Nat.mul_comm, Nat.mul_add_div (by omega), Nat.div_eq_of_lt h, Nat.add_zero]
  have hcol : f.place % f.cellCols = f.curCol := by
    unfold place
    rw [Nat.mul_add_mod_self_right, Nat.mod_eq_of_lt h]
  show (f.drawGlyph f.curCol f.curRow c FG BG).Shows (f.place % f.cellCols)
    (f.place / f.cellCols) c
  rw [hrow, hcol]
  exact f.drawGlyph_shows _ _ c

theorem Fb.scrollUp_at (hlow : f.cellCols ≤ q) (hhigh : q < f.cellRows * f.cellCols) :
    f.scrollUp.ShowsAt (q - f.cellCols) c ↔ f.ShowsAt q c := by
  have hcols : 0 < f.cellCols := Nat.lt_of_lt_of_le (by omega) f.cellCols_pos
  have hq : q - f.cellCols + f.cellCols = q := Nat.sub_add_cancel hlow
  have hmod : q % f.cellCols = (q - f.cellCols) % f.cellCols := by
    conv_lhs => rw [← hq, Nat.add_mod_right]
  have hdiv : q / f.cellCols = (q - f.cellCols) / f.cellCols + 1 := by
    conv_lhs => rw [← hq, Nat.add_div_right _ hcols]
  have hrow : q / f.cellCols < f.cellRows := Nat.div_lt_of_lt_mul (by rwa [Nat.mul_comm])
  show f.scrollUp.Shows ((q - f.cellCols) % f.cellCols) ((q - f.cellCols) / f.cellCols) c ↔
    f.Shows (q % f.cellCols) (q / f.cellCols) c
  rw [hmod, hdiv]
  exact scrollUp_shows (Nat.mod_lt _ hcols) (by omega)

/-- what `fb_putchar` has drawn when it begins to settle -/
def Fb.inked (f : Fb) (c : Char) : Fb :=
  f.hideCursor.drawGlyph f.hideCursor.curCol f.hideCursor.curRow c FG BG

theorem Fb.inked_old (c x : Char) (hq : q < f.place) : f.ShowsAt q c → (f.inked x).ShowsAt q c := by
  intro h
  have hplace : f.hideCursor.place = f.place := by
    unfold place
    rw [hideCursor_curRow, hideCursor_curCol, hideCursor_cellCols]
  exact (drawGlyph_at x (hplace ▸ hq.ne)).mpr ((hideCursor_at hq.ne).mpr h)

theorem Fb.inked_new (f : Fb) (c : Char) (h : f.curCol < f.cellCols) :
    (f.inked c).ShowsAt f.place c := by
  have hplace : f.hideCursor.place = f.place := by
    unfold place
    rw [hideCursor_curRow, hideCursor_curCol, hideCursor_cellCols]
  rw [← hplace]
  exact f.hideCursor.drawGlyph_new c (by rwa [hideCursor_curCol, hideCursor_cellCols])

/-- by how many places `fb_putchar` moves the screen in the end -/
def Fb.scrolled (f : Fb) : Nat := if f.curRow < f.cellRows then 0 else f.cellCols

theorem Fb.settle_of_lt (h : f.curRow < f.cellRows) : f.settle = f.showCursor :=
  if_neg (by omega)

theorem Fb.settle_of_ge (h : f.cellRows ≤ f.curRow) :
    f.settle = { f with curRow := f.cellRows - 1 }.scrollUp.showCursor := if_pos h

@[simp] theorem Fb.settle_cellCols (f : Fb) : f.settle.cellCols = f.cellCols := by
  unfold settle
  split
  · rw [showCursor_cellCols]
    rfl
  · exact showCursor_cellCols f

@[simp] theorem Fb.settle_cellRows (f : Fb) : f.settle.cellRows = f.cellRows := by
  unfold settle
  split
  · rw [showCursor_cellRows]
    rfl
  · exact showCursor_cellRows f

@[simp] theorem Fb.settle_curCol (f : Fb) : f.settle.curCol = f.curCol := by
  unfold settle
  split
  · rw [showCursor_curCol]
    rfl
  · exact showCursor_curCol f

theorem Fb.settle_curRow_lt (f : Fb) : f.settle.curRow < f.settle.cellRows := by
  have hrows := f.cellRows_pos
  rw [settle_cellRows]
  by_cases h : f.curRow < f.cellRows
  · rw [settle_of_lt h, showCursor_curRow]
    exact h
  · rw [settle_of_ge (by omega), showCursor_curRow]
    show f.cellRows - 1 < f.cellRows
    omega

theorem Fb.settle_place (h : f.curRow ≤ f.cellRows) : f.settle.place + f.scrolled = f.place := by
  unfold scrolled place
  by_cases hlt : f.curRow < f.cellRows
  · rw [settle_of_lt hlt, if_pos hlt, showCursor_curRow, showCursor_curCol, showCursor_cellCols,
      Nat.add_zero]
  · have hrow : f.curRow = f.cellRows := by omega
    have hrows := f.cellRows_pos
    rw [settle_cellCols, settle_curCol, settle_of_ge (by omega), if_neg hlt, showCursor_curRow]
    show (f.cellRows - 1) * f.cellCols + f.curCol + f.cellCols = f.curRow * f.cellCols + f.curCol
    rw [hrow, ← Nat.sub_add_cancel (show 1 ≤ f.cellRows by omega), Nat.succ_mul,
      Nat.add_sub_cancel]
    omega

theorem Fb.settle_at (h : f.curRow ≤ f.cellRows) (h0 : f.curRow = f.cellRows → f.curCol = 0)
    (hlow : f.scrolled ≤ q) (hq : q < f.place) :
    f.settle.ShowsAt (q - f.scrolled) c ↔ f.ShowsAt q c := by
  have hplace := settle_place h
  unfold scrolled at hlow hplace ⊢
  by_cases hlt : f.curRow < f.cellRows
  · rw [if_pos hlt, Nat.sub_zero, settle_of_lt hlt]
    exact showCursor_at hq.ne
  · rw [if_neg hlt] at hlow hplace ⊢
    have hend : f.place = f.cellRows * f.cellCols := by
      unfold place
      rw [h0 (by omega), show f.curRow = f.cellRows by omega, Nat.add_zero]
    rw [settle_of_ge (by omega)] at hplace ⊢
    have hsame : ({ f with curRow := f.cellRows - 1 } : Fb).scrollUp.showCursor.place =
        ({ f with curRow := f.cellRows - 1 } : Fb).scrollUp.place := by
      unfold place
      rw [showCursor_curRow, showCursor_curCol, showCursor_cellCols]
    rw [hsame] at hplace
    rw [showCursor_at (by omega)]
    exact scrollUp_at (f := { f with curRow := f.cellRows - 1 }) hlow (hend ▸ hq)

/-- the cursor moves on to the next cell -/
def Fb.advance (f : Fb) : Fb :=
  if f.cellCols ≤ f.curCol + 1 then { f with curCol := 0, curRow := f.curRow + 1 }
  else { f with curCol := f.curCol + 1 }

theorem Fb.putchar_eq (f : Fb) (hnl : c ≠ '\n') (hbs : c ≠ BS) :
    f.putchar c = (f.inked c).advance.settle := by
  unfold putchar advance
  simp only [if_neg hnl, if_neg hbs]
  exact (apply_ite settle _ _ _).symm

theorem Fb.advance_at (f : Fb) : f.advance.ShowsAt q c ↔ f.ShowsAt q c := by
  unfold advance
  split <;> exact Iff.rfl

theorem Fb.advance_place (h : f.curCol < f.cellCols) : f.advance.place = f.place + 1 := by
  unfold advance
  by_cases hlast : f.cellCols ≤ f.curCol + 1
  · rw [if_pos hlast]
    show (f.curRow + 1) * f.cellCols + 0 = f.curRow * f.cellCols + f.curCol + 1
    rw [Nat.succ_mul]
    omega
  · rw [if_neg hlast]
    rfl

theorem Fb.advance_row (h : f.curRow < f.cellRows) :
    f.advance.curRow ≤ f.advance.cellRows ∧
      (f.advance.curRow = f.advance.cellRows → f.advance.curCol = 0) := by
  unfold advance
  by_cases hlast : f.cellCols ≤ f.curCol + 1
  · rw [if_pos hlast]
    exact ⟨h, fun _ => rfl⟩
  · rw [if_neg hlast]
    exact ⟨Nat.le_of_lt h, fun heq => absurd heq (Nat.ne_of_lt h)⟩

theorem Fb.advance_scrolled (h : f.curRow < f.cellRows) :
    f.advance.scrolled = (Screen.fb f).moved := by
  unfold advance Screen.moved scrolled
  show _ = if f.curCol + 1 < f.cellCols ∨ f.curRow + 1 < f.cellRows then 0 else f.cellCols
  by_cases hlast : f.cellCols ≤ f.curCol + 1
  · rw [if_pos hlast]
    refine if_congr ?_ rfl rfl
    show f.curRow + 1 < f.cellRows ↔ _
    omega
  · rw [if_neg hlast]
    exact (if_pos h).trans (if_pos (.inl (by omega))).symm

/-- hiding the cursor and drawing leaves the cursor where it is -/
theorem Fb.inked_place (f : Fb) (c : Char) : (f.inked c).place = f.place := by
  show f.hideCursor.curRow * f.hideCursor.cellCols + f.hideCursor.curCol = f.place
  rw [hideCursor_curRow, hideCursor_curCol, hideCursor_cellCols]
  rfl

theorem Fb.putchar_puts (hvalid : (Screen.fb f).Valid) (hnl : c ≠ '\n') (hbs : c ≠ BS) :
    (Screen.fb f).sheet.Puts (Screen.fb (f.putchar c)).sheet (Screen.fb f).moved c := by
  obtain ⟨hcol, hrow⟩ : f.curCol < f.cellCols ∧ f.curRow < f.cellRows := hvalid
  have hcol' : (f.inked c).curCol < (f.inked c).cellCols := by
    show f.hideCursor.curCol < f.hideCursor.cellCols
    rwa [hideCursor_curCol, hideCursor_cellCols]
  have hrow' : (f.inked c).curRow < (f.inked c).cellRows := by
    show f.hideCursor.curRow < f.hideCursor.cellRows
    rwa [hideCursor_curRow, hideCursor_cellRows]
  have hmoved : (f.inked c).advance.scrolled = (Screen.fb f).moved := by
    rw [advance_scrolled hrow']
    unfold Screen.moved
    show (if f.hideCursor.curCol + 1 < f.hideCursor.cellCols ∨
      f.hideCursor.curRow + 1 < f.hideCursor.cellRows then 0 else f.hideCursor.cellCols) = _
    rw [hideCursor_curCol, hideCursor_curRow, hideCursor_cellCols, hideCursor_cellRows]
    rfl
  have hplace : (f.inked c).advance.place = f.place + 1 := by
    rw [advance_place hcol', inked_place]
  obtain ⟨hle, h0⟩ := advance_row hrow'
  have hsettle := settle_place hle
  rw [hmoved, hplace] at hsettle
  rw [putchar_eq f hnl hbs]
  refine ⟨hsettle, fun hlow => ?_, fun q y hlow hq hread => ?_⟩
  · have hat := settle_at (q := f.place) (c := c) hle h0 (hmoved ▸ hlow) (by omega)
    rw [hmoved, advance_at] at hat
    exact hat.mpr (f.inked_new c hcol)
  · have hq' : q < f.place := hq
    have hat := settle_at (q := q) (c := y) hle h0 (hmoved ▸ hlow) (by omega)
    rw [hmoved, advance_at] at hat
    exact hat.mpr (inked_old y c hq' hread)

/-- the cursor moves back to the cell before -/
def Fb.back (f : Fb) : Fb :=
  if 0 < f.curCol then { f with curCol := f.curCol - 1 }
  else if 0 < f.curRow then { f with curRow := f.curRow - 1, curCol := f.cellCols - 1 }
  else f

theorem Fb.backspace_eq (f : Fb) : f.backspace =
    (f.hideCursor.back.drawGlyph f.hideCursor.back.curCol f.hideCursor.back.curRow ' '
      FG BG).showCursor := rfl

theorem Fb.back_at (f : Fb) : f.back.ShowsAt q c ↔ f.ShowsAt q c := by
  unfold back
  split
  · exact Iff.rfl
  · split <;> exact Iff.rfl

theorem Fb.back_place (h0 : 0 < f.place) : f.back.place + 1 = f.place := by
  have hcols := f.cellCols_pos
  unfold back
  by_cases hcol : 0 < f.curCol
  · rw [if_pos hcol]
    show f.curRow * f.cellCols + (f.curCol - 1) + 1 = f.curRow * f.cellCols + f.curCol
    omega
  have hrow : 0 < f.curRow := by
    by_contra hrow
    unfold place at h0
    rw [show f.curRow = 0 by omega, show f.curCol = 0 by omega, Nat.zero_mul] at h0
    exact Nat.lt_irrefl 0 h0
  rw [if_neg hcol, if_pos hrow]
  show (f.curRow - 1) * f.cellCols + (f.cellCols - 1) + 1 = f.curRow * f.cellCols + f.curCol
  have hmul : f.curRow * f.cellCols = (f.curRow - 1) * f.cellCols + f.cellCols := by
    conv_lhs => rw [← Nat.sub_add_cancel hrow, Nat.succ_mul]
  omega

theorem Fb.backspace_erases (h0 : 0 < f.place) :
    (Screen.fb f).sheet.Erases (Screen.fb f.backspace).sheet := by
  have hhide : f.hideCursor.place = f.place := by
    unfold place
    rw [hideCursor_curRow, hideCursor_curCol, hideCursor_cellCols]
  have hback := back_place (f := f.hideCursor) (by omega)
  rw [hhide] at hback
  have hshow : f.backspace.place = f.hideCursor.back.place := by
    rw [backspace_eq]
    unfold place
    rw [showCursor_curRow, showCursor_curCol, showCursor_cellCols]
    rfl
  constructor
  · show f.backspace.place + 1 = f.place
    rw [hshow]
    exact hback
  · intro q y hq hread
    have hq' : q < f.hideCursor.back.place := hshow ▸ hq
    show f.backspace.ShowsAt q y
    let g := f.hideCursor.back
    have hshown := showCursor_at (f := g.drawGlyph g.curCol g.curRow ' ' FG BG) (c := y) hq'.ne
    have hdrawn := drawGlyph_at (f := g) (c := y) ' ' hq'.ne
    have hhidden := hideCursor_at (f := f) (q := q) (c := y) (by omega)
    exact hshown.mpr (hdrawn.mpr ((back_at _).mpr (hhidden.mpr hread)))

/-- anything but a backspace brings the cursor back onto the screen -/
theorem Fb.valid_putchar (f : Fb) (hbs : c ≠ BS) : (Screen.fb (f.putchar c)).Valid := by
  have hcols := f.cellCols_pos
  by_cases hnl : c = '\n'
  · have hput : f.putchar c =
        ({ f.hideCursor with curCol := 0, curRow := f.hideCursor.curRow + 1 } : Fb).settle := if_pos hnl
    show (f.putchar c).curCol < (f.putchar c).cellCols ∧ _
    rw [hput, settle_curCol, settle_cellCols]
    refine ⟨?_, settle_curRow_lt _⟩
    show 0 < f.hideCursor.cellCols
    rw [hideCursor_cellCols]
    omega
  · show (f.putchar c).curCol < (f.putchar c).cellCols ∧ _
    rw [putchar_eq f hnl hbs, settle_curCol, settle_cellCols]
    refine ⟨?_, settle_curRow_lt _⟩
    have hcols' : 80 ≤ (f.inked c).cellCols := (f.inked c).cellCols_pos
    unfold advance
    by_cases hlast : (f.inked c).cellCols ≤ (f.inked c).curCol + 1
    · rw [if_pos hlast]
      show 0 < (f.inked c).cellCols
      omega
    · rw [if_neg hlast]
      show (f.inked c).curCol + 1 < (f.inked c).cellCols
      omega

theorem Fb.valid_back (h : (Screen.fb f).Valid) : (Screen.fb f.back).Valid := by
  obtain ⟨hcol, hrow⟩ : f.curCol < f.cellCols ∧ f.curRow < f.cellRows := h
  unfold back
  split
  · exact ⟨show f.curCol - 1 < f.cellCols by omega, hrow⟩
  · split
    · exact ⟨show f.cellCols - 1 < f.cellCols by omega, show f.curRow - 1 < f.cellRows by omega⟩
    · exact ⟨hcol, hrow⟩

theorem Fb.valid_hide (h : (Screen.fb f).Valid) : (Screen.fb f.hideCursor).Valid := by
  show f.hideCursor.curCol < f.hideCursor.cellCols ∧ f.hideCursor.curRow < f.hideCursor.cellRows
  rw [hideCursor_curCol, hideCursor_cellCols, hideCursor_curRow, hideCursor_cellRows]
  exact h

theorem Fb.valid_backspace (h : (Screen.fb f).Valid) : (Screen.fb f.backspace).Valid := by
  show f.backspace.curCol < f.backspace.cellCols ∧ f.backspace.curRow < f.backspace.cellRows
  rw [backspace_eq, showCursor_curCol, showCursor_cellCols, showCursor_curRow, showCursor_cellRows]
  exact valid_back (valid_hide h)

/-! ## either screen -/

namespace Screen

/-- a character at the cursor -/
def putchar (s : Screen) (c : Char) : Screen :=
  match s with
  | .text v => .text (v.putchar c)
  | .fb f => .fb (f.putchar c)

theorem valid_putchar (h : s.Valid) (c : Char) : (s.putchar c).Valid := by
  cases s with
  | text v => exact text_valid.mpr (v.printPlace_lt c (text_valid.mp h))
  | fb f =>
    by_cases hbs : c = BS
    · have hput : f.putchar c = f.hideCursor.backspace := by
        show (if c = '\n' then _ else if c = BS then f.hideCursor.backspace else _) = _
        rw [if_neg (by rw [hbs]; decide), if_pos hbs]
      show (Screen.fb (f.putchar c)).Valid
      rw [hput]
      exact Fb.valid_backspace (Fb.valid_hide h)
    · exact f.valid_putchar hbs

theorem valid_foldl (h : s.Valid) (message : List Char) : (message.foldl putchar s).Valid := by
  induction message generalizing s with
  | nil => exact h
  | cons c message ih => exact ih (valid_putchar h c)

theorem kprint_eq (h : s.Valid) (message : List Char) : s.kprint message = message.foldl putchar s := by
  cases s with
  | text v =>
    show Screen.text (v.kprintAt message (-1) (-1)) = _
    rw [Vga.kprint_eq message (text_valid.mp h)]
    exact (List.foldl_hom text fun _ _ => rfl).symm
  | fb f => exact (List.foldl_hom fb fun _ _ => rfl).symm

theorem kprint_append (h : s.Valid) (message message' : List Char) :
    s.kprint (message ++ message') = (s.kprint message).kprint message' := by
  rw [kprint_eq h, List.foldl_append, kprint_eq h, kprint_eq (valid_foldl h message)]

theorem valid_kprint (h : s.Valid) (message : List Char) : (s.kprint message).Valid := by
  rw [kprint_eq h]
  exact valid_foldl h message

/-- a text at a fixed place, wherever that is -/
theorem valid_kprintAt (h : s.Valid) (hne : message ≠ []) (hbs : BS ∉ message) (col row : Nat) :
    (s.kprintAt message col row).Valid := by
  cases s with
  | text v => exact text_valid.mpr (Vga.kprintAt_lt message col row (text_valid.mp h))
  | fb f =>
    obtain ⟨c, message, rfl⟩ := List.exists_cons_of_ne_nil hne
    have hfirst := (f.cursorAt col row).valid_putchar fun heq => hbs (heq ▸ List.mem_cons_self)
    have hrest := valid_foldl hfirst message
    have hfold : message.foldl putchar (fb ((f.cursorAt col row).putchar c)) =
        fb (message.foldl Fb.putchar ((f.cursorAt col row).putchar c)) :=
      List.foldl_hom fb fun _ _ => rfl
    rwa [hfold] at hrest

theorem valid_clear (s : Screen) : s.clearScreen.Valid := by
  cases s with
  | text v => exact text_valid.mpr (show 0 % 2 ^ 16 < 2000 by decide)
  | fb f =>
    have hcols := f.cellCols_pos
    have hrows := f.cellRows_pos
    exact ⟨show 0 < f.cellCols by omega, show 0 < f.cellRows by omega⟩

theorem valid_backspace (h : s.Valid) : s.kprintBackspace.Valid := by
  cases s with
  | text v =>
    have hlt := text_valid.mp h
    refine text_valid.mpr ?_
    rw [Vga.kprintBackspace_eq hlt]
    exact v.printPlace_lt BS (by omega)
  | fb f => exact Fb.valid_backspace h

theorem puts (h : s.Valid) (hnl : c ≠ '\n') (hbs : c ≠ BS) :
    s.sheet.Puts (s.putchar c).sheet s.moved c := by
  cases s with
  | text v =>
    have hput : v.putchar c = ((v.put (2 * v.cursor) c WHITE_ON_BLACK).settle (v.cursor + 1)).2 := by
      unfold Vga.putchar Vga.printPlace
      rw [if_neg hnl, if_neg hbs]
    show (Screen.text v).sheet.Puts (Screen.text (v.putchar c)).sheet _ _
    rw [hput]
    exact v.settle_puts c (text_valid.mp h)
  | fb f => exact Fb.putchar_puts h hnl hbs

theorem erases (h : s.Valid) (h0 : 0 < s.sheet.pos) : s.sheet.Erases s.kprintBackspace.sheet := by
  cases s with
  | text v =>
    rw [text_pos] at h0
    have hback : v.kprintBackspace =
        ((v.put (2 * (v.cursor - 1 : Nat)) ' ' WHITE_ON_BLACK).settle (v.cursor - 1)).2 := by
      rw [Vga.kprintBackspace_eq (text_valid.mp h)]
      unfold Vga.printPlace
      rw [if_neg (by decide), if_pos rfl]
    show (Screen.text v).sheet.Erases (Screen.text v.kprintBackspace).sheet
    rw [hback]
    exact v.settle_erases (text_valid.mp h) h0
  | fb f => exact Fb.backspace_erases h0

theorem col_newline (h : s.Valid) : (s.putchar '\n').col = 0 := by
  cases s with
  | text v =>
    have hlt := text_valid.mp h
    show ((v.settle ((v.cursor / 80 + 1) * 80)).2).cursor % 80 = 0
    unfold Vga.settle
    by_cases hlast : (v.cursor / 80 + 1) * 80 < 2000
    · rw [if_pos hlast]
      exact Nat.mul_mod_left _ _
    · rw [if_neg hlast]
      show ((v.cursor / 80 + 1) * 80 - 80) % 80 = 0
      omega
  | fb f =>
    show ({ f.hideCursor with curCol := 0, curRow := f.hideCursor.curRow + 1 } : Fb).settle.curCol = 0
    rw [Fb.settle_curCol]

/-- not at the end of a row, the screen does not move -/
theorem moved_eq_zero (h : s.col + 1 < s.cols) : s.moved = 0 := if_pos (.inl h)

theorem col_succ (h : s.Valid) (hcol : s.col + 1 < s.cols) (hnl : c ≠ '\n') (hbs : c ≠ BS) :
    (s.putchar c).col = s.col + 1 ∧ (s.putchar c).cols = s.cols := by
  cases s with
  | text v =>
    have hlt := text_valid.mp h
    have hcol' : v.cursor % 80 + 1 < 80 := hcol
    have hput : v.putchar c = ((v.put (2 * v.cursor) c WHITE_ON_BLACK).settle (v.cursor + 1)).2 := by
      unfold Vga.putchar Vga.printPlace
      rw [if_neg hnl, if_neg hbs]
    refine ⟨?_, rfl⟩
    show (v.putchar c).cursor % 80 = v.cursor % 80 + 1
    rw [hput]
    unfold Vga.settle
    rw [if_pos (by omega)]
    show (v.cursor + 1) % 80 = _
    omega
  | fb f =>
    have hcol' : f.curCol + 1 < f.cellCols := hcol
    have hlast : ¬ (f.inked c).cellCols ≤ (f.inked c).curCol + 1 := by
      show ¬ f.hideCursor.cellCols ≤ f.hideCursor.curCol + 1
      rw [Fb.hideCursor_cellCols, Fb.hideCursor_curCol]
      omega
    show (f.putchar c).curCol = _ ∧ (f.putchar c).cellCols = _
    rw [Fb.putchar_eq f hnl hbs, Fb.settle_curCol, Fb.settle_cellCols]
    unfold Fb.advance
    rw [if_neg hlast]
    show f.hideCursor.curCol + 1 = _ ∧ f.hideCursor.cellCols = _
    rw [Fb.hideCursor_cellCols, Fb.hideCursor_curCol]
    exact ⟨rfl, rfl⟩

theorem cols_le (s : Screen) : 80 ≤ s.cols := by
  cases s with
  | text v => exact Nat.le_refl _
  | fb f => exact f.cellCols_pos

def prompt : List Char := ['>', ' ']

/-- **behind a new line, the prompt stands in front of the cursor** -/
theorem ends_prompt (h : s.Valid) : (s.kprint ('\n' :: prompt)).sheet.Ends prompt := by
  have hcols := cols_le (s.putchar '\n')
  have h1 := valid_putchar h '\n'
  have hcol1 := col_newline h
  have h2 := valid_putchar h1 '>'
  obtain ⟨hcol2, hsame⟩ := col_succ (c := '>') h1 (by omega) (by decide) (by decide)
  have hputs1 := puts h1 (c := '>') (by decide) (by decide)
  have hputs2 := puts h2 (c := ' ') (by decide) (by decide)
  rw [moved_eq_zero (by omega)] at hputs1 hputs2
  have hends1 := (hputs1.ends_append_iff (Sheet.ends_nil _)).mpr (Nat.zero_le _)
  have hends2 := (hputs2.ends_append_iff hends1).mpr (by
    rw [Nat.zero_add]
    exact hends1.length_le)
  rw [kprint_eq h]
  exact hends2

/-- the two characters of the prompt look different -/
theorem prompt_distinct (s : Screen) (q : Nat) : s.sheet.reads q '>' → ¬ s.sheet.reads q ' ' := by
  intro hgt hsp
  cases s with
  | text v => exact absurd ((congrArg Prod.fst hgt).symm.trans (congrArg Prod.fst hsp)) (by decide)
  | fb f =>
    have hfst := hgt 1 (by decide) 3 (by decide)
    have hsnd := hsp 1 (by decide) 3 (by decide)
    exact absurd (hfst.symm.trans hsnd) (by decide)

/-- on the text screen, and on a framebuffer of more than `n` cells and a row, a line of `n`
characters never moves off the screen -/
theorem moved_le (h : s.Valid) {n : Nat} (hn : n + s.cols < s.rows * s.cols)
    (hle : n ≤ s.sheet.pos) : s.moved + n ≤ s.sheet.pos := by
  unfold moved
  by_cases hlast : s.col + 1 < s.cols ∨ s.row + 1 < s.rows
  · rw [if_pos hlast]
    omega
  · rw [if_neg hlast]
    obtain ⟨hcol, hrow⟩ := h
    have hrow' : s.row * s.cols + s.cols = s.rows * s.cols := by
      rw [← Nat.succ_mul, show s.row.succ = s.rows by omega]
    show s.cols + n ≤ s.row * s.cols + s.col
    omega

end Screen

end

end Noxis.Fixes
