import Noxis.Fixes.Screen
import Noxis.Lib.Run
import Noxis.Lib.Terminal

/-!
# 23-fixes/drivers/fb.c: the cursor is drawn by inversion

Inverting a cell twice leaves it as it was, so every function takes the cursor away before it draws or
moves.

* `Renders`        the pixels are those of a terminal, its cell inverted if `cursor_drawn`;
* `Console`        the framebuffer, and the terminal that it stands for;
* `renders_always` **they agree after any calls.**
-/

namespace Noxis.Fixes
open Run

/-! ## the picture -/

/-- the pixel of the text; there is nothing behind the last column and below the last row -/
def ground (t : Terminal Char) (x y : Nat) : Rgb :=
  if y / FONT_H < t.rows ∧ x / FONT_W < t.cols then
    if glyphBit (t.cell (y / FONT_H) (x / FONT_W)) (x % FONT_W) (y % FONT_H) then FG else BG
  else BG

/-- and with the cursor -/
def picture (drawn : Bool) (t : Terminal Char) (x y : Nat) : Rgb :=
  if drawn ∧ InCell t.col t.row x y then ground t x y ^^^ 0xffffff else ground t x y

structure Renders (f : Fb) (t : Terminal Char) : Prop where
  rows : t.rows = f.cellRows
  cols : t.cols = f.cellCols
  row : t.row = f.curRow
  col : t.col = f.curCol
  px : ∀ x < f.width, ∀ y < f.height, f.px x y = picture f.cursorDrawn t x y

/-! ## the calls -/

inductive FbCall where
  | putchar (c : Char)
  | backspace
  | cursorAt (col row : Nat)
  | clear

/-- `fb_cursor_at` for a cell of the grid -/
def Fb.call (f : Fb) : FbCall → Option Fb
  | .putchar c => some (f.putchar c)
  | .backspace => some f.backspace
  | .cursorAt col row =>
    if col < f.cellCols ∧ row < f.cellRows then some (f.cursorAt col row) else none
  | .clear => some f.clear

/-- the cell before the cursor is erased -/
def erase (t : Terminal Char) : Terminal Char := t.back.write ' '

/-- what the calls mean -/
def typed (t : Terminal Char) : FbCall → Terminal Char
  | .putchar c => if c = '\n' then t.newline ' ' else if c = BS then erase t else t.put ' ' c
  | .backspace => erase t
  | .cursorAt col row => if h : row < t.rows ∧ col < t.cols then t.moveTo row col h.1 h.2 else t
  | .clear => t.clear ' '

structure Console where
  fb : Fb
  grid : Terminal Char

def Console.step (s : Console) (e : FbCall) : Option Console :=
  (s.fb.call e).map fun f => ⟨f, typed s.grid e⟩

/-- a grid of the size of the framebuffer, with nothing on it -/
def Fb.blankGrid (f : Fb) : Terminal Char where
  rows := f.cellRows
  cols := f.cellCols
  cell := fun _ _ => ' '
  row := 0
  col := 0
  row_lt := Nat.lt_of_lt_of_le Nat.zero_lt_two f.cellRows_pos
  col_lt := Nat.lt_of_lt_of_le (Nat.zero_lt_succ 79) f.cellCols_pos

/-- at the end of `fb_init` -/
def bootConsole (f : Fb) : Console := ⟨f.clear, f.blankGrid⟩

section
variable {f g : Fb} {t t' : Terminal Char} {c : Char} {x y : Nat}

/-! ## without the cursor -/

/-- the text is drawn, the cursor is not, wherever it is -/
structure Fb.Text (f : Fb) (t : Terminal Char) : Prop where
  rows : t.rows = f.cellRows
  cols : t.cols = f.cellCols
  drawn : f.cursorDrawn = false
  px : ∀ x < f.width, ∀ y < f.height, f.px x y = ground t x y

theorem picture_not (drawn : Bool) (t : Terminal Char) (x y : Nat) :
    picture (!drawn) t x y =
      if InCell t.col t.row x y then picture drawn t x y ^^^ 0xffffff else picture drawn t x y := by
  unfold picture
  by_cases hin : InCell t.col t.row x y
  · rw [if_pos hin]
    cases drawn with
    | true =>
      rw [if_neg (by simp), if_pos ⟨rfl, hin⟩, BitVec.xor_assoc, BitVec.xor_self, BitVec.xor_zero]
    | false => rw [if_pos ⟨rfl, hin⟩, if_neg (by simp)]
  · rw [if_neg hin, if_neg fun h => hin h.2, if_neg fun h => hin h.2]

theorem Renders.xor (h : Renders f t) : Renders f.cursorXor t where
  rows := h.rows
  cols := h.cols
  row := h.row
  col := h.col
  px x hx y hy := by
    show (if InCell f.curCol f.curRow x y then f.px x y ^^^ 0xffffff else f.px x y) =
      picture (!f.cursorDrawn) t x y
    rw [picture_not, h.row, h.col, h.px x hx y hy]

theorem picture_false (t : Terminal Char) (x y : Nat) : picture false t x y = ground t x y :=
  if_neg (by simp)

theorem Renders.text (h : Renders f t) (hd : f.cursorDrawn = false) : f.Text t where
  rows := h.rows
  cols := h.cols
  drawn := hd
  px x hx y hy := by rw [h.px x hx y hy, hd, picture_false]

theorem Renders.hide (h : Renders f t) : f.hideCursor.Text t := by
  unfold Fb.hideCursor
  by_cases hd : f.cursorDrawn = true
  · rw [if_pos hd]
    refine h.xor.text ?_
    show (!f.cursorDrawn) = false
    rw [hd]
    rfl
  · rw [if_neg hd]
    exact h.text (by simpa using hd)

theorem Fb.Text.renders (h : f.Text t) (hrow : t.row = f.curRow) (hcol : t.col = f.curCol) :
    Renders f t where
  rows := h.rows
  cols := h.cols
  row := hrow
  col := hcol
  px x hx y hy := by rw [h.px x hx y hy, h.drawn, picture_false]

theorem Fb.Text.show (h : f.Text t) (hrow : t.row = f.curRow) (hcol : t.col = f.curCol) :
    Renders f.showCursor t := by
  unfold showCursor
  rw [if_neg (by rw [h.drawn]; exact Bool.false_ne_true)]
  exact (h.renders hrow hcol).xor

/-- the cursor of the terminal does not matter -/
theorem Fb.Text.congr (h : f.Text t) (hrows : t'.rows = t.rows) (hcols : t'.cols = t.cols)
    (hcell : t'.cell = t.cell) : f.Text t' where
  rows := hrows.trans h.rows
  cols := hcols.trans h.cols
  drawn := h.drawn
  px x hx y hy := by
    rw [h.px x hx y hy]
    unfold ground
    rw [hrows, hcols, hcell]

/-- nor does that of the framebuffer -/
theorem Fb.Text.move (h : f.Text t) (row col : Nat) :
    Fb.Text { f with curRow := row, curCol := col } t :=
  ⟨h.rows, h.cols, h.drawn, h.px⟩

/-! ## drawing -/

theorem inCell_div (col row x y : Nat) : InCell col row x y ↔ col = x / FONT_W ∧ row = y / FONT_H := by
  show col * 8 ≤ x ∧ x < col * 8 + 8 ∧ row * 16 ≤ y ∧ y < row * 16 + 16 ↔ col = x / 8 ∧ row = y / 16
  omega

theorem Fb.Text.draw (h : f.Text t) (hrow : t.row = f.curRow) (hcol : t.col = f.curCol) (c : Char) :
    (f.drawGlyph f.curCol f.curRow c FG BG).Text (t.write c) where
  rows := h.rows
  cols := h.cols
  drawn := h.drawn
  px x hx y hy := by
    show (if InCell f.curCol f.curRow x y then
      if glyphBit c (x - f.curCol * FONT_W) (y - f.curRow * FONT_H) then FG else BG else f.px x y) = _
    unfold ground
    show _ = if y / FONT_H < t.rows ∧ x / FONT_W < t.cols then
      if glyphBit (if y / FONT_H = t.row ∧ x / FONT_W = t.col then c
        else t.cell (y / FONT_H) (x / FONT_W)) (x % FONT_W) (y % FONT_H) then FG else BG else BG
    by_cases hin : InCell f.curCol f.curRow x y
    · obtain ⟨hx', hy'⟩ := (inCell_div _ _ _ _).mp hin
      have hcell : y / FONT_H = t.row ∧ x / FONT_W = t.col :=
        ⟨(hrow.trans hy').symm, (hcol.trans hx').symm⟩
      have hgrid : y / FONT_H < t.rows ∧ x / FONT_W < t.cols := by
        rw [hcell.1, hcell.2]
        exact ⟨t.row_lt, t.col_lt⟩
      have hrx : x - f.curCol * FONT_W = x % FONT_W := by
        rw [hx']
        unfold FONT_W
        omega
      have hry : y - f.curRow * FONT_H = y % FONT_H := by
        rw [hy']
        unfold FONT_H
        omega
      rw [if_pos hin, if_pos hgrid, if_pos hcell, hrx, hry]
    · rw [if_neg hin, h.px x hx y hy]
      have hne : ¬ (y / FONT_H = t.row ∧ x / FONT_W = t.col) := by
        rw [hrow, hcol]
        exact fun he => hin ((inCell_div _ _ _ _).mpr ⟨he.2.symm, he.1.symm⟩)
      rw [if_neg hne]
      rfl

/-- a space is all background -/
theorem glyphBit_space (rx ry : Nat) : glyphBit ' ' rx ry = false := by
  unfold glyphBit
  rw [if_pos (by decide)]
  show (0 : BitVec 128).getLsbD _ = false
  exact BitVec.getLsbD_zero

theorem ground_space (h : t.cell (y / FONT_H) (x / FONT_W) = ' ') : ground t x y = BG := by
  unfold ground
  rw [h, glyphBit_space]
  split <;> rfl

theorem Fb.Text.scroll (h : f.Text t) : f.scrollUp.Text (t.scroll ' ') where
  rows := h.rows
  cols := h.cols
  drawn := h.drawn
  px x hx y hy := by
    have hx' : x < f.width := hx
    have hy' : y < f.height := hy
    have hrows : f.cellRows * 16 ≤ f.height := Nat.div_mul_le_self f.height 16
    have hpos := f.cellRows_pos
    show (if f.width ≤ x then f.px x y else if y < (f.cellRows - 1) * 16 then f.px x (y + 16)
      else if y < f.cellRows * 16 then BG else f.px x y) = _
    rw [if_neg (by omega)]
    by_cases hup : y < (f.cellRows - 1) * 16
    · rw [if_pos hup, h.px x hx' (y + 16) (by omega)]
      have hnext : y / 16 + 1 < t.rows := by
        rw [h.rows]
        omega
      unfold ground
      show _ = if y / 16 < t.rows ∧ x / FONT_W < t.cols then
        if glyphBit (if y / 16 + 1 < t.rows then t.cell (y / 16 + 1) (x / FONT_W) else ' ')
          (x % FONT_W) (y % 16) then FG else BG else BG
      show (if (y + 16) / 16 < t.rows ∧ x / FONT_W < t.cols then
        if glyphBit (t.cell ((y + 16) / 16) (x / FONT_W)) (x % FONT_W) ((y + 16) % 16) then FG else BG
        else BG) = _
      rw [if_pos hnext, Nat.add_div_right y (by omega), Nat.add_mod_right]
      refine if_congr ?_ rfl rfl
      have hnow : y / 16 < t.rows := by omega
      rw [eq_true hnext, eq_true hnow]
    · have hblank : ground (t.scroll ' ') x y = BG := by
        refine ground_space (if_neg ?_)
        rw [h.rows]
        show ¬ y / 16 + 1 < f.cellRows
        omega
      rw [if_neg hup, hblank]
      by_cases hlast : y < f.cellRows * 16
      · rw [if_pos hlast]
      · rw [if_neg hlast, h.px x hx' y hy']
        unfold ground
        rw [if_neg fun hin => ?_]
        have hlt : y / 16 < t.rows := hin.1
        rw [h.rows] at hlt
        omega

/-! ## the calls -/

/-- the cursor is where it was -/
theorem Renders.hide_at (h : Renders f t) :
    t.row = f.hideCursor.curRow ∧ t.col = f.hideCursor.curCol := by
  rw [Fb.hideCursor_curRow, Fb.hideCursor_curCol]
  exact ⟨h.row, h.col⟩

/-- the start of the next row -/
theorem Fb.Text.newline (h : f.Text t) (hrow : t.row = f.curRow) :
    Renders ({ f with curCol := 0, curRow := f.curRow + 1 } : Fb).settle (t.newline ' ') := by
  have hmoved : Fb.Text { f with curCol := 0, curRow := f.curRow + 1 } t := h.move _ _
  unfold Terminal.newline
  by_cases hlast : t.row + 1 < t.rows
  · have hlt : f.curRow + 1 < f.cellRows := by rwa [← hrow, ← h.rows]
    rw [dif_pos hlast, settle_of_lt (by exact hlt)]
    refine Fb.Text.show (hmoved.congr rfl rfl rfl) ?_ rfl
    show t.row + 1 = f.curRow + 1
    rw [hrow]
  · have hge : f.cellRows ≤ f.curRow + 1 := by rw [← hrow, ← h.rows]; omega
    have hlt := t.row_lt
    rw [dif_neg hlast, settle_of_ge (by exact hge)]
    refine Fb.Text.show (((hmoved.move (f.cellRows - 1) 0).scroll).congr rfl rfl rfl) ?_ rfl
    show t.row = f.cellRows - 1
    rw [← h.rows]
    omega

theorem Fb.Text.advance (h : f.Text t) (hrow : t.row = f.curRow) (hcol : t.col = f.curCol) :
    Renders f.advance.settle (t.advance ' ') := by
  have hlt : f.curRow < f.cellRows := by
    rw [← hrow, ← h.rows]
    exact t.row_lt
  unfold Fb.advance Terminal.advance
  by_cases hlast : t.col + 1 < t.cols
  · have hin : ¬ f.cellCols ≤ f.curCol + 1 := by rw [← hcol, ← h.cols]; omega
    rw [dif_pos hlast, if_neg hin, settle_of_lt (by exact hlt)]
    refine Fb.Text.show ((h.move f.curRow (f.curCol + 1)).congr rfl rfl rfl) hrow ?_
    show t.col + 1 = f.curCol + 1
    rw [hcol]
  · have hout : f.cellCols ≤ f.curCol + 1 := by rw [← hcol, ← h.cols]; omega
    rw [dif_neg hlast, if_pos hout]
    exact h.newline hrow

theorem Fb.Text.back (h : f.Text t) (hrow : t.row = f.curRow) (hcol : t.col = f.curCol) :
    f.back.Text t.back ∧ t.back.row = f.back.curRow ∧ t.back.col = f.back.curCol := by
  unfold Fb.back Terminal.back
  by_cases hc : 0 < t.col
  · rw [if_pos hc, if_pos (hcol ▸ hc)]
    refine ⟨(h.move f.curRow (f.curCol - 1)).congr rfl rfl rfl, hrow, ?_⟩
    show t.col - 1 = f.curCol - 1
    rw [hcol]
  rw [if_neg hc, if_neg (hcol ▸ hc)]
  by_cases hr : 0 < t.row
  · rw [if_pos hr, if_pos (hrow ▸ hr)]
    refine ⟨(h.move (f.curRow - 1) (f.cellCols - 1)).congr rfl rfl rfl, ?_, ?_⟩
    · show t.row - 1 = f.curRow - 1
      rw [hrow]
    · show t.cols - 1 = f.cellCols - 1
      rw [h.cols]
  · rw [if_neg hr, if_neg (hrow ▸ hr)]
    exact ⟨h, hrow, hcol⟩

theorem Renders.backspace (h : Renders f t) : Renders f.backspace (erase t) := by
  obtain ⟨hrow, hcol⟩ := h.hide_at
  obtain ⟨htext, hrow', hcol'⟩ := h.hide.back hrow hcol
  rw [Fb.backspace_eq]
  exact (htext.draw hrow' hcol' ' ').show hrow' hcol'

/-- hiding the cursor twice -/
theorem Renders.hidden (h : Renders f t) : Renders f.hideCursor t :=
  h.hide.renders h.hide_at.1 h.hide_at.2

theorem Renders.putchar (h : Renders f t) (c : Char) :
    Renders (f.putchar c) (typed t (.putchar c)) := by
  obtain ⟨hrow, hcol⟩ := h.hide_at
  unfold typed
  simp only
  by_cases hnl : c = '\n'
  · have hput : f.putchar c =
        ({ f.hideCursor with curCol := 0, curRow := f.hideCursor.curRow + 1 } : Fb).settle := if_pos hnl
    rw [if_pos hnl, hput]
    exact h.hide.newline hrow
  rw [if_neg hnl]
  by_cases hbs : c = BS
  · have hput : f.putchar c = f.hideCursor.backspace := by
      unfold Fb.putchar
      simp only
      rw [if_neg hnl, if_pos hbs]
    rw [if_pos hbs, hput]
    exact h.hidden.backspace
  · rw [if_neg hbs, Fb.putchar_eq f hnl hbs]
    exact (h.hide.draw hrow hcol c).advance hrow hcol

theorem Renders.clear (h : Renders f t) : Renders f.clear (t.clear ' ') where
  rows := h.rows
  cols := h.cols
  row := rfl
  col := rfl
  px x hx y hy := by
    show (if x < f.width ∧ y < f.height then BG else f.px x y) = picture false (t.clear ' ') x y
    rw [if_pos ⟨hx, hy⟩, picture_false, ground_space rfl]

theorem Renders.cursorAt (h : Renders f t) (row col : Nat) (hrow : row < t.rows) (hcol : col < t.cols) :
    Renders (f.cursorAt col row) (t.moveTo row col hrow hcol) :=
  Fb.Text.renders (f := f.cursorAt col row) ((h.hide.move row col).congr rfl rfl rfl) rfl rfl

/-- **A call.** -/
theorem Renders.call {e : FbCall} (h : Renders f t) (hc : f.call e = some g) :
    Renders g (typed t e) := by
  cases e with
  | putchar c =>
    rw [← Option.some.inj hc]
    exact h.putchar c
  | backspace =>
    rw [← Option.some.inj hc]
    exact h.backspace
  | cursorAt col row =>
    obtain ⟨⟨hcol, hrow⟩, hc⟩ := Option.ite_none_right_eq_some.mp hc
    have hin : row < t.rows ∧ col < t.cols := by
      rw [h.rows, h.cols]
      exact ⟨hrow, hcol⟩
    rw [← Option.some.inj hc]
    unfold typed
    simp only
    rw [dif_pos hin]
    exact h.cursorAt row col hin.1 hin.2
  | clear =>
    rw [← Option.some.inj hc]
    exact h.clear

theorem renders_boot (f : Fb) : Renders f.clear f.blankGrid where
  rows := rfl
  cols := rfl
  row := rfl
  col := rfl
  px x hx y hy := by
    show (if x < f.width ∧ y < f.height then BG else f.px x y) = picture false f.blankGrid x y
    rw [if_pos ⟨hx, hy⟩, picture_false, ground_space rfl]

/-- **After any calls the pixels are those of the text**, with the cell of the cursor inverted exactly
if `cursor_drawn` is set. -/
theorem renders_always (f : Fb) (calls : List FbCall) :
    Renders f.clear f.blankGrid ∧
      Always (stepOf Console.step) (fun _ _ s => Renders s.fb s.grid) (bootConsole f) calls := by
  refine ⟨renders_boot f, Always.of_inv (I := fun s : Console => Renders s.fb s.grid) ?_ calls _
    (renders_boot f)⟩
  intro s e s' h hs
  obtain ⟨g, hg, rfl⟩ := Option.map_eq_some_iff.mp hs
  exact ⟨h.call hg, h.call hg⟩

end

end Noxis.Fixes
