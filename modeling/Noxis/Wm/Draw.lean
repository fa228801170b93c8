import Noxis.Wm.Explorer
import Noxis.Wm.Grid
import Noxis.Wm.OnScreen
import Noxis.Wm.Selection

/-!
# How a window is painted

`wm_draw_window` of kernel/wm.c paints the frame, the title and what is in the window: the terminal,
or the list or the text of the explorer.

* `Mark`            a pixel that is written, or an element of an array that is used
* `wmDrawWindow`    the function of the source, with all that it marks
* `Scene`           a window on the screen, and the data that it shows
* `paints_iff`      **it paints the window and its shadow alone, and stays in all arrays**
-/

namespace Noxis.Wm.Draw

/-! ## data -/

/-- a pixel of the frame buffer that is written, or an element of an array that is read or written -/
inductive Mark where
  | pixel (x y : Int) (color : Nat)
  /-- a row of `wm_font8x16` -/
  | glyph (g row : Nat)
  | title (k : Nat)
  | cell (r c : Nat)
  | entry (idx : Int)
  | name (k : Nat)
  /-- the arrays `tmp`, `sizebuf` and `rowbuf` -/
  | tmp (k : Nat)
  | sizebuf (k : Nat)
  | rowbuf (k : Nat)
  | view (i : Nat)
  /-- a string literal with its zero -/
  | literal (size k : Nat)

def WM_FONT_W : Nat := 8
def WM_FONT_H : Nat := 16
def WM_FONT_FIRST : Nat := 32
def WM_FONT_LAST : Nat := 126

def wmTermPad : Int := 2
/-- `sizeof(rowbuf)` -/
def rowbufSize : Nat := 64

def wmColorBorder : Nat := 8
def wmColorTitlebar : Nat := 9
def wmColorTitleText : Nat := 15
def wmColorWindowBg : Nat := 7
def wmColorShadow : Nat := 0
def wmColorTermBg : Nat := 0
def wmColorTermText : Nat := 15
def wmColorExplSel : Nat := 9

/-- the rows of the glyphs -/
abbrev Font := Nat → Nat → BitVec 8

/-! ## the primitives -/

/-- `for (x = x1; x <= x2; x++)` -/
def span (x1 x2 : Int) : List Int := (List.range (x2 + 1 - x1).toNat).map fun k : Nat => x1 + k

def wmPutpixel (x y : Int) (color : Nat) : List Mark :=
  if x < 0 ∨ x ≥ gfxFbW ∨ y < 0 ∨ y ≥ gfxFbH then [] else [.pixel x y color]

/-- two ends in order, and on the screen -/
def clipSpan (a b size : Int) : Int × Int :=
  let (a, b) := if a > b then (b, a) else (a, b)
  (if a < 0 then 0 else a, if b ≥ size then size - 1 else b)

def wmHline (x1 x2 y : Int) (color : Nat) : List Mark :=
  if y < 0 ∨ y ≥ gfxFbH then []
  else (span (clipSpan x1 x2 gfxFbW).1 (clipSpan x1 x2 gfxFbW).2).map fun x => .pixel x y color

def wmVline (x y1 y2 : Int) (color : Nat) : List Mark :=
  if x < 0 ∨ x ≥ gfxFbW then []
  else (span (clipSpan y1 y2 gfxFbH).1 (clipSpan y1 y2 gfxFbH).2).map fun y => .pixel x y color

def wmFillRect (x1 y1 x2 y2 : Int) (color : Nat) : List Mark :=
  (span (clipSpan y1 y2 gfxFbH).1 (clipSpan y1 y2 gfxFbH).2).flatMap fun y =>
    (span (clipSpan x1 x2 gfxFbW).1 (clipSpan x1 x2 gfxFbW).2).map fun x => .pixel x y color

def wmDrawChar (font : Font) (x y : Int) (c color : Nat) : List Mark :=
  if c < WM_FONT_FIRST ∨ c > WM_FONT_LAST then []
  else (List.range WM_FONT_H).flatMap fun ry : Nat =>
    (List.range WM_FONT_W).flatMap fun rx : Nat =>
      .glyph (c - WM_FONT_FIRST) ry ::
        if font (c - WM_FONT_FIRST) ry &&& (0x80#8 >>> rx) ≠ 0 then
          wmPutpixel (x + rx) (y + ry) color
        else []

/-- `read i` is the read of `text[i]` -/
def wmDrawText (font : Font) (read : Nat → Mark) (x y : Int) (color : Nat) (maxPx : Int) :
    List Nat → Nat → List Mark
  | [], i => [read i]
  | c :: text, i =>
    read i :: if c = 0 ∨ (i + 1) * WM_FONT_W > maxPx then []
      else wmDrawChar font (x + i * WM_FONT_W) y c color ++
        wmDrawText font read x y color maxPx text (i + 1)

/-! ## the terminal -/

/-- a row or a column that does not reach over `limit`; the loop stops at the first that does -/
def fitting (n : Nat) (start size limit : Int) : List (Fin n) :=
  (List.finRange n).takeWhile fun k : Fin n => ¬ start + k.val * size + size > limit

def wmDrawTerminal (font : Font) (f : Files) (i : Slot) : List Mark :=
  let win := f.desk.windows i
  let t := f.desk.term
  let x0 := win.x + wmBorderWidth + wmTermPad
  let y0 := win.y + wmTitleHeight + wmTermPad
  let right := win.x + win.width - wmBorderWidth
  let bottom := win.y + win.height - wmBorderWidth
  let back := wmFillRect (win.x + wmBorderWidth) (win.y + wmTitleHeight) (right - 1) (bottom - 1)
    wmColorTermBg
  let text := (fitting wmTermRows y0 wmTermCellH bottom).flatMap fun r : Fin wmTermRows =>
    (fitting wmTermCols x0 wmTermCellW right).flatMap fun c : Fin wmTermCols =>
      .cell r.val c.val :: wmDrawChar font (x0 + c.val * wmTermCellW) (y0 + r.val * wmTermCellH)
        (t.cells r c).toNat wmColorTermText
  let cx := x0 + t.curCol * wmTermCellW
  let cy := y0 + t.curRow * wmTermCellH
  let cursor :=
    if f.desk.activeWindow = some i ∧ cx + wmTermCellW ≤ right ∧ cy + wmTermCellH ≤ bottom then
      wmFillRect cx (cy + wmTermCellH - 2) (cx + wmTermCellW - 1) (cy + wmTermCellH - 1)
        wmColorTermText
    else []
  back ++ text ++ cursor

/-! ## the explorer -/

def wmDrawExplLine (font : Font) (read : Nat → Mark) (tx ty : Int) (color : Nat) (maxChars : Int) :
    List Nat → Nat → List Mark
  | [], i => [read i]
  | c :: text, i =>
    read i :: if c = 0 ∨ ¬ i < maxChars then []
      else wmDrawChar font (tx + i * wmTermCellW) ty c color ++
        wmDrawExplLine font read tx ty color maxChars text (i + 1)

/-- `tmp`: the digits of a size, the last one first, with room for `n` -/
def sizeDigits : Nat → Nat → List Nat
  | 0, _ => []
  | n + 1, sz => if sz = 0 then [] else (0x30 + sz % 10) :: sizeDigits n (sz / 10)

/-- `sizebuf` without its zero -/
def sizeText (sz : Int) : List Nat := if sz ≤ 0 then [0x2D] else (sizeDigits 11 sz.toNat).reverse

/-- `out[pos++]`, for one character after the other while there is room -/
def putAll (outSz : Nat) : List Nat → List Nat → List Nat
  | [], out => out
  | c :: l, out => if out.length < outSz - 1 then putAll outSz l (out ++ [c]) else out

/-- the columns of the name -/
def nameCols (sl : Nat) (outSz cols : Int) : Int :=
  let n := cols - sl - 1
  let n := if n < 1 then 1 else n
  if n + sl + 1 ≥ outSz then outSz - sl - 2 else n

/-- the characters of a name -/
def chars (e : Entry) : List Nat := (e.name.takeWhile (· ≠ 0)).map BitVec.toNat

/-- the row without its zero -/
def wmExplFormatRow (e : Entry) (outSz : Nat) (cols : Int) : List Nat :=
  let sizebuf := sizeText e.size
  let n := (nameCols sizebuf.length outSz cols).toNat
  let out := putAll outSz ((chars e).take n) []
  let out := putAll outSz (List.replicate (n - out.length) 0x20) out
  let out := putAll outSz [0x20] out
  putAll outSz sizebuf out

/-- the elements of the arrays that `wm_expl_format_row` uses -/
def formatMarks (e : Entry) (outSz : Nat) (cols : Int) : List Mark :=
  (if e.size ≤ 0 then [] else (List.range (sizeText e.size).length).map .tmp) ++
    (List.range ((sizeText e.size).length + 1)).map .sizebuf ++
    (List.range ((chars e).length + 1)).map .name ++
    (List.range ((wmExplFormatRow e outSz cols).length + 1)).map .rowbuf

/-- the columns of the client area, at most `most` -/
def clientCols (win : Window) (most : Int) : Int :=
  let cols := (win.width - 2 * wmBorderWidth - 2 * wmExplPad).tdiv wmTermCellW
  if cols > most then most else cols

def rootIsEmpty : List Nat := [0x28, 0x72, 0x6F, 0x6F, 0x74, 0x20, 0x69, 0x73, 0x20, 0x65, 0x6D, 0x70,
  0x74, 0x79, 0x29]

def noText : List Nat := [0x28, 0x6E, 0x6F, 0x20, 0x74, 0x65, 0x78, 0x74, 0x29]

/-- the rows of the list from row `r` on, with `n` of them left -/
def drawRows (font : Font) (f : Files) (win : Window) (tx ty cols : Int) :
    Nat → Nat → List Mark
  | 0, _ => []
  | n + 1, r =>
    let idx := f.desk.expl.scroll + r
    if idx ≥ f.desk.expl.nEntries then []
    else
      let selected := idx = f.desk.expl.cursor
      let y := ty + r * wmTermCellH
      let bar := if selected then
          wmFillRect (tx - wmExplPad) y (win.x + win.width - wmBorderWidth - wmExplPad)
            (y + wmTermCellH - 1) wmColorExplSel
        else []
      let e := f.entries idx.toNat
      bar ++ .entry idx :: formatMarks e rowbufSize cols ++
        wmDrawExplLine font .rowbuf tx y (if selected then wmColorTitleText else wmColorBorder) cols
          (wmExplFormatRow e rowbufSize cols) 0 ++
        drawRows font f win tx ty cols n (r + 1)

def wmDrawExplList (font : Font) (f : Files) (i : Slot) : List Mark :=
  let win := f.desk.windows i
  let tx := win.x + wmBorderWidth + wmExplPad
  let ty := win.y + wmTitleHeight + wmExplPad
  let cols := clientCols win 40
  if f.desk.expl.nEntries = 0 then
    wmDrawExplLine font (.literal (rootIsEmpty.length + 1)) tx ty wmColorBorder cols rootIsEmpty 0
  else drawRows font f win tx ty cols (f.desk.wmExplVisibleRows i).toNat 0

/-- the text from character `i` on, with `n` of them left -/
def drawView (font : Font) (f : Files) (tx ty cols first maxRows : Int) :
    Nat → Nat → Int → Int → List Mark
  | 0, _, _, _ => []
  | n + 1, i, line, col =>
    let ch := f.view.getD i 0
    .view i :: if ch = 0x0A then drawView font f tx ty cols first maxRows n (i + 1) (line + 1) 0
      else
        let glyph := if line ≥ first ∧ line < int (first + maxRows) then
            wmDrawChar font (tx + col * wmTermCellW) (ty + (line - first) * wmTermCellH) ch.toNat
              wmColorBorder
          else []
        glyph ++ if col + 1 ≥ cols then drawView font f tx ty cols first maxRows n (i + 1) (line + 1) 0
          else drawView font f tx ty cols first maxRows n (i + 1) line (col + 1)

def wmDrawExplView (font : Font) (f : Files) (i : Slot) : List Mark :=
  let win := f.desk.windows i
  let tx := win.x + wmBorderWidth + wmExplPad
  let ty := win.y + wmTitleHeight + wmExplPad
  let cols := clientCols win 60
  if f.desk.expl.viewLen = 0 then
    wmDrawExplLine font (.literal (noText.length + 1)) tx ty wmColorBorder cols noText 0
  else drawView font f tx ty cols f.desk.expl.viewRow (f.desk.wmExplVisibleRows i)
    f.desk.expl.viewLen.toNat 0 0 0

def wmDrawExplorer (font : Font) (f : Files) (i : Slot) : List Mark :=
  match f.desk.expl.state with
  | .view => wmDrawExplView font f i
  | .list => wmDrawExplList font f i

/-! ## a window -/

/-- no sum of the source overflows while the window is on the screen -/
def wmDrawWindow (font : Font) (f : Files) (winId : Int) : List Mark :=
  match slot? winId with
  | none => []
  | some i =>
    let win := f.desk.windows i
    if win.state = .closed then []
    else
      let x := win.x
      let y := win.y
      let w := win.width
      let h := win.height
      let titleColor := if f.desk.activeWindow = some i then wmColorTitlebar else wmColorTitlebar - 2
      wmFillRect (x + 2) (y + 2) (x + w + 1) (y + h + 1) wmColorShadow ++
        wmFillRect x y (x + w - 1) (y + h - 1) wmColorBorder ++
        wmFillRect (x + wmBorderWidth) (y + wmBorderWidth) (x + w - wmBorderWidth - 1)
          (y + wmTitleHeight - 1) titleColor ++
        wmDrawText font .title (x + wmBorderWidth + 2) (y + wmBorderWidth) wmColorTitleText
          (w - 2 * wmBorderWidth - 4) (win.title.map UInt8.toNat) 0 ++
        wmFillRect (x + wmBorderWidth) (y + wmTitleHeight) (x + w - wmBorderWidth - 1)
          (y + h - wmBorderWidth - 1) wmColorWindowBg ++
        (if f.desk.term.winId = some i then wmDrawTerminal font f i else []) ++
        (if f.desk.expl.winId = some i then wmDrawExplorer font f i else []) ++
        wmHline (x + 1) (x + w - 2) (y + 1) wmColorWindowBg ++
        wmVline (x + 1) (y + 1) (y + h - 2) wmColorWindowBg

/-! ## the area of a window -/

/-- the rectangle of a window and its shadow -/
structure Area (w : Window) (x y : Int) : Prop where
  left : w.x ≤ x
  right : x ≤ w.x + w.width + 1
  top : w.y ≤ y
  bottom : y ≤ w.y + w.height + 1

/-- a pixel of the window on the screen, or an element that the array has -/
def Mark.Inside (w : Window) : Mark → Prop
  | .pixel x y _ => Area w x y ∧ (0 ≤ x ∧ x < gfxFbW) ∧ 0 ≤ y ∧ y < gfxFbH
  | .glyph g row => g ≤ WM_FONT_LAST - WM_FONT_FIRST ∧ row < WM_FONT_H
  | .title k => k < 32
  | .cell r c => r < wmTermRows ∧ c < wmTermCols
  | .entry idx => 0 ≤ idx ∧ idx < wmExplMaxEntries
  | .name k => k < wmExplNameLen
  | .tmp k => k < 12
  | .sizebuf k => k < 12
  | .rowbuf k => k < rowbufSize
  | .view i => i < wmExplViewMax
  | .literal size k => k < size

def Inside (w : Window) (l : List Mark) : Prop := ∀ m ∈ l, m.Inside w

section
variable {w : Window} {l l' : List Mark} {font : Font} {x y x1 y1 x2 y2 : Int} {color : Nat}

@[simp] theorem inside_nil : Inside w [] := List.forall_mem_nil _

@[simp] theorem inside_cons {m : Mark} : Inside w (m :: l) ↔ m.Inside w ∧ Inside w l :=
  List.forall_mem_cons

@[simp] theorem inside_append : Inside w (l ++ l') ↔ Inside w l ∧ Inside w l' :=
  List.forall_mem_append

theorem inside_flatMap {α : Type} {f : α → List Mark} {a : List α}
    (h : ∀ k ∈ a, Inside w (f k)) : Inside w (a.flatMap f) := by
  intro m hm
  obtain ⟨k, hk, hmk⟩ := List.mem_flatMap.mp hm
  exact h k hk m hmk

theorem inside_map {α : Type} {f : α → Mark} {a : List α} (h : ∀ k ∈ a, (f k).Inside w) :
    Inside w (a.map f) := by
  intro m hm
  obtain ⟨k, hk, rfl⟩ := List.mem_map.mp hm
  exact h k hk

theorem inside_ite {p : Prop} [Decidable p] (h : p → Inside w l) :
    Inside w (if p then l else []) := by
  by_cases hp : p
  · rw [if_pos hp]
    exact h hp
  · rw [if_neg hp]
    exact inside_nil

/-! ## what a primitive paints -/

theorem mem_span {c : Int} : c ∈ span x1 x2 ↔ x1 ≤ c ∧ c ≤ x2 := by
  unfold span
  rw [List.mem_map]
  constructor
  · rintro ⟨k, hk, rfl⟩
    have hk := List.mem_range.mp hk
    omega
  · intro h
    refine ⟨(c - x1).toNat, List.mem_range.mpr ?_, ?_⟩ <;> omega

/-- a clipped side lies between its ends, and on the screen -/
theorem mem_clipSpan {a b size c lo hi : Int} (ha : lo ≤ a ∧ a ≤ hi) (hb : lo ≤ b ∧ b ≤ hi)
    (h : c ∈ span (clipSpan a b size).1 (clipSpan a b size).2) :
    (lo ≤ c ∧ c ≤ hi) ∧ 0 ≤ c ∧ c < size := by
  rw [mem_span] at h
  revert h
  unfold clipSpan
  by_cases hab : a > b
  · simp only [if_pos hab]
    split_ifs <;> omega
  · simp only [if_neg hab]
    split_ifs <;> omega

theorem fillRect_inside (h1 : Area w x1 y1) (h2 : Area w x2 y2) :
    Inside w (wmFillRect x1 y1 x2 y2 color) := by
  refine inside_flatMap fun y hy => inside_map fun x hx => ?_
  obtain ⟨⟨htop, hbottom⟩, hy⟩ := mem_clipSpan ⟨h1.top, h1.bottom⟩ ⟨h2.top, h2.bottom⟩ hy
  obtain ⟨⟨hleft, hright⟩, hx⟩ := mem_clipSpan ⟨h1.left, h1.right⟩ ⟨h2.left, h2.right⟩ hx
  exact ⟨⟨hleft, hright, htop, hbottom⟩, hx, hy⟩

theorem hline_inside (h1 : Area w x1 y) (h2 : Area w x2 y) :
    Inside w (wmHline x1 x2 y color) := by
  unfold wmHline
  split_ifs with hout
  · exact inside_nil
  · refine inside_map fun x hx => ?_
    obtain ⟨⟨hleft, hright⟩, hx⟩ := mem_clipSpan ⟨h1.left, h1.right⟩ ⟨h2.left, h2.right⟩ hx
    exact ⟨⟨hleft, hright, h1.top, h1.bottom⟩, hx, by omega⟩

theorem vline_inside (h1 : Area w x y1) (h2 : Area w x y2) :
    Inside w (wmVline x y1 y2 color) := by
  unfold wmVline
  split_ifs with hout
  · exact inside_nil
  · refine inside_map fun y hy => ?_
    obtain ⟨⟨htop, hbottom⟩, hy⟩ := mem_clipSpan ⟨h1.top, h1.bottom⟩ ⟨h2.top, h2.bottom⟩ hy
    exact ⟨⟨h1.left, h1.right, htop, hbottom⟩, by omega, hy⟩

theorem putpixel_inside (h : Area w x y) : Inside w (wmPutpixel x y color) := by
  unfold wmPutpixel
  split_ifs with hout
  · exact inside_nil
  · exact inside_cons.mpr ⟨⟨h, by omega, by omega⟩, inside_nil⟩

/-- a character, whatever its code and its glyph are -/
theorem drawChar_inside {c : Nat} (h1 : Area w x y) (h2 : Area w (x + 7) (y + 15)) :
    Inside w (wmDrawChar font x y c color) := by
  unfold wmDrawChar
  split_ifs with hc
  · exact inside_nil
  · refine inside_flatMap fun ry hry => inside_flatMap fun rx hrx => ?_
    have hry : ry < 16 := List.mem_range.mp hry
    have hrx : rx < 8 := List.mem_range.mp hrx
    refine inside_cons.mpr ⟨⟨by omega, hry⟩, inside_ite fun _ => putpixel_inside ?_⟩
    obtain ⟨hl1, -, ht1, -⟩ := h1
    obtain ⟨-, hr2, -, hb2⟩ := h2
    constructor <;> omega

/-- a text that starts at `x`, of which `maxPx` pixels may be used -/
theorem drawText_inside {read : Nat → Mark} {maxPx : Int} {text : List Nat} {i : Nat}
    (h1 : Area w x y) (hright : x + maxPx ≤ w.x + w.width + 2)
    (hbottom : y + 15 ≤ w.y + w.height + 1) (hread : ∀ k ≤ i + text.length, (read k).Inside w) :
    Inside w (wmDrawText font read x y color maxPx text i) := by
  induction text generalizing i with
  | nil => exact inside_cons.mpr ⟨hread i (Nat.le_add_right i 0), inside_nil⟩
  | cons c text ih =>
    have hlen : (c :: text).length = text.length + 1 := rfl
    rw [wmDrawText]
    refine inside_cons.mpr ⟨hread i (Nat.le_add_right i _), ?_⟩
    split_ifs with hstop
    · exact inside_nil
    · have hfits : ((i : Int) + 1) * 8 ≤ maxPx := not_lt.mp fun hlt => hstop (.inr (by
        unfold WM_FONT_W
        omega))
      obtain ⟨hl, -, ht, -⟩ := h1
      refine inside_append.mpr ⟨drawChar_inside ?_ ?_, ih fun k hk => hread k (by omega)⟩
      · unfold WM_FONT_W
        constructor <;> omega
      · unfold WM_FONT_W
        constructor <;> omega

/-- a row of the explorer is a text with room for `maxChars` characters -/
theorem explLine_eq (read : Nat → Mark) (maxChars : Int) (text : List Nat) (i : Nat) :
    wmDrawExplLine font read x y color maxChars text i =
      wmDrawText font read x y color (maxChars * wmTermCellW) text i := by
  induction text generalizing i with
  | nil => rfl
  | cons c text ih =>
    have hstop : ¬ (i : Int) < maxChars ↔ ((i : Int) + 1) * WM_FONT_W > maxChars * wmTermCellW := by
      unfold WM_FONT_W wmTermCellW
      omega
    rw [wmDrawExplLine, wmDrawText, ih]
    simp only [hstop]
    rfl

end

/-! ## the scene -/

/-- a window on the screen, and the data of the desktop that it may show -/
structure Scene where
  files : Files
  slot : Slot
  inside : (files.desk.windows slot).Inside
  width : wmMinWidth ≤ (files.desk.windows slot).width
  height : wmMinHeight ≤ (files.desk.windows slot).height
  title : (files.desk.windows slot).title.length < 32
  term : InGrid files.desk.term
  nEntries : files.desk.expl.nEntries ≤ wmExplMaxEntries
  scroll : 0 ≤ files.desk.expl.scroll ∧ files.desk.expl.scroll ≤ files.desk.expl.cursor
  cursor : files.desk.expl.cursor < max files.desk.expl.nEntries 1
  names : ∀ k, (files.entries k).name.length < wmExplNameLen
  viewRow : IsInt files.desk.expl.viewRow

abbrev Scene.win (s : Scene) : Window := s.files.desk.windows s.slot

/-- the file view is painted -/
def Scene.ShowsView (s : Scene) : Prop :=
  s.win.state ≠ .closed ∧ s.files.desk.expl.winId = some s.slot ∧ s.files.desk.expl.state = .view

section
variable (s : Scene) (font : Font)

/-- the window is at least this large -/
theorem scene_size : 60 ≤ s.win.width ∧ 48 ≤ s.win.height := ⟨s.width, s.height⟩

/-! ## the terminal's cells -/

theorem mem_fitting {n : Nat} {start size limit : Int} {k : Fin n}
    (h : k ∈ fitting n start size limit) : start + k.val * size + size ≤ limit := by
  have hk := List.mem_takeWhile_imp h
  simpa using hk

theorem drawTerminal_inside : Inside s.win (wmDrawTerminal font s.files s.slot) := by
  obtain ⟨hw, hh⟩ := scene_size s
  obtain ⟨⟨hr0, -⟩, hc0, -⟩ := s.term
  refine inside_append.mpr ⟨inside_append.mpr ⟨?_, ?_⟩, inside_ite fun hcur => ?_⟩
  · have h1 : Area s.win (s.win.x + 2) (s.win.y + 18) := by constructor <;> omega
    have h2 : Area s.win (s.win.x + s.win.width - 2 - 1) (s.win.y + s.win.height - 2 - 1) := by
      constructor <;> omega
    exact fillRect_inside h1 h2
  · refine inside_flatMap fun r hr => inside_flatMap fun c hc => inside_cons.mpr ⟨?_, ?_⟩
    · exact ⟨r.isLt, c.isLt⟩
    · have hrow : s.win.y + 18 + 2 + r.val * 16 + 16 ≤ s.win.y + s.win.height - 2 := mem_fitting hr
      have hcol : s.win.x + 2 + 2 + c.val * 8 + 8 ≤ s.win.x + s.win.width - 2 := mem_fitting hc
      have h1 : Area s.win (s.win.x + 2 + 2 + c.val * 8) (s.win.y + 18 + 2 + r.val * 16) := by
        constructor <;> omega
      have h2 : Area s.win (s.win.x + 2 + 2 + c.val * 8 + 7)
          (s.win.y + 18 + 2 + r.val * 16 + 15) := by
        constructor <;> omega
      exact drawChar_inside h1 h2
  · obtain ⟨-, hright, hbottom⟩ : _ ∧
        s.win.x + 2 + 2 + s.files.desk.term.curCol * 8 + 8 ≤ s.win.x + s.win.width - 2 ∧
        s.win.y + 18 + 2 + s.files.desk.term.curRow * 16 + 16 ≤ s.win.y + s.win.height - 2 := hcur
    have h1 : Area s.win (s.win.x + 2 + 2 + s.files.desk.term.curCol * 8)
        (s.win.y + 18 + 2 + s.files.desk.term.curRow * 16 + 16 - 2) := by
      constructor <;> omega
    have h2 : Area s.win (s.win.x + 2 + 2 + s.files.desk.term.curCol * 8 + 8 - 1)
        (s.win.y + 18 + 2 + s.files.desk.term.curRow * 16 + 16 - 1) := by
      constructor <;> omega
    exact fillRect_inside h1 h2

/-! ## the rows of the list -/

/-- the rows that are visible fit the client area -/
theorem visibleRows_fit : 0 ≤ s.files.desk.wmExplVisibleRows s.slot ∧
    s.files.desk.wmExplVisibleRows s.slot * 16 ≤ s.win.height - 24 := by
  obtain ⟨-, hh⟩ := scene_size s
  have hrows : s.files.desk.wmExplVisibleRows s.slot = (s.win.height - 24) / 16 := by
    have hclient : s.win.height - wmTitleHeight - wmBorderWidth - 2 * wmExplPad =
        s.win.height - 24 := by
      unfold wmTitleHeight wmBorderWidth wmExplPad
      omega
    unfold Desktop.wmExplVisibleRows
    simp only
    rw [hclient, if_neg (by omega), Int.tdiv_eq_ediv_of_nonneg (by omega)]
    rfl
  rw [hrows]
  omega

/-- and so do the columns -/
theorem clientCols_fit (most : Int) (hmost : 6 ≤ most) :
    6 ≤ clientCols s.win most ∧ clientCols s.win most * 8 ≤ s.win.width - 8 := by
  obtain ⟨hw, -⟩ := scene_size s
  have hcols : (s.win.width - 2 * wmBorderWidth - 2 * wmExplPad).tdiv wmTermCellW =
      (s.win.width - 8) / 8 := by
    have hclient : s.win.width - 2 * wmBorderWidth - 2 * wmExplPad = s.win.width - 8 := by
      unfold wmBorderWidth wmExplPad
      omega
    rw [hclient, Int.tdiv_eq_ediv_of_nonneg (by omega)]
    rfl
  unfold clientCols
  simp only
  rw [hcols]
  split_ifs <;> omega

/-- a row of text in the client area, `dy` below its upper edge -/
theorem explLine_inside (dy most : Int) {read : Nat → Mark} {color : Nat} {text : List Nat}
    (hmost : 6 ≤ most) (hdy : 0 ≤ dy ∧ dy + 16 ≤ s.win.height - 24)
    (hread : ∀ k ≤ text.length, (read k).Inside s.win) :
    Inside s.win (wmDrawExplLine font read (s.win.x + 2 + 2) (s.win.y + 18 + 2 + dy) color
      (clientCols s.win most) text 0) := by
  obtain ⟨hw, hh⟩ := scene_size s
  obtain ⟨-, hcols⟩ := clientCols_fit s most hmost
  rw [explLine_eq]
  have h1 : Area s.win (s.win.x + 2 + 2) (s.win.y + 18 + 2 + dy) := by constructor <;> omega
  refine drawText_inside h1 ?_ (by omega) fun k hk => hread k (by omega)
  show s.win.x + 2 + 2 + clientCols s.win most * 8 ≤ _
  omega

/-- a message in place of the list or the text -/
theorem literal_inside (most : Int) (hmost : 6 ≤ most) (text : List Nat) {color : Nat} :
    Inside s.win (wmDrawExplLine font (.literal (text.length + 1)) (s.win.x + 2 + 2)
      (s.win.y + 18 + 2) color (clientCols s.win most) text 0) := by
  obtain ⟨-, hh⟩ := scene_size s
  rw [← Int.add_zero (s.win.y + 18 + 2)]
  exact explLine_inside s font 0 most hmost (by omega) fun k hk => Nat.lt_succ_of_le hk

theorem length_sizeDigits (n sz : Nat) : (sizeDigits n sz).length ≤ n := by
  induction n generalizing sz with
  | zero => exact le_refl 0
  | succ n ih =>
    rw [sizeDigits]
    split_ifs
    · exact Nat.zero_le _
    · exact Nat.succ_le_succ (ih _)

theorem length_sizeText (sz : Int) : (sizeText sz).length ≤ 11 := by
  unfold sizeText
  split_ifs
  · decide
  · rw [List.length_reverse]
    exact length_sizeDigits 11 sz.toNat

/-- the zero at the end has room -/
theorem length_putAll {outSz : Nat} (l out : List Nat) (h : out.length ≤ outSz - 1) :
    (putAll outSz l out).length ≤ outSz - 1 := by
  induction l generalizing out with
  | nil => exact h
  | cons c l ih =>
    rw [putAll]
    split_ifs with hroom
    · refine ih _ ?_
      rw [List.length_append, List.length_singleton]
      omega
    · exact h

theorem length_formatRow (e : Entry) (outSz : Nat) (cols : Int) :
    (wmExplFormatRow e outSz cols).length ≤ outSz - 1 :=
  length_putAll _ _ (length_putAll _ _ (length_putAll _ _ (length_putAll _ _ (Nat.zero_le _))))

/-- the arrays that a row is made of, whatever its entry is called -/
theorem formatMarks_inside {w : Window} {e : Entry} (hname : e.name.length < wmExplNameLen)
    (cols : Int) : Inside w (formatMarks e rowbufSize cols) := by
  have hsize := length_sizeText e.size
  have hrow := length_formatRow e rowbufSize cols
  have hchars : (chars e).length ≤ e.name.length := by
    unfold chars
    rw [List.length_map]
    exact (List.takeWhile_sublist _).length_le
  refine inside_append.mpr ⟨inside_append.mpr ⟨inside_append.mpr ⟨?_, ?_⟩, ?_⟩, ?_⟩
  · split_ifs
    · exact inside_nil
    · refine inside_map fun k hk => ?_
      have hk := List.mem_range.mp hk
      show k < 12
      omega
  · refine inside_map fun k hk => ?_
    have hk := List.mem_range.mp hk
    show k < 12
    omega
  · refine inside_map fun k hk => ?_
    have hk := List.mem_range.mp hk
    show k < wmExplNameLen
    omega
  · refine inside_map fun k hk => ?_
    have hk := List.mem_range.mp hk
    show k < 64
    unfold rowbufSize at hrow hk
    omega

/-- **The rows** from row `r` on, as long as they fit the client area. -/
theorem drawRows_inside (n r : Nat) (hfit : ((r : Int) + n) * 16 ≤ s.win.height - 24) :
    Inside s.win (drawRows font s.files s.win (s.win.x + 2 + 2) (s.win.y + 18 + 2)
      (clientCols s.win 40) n r) := by
  induction n generalizing r with
  | zero => exact inside_nil
  | succ n ih =>
    obtain ⟨hw, hh⟩ := scene_size s
    obtain ⟨hscroll, -⟩ := s.scroll
    rw [drawRows]
    simp only
    by_cases hend : s.files.desk.expl.scroll + r ≥ s.files.desk.expl.nEntries
    · rw [if_pos hend]
      exact inside_nil
    rw [if_neg hend]
    have hrow := length_formatRow (s.files.entries (s.files.desk.expl.scroll + r).toNat) rowbufSize
      (clientCols s.win 40)
    have hentry : s.files.desk.expl.scroll + r < 64 := lt_of_lt_of_le (not_le.mp hend) s.nEntries
    refine inside_append.mpr ⟨inside_append.mpr ⟨inside_append.mpr ⟨inside_ite fun _ => ?_, ?_⟩, ?_⟩,
      ih (r + 1) (by omega)⟩
    · have h1 : Area s.win (s.win.x + 2 + 2 - 2) (s.win.y + 18 + 2 + r * 16) := by
        constructor <;> omega
      have h2 : Area s.win (s.win.x + s.win.width - 2 - 2) (s.win.y + 18 + 2 + r * 16 + 16 - 1) := by
        constructor <;> omega
      exact fillRect_inside h1 h2
    · exact inside_cons.mpr ⟨⟨by omega, hentry⟩, formatMarks_inside (s.names _) _⟩
    · refine explLine_inside s font (r * 16) 40 (by decide) (by omega) fun k hk => ?_
      show k < 64
      unfold rowbufSize at hrow hk
      omega

theorem drawExplList_inside : Inside s.win (wmDrawExplList font s.files s.slot) := by
  obtain ⟨-, hh⟩ := scene_size s
  obtain ⟨hrows, hfit⟩ := visibleRows_fit s
  unfold wmDrawExplList
  simp only
  split_ifs
  · exact literal_inside s font 40 (by decide) rootIsEmpty
  · exact drawRows_inside s font _ 0 (by omega)

/-! ## the text of a file -/

/-- a sum that wraps becomes smaller -/
theorem int_le {n : Int} (h : -2 ^ 31 ≤ n) : int n ≤ n := by
  by_cases hlt : n < 2 ^ 31
  · exact (int_of_range h hlt).le
  · have hsmall : int n < 2 ^ 31 := Int.bmod_lt (by decide)
    omega

/-- a character whose line is visible -/
theorem viewChar_inside {line col : Int} {c color : Nat}
    (hcol : 0 ≤ col ∧ col < clientCols s.win 60)
    (hshown : line ≥ s.files.desk.expl.viewRow ∧
      line < int (s.files.desk.expl.viewRow + s.files.desk.wmExplVisibleRows s.slot)) :
    Inside s.win (wmDrawChar font (s.win.x + 2 + 2 + col * 8)
      (s.win.y + 18 + 2 + (line - s.files.desk.expl.viewRow) * 16) c color) := by
  obtain ⟨hw, hh⟩ := scene_size s
  obtain ⟨hrows, hfit⟩ := visibleRows_fit s
  obtain ⟨-, hwide⟩ := clientCols_fit s 60 (by decide)
  obtain ⟨hfirst, hlast⟩ := hshown
  obtain ⟨hlo, hhi⟩ := s.viewRow
  have hbelow : line < s.files.desk.expl.viewRow + s.files.desk.wmExplVisibleRows s.slot :=
    lt_of_lt_of_le hlast (int_le (by omega))
  have h1 : Area s.win (s.win.x + 2 + 2 + col * 8)
      (s.win.y + 18 + 2 + (line - s.files.desk.expl.viewRow) * 16) := by
    constructor <;> omega
  have h2 : Area s.win (s.win.x + 2 + 2 + col * 8 + 7)
      (s.win.y + 18 + 2 + (line - s.files.desk.expl.viewRow) * 16 + 15) := by
    constructor <;> omega
  exact drawChar_inside h1 h2

/-- **The text** from character `i` on, as long as the array has it. -/
theorem drawView_inside (n i : Nat) (line col : Int) (hlen : i + n ≤ wmExplViewMax)
    (hcol : 0 ≤ col ∧ col < clientCols s.win 60) :
    Inside s.win (drawView font s.files (s.win.x + 2 + 2) (s.win.y + 18 + 2) (clientCols s.win 60)
      s.files.desk.expl.viewRow (s.files.desk.wmExplVisibleRows s.slot) n i line col) := by
  induction n generalizing i line col with
  | zero => exact inside_nil
  | succ n ih =>
    have hcols : 0 < clientCols s.win 60 := by omega
    have hnew := ih (i + 1) (line + 1) 0 (by omega) ⟨le_refl 0, hcols⟩
    rw [drawView]
    simp only
    refine inside_cons.mpr ⟨show i < wmExplViewMax by omega, ?_⟩
    by_cases hnewline : s.files.view.getD i 0 = 0x0A
    · rw [if_pos hnewline]
      exact hnew
    rw [if_neg hnewline]
    refine inside_append.mpr ⟨inside_ite fun hshown => viewChar_inside s font hcol hshown, ?_⟩
    split_ifs with hwrap
    · exact hnew
    · exact ih (i + 1) line (col + 1) (by omega) (by omega)

/-- every character is read, also where nothing is painted -/
theorem drawView_reads (n i : Nat) (tx ty cols first maxRows line col : Int) {k : Nat} (hk : k < n) :
    .view (i + k) ∈ drawView font s.files tx ty cols first maxRows n i line col := by
  induction n generalizing i line col k with
  | zero => exact absurd hk (Nat.not_lt_zero k)
  | succ n ih =>
    rw [drawView]
    simp only
    cases k with
    | zero => exact List.mem_cons_self
    | succ k =>
      have hrest : ∀ line col, .view (i + (k + 1)) ∈
          drawView font s.files tx ty cols first maxRows n (i + 1) line col := by
        intro line col
        have hin := ih (i + 1) line col (Nat.lt_of_succ_lt_succ hk)
        rwa [Nat.add_assoc, Nat.add_comm 1 k] at hin
      refine List.mem_cons_of_mem _ ?_
      split_ifs
      · exact hrest _ _
      all_goals exact List.mem_append_right _ (hrest _ _)

theorem drawExplView_inside (hlen : s.files.desk.expl.viewLen ≤ wmExplViewMax) :
    Inside s.win (wmDrawExplView font s.files s.slot) := by
  obtain ⟨hcols, -⟩ := clientCols_fit s 60 (by decide)
  unfold wmDrawExplView
  simp only
  split_ifs
  · exact literal_inside s font 60 (by decide) noText
  · exact drawView_inside s font _ 0 0 0 (by omega) ⟨le_refl 0, by omega⟩

theorem drawExplView_reads {k : Nat} (hk : (k : Int) < s.files.desk.expl.viewLen) :
    .view k ∈ wmDrawExplView font s.files s.slot := by
  unfold wmDrawExplView
  simp only
  rw [if_neg (by omega)]
  have hin := drawView_reads s font s.files.desk.expl.viewLen.toNat 0
    ((s.files.desk.windows s.slot).x + wmBorderWidth + wmExplPad)
    ((s.files.desk.windows s.slot).y + wmTitleHeight + wmExplPad)
    (clientCols (s.files.desk.windows s.slot) 60) s.files.desk.expl.viewRow
    (s.files.desk.wmExplVisibleRows s.slot) 0 0 (show k < _ by omega)
  rwa [Nat.zero_add] at hin

/-! ## the window -/

/-- the text that the file view shows is no longer than its array -/
def Scene.TextFits : Prop := s.ShowsView → s.files.desk.expl.viewLen ≤ wmExplViewMax

theorem drawExplorer_inside (hfits : s.files.desk.expl.state = .view →
      s.files.desk.expl.viewLen ≤ wmExplViewMax) :
    Inside s.win (wmDrawExplorer font s.files s.slot) := by
  unfold wmDrawExplorer
  cases hstate : s.files.desk.expl.state with
  | list => exact drawExplList_inside s font
  | view => exact drawExplView_inside s font (hfits hstate)

/-- the border, the title bar and the background -/
def Scene.frame : List Mark :=
  wmFillRect (s.win.x + 2) (s.win.y + 2) (s.win.x + s.win.width + 1) (s.win.y + s.win.height + 1)
      wmColorShadow ++
    wmFillRect s.win.x s.win.y (s.win.x + s.win.width - 1) (s.win.y + s.win.height - 1)
      wmColorBorder ++
    wmFillRect (s.win.x + 2) (s.win.y + 2) (s.win.x + s.win.width - 2 - 1) (s.win.y + 18 - 1)
      (if s.files.desk.activeWindow = some s.slot then wmColorTitlebar else wmColorTitlebar - 2) ++
    wmDrawText font .title (s.win.x + 2 + 2) (s.win.y + 2) wmColorTitleText (s.win.width - 2 * 2 - 4)
      (s.win.title.map UInt8.toNat) 0 ++
    wmFillRect (s.win.x + 2) (s.win.y + 18) (s.win.x + s.win.width - 2 - 1)
      (s.win.y + s.win.height - 2 - 1) wmColorWindowBg

theorem frame_inside : Inside s.win (s.frame font) := by
  obtain ⟨hw, hh⟩ := scene_size s
  have htitle : s.win.title.length < 32 := s.title
  refine inside_append.mpr ⟨inside_append.mpr ⟨inside_append.mpr ⟨inside_append.mpr
    ⟨?_, ?_⟩, ?_⟩, ?_⟩, ?_⟩
  · exact fillRect_inside (by constructor <;> omega) (by constructor <;> omega)
  · exact fillRect_inside (by constructor <;> omega) (by constructor <;> omega)
  · exact fillRect_inside (by constructor <;> omega) (by constructor <;> omega)
  · refine drawText_inside (by constructor <;> omega) (by omega) (by omega) fun k hk => ?_
    rw [List.length_map] at hk
    show k < 32
    omega
  · exact fillRect_inside (by constructor <;> omega) (by constructor <;> omega)

/-- what is painted of a window that is not closed -/
theorem drawWindow_open (h : s.win.state ≠ .closed) : wmDrawWindow font s.files s.slot.val =
    s.frame font ++
      (if s.files.desk.term.winId = some s.slot then wmDrawTerminal font s.files s.slot else []) ++
      (if s.files.desk.expl.winId = some s.slot then wmDrawExplorer font s.files s.slot else []) ++
      wmHline (s.win.x + 1) (s.win.x + s.win.width - 2) (s.win.y + 1) wmColorWindowBg ++
      wmVline (s.win.x + 1) (s.win.y + 1) (s.win.y + s.win.height - 2) wmColorWindowBg := by
  unfold wmDrawWindow
  rw [slot?_val]
  exact if_neg h

/-- a text that is longer than its array is read behind it -/
theorem drawWindow_reads (hshows : s.ShowsView) (hlong : wmExplViewMax < s.files.desk.expl.viewLen) :
    .view wmExplViewMax ∈ wmDrawWindow font s.files s.slot.val := by
  obtain ⟨hopen, hwin, hstate⟩ := hshows
  have hread : .view wmExplViewMax ∈ wmDrawExplorer font s.files s.slot := by
    unfold wmDrawExplorer
    rw [hstate]
    exact drawExplView_reads s font hlong
  rw [drawWindow_open s font hopen, if_pos hwin]
  refine List.mem_append_left _ (List.mem_append_left _ ?_)
  exact List.mem_append_right _ hread

/-- **A window is painted in its own area**, and with elements that the arrays have, exactly if the
text that it shows is no longer than its array. -/
theorem paints_iff : Inside s.win (wmDrawWindow font s.files s.slot.val) ↔ s.TextFits := by
  obtain ⟨hw, hh⟩ := scene_size s
  by_cases hclosed : s.win.state = .closed
  · have hnone : wmDrawWindow font s.files s.slot.val = [] := by
      unfold wmDrawWindow
      rw [slot?_val]
      exact if_pos hclosed
    rw [hnone]
    exact iff_of_true inside_nil fun hview => absurd hclosed hview.1
  constructor
  · intro hin hshows
    by_contra hlong
    exact Nat.lt_irrefl _ (hin _ (drawWindow_reads s font hshows (not_le.mp hlong)))
  · intro hfits
    rw [drawWindow_open s font hclosed]
    refine inside_append.mpr ⟨inside_append.mpr ⟨inside_append.mpr ⟨inside_append.mpr
      ⟨frame_inside s font, inside_ite fun _ => drawTerminal_inside s font⟩,
      inside_ite fun hwin => drawExplorer_inside s font fun hstate =>
        hfits ⟨hclosed, hwin, hstate⟩⟩, ?_⟩, ?_⟩
    · exact hline_inside (by constructor <;> omega) (by constructor <;> omega)
    · exact vline_inside (by constructor <;> omega) (by constructor <;> omega)

end

/-! ## a text that is cut -/

/-- the text that the view gets of a file -/
def viewText (size : Int) (bytes : List Byte) : List Byte :=
  let text := sanitize (bytes.take wmExplViewMax)
  if size > text.length ∧ text.length + 1 < wmExplViewMax then text ++ truncatedNote else text

theorem openView_file (f : Files) (fs : Fs) (idx : Int) {bytes : List Byte}
    (hidx : 0 ≤ idx ∧ idx < f.desk.expl.nEntries) (hkind : (f.entries idx.toNat).kind = .file)
    (hfile : fs.file (pathOf (f.entries idx.toNat).name) = some bytes) :
    (f.explOpenView fs idx).desk = { f.desk with expl := { f.desk.expl with
        viewLen := (viewText (f.entries idx.toNat).size bytes).length
        viewRow := 0
        state := .view
        viewName := (f.entries idx.toNat).name.map fun b : Byte => UInt8.ofNat b.toNat } } ∧
      (f.explOpenView fs idx).entries = f.entries ∧
      (f.explOpenView fs idx).view = viewText (f.entries idx.toNat).size bytes := by
  have hin : ¬ (idx < 0 ∨ idx ≥ f.desk.expl.nEntries) := by omega
  have hk : ¬ ((f.touch [.entry idx f.desk.expl.nEntries]).entries idx.toNat).kind ≠ .file :=
    not_not.mpr hkind
  have hb : fs.file (pathOf ((f.touch [.entry idx f.desk.expl.nEntries]).entries idx.toNat).name) =
      some bytes := hfile
  unfold Files.explOpenView
  simp only [if_neg hin, if_neg hk, hb]
  exact ⟨rfl, rfl, rfl⟩

/-- six carriage returns, and letters up to a length of 4097 bytes -/
def longText : List Byte := List.replicate 6 0x0D ++ List.replicate 4090 0x61 ++ [0x61]

theorem sanitize_letters (n : Nat) :
    sanitize (List.replicate n 0x61) = List.replicate n 0x61 := by
  induction n with
  | zero => rfl
  | succ n ih =>
    rw [List.replicate_succ, sanitize, ih]
    rfl

theorem sanitize_returns (n : Nat) (l : List Byte) :
    sanitize (List.replicate n 0x0D ++ l) = sanitize l := by
  induction n with
  | zero => rfl
  | succ n ih =>
    rw [List.replicate_succ, List.cons_append, sanitize, ih]
    rfl

/-- what is read of the file without the carriage returns, and the note -/
theorem length_longText : (viewText 4097 longText).length = 4102 := by
  have hlen : (List.replicate 6 (0x0D : Byte) ++ List.replicate 4090 0x61).length = wmExplViewMax := by
    rw [List.length_append, List.length_replicate, List.length_replicate]
    rfl
  have htext : sanitize (longText.take wmExplViewMax) = List.replicate 4090 0x61 := by
    rw [longText, List.take_left' hlen, sanitize_returns, sanitize_letters]
  unfold viewText
  simp only
  rw [htext, List.length_replicate, if_pos (by decide), List.length_append, List.length_replicate]
  rfl

/-- a root directory with this file -/
def longFile : Fs where
  dir := .entries [⟨1, [0x66]⟩]
  stat := fun _ => some (0x8000, 4097)
  file := fun _ => some longText
  unlinked := fun _ => false
  stray := 0

/-- the explorer shows the list -/
def listed : Files :=
  (noFiles.start.step (.call (.explOpen 8 8 288 584 []))).step (.refresh longFile)

/-- and then the file -/
def viewed : Files := listed.step (.openView longFile 0)

theorem listed_entries :
    listed.entries = Function.update noFiles.entries 0 ⟨1, 4097, .file, [0x66]⟩ := rfl

theorem viewed_desk : viewed.desk = { listed.desk with expl := { listed.desk.expl with
      viewLen := 4102, viewRow := 0, state := .view, viewName := [0x66] } } ∧
    viewed.entries = listed.entries := by
  have hentry : listed.entries 0 = ⟨1, 4097, .file, [0x66]⟩ := by
    rw [listed_entries, Function.update_self]
  have hn : listed.desk.expl.nEntries = 1 := by decide +kernel
  obtain ⟨hdesk, hentries, -⟩ := openView_file listed longFile 0 (by omega)
    (congrArg Entry.kind hentry) (show longFile.file _ = some longText from rfl)
  refine ⟨?_, hentries⟩
  show (listed.explOpenView longFile 0).desk = _
  rw [hdesk, Int.toNat_zero, hentry, length_longText]
  rfl

/-- the explorer's window, with the text in it -/
def cutScene : Scene where
  files := viewed
  slot := 0
  inside := by
    rw [viewed_desk.1]
    constructor <;> decide +kernel
  width := by
    rw [viewed_desk.1]
    decide +kernel
  height := by
    rw [viewed_desk.1]
    decide +kernel
  title := by
    rw [viewed_desk.1]
    decide +kernel
  term := by
    rw [viewed_desk.1]
    constructor <;> decide +kernel
  nEntries := by
    rw [viewed_desk.1]
    decide +kernel
  scroll := by
    rw [viewed_desk.1]
    decide +kernel
  cursor := by
    rw [viewed_desk.1]
    decide +kernel
  names := by
    intro k
    rw [viewed_desk.2, listed_entries, Function.update_apply]
    split_ifs
    · decide
    · exact show 0 < wmExplNameLen by decide
  viewRow := by
    rw [viewed_desk.1]
    exact ⟨by decide, by decide⟩

/-- **A file of 4097 bytes**: its view takes 4102 bytes with the note, and `view[4096]` is read. -/
theorem paints_fails : ∃ s : Scene, s.files = viewed ∧
    ∀ font, ¬ Inside s.win (wmDrawWindow font s.files s.slot.val) := by
  refine ⟨cutScene, rfl, fun font hin => ?_⟩
  have hshows : cutScene.ShowsView := by
    show _ ∧ viewed.desk.expl.winId = some 0 ∧ viewed.desk.expl.state = .view
    refine ⟨?_, ?_⟩
    · show (viewed.desk.windows 0).state ≠ .closed
      rw [viewed_desk.1]
      decide +kernel
    · rw [viewed_desk.1]
      exact ⟨by decide +kernel, rfl⟩
  have hlong : wmExplViewMax < cutScene.files.desk.expl.viewLen := by
    show (4096 : Int) < viewed.desk.expl.viewLen
    rw [viewed_desk.1]
    decide
  exact Nat.lt_irrefl _ (hin _ (drawWindow_reads cutScene font hshows hlong))

end Noxis.Wm.Draw
