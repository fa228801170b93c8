import Noxis.Fixes.Screen
import Noxis.Lib.Run

/-!
# 23-fixes/drivers/fb.c: which pixels are written

The grid has as many cells as the mode has room for, and `kprint_at` takes any place that is not
negative.

* `fbInit`         the modes that are taken;
* `Fb.putcharPixels` and the like: the pixels that a function writes, in order;
* `InFrame`        they are in the framebuffer;
* `Aims`           the cell that a character is drawn in is on the grid;
* `in_frame_iff`   **every call writes within the framebuffer exactly if the first character of each
                   text that is printed aims at the grid.**
-/

namespace Noxis.Fixes
open Run

/-! ## fb_init -/

/-- what GRUB hands over: EAX and EBX, and the fields of the MBI -/
structure BootInfo where
  magic : BitVec 32
  mbiAddr : BitVec 32
  flags : BitVec 32
  fbType : Byte
  bpp : Byte
  lo : BitVec 32
  pitch : BitVec 32
  w : BitVec 32
  h : BitVec 32

def MB_BOOT_MAGIC : BitVec 32 := 0x2BADB002
def MBI_FLAG_FB : BitVec 32 := 1 <<< 12
def FB_TYPE_RGB : Byte := 1
def CELL_COLS_MAX : Nat := 80

/-- the framebuffer of a mode that is taken; `px` is what it has in it -/
def fbInit (b : BootInfo) (px : Nat → Nat → Rgb) : Option Fb :=
  if b.magic ≠ MB_BOOT_MAGIC ∨ b.mbiAddr = 0 then none
  else if b.flags &&& MBI_FLAG_FB = 0 then none
  else if b.fbType ≠ FB_TYPE_RGB ∨ (b.bpp ≠ 24 ∧ b.bpp ≠ 32) then none
  else if h : b.lo = 0 ∨ b.pitch = 0 ∨ b.w.toNat < 8 * CELL_COLS_MAX ∨ b.h.toNat < FONT_H * 2 then none
  else
    some (Fb.clear
      { px := px
        width := b.w.toNat
        height := b.h.toNat
        curCol := 0
        curRow := 0
        cursorDrawn := false
        wide := Nat.le_of_not_lt fun hw => h (.inr (.inr (.inl hw)))
        high := Nat.le_of_not_lt fun hh => h (.inr (.inr (.inr hh))) })

/-! ## the pixels that are written -/

abbrev Pixel := Nat × Nat

/-- by `draw_glyph` and `cursor_xor` -/
def cellPixels (col row : Nat) : List Pixel :=
  (List.range FONT_H).flatMap fun ry =>
    (List.range FONT_W).map fun rx => (col * FONT_W + rx, row * FONT_H + ry)

namespace Fb

def rowPixels (f : Fb) (y : Nat) : List Pixel := (List.range f.width).map fun x => (x, y)

/-- the rows that `memory_copy` writes, and those of the last cells -/
def scrollPixels (f : Fb) : List Pixel :=
  (List.range ((f.cellRows - 1) * FONT_H)).flatMap f.rowPixels ++
    (List.range FONT_H).flatMap fun i => f.rowPixels ((f.cellRows - 1) * FONT_H + i)

def clearPixels (f : Fb) : List Pixel := (List.range f.height).flatMap f.rowPixels

def hidePixels (f : Fb) : List Pixel := if f.cursorDrawn then cellPixels f.curCol f.curRow else []

def showPixels (f : Fb) : List Pixel := if f.cursorDrawn then [] else cellPixels f.curCol f.curRow

def backspacePixels (f : Fb) : List Pixel :=
  let g := f.hideCursor.back
  f.hidePixels ++ (cellPixels g.curCol g.curRow ++
    (g.drawGlyph g.curCol g.curRow ' ' FG BG).showPixels)

def settlePixels (f : Fb) : List Pixel :=
  if f.cellRows ≤ f.curRow then
    let g : Fb := { f with curRow := f.cellRows - 1 }
    g.scrollPixels ++ g.scrollUp.showPixels
  else f.showPixels

def putcharPixels (f : Fb) (c : Char) : List Pixel :=
  let g := f.hideCursor
  f.hidePixels ++
    if c = '\n' then ({ g with curCol := 0, curRow := g.curRow + 1 } : Fb).settlePixels
    else if c = BS then g.backspacePixels
    else
      let d := g.drawGlyph g.curCol g.curRow c FG BG
      cellPixels g.curCol g.curRow ++
        if d.cellCols ≤ d.curCol + 1 then
          ({ d with curCol := 0, curRow := d.curRow + 1 } : Fb).settlePixels
        else ({ d with curCol := d.curCol + 1 } : Fb).settlePixels

/-- the loop of `kprint_at` -/
def printPixels (f : Fb) : List Char → List Pixel
  | [] => []
  | c :: message => f.putcharPixels c ++ (f.putchar c).printPixels message

/-! ## the calls -/

end Fb

/-- `kprint` is `kprint_at` at -1 and -1 -/
inductive PrintCall where
  | kprintAt (message : List Char) (col row : Int)
  | kprintBackspace
  | clearScreen

namespace Fb

/-- `fb_cursor_at`, if the place is not negative -/
def positioned (f : Fb) (col row : Int) : Fb :=
  if 0 ≤ col ∧ 0 ≤ row then f.cursorAt col.toNat row.toNat else f

def positionedPixels (f : Fb) (col row : Int) : List Pixel :=
  if 0 ≤ col ∧ 0 ≤ row then f.hidePixels else []

def print (f : Fb) : PrintCall → Fb
  | .kprintAt message col row => message.foldl putchar (f.positioned col row)
  | .kprintBackspace => f.backspace
  | .clearScreen => f.clear

def callPixels (f : Fb) : PrintCall → List Pixel
  | .kprintAt message col row =>
    f.positionedPixels col row ++ (f.positioned col row).printPixels message
  | .kprintBackspace => f.backspacePixels
  | .clearScreen => f.clearPixels

def printStep (f : Fb) (e : PrintCall) : Option Fb := some (f.print e)

/-! ## what the claim is about -/

def Within (f : Fb) (pixels : List Pixel) : Prop := ∀ p ∈ pixels, p.1 < f.width ∧ p.2 < f.height

instance (f : Fb) (pixels : List Pixel) : Decidable (f.Within pixels) :=
  inferInstanceAs (Decidable (∀ p ∈ pixels, _))

def OnGrid (f : Fb) : Prop := f.curCol < f.cellCols ∧ f.curRow < f.cellRows

instance (f : Fb) : Decidable f.OnGrid := inferInstanceAs (Decidable (_ ∧ _))

/-- the cell that the character is drawn in is on the grid; a new line draws nothing -/
def Aims (f : Fb) (c : Char) : Prop := c = '\n' ∨ if c = BS then f.back.OnGrid else f.OnGrid

instance (f : Fb) (c : Char) : Decidable (f.Aims c) := inferInstanceAs (Decidable (_ ∨ _))

end Fb

/-- the call writes pixels of the framebuffer only -/
def InFrame (f : Fb) (e : PrintCall) (_ : Fb) : Prop := f.Within (f.callPixels e)

instance (f : Fb) (e : PrintCall) (g : Fb) : Decidable (InFrame f e g) :=
  inferInstanceAs (Decidable (f.Within (f.callPixels e)))

/-- the first character of a text aims at the grid, from the place it is printed at -/
def Aimed (f : Fb) (e : PrintCall) (_ : Fb) : Prop :=
  match e with
  | .kprintAt message col row => ∀ c ∈ message.head?, (f.positioned col row).Aims c
  | .kprintBackspace => f.Aims BS
  | .clearScreen => True

instance Aimed.decidable : ∀ f e g, Decidable (Aimed f e g)
  | f, .kprintAt message col row, _ =>
    inferInstanceAs (Decidable (∀ c ∈ message.head?, (f.positioned col row).Aims c))
  | f, .kprintBackspace, _ => inferInstanceAs (Decidable (f.Aims BS))
  | _, .clearScreen, _ => isTrue trivial

section
variable {f g : Fb} {c : Char} {col row y : Nat} {pixels pixels' : List Pixel} {message : List Char}

/-! ## pixels and cells -/

namespace Fb

theorem within_nil (f : Fb) : f.Within [] := fun _ hp => absurd hp List.not_mem_nil

theorem within_append : f.Within (pixels ++ pixels') ↔ f.Within pixels ∧ f.Within pixels' :=
  List.forall_mem_append

/-- only the size matters -/
theorem within_congr (hw : g.width = f.width) (hh : g.height = f.height) :
    g.Within pixels ↔ f.Within pixels := by
  unfold Within
  rw [hw, hh]

/-- **The pixels of a cell are in the framebuffer exactly if it is on the grid.** -/
theorem within_cell : f.Within (cellPixels col row) ↔ col < f.cellCols ∧ row < f.cellRows := by
  have hcols : col < f.cellCols ↔ col * 8 + 7 < f.width := by
    show col < f.width / 8 ↔ _
    omega
  have hrows : row < f.cellRows ↔ row * 16 + 15 < f.height := by
    show row < f.height / 16 ↔ _
    omega
  unfold Within cellPixels
  rw [hcols, hrows]
  constructor
  · intro h
    have hlast := h (col * 8 + 7, row * 16 + 15) (List.mem_flatMap.mpr
      ⟨15, List.mem_range.mpr (by decide), List.mem_map.mpr ⟨7, List.mem_range.mpr (by decide), rfl⟩⟩)
    exact hlast
  · rintro ⟨hx, hy⟩ p hp
    obtain ⟨ry, hry, hp⟩ := List.mem_flatMap.mp hp
    obtain ⟨rx, hrx, rfl⟩ := List.mem_map.mp hp
    have hrx' : rx < 8 := List.mem_range.mp hrx
    have hry' : ry < 16 := List.mem_range.mp hry
    exact ⟨show col * 8 + rx < f.width by omega, show row * 16 + ry < f.height by omega⟩

theorem within_row (h : y < f.height) : f.Within (f.rowPixels y) := by
  intro p hp
  obtain ⟨x, hx, rfl⟩ := List.mem_map.mp hp
  exact ⟨List.mem_range.mp hx, h⟩

theorem within_clear (f : Fb) : f.Within f.clearPixels := by
  intro p hp
  obtain ⟨y, hy, hp⟩ := List.mem_flatMap.mp hp
  exact within_row (List.mem_range.mp hy) p hp

theorem within_scroll (f : Fb) : f.Within f.scrollPixels := by
  have hrows : f.cellRows * 16 ≤ f.height := Nat.div_mul_le_self f.height 16
  have hpos := f.cellRows_pos
  refine within_append.mpr ⟨fun p hp => ?_, fun p hp => ?_⟩
  · obtain ⟨y, hy, hp⟩ := List.mem_flatMap.mp hp
    have hy' : y < (f.cellRows - 1) * 16 := List.mem_range.mp hy
    exact within_row (by omega) p hp
  · obtain ⟨i, hi, hp⟩ := List.mem_flatMap.mp hp
    have hi' : i < 16 := List.mem_range.mp hi
    exact within_row (by show (f.cellRows - 1) * 16 + i < f.height; omega) p hp

/-! ## the size stays -/

/-- two states of one mode -/
structure SameMode (f g : Fb) : Prop where
  width : g.width = f.width
  height : g.height = f.height

theorem SameMode.within (h : SameMode f g) : g.Within pixels ↔ f.Within pixels :=
  within_congr h.width h.height

theorem SameMode.trans {f g k : Fb} (h : SameMode f g) (h' : SameMode g k) : SameMode f k :=
  ⟨h'.width.trans h.width, h'.height.trans h.height⟩

theorem hideCursor_mode (f : Fb) : SameMode f f.hideCursor := by
  unfold hideCursor
  split <;> exact ⟨rfl, rfl⟩

theorem showCursor_mode (f : Fb) : SameMode f f.showCursor := by
  unfold showCursor
  split <;> exact ⟨rfl, rfl⟩

theorem back_mode (f : Fb) : SameMode f f.back := by
  unfold back
  split
  · exact ⟨rfl, rfl⟩
  · split <;> exact ⟨rfl, rfl⟩

theorem settle_mode (f : Fb) : SameMode f f.settle := by
  unfold settle
  split
  · exact SameMode.trans (g := { f with curRow := f.cellRows - 1 }.scrollUp) ⟨rfl, rfl⟩
      (showCursor_mode _)
  · exact showCursor_mode f

theorem backspace_mode (f : Fb) : SameMode f f.backspace := by
  let g := f.hideCursor.back
  have hdrawn : SameMode g (g.drawGlyph g.curCol g.curRow ' ' FG BG) := ⟨rfl, rfl⟩
  rw [backspace_eq]
  exact (hideCursor_mode f).trans ((back_mode _).trans (hdrawn.trans (showCursor_mode _)))

theorem putchar_mode (f : Fb) (c : Char) : SameMode f (f.putchar c) := by
  have hsettle : ∀ g : Fb, SameMode f.hideCursor g → SameMode f g.settle := fun g hg =>
    (hideCursor_mode f).trans (hg.trans (settle_mode g))
  unfold putchar
  simp only
  split
  · exact hsettle _ ⟨rfl, rfl⟩
  · split
    · exact (hideCursor_mode f).trans (backspace_mode _)
    · split
      · exact hsettle _ ⟨rfl, rfl⟩
      · exact hsettle _ ⟨rfl, rfl⟩

/-! ## the cursor -/

/-- a cursor that is drawn is on the grid -/
def Safe (f : Fb) : Prop := f.cursorDrawn = true → f.OnGrid

theorem hideCursor_drawn (f : Fb) : f.hideCursor.cursorDrawn = false := by
  unfold hideCursor
  by_cases hd : f.cursorDrawn = true
  · rw [if_pos hd]
    show (!f.cursorDrawn) = false
    rw [hd]
    rfl
  · rw [if_neg hd]
    simpa using hd

theorem hideCursor_onGrid : f.hideCursor.OnGrid ↔ f.OnGrid := by
  unfold OnGrid
  rw [hideCursor_curCol, hideCursor_curRow, hideCursor_cellCols, hideCursor_cellRows]

theorem showCursor_onGrid : f.showCursor.OnGrid ↔ f.OnGrid := by
  unfold OnGrid
  rw [showCursor_curCol, showCursor_curRow, showCursor_cellCols, showCursor_cellRows]

theorem hideCursor_back_onGrid : f.hideCursor.back.OnGrid ↔ f.back.OnGrid := by
  have hback : ∀ g : Fb, g.back.OnGrid ↔
      if 0 < g.curCol then g.curCol - 1 < g.cellCols ∧ g.curRow < g.cellRows
      else if 0 < g.curRow then g.cellCols - 1 < g.cellCols ∧ g.curRow - 1 < g.cellRows
      else g.OnGrid := by
    intro g
    unfold back
    split
    · exact Iff.rfl
    · split <;> exact Iff.rfl
  rw [hback, hback, hideCursor_onGrid, hideCursor_curCol, hideCursor_curRow, hideCursor_cellCols,
    hideCursor_cellRows]

theorem within_hide (h : f.Safe) : f.Within f.hidePixels := by
  unfold hidePixels
  by_cases hd : f.cursorDrawn = true
  · rw [if_pos hd]
    exact within_cell.mpr (h hd)
  · rw [if_neg hd]
    exact f.within_nil

theorem within_show (h : f.cursorDrawn = false) : f.Within f.showPixels ↔ f.OnGrid := by
  unfold showPixels
  rw [if_neg (by rw [h]; exact Bool.false_ne_true)]
  exact within_cell

/-- the end of `fb_putchar` -/
theorem within_settle (h : f.cursorDrawn = false) :
    f.Within f.settlePixels ↔ f.curCol < f.cellCols := by
  have hpos := f.cellRows_pos
  unfold settlePixels
  by_cases hrow : f.cellRows ≤ f.curRow
  · have hshow := within_show (f := { f with curRow := f.cellRows - 1 }.scrollUp) h
    rw [if_pos hrow, within_append]
    refine ⟨fun hin => (hshow.mp hin.2).1, fun hcol => ⟨?_, hshow.mpr ⟨hcol, ?_⟩⟩⟩
    · exact within_scroll { f with curRow := f.cellRows - 1 }
    · show f.cellRows - 1 < f.cellRows
      omega
  · rw [if_neg hrow, within_show h]
    exact ⟨fun hin => hin.1, fun hcol => ⟨hcol, Nat.lt_of_not_le hrow⟩⟩

theorem within_backspace (h : f.Safe) : f.Within f.backspacePixels ↔ f.back.OnGrid := by
  let g := f.hideCursor.back
  have hmode : SameMode f g := (hideCursor_mode f).trans (back_mode _)
  have hdrawn : (g.drawGlyph g.curCol g.curRow ' ' FG BG).cursorDrawn = false := by
    show f.hideCursor.back.cursorDrawn = false
    have hback : ∀ k : Fb, k.back.cursorDrawn = k.cursorDrawn := by
      intro k
      unfold back
      split
      · rfl
      · split <;> rfl
    rw [hback, hideCursor_drawn]
  have hshow := within_show hdrawn
  have hcell : f.Within (cellPixels g.curCol g.curRow) ↔ g.OnGrid := by
    rw [← hmode.within]
    exact within_cell
  have hshow' : f.Within (g.drawGlyph g.curCol g.curRow ' ' FG BG).showPixels ↔ g.OnGrid := by
    rw [← hmode.within]
    exact hshow
  unfold backspacePixels
  rw [within_append, within_append, hcell, hshow', and_self]
  exact (and_iff_right (within_hide h)).trans hideCursor_back_onGrid

/-- **A character.** -/
theorem within_putchar (h : f.Safe) (c : Char) : f.Within (f.putcharPixels c) ↔ f.Aims c := by
  have hpos := f.cellCols_pos
  have hmode := hideCursor_mode f
  have hd := hideCursor_drawn f
  unfold putcharPixels Aims
  rw [within_append, and_iff_right (within_hide h)]
  by_cases hnl : c = '\n'
  · rw [if_pos hnl]
    refine iff_of_true ?_ (.inl hnl)
    rw [← hmode.within]
    refine (within_settle (f := { f.hideCursor with curCol := 0, curRow := f.hideCursor.curRow + 1 })
      hd).mpr ?_
    show 0 < f.hideCursor.cellCols
    rw [hideCursor_cellCols]
    omega
  rw [if_neg hnl, or_iff_right hnl]
  by_cases hbs : c = BS
  · rw [if_pos hbs, if_pos hbs, ← hmode.within, within_backspace fun hc => ?_]
    · exact hideCursor_back_onGrid
    · rw [hd] at hc
      cases hc
  · rw [if_neg hbs, if_neg hbs, ← hmode.within, within_append, within_cell]
    refine (and_iff_left_of_imp fun hin => ?_).trans hideCursor_onGrid
    obtain ⟨hcol, hrow⟩ := hin
    let d := f.hideCursor.drawGlyph f.hideCursor.curCol f.hideCursor.curRow c FG BG
    by_cases hlast : d.cellCols ≤ d.curCol + 1
    · refine (if_pos hlast).symm ▸ ?_
      refine (within_settle (f := { d with curCol := 0, curRow := d.curRow + 1 }) hd).mpr ?_
      exact Nat.zero_lt_of_lt hcol
    · refine (if_neg hlast).symm ▸ ?_
      exact (within_settle (f := { d with curCol := d.curCol + 1 }) hd).mpr (Nat.lt_of_not_le hlast)

/-- the cursor is then on the grid -/
theorem Aims.onGrid (h : f.Aims c) : (f.putchar c).OnGrid := by
  by_cases hbs : c = BS
  · have hput : f.putchar c = f.hideCursor.backspace := by
      unfold putchar
      simp only
      rw [if_neg (by rw [hbs]; decide), if_pos hbs]
    have hback : f.back.OnGrid := by
      have hc := h.resolve_left (by rw [hbs]; decide)
      rwa [if_pos hbs] at hc
    rw [hput, backspace_eq, showCursor_onGrid]
    exact hideCursor_back_onGrid.mpr (hideCursor_back_onGrid.mpr hback)
  · exact f.valid_putchar hbs

/-- from the grid every character aims at it -/
theorem OnGrid.aims (h : f.OnGrid) (c : Char) : f.Aims c := by
  refine .inr ?_
  by_cases hbs : c = BS
  · rw [if_pos hbs]
    exact valid_back h
  · rw [if_neg hbs]
    exact h

theorem OnGrid.foldl (h : f.OnGrid) (message : List Char) : (message.foldl putchar f).OnGrid := by
  induction message generalizing f with
  | nil => exact h
  | cons c message ih => exact ih (h.aims c).onGrid

/-- **A text.** -/
theorem within_print (h : f.Safe) (message : List Char) :
    f.Within (f.printPixels message) ↔ ∀ c ∈ message.head?, f.Aims c := by
  induction message generalizing f with
  | nil => exact iff_of_true f.within_nil fun c hc => (by cases hc)
  | cons c message ih =>
    unfold printPixels
    rw [within_append, within_putchar h c]
    constructor
    · intro haims x hx
      obtain rfl := Option.some.inj hx
      exact haims.1
    · intro haims
      have hc := haims c rfl
      have hon := hc.onGrid
      refine ⟨hc, ?_⟩
      rw [← (putchar_mode f c).within, ih fun _ => hon]
      exact fun x _ => hon.aims x

theorem positioned_safe (h : f.Safe) (col row : Int) : (f.positioned col row).Safe := by
  unfold positioned
  by_cases hpos : 0 ≤ col ∧ 0 ≤ row
  · rw [if_pos hpos]
    intro hd
    cases (hideCursor_drawn f).symm.trans hd
  · rw [if_neg hpos]
    exact h

theorem positioned_mode (f : Fb) (col row : Int) : SameMode f (f.positioned col row) := by
  unfold positioned
  split
  · exact ⟨(hideCursor_mode f).width, (hideCursor_mode f).height⟩
  · exact ⟨rfl, rfl⟩

/-- **A call.** -/
theorem Safe.call (h : f.Safe) (e : PrintCall) :
    (f.Within (f.callPixels e) ↔ Aimed f e (f.print e)) ∧
      (Aimed f e (f.print e) → (f.print e).Safe) := by
  cases e with
  | kprintAt message col row =>
    have hsafe := positioned_safe h col row
    have hhide : f.Within (f.positionedPixels col row) := by
      unfold positionedPixels
      split
      · exact within_hide h
      · exact f.within_nil
    refine ⟨?_, fun haims => ?_⟩
    · unfold callPixels Aimed
      rw [within_append, and_iff_right hhide, ← (positioned_mode f col row).within]
      exact within_print hsafe message
    · cases message with
      | nil => exact hsafe
      | cons c message => exact fun _ => (haims c rfl).onGrid.foldl message
  | kprintBackspace =>
    have hback : f.Aims BS ↔ f.back.OnGrid := by
      unfold Aims
      rw [or_iff_right (by decide), if_pos rfl]
    refine ⟨(within_backspace h).trans hback.symm, fun haims _ => ?_⟩
    show f.backspace.OnGrid
    rw [backspace_eq, showCursor_onGrid]
    exact hideCursor_back_onGrid.mpr (hback.mp haims)
  | clearScreen => exact ⟨iff_of_true f.within_clear trivial, fun _ hd => (by cases hd)⟩

end Fb

/-! ## runs -/

theorem fbInit_safe {b : BootInfo} {px : Nat → Nat → Rgb} (h : fbInit b px = some f) : f.Safe := by
  unfold fbInit at h
  split at h
  · cases h
  split at h
  · cases h
  split at h
  · cases h
  split at h
  · cases h
  rw [← Option.some.inj h]
  exact fun hd => (by cases hd)

/-- **The pixels of the console.**  In a mode that `fb_init` takes, what it clears and what any calls
write is in the framebuffer exactly if each text aims at the grid. -/
theorem in_frame_iff {b : BootInfo} {px : Nat → Nat → Rgb} (h : fbInit b px = some f)
    (calls : List PrintCall) :
    (f.Within f.clearPixels ∧ Always (stepOf Fb.printStep) InFrame f calls) ↔
      Always (stepOf Fb.printStep) Aimed f calls := by
  rw [and_iff_right f.within_clear]
  refine Always.iff_of_inv (I := Fb.Safe) ?_ ?_ calls _ (fbInit_safe h)
  · intro f e g hf hg
    rw [← Option.some.inj hg]
    exact (hf.call e).1
  · intro f e g hf hg haims
    rw [← Option.some.inj hg] at haims ⊢
    exact (hf.call e).2 haims

end

/-- 640 by 350 in 32 bits -/
def modeInfo : BootInfo := ⟨0x2BADB002, 0x9500, 0x1000, 1, 32, 0xFD000000, 2560, 640, 350⟩

theorem in_frame_iff_mode : ∃ f, fbInit modeInfo (fun _ _ => 0) = some f ∧
    Always (stepOf Fb.printStep) InFrame f [.kprintAt "OK\n".toList 0 0] := by
  refine ⟨_, rfl, ?_⟩
  have hinit : fbInit modeInfo (fun _ _ => 0) = some _ := rfl
  have hin := in_frame_iff hinit [.kprintAt "OK\n".toList 0 0]
  refine (hin.mpr fun g _ => ⟨fun c _ => Fb.OnGrid.aims ?_ c, trivial⟩).2
  decide

/-- a demo task prints in row 24, where that mode has 21 -/
theorem in_frame_fails : ¬ ∀ (b : BootInfo) (px : Nat → Nat → Rgb) (f : Fb) (calls : List PrintCall),
    fbInit b px = some f → Always (stepOf Fb.printStep) InFrame f calls := by
  intro h
  have hrow := h modeInfo (fun _ _ => 0) _ [.kprintAt "[spin] n=".toList 0 24] rfl
  exact absurd (hrow _ rfl).1 (by decide +kernel)

end Noxis.Fixes
