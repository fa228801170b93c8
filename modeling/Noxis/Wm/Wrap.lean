import Noxis.Wm.Draw

/-!
# The lines of a file view

`expl_view_lines` of kernel/desktop.c counts the lines of the text in the Files window, and the keys
scroll by that count; `wm_draw_expl_view` of kernel/wm.c lays the lines out on its own.

* `place`            the layout: the line and the column behind a part of the text;
* `wrappedLines_eq`  the loop that counts follows it;
* `drawView_eq`      and so does the loop that paints;
* `Viewing`          a text in the Files window, with its first line in range;
* `Viewing.key`      one key keeps that;
* `scrolls`          **after any keys the lines that are painted are those that were counted**.
-/

namespace Noxis.Wm
open Draw

/-! ## the layout -/

/-- the line and the column behind a character at `p` -/
def advance (cols : Int) (p : Int × Int) (c : Byte) : Int × Int :=
  if c = 0x0A ∨ p.2 + 1 ≥ cols then (p.1 + 1, 0) else (p.1, p.2 + 1)

/-- **the layout**: the line and the column behind a text -/
def place (cols : Int) (text : List Byte) : Int × Int := text.foldl (advance cols) (0, 0)

section
variable {cols : Int} {p : Int × Int} {c : Byte} {text : List Byte} {k : Nat}

theorem place_append (cols : Int) (text : List Byte) (c : Byte) :
    place cols (text ++ [c]) = advance cols (place cols text) c := by
  unfold place
  rw [List.foldl_append]
  rfl

theorem place_take_succ (hk : k < text.length) :
    place cols (text.take (k + 1)) = advance cols (place cols (text.take k)) (text.getD k 0) := by
  rw [List.take_succ_eq_append_getElem hk, place_append, List.getD_eq_getElem text 0 hk]

/-- the column is not negative -/
theorem advance_col (hp : 0 ≤ p.2) : 0 ≤ (advance cols p c).2 := by
  unfold advance
  split_ifs
  · exact le_refl 0
  · exact Int.add_nonneg hp (by decide)

/-- a line has a character at least -/
theorem advance_clamp (hp : 0 ≤ p.2) :
    advance (if cols < 1 then 1 else cols) p c = advance cols p c := by
  by_cases hcols : cols < 1
  · unfold advance
    rw [if_pos hcols, if_pos (.inr (by omega)), if_pos (.inr (by omega))]
  · rw [if_neg hcols]

theorem foldl_clamp (text : List Byte) (hp : 0 ≤ p.2) :
    text.foldl (advance (if cols < 1 then 1 else cols)) p = text.foldl (advance cols) p := by
  induction text generalizing p with
  | nil => rfl
  | cons c text ih =>
    rw [List.foldl_cons, List.foldl_cons, advance_clamp hp]
    exact ih (advance_col hp)

/-- a character ends its line, or does not -/
theorem advance_line (cols : Int) (p : Int × Int) (c : Byte) :
    (advance cols p c).1 = p.1 ∨ (advance cols p c).1 = p.1 + 1 := by
  unfold advance
  split_ifs
  · exact .inr rfl
  · exact .inl rfl

/-- what never grows by more than one leaves out no number -/
theorem stairs {g : Nat → Int} (h0 : g 0 = 0) (hg : ∀ k, g (k + 1) = g k ∨ g (k + 1) = g k + 1)
    (n : Nat) (l : Int) : (0 ≤ l ∧ l ≤ g n) ↔ ∃ k ≤ n, g k = l := by
  induction n generalizing l with
  | zero =>
    constructor
    · intro hl
      exact ⟨0, le_refl 0, by omega⟩
    · rintro ⟨k, hk, hl⟩
      rw [Nat.le_zero.mp hk] at hl
      omega
  | succ n ih =>
    have hn : 0 ≤ g n := ((ih (g n)).mpr ⟨n, le_refl n, rfl⟩).1
    constructor
    · intro hl
      by_cases hle : l ≤ g n
      · obtain ⟨k, hk, he⟩ := (ih l).mp ⟨hl.1, hle⟩
        exact ⟨k, Nat.le_succ_of_le hk, he⟩
      · have hstep := hg n
        exact ⟨n + 1, le_refl _, by omega⟩
    · rintro ⟨k, hk, he⟩
      have hstep := hg n
      rcases Nat.le_succ_iff.mp hk with hk' | hlast
      · have hin := (ih l).mpr ⟨k, hk', he⟩
        omega
      · have he' : g (n + 1) = l := by rwa [hlast] at he
        omega

/-- **the lines of the layout**: those up to the last one -/
theorem place_lines (cols : Int) (text : List Byte) (l : Int) :
    (0 ≤ l ∧ l ≤ (place cols text).1) ↔ ∃ k ≤ text.length, (place cols (text.take k)).1 = l := by
  have hstep : ∀ k, (place cols (text.take (k + 1))).1 = (place cols (text.take k)).1 ∨
      (place cols (text.take (k + 1))).1 = (place cols (text.take k)).1 + 1 := by
    intro k
    by_cases hk : k < text.length
    · rw [place_take_succ hk]
      exact advance_line cols _ _
    · rw [List.take_of_length_le (by omega), List.take_of_length_le (by omega)]
      exact .inl rfl
  have hall := stairs (g := fun k => (place cols (text.take k)).1) rfl hstep text.length l
  rwa [List.take_length] at hall

/-- a text has at most one line more than characters -/
theorem place_le (cols : Int) (text : List Byte) : (place cols text).1 ≤ text.length := by
  induction text using List.reverseRecOn with
  | nil => exact le_refl 0
  | append_singleton text c ih =>
    have hline := advance_line cols (place cols text) c
    rw [place_append, List.length_append, List.length_singleton]
    omega

end

/-! ## the two loops -/

/-- **The loop that counts.** -/
theorem wrappedLines_eq (cols : Int) (text : List Byte) (p : Int × Int) :
    wrappedLines cols text (p.1 + 1) p.2 = (text.foldl (advance cols) p).1 + 1 := by
  induction text generalizing p with
  | nil => rfl
  | cons c text ih =>
    rw [wrappedLines, List.foldl_cons]
    unfold advance
    by_cases hc : c = 0x0A
    · rw [if_pos hc, if_pos (.inl hc)]
      exact ih (p.1 + 1, 0)
    rw [if_neg hc]
    by_cases hcol : p.2 + 1 ≥ cols
    · rw [if_pos hcol, if_pos (.inr hcol)]
      exact ih (p.1 + 1, 0)
    · rw [if_neg hcol, if_neg (not_or.mpr ⟨hc, hcol⟩)]
      exact ih (p.1, p.2 + 1)

/-- the marks for a character at `p`, when the lines from `first` on are painted and `shown` says which
of them are -/
def charMarks (font : Font) (win : Window) (first : Int) (shown : Int → Bool) (p : Int × Int) (k : Nat)
    (c : Byte) : List Mark :=
  .view k :: if c ≠ 0x0A ∧ shown p.1 = true then
      wmDrawChar font (win.x + wmBorderWidth + wmExplPad + p.2 * wmTermCellW)
        (win.y + wmTitleHeight + wmExplPad + (p.1 - first) * wmTermCellH) c.toNat wmColorBorder
    else []

/-- **the characters at their places** -/
def paintedText (font : Font) (win : Window) (first : Int) (shown : Int → Bool) (text : List Byte) :
    List Mark :=
  (List.range text.length).flatMap fun k =>
    charMarks font win first shown (place (clientCols win 60) (text.take k)) k (text.getD k 0)

section
variable {font : Font} {first : Int}

/-- **The loop that paints.** -/
theorem drawView_eq (font : Font) (f : Files) (win : Window) {first maxRows : Int}
    (hfit : IsInt (first + maxRows)) (n j : Nat) (hn : j + n = f.view.length) :
    drawView font f (win.x + wmBorderWidth + wmExplPad) (win.y + wmTitleHeight + wmExplPad)
        (clientCols win 60) first maxRows n j (place (clientCols win 60) (f.view.take j)).1
        (place (clientCols win 60) (f.view.take j)).2 =
      (List.range' j n).flatMap fun k =>
        charMarks font win first (fun l => first ≤ l ∧ l < first + maxRows)
          (place (clientCols win 60) (f.view.take k)) k (f.view.getD k 0) := by
  induction n generalizing j with
  | zero => rfl
  | succ n ih =>
    have hnext := ih (j + 1) (by omega)
    rw [place_take_succ (show j < f.view.length by omega)] at hnext
    rw [List.range'_succ, List.flatMap_cons, ← hnext, drawView]
    set p := place (clientCols win 60) (f.view.take j) with hp
    set c := f.view.getD j 0 with hc
    simp only
    by_cases hline : c = 0x0A
    · have hnew : advance (clientCols win 60) p c = (p.1 + 1, 0) := if_pos (.inl hline)
      have hnone : ¬ (c ≠ 0x0A ∧ decide (first ≤ p.1 ∧ p.1 < first + maxRows) = true) :=
        fun h => h.1 hline
      unfold charMarks
      rw [if_pos hline, if_neg hnone, hnew]
      rfl
    have hshown : (c ≠ 0x0A ∧ decide (first ≤ p.1 ∧ p.1 < first + maxRows) = true) ↔
        p.1 ≥ first ∧ p.1 < first + maxRows := by
      rw [decide_eq_true_iff]
      exact and_iff_right hline
    unfold charMarks
    rw [if_neg hline, int_of_range hfit.1 hfit.2, if_congr hshown rfl rfl, List.cons_append]
    by_cases hcol : p.2 + 1 ≥ clientCols win 60
    · have hnew : advance (clientCols win 60) p c = (p.1 + 1, 0) := if_pos (.inr hcol)
      rw [if_pos hcol, hnew]
    · have hsame : advance (clientCols win 60) p c = (p.1, p.2 + 1) :=
        if_neg (not_or.mpr ⟨hline, hcol⟩)
      rw [if_neg hcol, hsame]

/-- the whole text is painted -/
theorem drawView_text (font : Font) (f : Files) (win : Window) {first maxRows : Int}
    (hfit : IsInt (first + maxRows)) :
    drawView font f (win.x + wmBorderWidth + wmExplPad) (win.y + wmTitleHeight + wmExplPad)
        (clientCols win 60) first maxRows f.view.length 0 0 0 =
      paintedText font win first (fun l => first ≤ l ∧ l < first + maxRows) f.view := by
  unfold paintedText
  rw [List.range_eq_range']
  exact drawView_eq font f win hfit f.view.length 0 (Nat.zero_add _)

/-- it depends on the lines of the text alone which characters are painted -/
theorem paintedText_congr {win : Window} {shown shown' : Int → Bool} {text : List Byte}
    (h : ∀ l, 0 ≤ l → l ≤ (place (clientCols win 60) text).1 → shown l = shown' l) :
    paintedText font win first shown text = paintedText font win first shown' text := by
  unfold paintedText
  refine List.flatMap_congr fun k hk => ?_
  have hlt := List.mem_range.mp hk
  obtain ⟨h0, hlast⟩ := (place_lines (clientCols win 60) text _).mpr ⟨k, hlt.le, rfl⟩
  unfold charMarks
  rw [h _ h0 hlast]

end

/-! ## scrolling -/

/-- `rows` in `expl_key` -/
def Files.viewRows (f : Files) : Int :=
  if f.explWindowRows.1 < 1 then 1 else f.explWindowRows.1

/-- `max_row` in `expl_key` -/
def Files.maxRow (f : Files) : Int :=
  if f.explViewLines.1 - f.viewRows < 0 then 0 else f.explViewLines.1 - f.viewRows

/-- the keys that go back to the list -/
def Leaves (ch : Byte) : Prop := ch = 0x0A ∨ ch = 0x08 ∨ ch = 0x71

/-- a text in the Files window -/
structure HasText (f : Files) (i : Slot) (text : List Byte) : Prop where
  winId : f.desk.expl.winId = some i
  state : f.desk.expl.state = .view
  view : f.view = text
  viewLen : f.desk.expl.viewLen = text.length
  short : text.length < 2 ^ 30
  /-- no window is smaller -/
  height : wmMinHeight ≤ (f.desk.windows i).height ∧ (f.desk.windows i).height < 2 ^ 31

/-- **the Files window shows a text**, from a line on that it can show -/
structure Viewing (f : Files) (i : Slot) (text : List Byte) : Prop extends HasText f i text where
  row : 0 ≤ f.desk.expl.viewRow ∧ f.desk.expl.viewRow ≤ f.maxRow

/-- **what it shows**, of the lines of the layout -/
structure ShowsLines (font : Font) (f : Files) (i : Slot) (text : List Byte) : Prop where
  /-- the lines that are counted are those that are laid out -/
  lines : ∀ l, (0 ≤ l ∧ l < f.explViewLines.1) ↔
    ∃ k ≤ text.length, (place (clientCols (f.desk.windows i) 60) (text.take k)).1 = l
  /-- with rows for all lines every character is painted -/
  unbounded : ∀ rows, f.explViewLines.1 ≤ rows → IsInt rows →
    drawView font f ((f.desk.windows i).x + wmBorderWidth + wmExplPad)
        ((f.desk.windows i).y + wmTitleHeight + wmExplPad) (clientCols (f.desk.windows i) 60) 0 rows
        text.length 0 0 0 =
      paintedText font (f.desk.windows i) 0 (fun _ => true) text
  row : 0 ≤ f.desk.expl.viewRow ∧ f.desk.expl.viewRow ≤ f.maxRow
  /-- `view_row` is painted at the top, and the lines below it as far as there are rows -/
  painted : text ≠ [] → wmDrawExplView font f i =
    paintedText font (f.desk.windows i) f.desk.expl.viewRow
      (fun l => f.desk.expl.viewRow ≤ l ∧ l < f.desk.expl.viewRow + f.viewRows) text
  /-- the last line is in a row of the window -/
  last : f.desk.expl.viewRow = f.maxRow → f.desk.expl.viewRow ≤ f.explViewLines.1 - 1 ∧
    f.explViewLines.1 - 1 < f.desk.expl.viewRow + f.viewRows

section
variable {f f' : Files} {i : Slot} {text : List Byte} {ch : Byte}

/-- as many lines are counted as there are in the layout -/
theorem HasText.explViewLines (h : HasText f i text) :
    f.explViewLines.1 = (place (clientCols (f.desk.windows i) 60) text).1 + 1 := by
  unfold Files.explViewLines
  simp only [h.winId]
  rw [h.view, h.viewLen, Int.toNat_natCast, List.take_length]
  refine (wrappedLines_eq _ text (0, 0)).trans ?_
  rw [foldl_clamp text (le_refl 0)]
  rfl

/-- the rows of `expl_key` are those of the window manager -/
theorem HasText.viewRows (h : HasText f i text) :
    f.desk.wmExplVisibleRows i = f.viewRows ∧ 1 ≤ f.viewRows ∧ f.viewRows < 2 ^ 28 := by
  obtain ⟨hlow, hhigh⟩ := h.height
  have hlow' : 48 ≤ (f.desk.windows i).height := hlow
  have hrows : f.explWindowRows.1 = ((f.desk.windows i).height - 18 - 2 - 2 * 2).tdiv 16 := by
    unfold Files.explWindowRows
    simp only [h.winId]
    rfl
  have hdiv : ((f.desk.windows i).height - 18 - 2 - 2 * 2).tdiv 16 =
      ((f.desk.windows i).height - 18 - 2 - 2 * 2) / 16 := Int.tdiv_eq_ediv_of_nonneg (by omega)
  have hone : ¬ f.explWindowRows.1 < 1 := by omega
  have hpos : ¬ (f.desk.windows i).height - 18 - 2 - 2 * 2 ≤ 0 := by omega
  unfold Files.viewRows Desktop.wmExplVisibleRows
  rw [if_neg hone, hrows]
  exact ⟨if_neg hpos, by omega, by omega⟩

/-- `max_row` comes from the window and the text -/
theorem HasText.maxRow (h : HasText f i text) (h' : HasText f' i text)
    (hw : f'.desk.windows i = f.desk.windows i) : f'.maxRow = f.maxRow := by
  have hrows : f'.viewRows = f.viewRows := by
    rw [← h.viewRows.1, ← h'.viewRows.1]
    unfold Desktop.wmExplVisibleRows
    rw [hw]
  unfold Files.maxRow
  rw [h.explViewLines, h'.explViewLines, hw, hrows]

/-- **A text that is shown is painted line by line.** -/
theorem Viewing.shows (h : Viewing f i text) (font : Font) : ShowsLines font f i text := by
  obtain ⟨hrows, hone, hmany⟩ := h.viewRows
  obtain ⟨hrow, hmax⟩ := h.row
  have hlines := h.explViewLines
  have hle := place_le (clientCols (f.desk.windows i) 60) text
  have hshort := h.short
  have hnonneg : 0 ≤ (place (clientCols (f.desk.windows i) 60) text).1 :=
    ((place_lines _ text _).mpr ⟨text.length, le_refl _, by rw [List.take_length]⟩).1
  refine ⟨fun l => ?_, fun rows hr hint => ?_, h.row, fun hne => ?_, fun he => ?_⟩
  · rw [hlines, ← place_lines]
    exact and_congr_right fun _ => Int.lt_add_one_iff
  · have hdraw := drawView_text font f (f.desk.windows i) (show IsInt (0 + rows) by rwa [Int.zero_add])
    rw [h.view] at hdraw
    refine hdraw.trans (paintedText_congr fun l h0 hlast => ?_)
    exact decide_eq_true ⟨h0, by omega⟩
  · have hpos : 0 < text.length := List.length_pos_iff.mpr hne
    have hint : IsInt (f.desk.expl.viewRow + f.viewRows) := by
      unfold Files.maxRow at hmax
      constructor
      · omega
      · split_ifs at hmax <;> omega
    have hdraw := drawView_text font f (f.desk.windows i) hint
    rw [h.view] at hdraw
    unfold wmDrawExplView
    simp only
    rw [if_neg (by rw [h.viewLen]; omega), hrows, h.viewLen, Int.toNat_natCast]
    exact hdraw
  · unfold Files.maxRow at he hmax
    split_ifs at he hmax <;> omega

/-! ## keys -/

/-- `view_row` after a key that stays in the view -/
def scrolledRow (row rows maxRow : Int) (ch : Byte) : Int :=
  if ch = GUI_KEY_UP then if row > 0 then row - 1 else row
  else if ch = GUI_KEY_DOWN then if row < maxRow then row + 1 else row
  else if ch = GUI_KEY_PGUP then if row - (rows - 1) < 0 then 0 else row - (rows - 1)
  else if ch = GUI_KEY_PGDN then if row + (rows - 1) > maxRow then maxRow else row + (rows - 1)
  else if ch = GUI_KEY_HOME then 0
  else if ch = GUI_KEY_END then maxRow
  else row

theorem scrolledRow_range {row rows maxRow : Int} (hrow : 0 ≤ row ∧ row ≤ maxRow) (hrows : 1 ≤ rows)
    (ch : Byte) : 0 ≤ scrolledRow row rows maxRow ch ∧ scrolledRow row rows maxRow ch ≤ maxRow := by
  unfold scrolledRow
  split_ifs <;> omega

/-- `expl_view_lines` leaves the text and the explorer -/
theorem explViewLines_files (f : Files) :
    f.explViewLines.2.desk = f.desk ∧ f.explViewLines.2.view = f.view := by
  unfold Files.explViewLines
  split
  · exact ⟨rfl, rfl⟩
  · exact ⟨rfl, rfl⟩

def Files.setRow (f : Files) (row : Int) : Files := f.setExpl { f.desk.expl with viewRow := row }

/-- a key that stays in the view only moves the first line -/
theorem viewKey_eq (f : Files) (rows : Int) (hch : ¬ Leaves ch) :
    f.viewKey rows ch = f.explViewLines.2.setRow (scrolledRow f.explViewLines.2.desk.expl.viewRow rows
      (if f.explViewLines.1 - rows < 0 then 0 else f.explViewLines.1 - rows) ch) := by
  have hback : ¬ (ch = 0x0A ∨ ch = 0x08 ∨ ch = 0x71) := hch
  unfold Files.viewKey scrolledRow
  generalize f.explViewLines = r
  obtain ⟨lines, g⟩ := r
  simp only [if_neg hback]
  generalize (if lines - rows < 0 then 0 else lines - rows) = maxRow
  by_cases hup : ch = GUI_KEY_UP
  · rw [if_pos hup, if_pos hup]
    exact (apply_ite g.setRow _ _ _).symm
  rw [if_neg hup, if_neg hup]
  by_cases hdown : ch = GUI_KEY_DOWN
  · rw [if_pos hdown, if_pos hdown]
    exact (apply_ite g.setRow _ _ _).symm
  rw [if_neg hdown, if_neg hdown]
  by_cases hpgup : ch = GUI_KEY_PGUP
  · rw [if_pos hpgup, if_pos hpgup]
    rfl
  rw [if_neg hpgup, if_neg hpgup]
  by_cases hpgdn : ch = GUI_KEY_PGDN
  · rw [if_pos hpgdn, if_pos hpgdn]
    rfl
  rw [if_neg hpgdn, if_neg hpgdn]
  by_cases hhome : ch = GUI_KEY_HOME
  · rw [if_pos hhome, if_pos hhome]
    rfl
  rw [if_neg hhome, if_neg hhome]
  exact (apply_ite g.setRow _ _ _).symm

/-- a key in the view moves `view_row` alone -/
theorem HasText.explKey (h : HasText f i text) (fs : Fs) (hch : ¬ Leaves ch) :
    (f.explKey fs ch).1.desk = { f.desk with expl := { f.desk.expl with
        viewRow := scrolledRow f.desk.expl.viewRow f.viewRows f.maxRow ch } } ∧
      (f.explKey fs ch).1.view = f.view := by
  have hwin : f.explWindowRows = (f.explWindowRows.1, f.touch [.window i.val]) := by
    unfold Files.explWindowRows
    simp only [h.winId]
  have hlines : (f.touch [.window i.val]).explViewLines.1 = f.explViewLines.1 := by
    unfold Files.explViewLines Files.touch
    simp only [h.winId]
  have hkey := viewKey_eq (f.touch [.window i.val]) f.viewRows hch
  rw [hlines] at hkey
  have hview : (f.explKey fs ch).1 = (f.touch [.window i.val]).viewKey f.viewRows ch := by
    unfold Files.explKey
    rw [hwin]
    exact congrArg Prod.fst (if_pos h.state)
  obtain ⟨hdesk, hsame⟩ := explViewLines_files (f.touch [.window i.val])
  rw [hview, hkey]
  unfold Files.setRow Files.setExpl
  rw [hdesk]
  exact ⟨rfl, hsame⟩

/-- **One key.** -/
theorem Viewing.key (h : Viewing f i text) (fs : Fs) (hch : ¬ Leaves ch) :
    Viewing (f.explKey fs ch).1 i text := by
  obtain ⟨-, hone, -⟩ := h.viewRows
  obtain ⟨hdesk, hview⟩ := h.explKey fs hch
  have htext : HasText (f.explKey fs ch).1 i text := by
    refine ⟨?_, ?_, hview.trans h.view, ?_, h.short, ?_⟩
    · rw [hdesk]
      exact h.winId
    · rw [hdesk]
      exact h.state
    · rw [hdesk]
      exact h.viewLen
    · rw [hdesk]
      exact h.height
  refine ⟨htext, ?_⟩
  rw [h.maxRow htext (by rw [hdesk]), hdesk]
  exact scrolledRow_range h.row hone ch

/-- **Any keys.** -/
theorem Viewing.keys (h : Viewing f i text) (keys : List (Fs × Byte))
    (hkeys : ∀ k ∈ keys, ¬ Leaves k.2) :
    Viewing (keys.foldl (fun f k => (f.explKey k.1 k.2).1) f) i text := by
  induction keys generalizing f with
  | nil => exact h
  | cons k keys ih =>
    have hk := hkeys k (List.mem_cons_self ..)
    exact ih (h.key k.1 hk) fun k' hk' => hkeys k' (List.mem_cons_of_mem _ hk')

/-- **The lines that are painted are those that were counted**, after any keys. -/
theorem scrolls (h : Viewing f i text) (keys : List (Fs × Byte)) (hkeys : ∀ k ∈ keys, ¬ Leaves k.2)
    (font : Font) : ShowsLines font (keys.foldl (fun f k => (f.explKey k.1 k.2).1) f) i text :=
  (h.keys keys hkeys).shows font

end

/-! ## a file is opened -/

/-- the carriage returns are taken out -/
theorem length_sanitize_eq (l : List Byte) : (sanitize l).length = (l.filter (· ≠ 0x0D)).length := by
  induction l with
  | nil => rfl
  | cons c l ih =>
    rw [sanitize]
    by_cases hcr : c = 0x0D
    · subst hcr
      exact ih
    · rw [List.filter_cons_of_pos (by simpa using hcr), List.length_cons, ← ih, if_neg hcr]
      split_ifs <;> rfl

theorem length_sanitize (l : List Byte) : (sanitize l).length ≤ l.length := by
  rw [length_sanitize_eq]
  exact List.length_filter_le _ l

/-- the view of a file is short -/
theorem length_viewText (size : Int) (bytes : List Byte) :
    (viewText size bytes).length ≤ wmExplViewMax + truncatedNote.length := by
  have htake : (bytes.take wmExplViewMax).length ≤ wmExplViewMax := List.length_take_le ..
  have htext := (length_sanitize (bytes.take wmExplViewMax)).trans htake
  unfold viewText
  simp only
  split_ifs
  · rw [List.length_append]
    exact Nat.add_le_add_right htext _
  · exact htext.trans (Nat.le_add_right _ _)

/-- **A file that is opened is shown** from its first line on. -/
theorem openView_viewing (f : Files) (fs : Fs) (idx : Int) {i : Slot} {bytes : List Byte}
    (hidx : 0 ≤ idx ∧ idx < f.desk.expl.nEntries) (hkind : (f.entries idx.toNat).kind = .file)
    (hfile : fs.file (pathOf (f.entries idx.toNat).name) = some bytes)
    (hwin : f.desk.expl.winId = some i)
    (hheight : wmMinHeight ≤ (f.desk.windows i).height ∧ (f.desk.windows i).height < 2 ^ 31) :
    Viewing (f.explOpenView fs idx) i (viewText (f.entries idx.toNat).size bytes) := by
  obtain ⟨hdesk, -, hview⟩ := openView_file f fs idx hidx hkind hfile
  have hlen := length_viewText (f.entries idx.toNat).size bytes
  refine ⟨⟨?_, ?_, hview, ?_, hlen.trans_lt (by decide), ?_⟩, ?_, ?_⟩
  · rw [hdesk]
    exact hwin
  · rw [hdesk]
  · rw [hdesk]
  · rw [hdesk]
    exact hheight
  · rw [hdesk]
  · rw [hdesk]
    unfold Files.maxRow
    split_ifs with hneg
    · exact le_refl 0
    · exact not_lt.mp hneg

/-- the sample of a long file, with END and PGUP -/
theorem scrolls_viewed : ShowsLines (fun _ _ => 0)
    ([(longFile, GUI_KEY_END), (longFile, GUI_KEY_PGUP)].foldl (fun f k => (f.explKey k.1 k.2).1)
      viewed) 0 (viewText 4097 longText) := by
  have hentry : listed.entries 0 = ⟨1, 4097, .file, [0x66]⟩ := by
    rw [listed_entries, Function.update_self]
  have hn : listed.desk.expl.nEntries = 1 := by decide +kernel
  have hopen : Viewing viewed 0 (viewText (listed.entries 0).size longText) :=
    openView_viewing listed longFile 0 (by omega) (congrArg Entry.kind hentry)
      (show longFile.file _ = some longText from rfl) (by decide +kernel)
      ⟨by decide +kernel, by decide +kernel⟩
  rw [hentry] at hopen
  refine scrolls hopen _ (fun k hk => ?_) _
  rcases List.mem_pair.mp hk with rfl | rfl
  · unfold Leaves
    decide
  · unfold Leaves
    decide

end Noxis.Wm
