import Noxis.Lib.Wrap
import Noxis.Wm.Desktop
import Mathlib.Data.List.Induction
import Mathlib.Data.List.TakeWhile

/-!
# What the terminal window shows

A window of the desktop holds a grid of characters with a cursor.  A text is put there letter by
letter; the grid scrolls when the cursor leaves the bottom row.

* `Desktop.wmTermPuts`   a text goes to the terminal
* `Shows`                the grid is the last rows of a text, and the cursor stands at its end
* `InGrid`               the cursor stands on a cell
* `grid_wraps`           **the terminal shows the text in rows, and its cursor stays in the grid**
-/

namespace Noxis.Wm

/-! ## the terminal -/

abbrev wmTermRows : Nat := 24
abbrev wmTermCols : Nat := 56

def blank : UInt8 := 0x20
/-- the character `\n` -/
def newline : UInt8 := 0x0a
/-- the character `\b` -/
def backspace : UInt8 := 0x08

/-- the character goes to the cell under the cursor; outside the grid there is none -/
def Terminal.setCell (t : Terminal) (c : UInt8) : Terminal :=
  { t with cells := fun i j => if (i : Int) = t.curRow ∧ (j : Int) = t.curCol then c
                               else t.cells i j }

def Terminal.wmTermScroll (t : Terminal) : Terminal :=
  { t with
    cells := fun i j => if h : i.val + 1 < wmTermRows then t.cells ⟨i.val + 1, h⟩ j else blank
    curRow := wmTermRows - 1 }

def Terminal.wmTermBackspace (t : Terminal) : Terminal :=
  if t.curCol > 0 then { t with curCol := t.curCol - 1 }.setCell blank
  else if t.curRow > 0 then
    { t with curRow := t.curRow - 1, curCol := wmTermCols - 1 }.setCell blank
  else t

/-- the end of `wm_term_putc` -/
def Terminal.keepRow (t : Terminal) : Terminal :=
  if t.curRow ≥ wmTermRows then t.wmTermScroll else t

def Terminal.newRow (t : Terminal) : Terminal := { t with curCol := 0, curRow := t.curRow + 1 }

def Terminal.wmTermPutc (t : Terminal) (c : UInt8) : Terminal :=
  if c = newline then t.newRow.keepRow
  else if c = backspace then t.wmTermBackspace
  else if c < 32 ∨ 126 < c then t
  else
    let t := { t.setCell c with curCol := t.curCol + 1 }
    (if t.curCol ≥ wmTermCols then t.newRow else t).keepRow

/-- the text ends before its first zero -/
def Terminal.wmTermPuts (t : Terminal) : List UInt8 → Terminal
  | [] => t
  | c :: s => if c = 0 then t else (t.wmTermPutc c).wmTermPuts s

def Desktop.wmTermClear (d : Desktop) : Desktop := { d with term := d.term.clear }

def Desktop.wmTermPuts (d : Desktop) (s : List UInt8) : Desktop :=
  { d with term := d.term.wmTermPuts s }

theorem puts_eq_foldl (t : Terminal) (s : List UInt8) :
    t.wmTermPuts s = (s.takeWhile (· ≠ 0)).foldl Terminal.wmTermPutc t := by
  induction s generalizing t with
  | nil => rfl
  | cons c s ih =>
    rw [Terminal.wmTermPuts]
    by_cases hc : c = 0
    · simp [hc]
    · simp [hc, ih]

/-! ## the cursor -/

/-- the cursor stands on a cell -/
structure InGrid (t : Terminal) : Prop where
  row : 0 ≤ t.curRow ∧ t.curRow < wmTermRows
  col : 0 ≤ t.curCol ∧ t.curCol < wmTermCols

theorem clear_inGrid (t : Terminal) : InGrid t.clear where
  row := ⟨le_refl 0, show (0 : Int) < wmTermRows by decide⟩
  col := ⟨le_refl 0, show (0 : Int) < wmTermCols by decide⟩

theorem InGrid.backspace {t : Terminal} (h : InGrid t) : InGrid t.wmTermBackspace := by
  obtain ⟨⟨h1, h2⟩, h3, h4⟩ := h
  unfold Terminal.wmTermBackspace
  split_ifs with hcol hrow
  · exact ⟨⟨h1, h2⟩, show 0 ≤ t.curCol - 1 by omega, show t.curCol - 1 < wmTermCols by omega⟩
  · exact ⟨⟨show 0 ≤ t.curRow - 1 by omega, show t.curRow - 1 < wmTermRows by omega⟩,
      show (0 : Int) ≤ wmTermCols - 1 by decide, show (wmTermCols : Int) - 1 < wmTermCols by decide⟩
  · exact ⟨⟨h1, h2⟩, h3, h4⟩

/-- after the row is kept, only the column matters -/
theorem keepRow_inGrid {t : Terminal} (hrow : 0 ≤ t.curRow)
    (hcol : 0 ≤ t.curCol ∧ t.curCol < wmTermCols) : InGrid t.keepRow := by
  unfold Terminal.keepRow
  split_ifs with h
  · exact ⟨⟨show (0 : Int) ≤ wmTermRows - 1 by decide,
      show (wmTermRows : Int) - 1 < wmTermRows by decide⟩, hcol⟩
  · exact ⟨⟨hrow, by omega⟩, hcol⟩

/-- **One character**, whatever it is. -/
theorem InGrid.putc {t : Terminal} (h : InGrid t) (c : UInt8) : InGrid (t.wmTermPutc c) := by
  have hrow : 0 ≤ t.curRow + 1 := Int.le_add_one h.row.1
  have hcol : (0 : Int) ≤ 0 ∧ (0 : Int) < wmTermCols := by decide
  unfold Terminal.wmTermPutc
  split_ifs
  · exact keepRow_inGrid hrow hcol
  · exact h.backspace
  · exact h
  · dsimp only
    split
    · exact keepRow_inGrid hrow hcol
    · rename_i hlt
      obtain ⟨h1, h2⟩ := h.col
      exact keepRow_inGrid h.row.1 ⟨Int.le_add_one h1, not_le.mp hlt⟩

theorem InGrid.puts {t : Terminal} (h : InGrid t) (s : List UInt8) : InGrid (t.wmTermPuts s) := by
  induction s generalizing t with
  | nil => exact h
  | cons c s ih =>
    rw [Terminal.wmTermPuts]
    split
    · exact h
    · exact ih (h.putc c)

/-! ## the rows -/

/-- a letter of plain text -/
abbrev Plain : Type := { c : UInt8 // c = newline ∨ 32 ≤ c ∧ c ≤ 126 }

/-- the last rows, as many as the grid has -/
def shown (rows : List (List UInt8)) : List (List UInt8) := rows.drop (rows.length - wmTermRows)

/-- the grid is the last rows, blanks behind them, and the cursor stands at their end -/
structure Shows (t : Terminal) (rows : List (List UInt8)) : Prop where
  cells : ∀ i j, t.cells i j = ((shown rows).getD i []).getD j blank
  row : t.curRow = (shown rows).length - 1
  col : ∃ last, rows.getLast? = some last ∧ t.curCol = last.length

section
variable {t : Terminal} {rows done : List (List UInt8)} {last : List UInt8}

theorem length_shown : (shown rows).length = min rows.length wmTermRows := by
  rw [shown, List.length_drop]
  omega

theorem getD_shown (i : Nat) :
    (shown rows).getD i [] = rows.getD (rows.length - wmTermRows + i) [] := by
  simp [shown, List.getD_eq_getElem?_getD, List.getElem?_drop]

theorem clear_shows (t : Terminal) : Shows t.clear [[]] where
  cells i j := by
    have hi : (shown [[]]).getD i.val [] = ([] : List UInt8) := by
      rw [getD_shown]
      cases i.val <;> rfl
    rw [hi]
    rfl
  row := rfl
  col := ⟨[], rfl, rfl⟩

/-- a letter under the cursor -/
theorem Shows.setCell (h : Shows t (done ++ [last])) (c : UInt8) :
    Shows { t.setCell c with curCol := t.curCol + 1 } (done ++ [last ++ [c]]) := by
  obtain ⟨w, hw, hcol⟩ := h.col
  obtain rfl : last = w := by simpa using hw
  have hrow := h.row
  have hlen : ∀ w, (done ++ [w]).length = done.length + 1 := by simp
  rw [length_shown, hlen] at hrow
  refine ⟨fun i j => ?_, ?_, last ++ [c], by simp, ?_⟩
  · show (if (i : Int) = t.curRow ∧ (j : Int) = t.curCol then c else t.cells i j) = _
    rw [h.cells, getD_shown, getD_shown, hlen, hlen]
    have hj : (j : Int) = t.curCol ↔ j.val = last.length := by omega
    have hi : (i : Int) = t.curRow ↔ done.length + 1 - wmTermRows + i.val = done.length := by omega
    simp only [hi, hj]
    by_cases hk : done.length + 1 - wmTermRows + i.val = done.length
    · rw [hk]
      by_cases hj : j.val = last.length
      · simp [hj]
      · rcases Nat.lt_or_gt_of_ne hj with hlt | hgt
        · simp [hj, List.getD_eq_getElem?_getD, List.getElem?_append_left hlt]
        · have hnone : (last ++ [c])[j.val]? = none :=
            List.getElem?_eq_none (by rw [List.length_append, List.length_singleton]; omega)
          have hnone' : last[j.val]? = none := List.getElem?_eq_none hgt.le
          simp [hj, List.getD_eq_getElem?_getD, hnone, hnone']
    · rw [if_neg (fun hand => hk hand.1)]
      rcases Nat.lt_or_gt_of_ne hk with hlt | hgt
      · simp [List.getD_eq_getElem?_getD, List.getElem?_append_left hlt]
      · have hnone : ∀ w, (done ++ [w])[done.length + 1 - wmTermRows + i.val]? = none := fun w =>
          List.getElem?_eq_none (by rw [hlen]; omega)
        simp only [List.getD_eq_getElem?_getD, hnone]
  · rw [length_shown, hlen]
    exact hrow
  · show t.curCol + 1 = _
    rw [hcol, List.length_append, List.length_singleton]
    rfl

/-- an empty row behind the others -/
theorem Shows.newRow (h : Shows t rows) : Shows t.newRow.keepRow (rows ++ [[]]) := by
  have hrow := h.row
  rw [length_shown] at hrow
  have hget : ∀ k, (rows ++ [[]]).getD k [] = rows.getD k [] := by
    intro k
    rcases Nat.lt_or_ge k rows.length with hlt | hge
    · simp [List.getD_eq_getElem?_getD, List.getElem?_append_left hlt]
    · have hnone : rows[k]? = none := List.getElem?_eq_none hge
      rw [List.getD_eq_getElem?_getD, List.getElem?_append_right hge, List.getD_eq_getElem?_getD,
        hnone]
      cases k - rows.length <;> rfl
  have hlen : (rows ++ [[]]).length = rows.length + 1 := List.length_append
  have hcell : ∀ i, (shown (rows ++ [[]])).getD i [] =
      rows.getD (rows.length + 1 - wmTermRows + i) [] := by
    intro i
    rw [getD_shown, hget, hlen]
  unfold Terminal.keepRow
  split_ifs with hge
  · have hfull : wmTermRows ≤ rows.length := by
      have hge' : t.curRow + 1 ≥ wmTermRows := hge
      omega
    refine ⟨fun i j => ?_, ?_, [], by simp, rfl⟩
    · rw [hcell]
      show (if hi : i.val + 1 < wmTermRows then t.cells ⟨i.val + 1, hi⟩ j else blank) = _
      split_ifs with hi
      · rw [h.cells, getD_shown]
        show (rows.getD (rows.length - wmTermRows + (i.val + 1)) []).getD j blank = _
        rw [show rows.length - wmTermRows + (i.val + 1) = rows.length + 1 - wmTermRows + i.val by
          omega]
      · have hnone : rows[rows.length + 1 - wmTermRows + i.val]? = none :=
          List.getElem?_eq_none (by omega)
        rw [List.getD_eq_getElem?_getD (l := rows), hnone]
        rfl
    · show (wmTermRows : Int) - 1 = _
      rw [length_shown, hlen]
      omega
  · have hfew : rows.length < wmTermRows := by
      have hlt : ¬ t.curRow + 1 ≥ wmTermRows := hge
      omega
    refine ⟨fun i j => ?_, ?_, [], by simp, rfl⟩
    · rw [hcell]
      show t.cells i j = _
      rw [h.cells, getD_shown]
      rw [show rows.length - wmTermRows = rows.length + 1 - wmTermRows by omega]
    · show t.curRow + 1 = _
      rw [length_shown, hlen]
      omega

/-- a row that is there stays where it is -/
theorem Shows.keepRow (h : Shows t rows) : t.keepRow = t := by
  have hrow := h.row
  rw [length_shown] at hrow
  exact if_neg (by omega)

end

/-- **One letter**: the rows of the text with it are shown. -/
theorem Shows.putc {t : Terminal} {s : List UInt8}
    (h : Shows t (Wrap.rows wmTermCols newline s)) (c : Plain) :
    Shows (t.wmTermPutc c) (Wrap.rows wmTermCols newline (s ++ [c.val])) := by
  obtain ⟨done, last, hrows, -, hsnoc⟩ :=
    Wrap.exists_rows (show 0 < wmTermCols by decide) newline s
  rw [hrows] at h
  obtain ⟨c, hc⟩ := c
  unfold Terminal.wmTermPutc
  by_cases hnl : c = newline
  · subst hnl
    rw [if_pos rfl, Wrap.rows_snoc_nl, hrows]
    exact h.newRow
  · have hprint : 32 ≤ c ∧ c ≤ 126 := hc.resolve_left hnl
    have hbs : c ≠ backspace := by
      rintro rfl
      exact absurd hprint.1 (by decide)
    have hbounds : ¬ (c < 32 ∨ 126 < c) := by
      rw [not_or, UInt8.not_lt, UInt8.not_lt]
      exact hprint
    have hput := h.setCell c
    obtain ⟨w, hw, hcol⟩ := hput.col
    obtain rfl : last ++ [c] = w := by simpa using hw
    rw [List.length_append, List.length_singleton] at hcol
    rw [if_neg hnl, if_neg hbs, if_neg hbounds, hsnoc c hnl]
    dsimp only at hcol ⊢
    by_cases hfull : last.length + 1 < wmTermCols
    · rw [if_pos hfull, if_neg (by omega), hput.keepRow]
      exact hput
    · rw [if_neg hfull, if_pos (by omega)]
      exact hput.newRow

/-- the letters of a plain text go to the terminal one after the other -/
theorem puts_plain (t : Terminal) (s : List Plain) :
    t.wmTermPuts (s.map Subtype.val) = s.foldl (fun t c => t.wmTermPutc c.val) t := by
  have hplain : ∀ c ∈ s.map Subtype.val, c ≠ 0 := by
    intro c hc hzero
    obtain ⟨⟨p, hp⟩, -, rfl⟩ := List.mem_map.mp hc
    rw [show p = 0 from hzero] at hp
    exact absurd hp (by decide)
  rw [puts_eq_foldl, List.takeWhile_eq_self_iff.mpr, List.foldl_map]
  intro c hc
  simpa using hplain c hc

theorem Shows.puts (t : Terminal) (s : List Plain) :
    Shows (t.clear.wmTermPuts (s.map Subtype.val))
      (Wrap.rows wmTermCols newline (s.map Subtype.val)) := by
  rw [puts_plain]
  induction s using List.reverseRecOn with
  | nil =>
    rw [List.map_nil, Wrap.rows_nil]
    exact clear_shows t
  | append_singleton s c ih =>
    rw [List.foldl_append, List.map_append]
    exact ih.putc c

/-- **The terminal shows a plain text in rows.** -/
theorem grid_wraps :
    (∀ (d : Desktop) (s : List Plain), Shows (d.wmTermClear.wmTermPuts (s.map Subtype.val)).term
      (Wrap.rows wmTermCols newline (s.map Subtype.val))) ∧
    ∀ (d : Desktop) (s : List UInt8), InGrid (d.wmTermClear.wmTermPuts s).term := by
  constructor
  · intro d s
    exact Shows.puts d.term s
  · intro d s
    exact (clear_inGrid d.term).puts s

end Noxis.Wm
