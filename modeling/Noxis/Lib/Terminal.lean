import Mathlib.Tactic.Common

/-!
# A terminal

A grid of cells with a cursor on it.  What goes past the last row moves every row up.

* `Terminal`     the grid; its cursor is on it;
* `newline`      the start of the next row;
* `put`          a cell at the cursor, which moves on to the next one in the order of the rows;
* `back`         one cell back in that order.
-/

namespace Noxis

/-- the cells outside of the grid mean nothing -/
structure Terminal (α : Type*) where
  rows : Nat
  cols : Nat
  cell : Nat → Nat → α
  row : Nat
  col : Nat
  row_lt : row < rows
  col_lt : col < cols

namespace Terminal

variable {α : Type*}

/-- every row moves up by one, and the last one is blank -/
def scroll (blank : α) (t : Terminal α) : Terminal α :=
  { t with cell := fun r c => if r + 1 < t.rows then t.cell (r + 1) c else blank }

def newline (blank : α) (t : Terminal α) : Terminal α :=
  if h : t.row + 1 < t.rows then
    { t with row := t.row + 1, col := 0, row_lt := h, col_lt := Nat.zero_lt_of_lt t.col_lt }
  else { t.scroll blank with col := 0, col_lt := Nat.zero_lt_of_lt t.col_lt }

/-- the cell at the cursor -/
def write (x : α) (t : Terminal α) : Terminal α :=
  { t with cell := fun r c => if r = t.row ∧ c = t.col then x else t.cell r c }

def advance (blank : α) (t : Terminal α) : Terminal α :=
  if h : t.col + 1 < t.cols then { t with col := t.col + 1, col_lt := h } else t.newline blank

def put (blank x : α) (t : Terminal α) : Terminal α := (t.write x).advance blank

/-- at the first cell it stays there -/
def back (t : Terminal α) : Terminal α :=
  if 0 < t.col then { t with col := t.col - 1, col_lt := Nat.lt_of_le_of_lt (Nat.sub_le _ _) t.col_lt }
  else if 0 < t.row then
    { t with
      row := t.row - 1
      col := t.cols - 1
      row_lt := Nat.lt_of_le_of_lt (Nat.sub_le _ _) t.row_lt
      col_lt := Nat.sub_one_lt_of_lt t.col_lt }
  else t

def moveTo (t : Terminal α) (row col : Nat) (hrow : row < t.rows) (hcol : col < t.cols) : Terminal α :=
  { t with row := row, col := col, row_lt := hrow, col_lt := hcol }

/-- nothing but blanks, and the cursor at the first cell -/
def clear (blank : α) (t : Terminal α) : Terminal α :=
  { t with
    cell := fun _ _ => blank
    row := 0
    col := 0
    row_lt := Nat.zero_lt_of_lt t.row_lt
    col_lt := Nat.zero_lt_of_lt t.col_lt }

end Terminal

end Noxis
