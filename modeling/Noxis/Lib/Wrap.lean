import Mathlib.Data.List.Basic

/-!
# Wrap: a text in rows of a width

A text is split into lines, and each line into rows of a width.  A row that is full is followed by
another one, which may be empty, so that the last row of a text has always a free place.

* `line n l`           the rows of a line
* `rows n nl s`        the rows of a text with the line ends `nl`
* `exists_rows`        the last row, and what one more letter does to it
-/

namespace Noxis.Wrap

variable {α : Type} {n : Nat}

/-! ## one line -/

/-- the rows of a line: the full ones, and what is left -/
def line (n : Nat) (l : List α) : List (List α) :=
  (List.range (l.length / n + 1)).map fun i => (l.drop (i * n)).take n

/-- the full rows of a line -/
def full (n : Nat) (l : List α) : List (List α) :=
  (List.range (l.length / n)).map fun i => (l.drop (i * n)).take n

/-- what is left after the full rows -/
def rest (n : Nat) (l : List α) : List α := l.drop (l.length / n * n)

theorem length_rest (l : List α) : (rest n l).length = l.length % n := by
  have hdiv := Nat.div_add_mod' l.length n
  rw [rest, List.length_drop]
  omega

theorem length_rest_lt (hn : 0 < n) (l : List α) : (rest n l).length < n := by
  rw [length_rest]
  exact Nat.mod_lt _ hn

theorem line_eq (hn : 0 < n) (l : List α) : line n l = full n l ++ [rest n l] := by
  have hlt := length_rest_lt hn l
  rw [line, full, rest, List.range_succ, List.map_append, List.map_singleton, List.take_of_length_le]
  exact Nat.le_of_lt hlt

/-- the rows that were full stay as they are -/
theorem take_drop_snoc (l : List α) (a : α) {i : Nat} (hi : i < l.length / n) :
    ((l ++ [a]).drop (i * n)).take n = (l.drop (i * n)).take n := by
  have hle : (i + 1) * n ≤ l.length := 
    Nat.le_trans (Nat.mul_le_mul_right n hi) (Nat.div_mul_le_self _ _)
  rw [Nat.add_mul, Nat.one_mul] at hle
  rw [List.drop_append_of_le_length (by omega), List.take_append_of_le_length]
  rw [List.length_drop]
  omega

/-- the letter goes to the last row while a place is left behind it -/
theorem line_snoc_of_lt (hn : 0 < n) (l : List α) (a : α) (h : (rest n l).length + 1 < n) :
    line n (l ++ [a]) = full n l ++ [rest n l ++ [a]] := by
  rw [length_rest] at h
  have hdiv : (l ++ [a]).length / n = l.length / n := by
    rw [List.length_append, List.length_singleton, Nat.succ_div_of_not_dvd]
    rw [Nat.dvd_iff_mod_eq_zero, Nat.add_mod, Nat.mod_eq_of_lt (by omega : 1 < n), Nat.mod_eq_of_lt h]
    omega
  rw [line_eq hn, full, rest, hdiv, List.drop_append_of_le_length (Nat.div_mul_le_self _ _)]
  congr 1
  refine List.map_congr_left fun i hi => ?_
  exact take_drop_snoc l a (List.mem_range.mp hi)

/-- the letter that fills the last row is followed by an empty one -/
theorem line_snoc_of_eq (hn : 0 < n) (l : List α) (a : α) (h : (rest n l).length + 1 = n) :
    line n (l ++ [a]) = full n l ++ [rest n l ++ [a]] ++ [[]] := by
  have hlen := length_rest (n := n) l
  have hmod := Nat.div_add_mod' l.length n
  have hlast : (l ++ [a]).length = (l.length / n + 1) * n := by
    rw [List.length_append, List.length_singleton, Nat.add_mul, Nat.one_mul]
    omega
  have hdiv : (l ++ [a]).length / n = l.length / n + 1 := by
    rw [hlast, Nat.mul_div_cancel _ hn]
  have hfull : full n (l ++ [a]) = full n l ++ [rest n l ++ [a]] := by
    rw [full, hdiv, List.range_succ, List.map_append, List.map_singleton]
    congr 1
    · refine List.map_congr_left fun i hi => ?_
      exact take_drop_snoc l a (List.mem_range.mp hi)
    · rw [List.drop_append_of_le_length (Nat.div_mul_le_self _ _), List.take_of_length_le]
      · rfl
      · rw [rest] at h
        rw [List.length_append, List.length_singleton]
        omega
  have hrest : rest n (l ++ [a]) = [] := by
    rw [rest, hdiv, ← hlast, List.drop_length]
  rw [line_eq hn, hfull, hrest]

/-! ## a text -/

variable [DecidableEq α] {nl : α}

/-- the rows of a text -/
def rows (n : Nat) (nl : α) (s : List α) : List (List α) := (s.splitOn nl).flatMap (line n)

/-- a letter goes to the last line -/
theorem exists_splitOn (nl : α) (s : List α) : ∃ init w, s.splitOn nl = init ++ [w] ∧
    ∀ a, a ≠ nl → (s ++ [a]).splitOn nl = init ++ [w ++ [a]] := by
  induction s with
  | nil =>
    refine ⟨[], [], List.splitOn_nil nl, fun a ha => ?_⟩
    exact List.splitOn_eq_singleton (by simpa using ha.symm)
  | cons x s ih =>
    obtain ⟨init, w, hs, hsnoc⟩ := ih
    by_cases hx : x = nl
    · subst hx
      refine ⟨[] :: init, w, ?_, fun a ha => ?_⟩
      · simp [List.splitOn_cons_eq_if_modifyHead, hs]
      · simp [List.splitOn_cons_eq_if_modifyHead, hsnoc a ha]
    · cases init with
      | nil =>
        refine ⟨[], x :: w, ?_, fun a ha => ?_⟩
        · simp [List.splitOn_cons_eq_if_modifyHead, hs, hx]
        · simp [List.splitOn_cons_eq_if_modifyHead, hsnoc a ha, hx]
      | cons u init =>
        refine ⟨(x :: u) :: init, w, ?_, fun a ha => ?_⟩
        · simp [List.splitOn_cons_eq_if_modifyHead, hs, hx]
        · simp [List.splitOn_cons_eq_if_modifyHead, hsnoc a ha, hx]

example : rows 3 0 [1, 2, 3, 0, 4] = [[1, 2, 3], [], [4]] := rfl

/-- a text starts with one row -/
theorem rows_nil : rows n nl [] = [[]] := by
  simp [rows, line]

/-- a line end puts an empty row behind the others -/
theorem rows_snoc_nl (s : List α) : rows n nl (s ++ [nl]) = rows n nl s ++ [[]] := by
  rw [rows, List.splitOn_append_cons_self, List.flatMap_append, rows]
  congr 1
  exact rows_nil

/-- **the last row of a text has a free place, and the next letter goes there** -/
theorem exists_rows (hn : 0 < n) (nl : α) (s : List α) : ∃ done last, rows n nl s = done ++ [last] ∧
    last.length < n ∧
    ∀ a, a ≠ nl → rows n nl (s ++ [a]) =
      if last.length + 1 < n then done ++ [last ++ [a]] else done ++ [last ++ [a]] ++ [[]] := by
  obtain ⟨init, w, hs, hsnoc⟩ := exists_splitOn nl s
  refine ⟨init.flatMap (line n) ++ full n w, rest n w, ?_, length_rest_lt hn w, fun a ha => ?_⟩
  · rw [rows, hs, List.flatMap_append, List.flatMap_singleton, line_eq hn, List.append_assoc]
  · have hlast := length_rest_lt hn w
    rw [rows, hsnoc a ha, List.flatMap_append, List.flatMap_singleton]
    split
    · rename_i h
      rw [line_snoc_of_lt hn w a h, List.append_assoc]
    · rename_i h
      rw [line_snoc_of_eq hn w a (by omega)]
      simp only [List.append_assoc]

end Noxis.Wrap
