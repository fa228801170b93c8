import Noxis.Wm.Command
import Noxis.Wm.Selection

/-!
# The line editor of the terminal window

The line that is typed is in `term_input`, and its letters are in the grid before the cursor.  The cells
of the grid are counted row by row.

* `Shell.termKey`      one character for the terminal window;
* `Terminal.pos`       the number of the cell under the cursor;
* `Spells`             what stands before the cursor;
* `Editing`            the prompt and the line stand there, and the line fits;
* `Editing.key`        every key keeps this, and a line that is run ends in a new one;
* `editor_shows`       **after any keys the line stands before the cursor**, and Backspace changes no
                       other cell.
-/

namespace Noxis.Wm

/-! ## data -/

/-- the desktop and `term_input` up to `term_input_len` -/
structure Shell where
  files : Files
  input : List UInt8

def prompt : List UInt8 := text "$ "

def Shell.termPrompt (s : Shell) : Shell := { files := s.files.prints [prompt], input := [] }

def Files.putc (f : Files) (c : UInt8) : Files :=
  { f with desk := { f.desk with term := f.desk.term.wmTermPutc c } }

def Files.eraseLeft (f : Files) : Files :=
  { f with desk := { f.desk with term := f.desk.term.wmTermBackspace } }

/-- `term_key`; `none` where a command does not return -/
def Shell.termKey (s : Shell) (env : Env) (ch : UInt8) : Option Shell :=
  if s.files.desk.term.winId = none then some s
  else if ch = newline then
    ((s.files.putc newline).termExec env s.input).map fun f =>
      if f.desk.running ≠ 0 then Shell.termPrompt { s with files := f } else { s with files := f }
  else if ch = backspace then
    if s.input.length > 0 then some { files := s.files.eraseLeft, input := s.input.dropLast }
    else some s
  else if ch < 32 ∨ 126 < ch then some s
  else if s.input.length ≥ termInputMax then some s
  else some { files := s.files.putc ch, input := s.input ++ [ch] }

/-- keys one after the other, each with what the commands find outside -/
def Shell.keys : Shell → List (Env × UInt8) → Option Shell
  | s, [] => some s
  | s, k :: ks => (s.termKey k.1 k.2).bind fun s => s.keys ks

/-! ## the cells in a row -/

def gridCells : Nat := wmTermRows * wmTermCols

/-- the number of the cell under the cursor -/
def Terminal.pos (t : Terminal) : Nat := (t.curRow * wmTermCols + t.curCol).toNat

/-- the cell with a number; behind the grid there is none -/
def Terminal.at_ (t : Terminal) (k : Nat) : UInt8 :=
  if h : k < gridCells then
    t.cells ⟨k / wmTermCols, Nat.div_lt_of_lt_mul (Nat.mul_comm wmTermRows wmTermCols ▸ h)⟩
      ⟨k % wmTermCols, Nat.mod_lt _ (by decide)⟩
  else blank

section
variable {t : Terminal} {s : List UInt8} {c : UInt8} {k : Nat}

theorem InGrid.pos_lt (h : InGrid t) : t.pos < gridCells := by
  obtain ⟨⟨h1, h2⟩, h3, h4⟩ := h
  unfold Terminal.pos gridCells
  simp only [wmTermRows, wmTermCols] at *
  omega

/-- the row and the column of the cursor -/
theorem InGrid.pos_eq_iff (h : InGrid t) (k : Nat) :
    ((k / wmTermCols : Nat) : Int) = t.curRow ∧ ((k % wmTermCols : Nat) : Int) = t.curCol ↔
      k = t.pos := by
  obtain ⟨⟨h1, h2⟩, h3, h4⟩ := h
  unfold Terminal.pos
  simp only [wmTermRows, wmTermCols] at *
  omega

theorem at_setCell (h : InGrid t) (c : UInt8) (hk : k < gridCells) :
    (t.setCell c).at_ k = if k = t.pos then c else t.at_ k := by
  unfold Terminal.at_
  rw [dif_pos hk, dif_pos hk]
  show (if ((k / wmTermCols : Nat) : Int) = t.curRow ∧ ((k % wmTermCols : Nat) : Int) = t.curCol
    then c else _) = _
  simp only [h.pos_eq_iff]

/-- the rows move up by one -/
theorem at_scroll (t : Terminal) (hk : k + wmTermCols < gridCells) :
    t.wmTermScroll.at_ k = t.at_ (k + wmTermCols) := by
  have hrow : (k + wmTermCols) / wmTermCols = k / wmTermCols + 1 := Nat.add_div_right k (by decide)
  have hlt : k / wmTermCols + 1 < wmTermRows := by
    rw [← hrow]
    exact Nat.div_lt_of_lt_mul (Nat.mul_comm wmTermRows wmTermCols ▸ hk)
  unfold Terminal.at_
  rw [dif_pos (Nat.lt_of_le_of_lt (Nat.le_add_right _ _) hk), dif_pos hk]
  unfold Terminal.wmTermScroll
  simp only [dif_pos hlt, hrow, Nat.add_mod_right]

/-- **A letter**: it goes to the cell under the cursor, and the cells before the new cursor are those
that were before it and this one, moved up by a row if the grid has scrolled. -/
theorem putc_at (h : InGrid t) (hc : 32 ≤ c ∧ c ≤ 126) :
    ∃ d, (t.wmTermPutc c).pos + d = t.pos + 1 ∧ (d = 0 ∨ wmTermCols ≤ (t.wmTermPutc c).pos) ∧
      ∀ k < (t.wmTermPutc c).pos,
        (t.wmTermPutc c).at_ k = if k + d = t.pos then c else t.at_ (k + d) := by
  have hnl : c ≠ newline := by
    rintro rfl
    exact absurd hc.1 (by decide)
  have hbs : c ≠ backspace := by
    rintro rfl
    exact absurd hc.1 (by decide)
  have hbounds : ¬ (c < 32 ∨ 126 < c) := by
    rw [not_or, UInt8.not_lt, UInt8.not_lt]
    exact hc
  obtain ⟨u, hu⟩ : ∃ u : Terminal, u = { t.setCell c with curCol := t.curCol + 1 } := ⟨_, rfl⟩
  have hput : t.wmTermPutc c = (if u.curCol ≥ wmTermCols then u.newRow else u).keepRow := by
    unfold Terminal.wmTermPutc
    rw [if_neg hnl, if_neg hbs, if_neg hbounds, hu]
  have hucol : u.curCol = t.curCol + 1 := by rw [hu]
  have hurow : u.curRow = t.curRow := by
    rw [hu]
    rfl
  have hcell : ∀ k < gridCells, u.at_ k = if k = t.pos then c else t.at_ k := by
    intro k hk
    rw [hu]
    exact at_setCell h c hk
  have hpos := h.pos_lt
  obtain ⟨⟨h1, h2⟩, h3, h4⟩ := h
  rw [hput]
  by_cases hcol : u.curCol ≥ wmTermCols
  · rw [if_pos hcol]
    unfold Terminal.keepRow
    by_cases hrow : u.newRow.curRow ≥ wmTermRows
    · rw [if_pos hrow]
      change u.curRow + 1 ≥ wmTermRows at hrow
      have hnew : u.newRow.wmTermScroll.pos = 23 * wmTermCols := rfl
      have hold : t.pos = 24 * wmTermCols - 1 := by
        unfold Terminal.pos
        simp only [wmTermRows, wmTermCols] at *
        omega
      refine ⟨wmTermCols, by rw [hnew, hold]; rfl, .inr (by rw [hnew]; decide), fun k hk => ?_⟩
      rw [hnew] at hk
      have hk' : k + wmTermCols < gridCells := by
        unfold gridCells
        simp only [wmTermRows, wmTermCols] at *
        omega
      rw [at_scroll _ hk']
      exact hcell _ hk'
    · rw [if_neg hrow]
      have hnew : u.newRow.pos = t.pos + 1 := by
        show ((u.curRow + 1) * wmTermCols + 0).toNat = (t.curRow * wmTermCols + t.curCol).toNat + 1
        rw [hurow]
        simp only [wmTermRows, wmTermCols] at *
        omega
      refine ⟨0, hnew, .inl rfl, fun k hk => ?_⟩
      rw [hnew] at hk
      exact hcell k (by omega)
  · rw [if_neg hcol]
    unfold Terminal.keepRow
    rw [if_neg (by rw [hurow]; exact not_le.mpr h2)]
    have hnew : u.pos = t.pos + 1 := by
      unfold Terminal.pos
      rw [hurow, hucol]
      simp only [wmTermRows, wmTermCols] at *
      omega
    refine ⟨0, hnew, .inl rfl, fun k hk => ?_⟩
    rw [hnew] at hk
    exact hcell k (by omega)

/-- **Backspace**: the cell before the cursor is blank, and no other one changes. -/
theorem backspace_at (h : InGrid t) (hpos : 0 < t.pos) :
    t.wmTermBackspace.pos + 1 = t.pos ∧
      ∀ k < gridCells, t.wmTermBackspace.at_ k = if k + 1 = t.pos then blank else t.at_ k := by
  obtain ⟨⟨h1, h2⟩, h3, h4⟩ := h
  have hgrid : ∀ t' : Terminal, InGrid t' → t'.pos + 1 = t.pos → t'.cells = t.cells →
      (t'.setCell blank).pos + 1 = t.pos ∧
        ∀ k < gridCells, (t'.setCell blank).at_ k = if k + 1 = t.pos then blank else t.at_ k := by
    intro t' h' hp hcells
    refine ⟨hp, fun k hk => ?_⟩
    have hat : t'.at_ k = t.at_ k := by
      unfold Terminal.at_
      rw [hcells]
    rw [at_setCell h' blank hk, hat, ← hp]
    simp only [Nat.add_right_cancel_iff]
  unfold Terminal.wmTermBackspace
  by_cases hcol : t.curCol > 0
  · rw [if_pos hcol]
    refine hgrid { t with curCol := t.curCol - 1 } ⟨⟨h1, h2⟩, ?_⟩ ?_ rfl
    · exact ⟨show 0 ≤ t.curCol - 1 by omega, show t.curCol - 1 < wmTermCols by omega⟩
    · show (t.curRow * wmTermCols + (t.curCol - 1)).toNat + 1 = (t.curRow * wmTermCols + t.curCol).toNat
      simp only [wmTermRows, wmTermCols] at *
      omega
  · have hrow : t.curRow > 0 := by
      unfold Terminal.pos at hpos
      simp only [wmTermRows, wmTermCols] at *
      omega
    rw [if_neg hcol, if_pos hrow]
    refine hgrid { t with curRow := t.curRow - 1, curCol := wmTermCols - 1 } ⟨⟨?_, ?_⟩, ?_⟩ ?_ rfl
    · show 0 ≤ t.curRow - 1
      omega
    · show t.curRow - 1 < wmTermRows
      omega
    · exact ⟨show (0 : Int) ≤ wmTermCols - 1 by decide,
        show (wmTermCols : Int) - 1 < wmTermCols by decide⟩
    · show ((t.curRow - 1) * wmTermCols + (wmTermCols - 1)).toNat + 1 =
        (t.curRow * wmTermCols + t.curCol).toNat
      simp only [wmTermRows, wmTermCols] at *
      omega

/-! ## what stands before the cursor -/

/-- the cells before the cursor spell `s` -/
structure Spells (t : Terminal) (s : List UInt8) : Prop where
  room : s.length ≤ t.pos
  cells : ∀ k (h : k < s.length), t.at_ (t.pos - s.length + k) = s[k]

theorem spells_nil (t : Terminal) : Spells t [] where
  room := Nat.zero_le _
  cells _ h := absurd h (Nat.not_lt_zero _)

/-- a letter more, as long as the text is shorter than a row -/
theorem Spells.putc (h : InGrid t) (hs : Spells t s) (hlen : s.length < wmTermCols)
    (hc : 32 ≤ c ∧ c ≤ 126) : Spells (t.wmTermPutc c) (s ++ [c]) := by
  obtain ⟨d, hpos, hd, hat⟩ := putc_at h hc
  have hroom := hs.room
  have hsnoc : (s ++ [c]).length = s.length + 1 := List.length_append
  refine ⟨by omega, fun k hk => ?_⟩
  rw [hsnoc] at hk ⊢
  rw [hat _ (by omega), show (t.wmTermPutc c).pos - (s.length + 1) + k + d = t.pos - s.length + k by
    omega]
  by_cases hlast : k = s.length
  · rw [if_pos (by omega)]
    subst hlast
    exact (List.getElem_concat_length rfl _).symm
  · rw [if_neg (by omega), hs.cells k (by omega), List.getElem_append_left]

/-- a letter less -/
theorem Spells.backspace (h : InGrid t) (hs : Spells t (s ++ [c])) : Spells t.wmTermBackspace s := by
  have hroom := hs.room
  have hsnoc : (s ++ [c]).length = s.length + 1 := List.length_append
  rw [hsnoc] at hroom
  obtain ⟨hpos, hat⟩ := backspace_at h (by omega)
  have hlt := h.pos_lt
  refine ⟨by omega, fun k hk => ?_⟩
  rw [hat _ (by omega), if_neg (by omega)]
  have hcell : (s ++ [c])[k] = s[k] := List.getElem_append_left hk
  rw [← hcell, ← hs.cells k (by omega), hsnoc]
  congr 1
  omega

end

/-! ## what a command leaves alone -/

/-- the cursor stays in the grid, and a desktop that is closing does not open again -/
def Calm (f f' : Files) : Prop :=
  (InGrid f.desk.term → InGrid f'.desk.term) ∧ (f.desk.running = 0 → f'.desk.running = 0)

section
variable {f f' f'' : Files} {env : Env}

theorem Calm.refl (f : Files) : Calm f f := ⟨id, id⟩

theorem Calm.trans (h : Calm f f') (h' : Calm f' f'') : Calm f f'' :=
  ⟨h'.1 ∘ h.1, h'.2 ∘ h.2⟩

theorem prints_calm (f : Files) (texts : List (List UInt8)) : Calm f (f.prints texts) := by
  have hputs : ∀ (d : Desktop), (InGrid d.term → InGrid (texts.foldl Desktop.wmTermPuts d).term) ∧
      (texts.foldl Desktop.wmTermPuts d).running = d.running := by
    induction texts with
    | nil => exact fun d => ⟨id, rfl⟩
    | cons s texts ih =>
      intro d
      obtain ⟨hgrid, hrun⟩ := ih (d.wmTermPuts s)
      exact ⟨fun h => hgrid (h.puts s), hrun⟩
  exact ⟨(hputs f.desk).1, fun h => (hputs f.desk).2.trans h⟩

theorem scrollToCursor_calm (f : Files) (stray : Int) : Calm f (f.wmExplScrollToCursor stray) := by
  unfold Files.wmExplScrollToCursor Files.wmExplVisibleRows
  simp only
  split_ifs <;> exact ⟨id, id⟩

theorem explRefresh_calm (f : Files) (fs : Fs) : Calm f (f.explRefresh fs).1 := by
  unfold Files.explRefresh
  cases fs.dir with
  | notOpened => exact Calm.refl f
  | notRead => exact ⟨id, id⟩
  | entries l =>
    refine Calm.trans ?_ (scrollToCursor_calm _ fs.stray)
    exact ⟨id, id⟩

theorem termLs_calm (f : Files) (env : Env) : Calm f (f.termLs env) := by
  have h := explRefresh_calm f env.fs
  unfold Files.termLs
  simp only
  split_ifs
  · exact h.trans (prints_calm _ _)
  · exact h.trans (prints_calm _ _)

theorem termRm_calm (f : Files) (env : Env) (name : List UInt8) : Calm f (f.termRm env name) := by
  unfold Files.termRm
  split_ifs
  · exact prints_calm f _
  · exact (prints_calm f _).trans (explRefresh_calm _ _)
  · exact prints_calm f _

theorem termWrite_calm (f : Files) (env : Env) (file s : List UInt8) :
    Calm f (f.termWrite env file s) := by
  unfold Files.termWrite
  simp only
  split_ifs
  · exact prints_calm f _
  · exact ((prints_calm f _).trans (prints_calm _ _)).trans (explRefresh_calm _ _)
  · exact (prints_calm f _).trans (explRefresh_calm _ _)
  · exact prints_calm f _

/-- one case for each command; most of them print -/
theorem run_calm {a : Action} (h : a.run env f = some f') : Calm f f' := by
  cases a with
  | nothing => exact Option.some.inj h ▸ Calm.refl f
  | help => exact Option.some.inj h ▸ prints_calm f _
  | clear => exact Option.some.inj h ▸ ⟨fun _ => clear_inGrid f.desk.term, id⟩
  | echo s => exact Option.some.inj h ▸ prints_calm f _
  | ver => exact Option.some.inj h ▸ prints_calm f _
  | uptime => exact Option.some.inj h ▸ prints_calm f _
  | ls => exact Option.some.inj h ▸ termLs_calm f env
  | cat name => exact Option.some.inj h ▸ prints_calm f _
  | write file s => exact Option.some.inj h ▸ termWrite_calm f env file s
  | rm name => exact Option.some.inj h ▸ termRm_calm f env name
  | ping arg => exact Option.some.inj h ▸ prints_calm f _
  | poweroff => cases h
  | exit => exact Option.some.inj h ▸ ⟨id, fun _ => rfl⟩
  | unknown cmd => exact Option.some.inj h ▸ prints_calm f _

/-- **Whatever the line is.** -/
theorem termExec_calm {line : List UInt8} (h : f.termExec env line = some f') : Calm f f' := run_calm h

end

/-! ## the line that is edited -/

/-- **The terminal shows what it holds**: the prompt and the line stand before the cursor, and the line
fits `term_input`. -/
structure Editing (s : Shell) : Prop where
  grid : InGrid s.files.desk.term
  printable : ∀ c ∈ s.input, 32 ≤ c ∧ c ≤ 126
  short : s.input.length ≤ termInputMax
  spells : Spells s.files.desk.term (prompt ++ s.input)

section
variable {s s' : Shell} {f : Files} {env : Env} {ch : UInt8}

/-- a new prompt, wherever the cursor stands -/
theorem termPrompt_editing (h : InGrid s.files.desk.term) : Editing s.termPrompt := by
  have h1 := h.putc 0x24
  have hs1 := (spells_nil s.files.desk.term).putc h (by decide) (c := 0x24) (by decide)
  have hs2 := hs1.putc h1 (by decide) (c := 0x20) (by decide)
  exact ⟨h1.putc 0x20, fun c hc => absurd hc List.not_mem_nil, Nat.zero_le _, hs2⟩

/-- a key that is typed -/
theorem Editing.type (h : Editing s) (hch : 32 ≤ ch ∧ ch ≤ 126) (hlen : s.input.length < termInputMax) :
    Editing { files := s.files.putc ch, input := s.input ++ [ch] } where
  grid := h.grid.putc ch
  printable c hc := by
    rcases List.mem_append.mp hc with hc | hc
    · exact h.printable c hc
    · exact List.mem_singleton.mp hc ▸ hch
  short := by
    rw [List.length_append, List.length_singleton]
    exact hlen
  spells := by
    have hroom : (prompt ++ s.input).length < wmTermCols := by
      have hmax : termInputMax = 53 := rfl
      rw [List.length_append]
      show 2 + _ < 56
      omega
    show Spells _ (prompt ++ (s.input ++ [ch]))
    rw [← List.append_assoc]
    exact h.spells.putc h.grid hroom hch

/-- a key that is taken back -/
theorem Editing.erase (h : Editing s) (hlen : 0 < s.input.length) :
    Editing { files := s.files.eraseLeft, input := s.input.dropLast } where
  grid := h.grid.backspace
  printable c hc := h.printable c (List.dropLast_subset _ hc)
  short := by
    have hle := h.short
    rw [List.length_dropLast]
    omega
  spells := by
    have hne : s.input ≠ [] := List.length_pos_iff.mp hlen
    have hspells := h.spells
    rw [← List.dropLast_append_getLast hne, ← List.append_assoc] at hspells
    exact hspells.backspace h.grid

/-- **Every key**: the line stays before the cursor, and a line that is run ends in a new prompt, unless
the desktop closes. -/
theorem Editing.key (h : Editing s) (hkey : s.termKey env ch = some s') :
    Editing s' ∨ s'.files.desk.running = 0 := by
  unfold Shell.termKey at hkey
  by_cases hwin : s.files.desk.term.winId = none
  · rw [if_pos hwin] at hkey
    exact .inl (Option.some.inj hkey ▸ h)
  rw [if_neg hwin] at hkey
  by_cases hnl : ch = newline
  · rw [if_pos hnl] at hkey
    obtain ⟨f, hexec, hs'⟩ := Option.map_eq_some_iff.mp hkey
    by_cases hrun : f.desk.running ≠ 0
    · rw [if_pos hrun] at hs'
      exact .inl (hs' ▸ termPrompt_editing ((termExec_calm hexec).1 (h.grid.putc newline)))
    · rw [if_neg hrun] at hs'
      exact .inr (hs' ▸ not_not.mp hrun)
  rw [if_neg hnl] at hkey
  by_cases hbs : ch = backspace
  · rw [if_pos hbs] at hkey
    by_cases hlen : s.input.length > 0
    · rw [if_pos hlen] at hkey
      exact .inl (Option.some.inj hkey ▸ h.erase hlen)
    · rw [if_neg hlen] at hkey
      exact .inl (Option.some.inj hkey ▸ h)
  rw [if_neg hbs] at hkey
  by_cases hch : ch < 32 ∨ 126 < ch
  · rw [if_pos hch] at hkey
    exact .inl (Option.some.inj hkey ▸ h)
  rw [if_neg hch] at hkey
  by_cases hfull : s.input.length ≥ termInputMax
  · rw [if_pos hfull] at hkey
    exact .inl (Option.some.inj hkey ▸ h)
  rw [if_neg hfull] at hkey
  rw [not_or, UInt8.not_lt, UInt8.not_lt] at hch
  exact .inl (Option.some.inj hkey ▸ h.type hch (not_le.mp hfull))

/-- a desktop that is closing prints no prompt -/
theorem key_closing (h : s.files.desk.running = 0) (hkey : s.termKey env ch = some s') :
    s'.files.desk.running = 0 := by
  unfold Shell.termKey at hkey
  split_ifs at hkey
  · exact Option.some.inj hkey ▸ h
  · obtain ⟨f, hexec, hs'⟩ := Option.map_eq_some_iff.mp hkey
    have hrun : f.desk.running = 0 := (termExec_calm hexec).2 h
    rw [if_neg (not_not.mpr hrun)] at hs'
    exact hs' ▸ hrun
  · exact Option.some.inj hkey ▸ h
  · exact Option.some.inj hkey ▸ h
  · exact Option.some.inj hkey ▸ h
  · exact Option.some.inj hkey ▸ h
  · exact Option.some.inj hkey ▸ h

/-- any keys -/
theorem keys_editing {ks : List (Env × UInt8)} (h : Editing s ∨ s.files.desk.running = 0)
    (hkeys : s.keys ks = some s') : Editing s' ∨ s'.files.desk.running = 0 := by
  induction ks generalizing s with
  | nil => exact Option.some.inj hkeys ▸ h
  | cons k ks ih =>
    obtain ⟨u, hkey, hrest⟩ := Option.bind_eq_some_iff.mp hkeys
    refine ih ?_ hrest
    rcases h with h | h
    · exact h.key hkey
    · exact .inr (key_closing h hkey)

/-- Backspace stays behind the prompt -/
theorem Editing.erase_keeps (h : Editing s) (hkey : s.termKey env backspace = some s') {k : Nat}
    (hk : k < s.files.desk.term.pos - s.input.length) :
    s'.files.desk.term.at_ k = s.files.desk.term.at_ k := by
  have hlt := h.grid.pos_lt
  unfold Shell.termKey at hkey
  rw [if_neg (show backspace ≠ newline by decide), if_pos rfl] at hkey
  split_ifs at hkey with hwin hlen
  · rw [← Option.some.inj hkey]
  · rw [← Option.some.inj hkey]
    obtain ⟨-, hat⟩ := backspace_at h.grid (by omega)
    show s.files.desk.term.wmTermBackspace.at_ k = _
    rw [hat k (by omega), if_neg (by omega)]
  · rw [← Option.some.inj hkey]

/-- **The line editor**, with a prompt anywhere in the grid: while the desktop runs, the line stands
before the cursor after any keys, and Backspace changes no cell before it. -/
theorem editor_shows (h : InGrid f.desk.term) {ks : List (Env × UInt8)}
    (hkeys : (Shell.termPrompt ⟨f, []⟩).keys ks = some s) (hrun : s.files.desk.running ≠ 0) :
    Editing s ∧ ∀ env s', s.termKey env backspace = some s' →
      ∀ k < s.files.desk.term.pos - s.input.length,
        s'.files.desk.term.at_ k = s.files.desk.term.at_ k := by
  have hedit : Editing s :=
    (keys_editing (.inl (termPrompt_editing h)) hkeys).resolve_right hrun
  exact ⟨hedit, fun env s' hkey k hk => hedit.erase_keeps hkey hk⟩

end

/-- the terminal is open, and nothing is on it -/
def openTerm : Files :=
  { noFiles with desk := { noFiles.desk.wmInit with term := ⟨fun _ _ => blank, 0, 0, some 0⟩ } }

def noEnv : Env := ⟨emptyRoot, 0, fun _ => false, fun _ _ => -1, fun _ => none, fun _ => none⟩

/-- `ls` is typed, and its last letter is taken back -/
theorem editor_shows_typed : ∃ s, (Shell.termPrompt ⟨openTerm, []⟩).keys
    [(noEnv, 0x6C), (noEnv, 0x73), (noEnv, backspace)] = some s ∧ s.input = [0x6C] ∧ Editing s := by
  have hgrid : InGrid openTerm.desk.term := ⟨by decide, by decide⟩
  exact ⟨_, rfl, rfl, (editor_shows hgrid (show (Shell.termPrompt ⟨openTerm, []⟩).keys
    [(noEnv, 0x6C), (noEnv, 0x73), (noEnv, backspace)] = some _ from rfl) (by decide)).1⟩

end Noxis.Wm
