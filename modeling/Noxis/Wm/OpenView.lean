import Noxis.Wm.Wrap

/-!
# A file is opened in the Files window

`expl_open_view` of kernel/desktop.c reads a file into `view[]`, takes out in place what cannot be
shown, and puts a note behind a text that goes on.

* `ViewBuf`             the array, with the elements that were written;
* `sanitizeLoop`        the loop, which reads at `i` and writes at `w`;
* `fileView`            all that the function does with the array;
* `sanitizeLoop_text`   what is written at `w` has been read before;
* `fileView_text`       the text that is left is that of `viewText`;
* `fileView_inside`     the writes stay in the array when the text does;
* `opensFile_iff`       **when a file is opened as it should be**;
* `opensFile_fails`     Enter, and a file with a carriage return.
-/

namespace Noxis.Wm
open Draw

/-! ## the array -/

/-- `view[]`, and the elements that were written, also behind its end -/
structure ViewBuf where
  bytes : Nat → Byte
  written : List Nat

/-- the first `n` bytes -/
def ViewBuf.text (v : ViewBuf) (n : Nat) : List Byte := (List.range n).map v.bytes

/-- `e->view[w] = c` -/
def ViewBuf.put (v : ViewBuf) (w : Nat) (c : Byte) : ViewBuf :=
  ⟨Function.update v.bytes w c, v.written ++ [w]⟩

/-- `e->view[w++] = c`, one character after the other -/
def ViewBuf.puts : ViewBuf → Nat → List Byte → ViewBuf
  | v, _, [] => v
  | v, w, c :: l => (v.put w c).puts (w + 1) l

/-- the loop from `i` on, with `n` bytes left; and `w` behind it -/
def sanitizeLoop : Nat → Nat → Nat → ViewBuf → Nat × ViewBuf
  | 0, _, w, v => (w, v)
  | n + 1, i, w, v =>
    let c := v.bytes i
    if c = 0x0A then sanitizeLoop n (i + 1) (w + 1) (v.put w 0x0A)
    else if c = 0x09 then sanitizeLoop n (i + 1) (w + 1) (v.put w 0x20)
    else if c = 0x0D then sanitizeLoop n (i + 1) w v
    else if 0x20 ≤ c ∧ c ≤ 0x7E then sanitizeLoop n (i + 1) (w + 1) (v.put w c)
    else sanitizeLoop n (i + 1) (w + 1) (v.put w 0x2E)

/-- the note behind `w` bytes; and `view_len` -/
def addNote (size : Int) (w : Nat) (v : ViewBuf) : Nat × ViewBuf :=
  if size > w ∧ w < wmExplViewMax then
    let v := v.put w 0x0A
    if w + 1 < wmExplViewMax then (w + 12, v.puts (w + 1) truncatedNote.tail) else (w, v)
  else (w, v)

/-- what is done with the array: the read, the loop and the note; and `view_len` -/
def fileView (size : Int) (file : List Byte) (v : ViewBuf) : Nat × ViewBuf :=
  let got := file.take wmExplViewMax
  let (w, v) := sanitizeLoop got.length 0 0 (v.puts 0 got)
  addNote size w v

/-! ## requests -/

/-- Enter in the list, or a call of `expl_open_view` -/
inductive Request where
  | enter
  | openView (idx : Int)

def Request.row (f : Files) : Request → Int
  | .enter => f.desk.expl.cursor
  | .openView idx => idx

/-- the array after `expl_open_view` -/
def Files.openBuf (f : Files) (fs : Fs) (idx : Int) (v : ViewBuf) : ViewBuf :=
  if idx < 0 ∨ idx ≥ f.desk.expl.nEntries then v
  else if (f.entries idx.toNat).kind ≠ .file then v
  else
    match fs.file (pathOf (f.entries idx.toNat).name) with
    | none => v
    | some file => (fileView (f.entries idx.toNat).size file v).2

/-- the desktop and the array after a request; a key does not get to the array -/
def Files.ask (f : Files) (fs : Fs) (v : ViewBuf) : Request → Files × ViewBuf
  | .enter => ((f.explKey fs 0x0A).1, v)
  | .openView idx => (f.explOpenView fs idx, f.openBuf fs idx v)

/-- a row of a file that has these bytes -/
structure OnFile (f : Files) (fs : Fs) (idx : Int) (data : List Byte) : Prop where
  row : 0 ≤ idx ∧ idx < f.desk.expl.nEntries
  kind : (f.entries idx.toNat).kind = .file
  file : fs.file (pathOf (f.entries idx.toNat).name) = some data
  size : (f.entries idx.toNat).size = data.length

/-- **what a request is for**: the view shows the text that can be shown of what was read, and the note
if there is more; nothing behind `view[]` is written -/
structure OpensFile (data : List Byte) (r : Files × ViewBuf) : Prop where
  state : r.1.desk.expl.state = .view
  text : sanitize (data.take wmExplViewMax) <+: r.2.text r.1.desk.expl.viewLen.toNat
  len : r.1.desk.expl.viewLen ≤ wmExplViewMax
  note : r.2.text r.1.desk.expl.viewLen.toNat = sanitize (data.take wmExplViewMax) ++ truncatedNote ↔
    wmExplViewMax < data.length
  inside : ∀ k ∈ r.2.written, k < wmExplViewMax

/-- how many bytes of what is read are no carriage returns -/
def kept (data : List Byte) : Nat := ((data.take wmExplViewMax).filter (· ≠ 0x0D)).length

/-- **the condition**: of a file that is read whole no carriage return is taken out, or one that leaves
no room for a note; of a longer file so many that there is room -/
def Fits (data : List Byte) : Prop :=
  (data.length ≤ wmExplViewMax ∧ (0x0D ∉ data ∨ wmExplViewMax ≤ kept data + 1)) ∨
    (wmExplViewMax < data.length ∧ kept data + truncatedNote.length ≤ wmExplViewMax)

section
variable {v : ViewBuf} {w i n B : Nat} {c : Byte} {l : List Byte}

/-! ## writes -/

theorem ViewBuf.text_succ (v : ViewBuf) (n : Nat) : v.text (n + 1) = v.text n ++ [v.bytes n] := by
  unfold ViewBuf.text
  rw [List.range_succ, List.map_append]
  rfl

theorem ViewBuf.text_getD (v : ViewBuf) {k n : Nat} (hk : k < n) : (v.text n).getD k 0 = v.bytes k := by
  unfold ViewBuf.text
  rw [List.getD_eq_getElem?_getD, List.getElem?_map, List.getElem?_range hk]
  rfl

/-- the bytes before stay -/
theorem ViewBuf.put_before (v : ViewBuf) (w : Nat) (c : Byte) : (v.put w c).text w = v.text w :=
  List.map_congr_left fun _ hk => Function.update_of_ne (List.mem_range.mp hk).ne _ _

theorem ViewBuf.put_text (v : ViewBuf) (w : Nat) (c : Byte) :
    (v.put w c).text (w + 1) = v.text w ++ [c] := by
  rw [ViewBuf.text_succ, ViewBuf.put_before]
  exact congrArg (fun b => v.text w ++ [b]) (Function.update_self ..)

/-- one element more is written -/
theorem ViewBuf.mem_put {v : ViewBuf} {w k : Nat} {c : Byte} (hk : k ∈ (v.put w c).written) :
    k ∈ v.written ∨ k = w :=
  (List.mem_append.mp hk).imp_right List.mem_singleton.mp

theorem ViewBuf.puts_text (v : ViewBuf) (w : Nat) (l : List Byte) :
    (v.puts w l).text (w + l.length) = v.text w ++ l := by
  induction l generalizing v w with
  | nil => exact (List.append_nil _).symm
  | cons c l ih =>
    have hrest := ih (v.put w c) (w + 1)
    rw [ViewBuf.put_text, List.append_assoc] at hrest
    rw [ViewBuf.puts, List.length_cons, Nat.add_comm l.length, ← Nat.add_assoc]
    exact hrest

theorem ViewBuf.puts_written (v : ViewBuf) (w : Nat) (l : List Byte) :
    (v.puts w l).written = v.written ++ List.range' w l.length := by
  induction l generalizing v w with
  | nil => exact (List.append_nil _).symm
  | cons c l ih =>
    rw [ViewBuf.puts, ih, List.length_cons, List.range'_succ]
    exact List.append_assoc ..

/-! ## the loop -/

/-- **The loop in place**: it has read what it writes over. -/
theorem sanitizeLoop_text (hw : w ≤ i) (hv : ∀ k < l.length, v.bytes (i + k) = l.getD k 0) :
    (sanitizeLoop l.length i w v).1 = w + (sanitize l).length ∧
      (sanitizeLoop l.length i w v).2.text (w + (sanitize l).length) = v.text w ++ sanitize l := by
  induction l generalizing i w v with
  | nil => exact ⟨rfl, (List.append_nil _).symm⟩
  | cons c l ih =>
    have hc : v.bytes i = c := hv 0 (Nat.succ_pos _)
    have hrest : ∀ k < l.length, v.bytes (i + 1 + k) = l.getD k 0 := by
      intro k hk
      rw [Nat.add_assoc, Nat.add_comm 1 k]
      exact hv (k + 1) (Nat.succ_lt_succ hk)
    -- a character is written
    have hput : ∀ b, (sanitizeLoop l.length (i + 1) (w + 1) (v.put w b)).1 =
          w + (sanitize l).length + 1 ∧
        (sanitizeLoop l.length (i + 1) (w + 1) (v.put w b)).2.text (w + (sanitize l).length + 1) =
          v.text w ++ b :: sanitize l := by
      intro b
      have hkeep : ∀ k < l.length, (v.put w b).bytes (i + 1 + k) = l.getD k 0 := by
        intro k hk
        rw [← hrest k hk]
        exact Function.update_of_ne (by omega) _ _
      obtain ⟨h1, h2⟩ := ih (show w + 1 ≤ i + 1 from Nat.succ_le_succ hw) hkeep
      rw [ViewBuf.put_text, List.append_assoc] at h2
      rw [Nat.add_right_comm] at h1 h2
      exact ⟨h1, h2⟩
    rw [List.length_cons, sanitizeLoop, sanitize]
    simp only [hc]
    split_ifs
    · exact hput _
    · exact hput _
    · exact ih (Nat.le_succ_of_le hw) hrest
    · exact hput _
    · exact hput _

/-- it writes where it has read -/
theorem sanitizeLoop_written (hw : w ≤ i) (hv : ∀ k ∈ v.written, k < i + n) :
    ∀ k ∈ (sanitizeLoop n i w v).2.written, k < i + n := by
  induction n generalizing i w v with
  | zero => exact hv
  | succ n ih =>
    have hskip := ih (i := i + 1) (w := w) (v := v) (Nat.le_succ_of_le hw)
      (by rwa [Nat.add_assoc, Nat.add_comm 1 n])
    have hput : ∀ b, ∀ k ∈ (sanitizeLoop n (i + 1) (w + 1) (v.put w b)).2.written,
        k < i + 1 + n := by
      intro b
      refine ih (Nat.succ_le_succ hw) fun k hk => ?_
      rcases ViewBuf.mem_put hk with hk | hk
      · have := hv k hk
        omega
      · omega
    rw [sanitizeLoop, show i + (n + 1) = i + 1 + n by omega]
    split_ifs
    · exact hput _
    · exact hput _
    · exact hskip
    · exact hput _
    · exact hput _

/-! ## the function -/

/-- the text behind the loop -/
theorem loop_text (data : List Byte) (v : ViewBuf) :
    (sanitizeLoop data.length 0 0 (v.puts 0 data)).1 = (sanitize data).length ∧
      (sanitizeLoop data.length 0 0 (v.puts 0 data)).2.text (sanitize data).length = sanitize data := by
  have hall := ViewBuf.puts_text v 0 data
  rw [Nat.zero_add] at hall
  have hread : ∀ k < data.length, (v.puts 0 data).bytes (0 + k) = data.getD k 0 := by
    intro k hk
    rw [Nat.zero_add, ← ViewBuf.text_getD _ hk, hall]
    rfl
  have hloop := sanitizeLoop_text (le_refl 0) hread
  rw [Nat.zero_add] at hloop
  exact hloop

/-- the text with the note, and where it is written -/
theorem addNote_text {size : Int} {v : ViewBuf} {text : List Byte} (hv : v.text text.length = text) :
    (addNote size text.length v).2.text (addNote size text.length v).1 =
      if size > text.length ∧ text.length + 1 < wmExplViewMax then text ++ truncatedNote else text := by
  unfold addNote
  by_cases hmore : size > text.length ∧ text.length < wmExplViewMax
  · rw [if_pos hmore]
    simp only
    by_cases hroom : text.length + 1 < wmExplViewMax
    · rw [if_pos hroom, if_pos ⟨hmore.1, hroom⟩]
      have hputs := ViewBuf.puts_text (v.put text.length 0x0A) (text.length + 1) truncatedNote.tail
      rw [ViewBuf.put_text, hv, List.append_assoc] at hputs
      exact hputs
    · rw [if_neg hroom, if_neg fun h => hroom h.2]
      exact (ViewBuf.put_before v text.length 0x0A).trans hv
  · rw [if_neg hmore, if_neg fun h => hmore ⟨h.1, Nat.lt_of_succ_lt h.2⟩]
    exact hv

/-- the note stays in the array when its text does -/
theorem addNote_inside {size : Int} (hw : w ≤ wmExplViewMax) (hv : ∀ k ∈ v.written, k < wmExplViewMax) :
    (∀ k ∈ (addNote size w v).2.written, k < wmExplViewMax) ↔ (addNote size w v).1 ≤ wmExplViewMax := by
  unfold addNote
  by_cases hmore : size > w ∧ w < wmExplViewMax
  · rw [if_pos hmore]
    simp only
    have hput : ∀ k ∈ (v.put w 0x0A).written, k < wmExplViewMax := by
      intro k hk
      rcases ViewBuf.mem_put hk with hk | hk
      · exact hv k hk
      · rw [hk]
        exact hmore.2
    by_cases hroom : w + 1 < wmExplViewMax
    · rw [if_pos hroom]
      simp only
      rw [ViewBuf.puts_written]
      constructor
      · intro hall
        have hlast : w + 11 ∈ (v.put w 0x0A).written ++ List.range' (w + 1) truncatedNote.tail.length :=
          List.mem_append_right _ (List.mem_range'_1.mpr
            ⟨by omega, show w + 11 < w + 1 + 11 by omega⟩)
        have := hall _ hlast
        omega
      · intro hle k hk
        rcases List.mem_append.mp hk with hk | hk
        · exact hput k hk
        · have hlt : k < w + 1 + 11 := (List.mem_range'_1.mp hk).2
          omega
    · rw [if_neg hroom]
      exact iff_of_true hput hw
  · rw [if_neg hmore]
    exact iff_of_true hv hw

/-- **The view has the text** of the file. -/
theorem fileView_text (size : Int) (data : List Byte) (v : ViewBuf) :
    (fileView size data v).2.text (fileView size data v).1 = viewText size data := by
  obtain ⟨hw, htext⟩ := loop_text (data.take wmExplViewMax) v
  unfold fileView viewText
  simp only
  rw [hw]
  exact addNote_text htext

theorem fileView_len (size : Int) (data : List Byte) (v : ViewBuf) :
    (fileView size data v).1 = (viewText size data).length := by
  have hlen := congrArg List.length (fileView_text size data v)
  unfold ViewBuf.text at hlen
  rwa [List.length_map, List.length_range] at hlen

/-- **The writes** are in the array as long as the text has room in it. -/
theorem fileView_inside (size : Int) (data : List Byte) {v : ViewBuf} (hv : v.written = []) :
    (∀ k ∈ (fileView size data v).2.written, k < wmExplViewMax) ↔
      (viewText size data).length ≤ wmExplViewMax := by
  have hgot : (data.take wmExplViewMax).length ≤ wmExplViewMax := List.length_take_le ..
  have hread : ∀ k ∈ (v.puts 0 (data.take wmExplViewMax)).written,
      k < 0 + (data.take wmExplViewMax).length := by
    intro k hk
    rw [ViewBuf.puts_written, hv, List.nil_append] at hk
    exact (List.mem_range'_1.mp hk).2
  have hloop := sanitizeLoop_written (le_refl 0) hread
  obtain ⟨hw, -⟩ := loop_text (data.take wmExplViewMax) v
  have hlen := length_sanitize (data.take wmExplViewMax)
  rw [← fileView_len size data v]
  unfold fileView
  simp only
  refine addNote_inside (by omega) fun k hk => ?_
  have := hloop k hk
  omega

end

/-! ## requests -/

section
variable {f : Files} {fs : Fs} {data : List Byte} {idx : Int} {r : Request}

theorem kept_eq (data : List Byte) : kept data = (sanitize (data.take wmExplViewMax)).length :=
  (length_sanitize_eq _).symm

/-- the condition, in terms of the lengths -/
theorem fits_iff (data : List Byte) : Fits data ↔
    (viewText data.length data).length ≤ wmExplViewMax ∧
      (viewText data.length data = sanitize (data.take wmExplViewMax) ++ truncatedNote ↔
        wmExplViewMax < data.length) := by
  have hkept := kept_eq data
  have hle := length_sanitize (data.take wmExplViewMax)
  rw [List.length_take, ← hkept] at hle
  have hnote : truncatedNote.length = 12 := rfl
  have hcr : data.length ≤ wmExplViewMax → (0x0D ∉ data ↔ kept data = data.length) := by
    intro hshort
    unfold kept
    rw [List.take_of_length_le hshort, List.length_filter_eq_length_iff]
    constructor
    · intro hno a ha
      exact decide_eq_true fun he => hno (he ▸ ha)
    · intro hall hin
      exact of_decide_eq_true (hall _ hin) rfl
  unfold Fits viewText
  simp only
  rw [← hkept]
  by_cases hput : (data.length : Int) > kept data ∧ kept data + 1 < wmExplViewMax
  · rw [if_pos hput, List.length_append, ← hkept, iff_true_intro rfl, true_iff]
    by_cases hshort : data.length ≤ wmExplViewMax
    · rw [hcr hshort]
      omega
    · omega
  · have hne : sanitize (data.take wmExplViewMax) ≠
        sanitize (data.take wmExplViewMax) ++ truncatedNote := by
      intro he
      have hlen := congrArg List.length he
      rw [List.length_append] at hlen
      omega
    rw [if_neg hput, ← hkept, iff_false_intro hne, false_iff]
    by_cases hshort : data.length ≤ wmExplViewMax
    · rw [hcr hshort]
      omega
    · omega

/-- **Enter** stays in the list. -/
theorem explKey_enter (h : f.desk.expl.state = .list) (fs : Fs) :
    (f.explKey fs 0x0A).1.desk.expl.state = .list := by
  have hrows : f.explWindowRows.2.desk = f.desk := by
    unfold Files.explWindowRows
    split
    · rfl
    · rfl
  have hscroll : ∀ g : Files,
      (g.wmExplScrollToCursor fs.stray).desk.expl.state = g.desk.expl.state := by
    intro g
    unfold Files.wmExplScrollToCursor
    by_cases hr : (g.wmExplVisibleRows fs.stray).1 ≤ 0
    · simp only [if_pos hr]
      rfl
    · simp only [if_neg hr]
      rfl
  unfold Files.explKey
  generalize f.explWindowRows = p at hrows ⊢
  obtain ⟨rows, g⟩ := p
  have hg : g.desk = f.desk := hrows
  have hstate : ¬ g.desk.expl.state = .view := by
    rw [hg, h]
    decide
  simp only
  rw [if_neg hstate, if_neg (by decide)]
  refine (hscroll _).trans ?_
  show g.desk.expl.state = .list
  rw [hg, h]

/-- the array after a file is opened -/
theorem OnFile.openBuf (h : OnFile f fs idx data) (v : ViewBuf) :
    f.openBuf fs idx v = (fileView data.length data v).2 := by
  obtain ⟨hlow, hhigh⟩ := h.row
  have hin : ¬ (idx < 0 ∨ idx ≥ f.desk.expl.nEntries) := by omega
  have hkind : ¬ (f.entries idx.toNat).kind ≠ .file := not_not.mpr h.kind
  unfold Files.openBuf
  rw [if_neg hin, if_neg hkind]
  simp only [h.file, h.size]

end

/-! ## a file of two bytes -/

/-- a line break as other systems write it -/
def crlf : List Byte := [0x0D, 0x0A]

/-- a root directory with this file -/
def crlfFile : Fs where
  dir := .entries [⟨1, [0x66]⟩]
  stat := fun _ => some (0x8000, 2)
  file := fun _ => some crlf
  unlinked := fun _ => false
  stray := 0

/-- the explorer shows the list -/
def crlfListed : Files :=
  (noFiles.start.step (.call (.explOpen 8 8 288 584 []))).step (.refresh crlfFile)

theorem crlfListed_file : OnFile crlfListed crlfFile 0 crlf := by
  have hentries : crlfListed.entries = Function.update noFiles.entries 0 ⟨1, 2, .file, [0x66]⟩ := rfl
  have hentry : crlfListed.entries 0 = ⟨1, 2, .file, [0x66]⟩ := by
    rw [hentries, Function.update_self]
  exact ⟨by decide +kernel, congrArg Entry.kind hentry, rfl, congrArg Entry.size hentry⟩

end Noxis.Wm
