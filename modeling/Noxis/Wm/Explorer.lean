import Noxis.Wm.Desktop
import Noxis.Lib.Bytes

/-!
# The explorer of the desktop

`kernel/desktop.c` reads the root directory into `entries[]` and moves the cursor; `kernel/wm.c` draws
the list and turns clicks into rows.

* `Files`               the desktop with the entries, and what `entries[]` and `windows[]` were indexed
                        with so far
* `Files.explRefresh`   reads the directory anew
* `Files.explKey`       one key for the focused explorer
* `Event`, `Files.step` what happens to the desktop while it runs

The file system is an input: `Fs` is what it answers.
-/

namespace Noxis.Wm

/-! ## data -/

def GUI_KEY_UP : Byte := 0x01
def GUI_KEY_DOWN : Byte := 0x02
def GUI_KEY_PGUP : Byte := 0x03
def GUI_KEY_PGDN : Byte := 0x04
def GUI_KEY_HOME : Byte := 0x05
def GUI_KEY_END : Byte := 0x06
def GUI_KEY_DEL : Byte := 0x07

def wmExplMaxEntries : Nat := 64
/-- 12 characters and the terminating zero -/
def wmExplNameLen : Nat := 13
def wmExplViewMax : Nat := 4096
def wmTermCellW : Int := 8

inductive Kind where
  | unknown
  | file
  | dir
  | char
  | block
  deriving DecidableEq, Repr

/-- `EXPL_ENTRY`; the name without its terminating zero -/
structure Entry where
  inode : Int
  size : Int
  kind : Kind
  name : List Byte

/-- `struct dir_entry`, with the 12 bytes of the name -/
structure DirEntry where
  inodeNr : Int
  name : List Byte

/-- what `open` and `read` of the root directory give -/
inductive Dir where
  | notOpened
  | notRead
  | entries (l : List DirEntry)

/-- the answers of the file system during one event -/
structure Fs where
  dir : Dir
  /-- `st_mode` and `st_size`, if there is such a file -/
  stat : List Byte → Option (Nat × Int)
  /-- the bytes of a file that can be opened -/
  file : List Byte → Option (List Byte)
  unlinked : List Byte → Bool
  /-- the height that the memory before `windows[]` would give -/
  stray : Int

/-- an index into `entries[]`, with the length of the list at that time, or one into `windows[]` -/
inductive Access where
  | entry (idx nEntries : Int)
  | window (idx : Int)
  deriving DecidableEq, Repr

def Access.InRange : Access → Prop
  | .entry idx nEntries => 0 ≤ idx ∧ idx < nEntries
  | .window idx => 0 ≤ idx ∧ idx < wmMaxWindows

structure Files where
  desk : Desktop
  entries : Nat → Entry
  view : List Byte
  accesses : List Access

def Files.touch (f : Files) (l : List Access) : Files := { f with accesses := f.accesses ++ l }

def Files.setExpl (f : Files) (e : Explorer) : Files := { f with desk := { f.desk with expl := e } }

/-- `expl.win_id` as the source has it -/
def Files.winId (f : Files) : Int :=
  match f.desk.expl.winId with
  | none => -1
  | some i => i.val

/-! ## rows -/

/-- `wm_expl_visible_rows`, with no test of `win_id` -/
def Files.wmExplVisibleRows (f : Files) (stray : Int) : Int × Files :=
  let height := match f.desk.expl.winId with
    | none => stray
    | some i => (f.desk.windows i).height
  let clientH := height - wmTitleHeight - wmBorderWidth - 2 * wmExplPad
  (if clientH ≤ 0 then 0 else clientH.tdiv wmTermCellH, f.touch [.window f.winId])

/-- `wm_expl_scroll_to_cursor` -/
def Files.wmExplScrollToCursor (f : Files) (stray : Int) : Files :=
  let (rows, f) := f.wmExplVisibleRows stray
  let e := f.desk.expl
  if rows ≤ 0 then f
  else
    let scroll := if e.cursor < e.scroll then e.cursor else e.scroll
    let scroll := if e.cursor ≥ scroll + rows then e.cursor - rows + 1 else scroll
    f.setExpl { e with scroll := scroll }

/-- `expl_window_rows` -/
def Files.explWindowRows (f : Files) : Int × Files :=
  match f.desk.expl.winId with
  | none => (0, f)
  | some i =>
    (((f.desk.windows i).height - wmTitleHeight - wmBorderWidth - 2 * wmExplPad).tdiv wmTermCellH,
      f.touch [.window i.val])

/-- the lines of a text in rows of `cols` characters -/
def wrappedLines (cols : Int) : List Byte → Int → Int → Int
  | [], lines, _ => lines
  | c :: l, lines, col =>
    if c = 0x0A then wrappedLines cols l (lines + 1) 0
    else if col + 1 ≥ cols then wrappedLines cols l (lines + 1) 0
    else wrappedLines cols l lines (col + 1)

/-- `expl_view_lines` -/
def Files.explViewLines (f : Files) : Int × Files :=
  match f.desk.expl.winId with
  | none => (1, f)
  | some i =>
    let cols := ((f.desk.windows i).width - 2 * wmBorderWidth - 2 * wmExplPad).tdiv wmTermCellW
    let cols := if cols > 60 then 60 else cols
    let cols := if cols < 1 then 1 else cols
    (wrappedLines cols (f.view.take f.desk.expl.viewLen.toNat) 1 0, f.touch [.window i.val])

/-! ## reading the directory -/

def I_TYPE_MASK : Nat := 0xF000
def I_DIRECTORY : Nat := 0x4000
def I_CHAR_SPECIAL : Nat := 0x2000
def I_BLOCK_SPECIAL : Nat := 0x6000

def kindOf (mode : Nat) : Kind :=
  if mode &&& I_TYPE_MASK = I_DIRECTORY then .dir
  else if mode &&& I_TYPE_MASK = I_CHAR_SPECIAL then .char
  else if mode &&& I_TYPE_MASK = I_BLOCK_SPECIAL then .block
  else .file

/-- the name in the list, up to its zero -/
def entryName (name : List Byte) : List Byte := (name.takeWhile (· ≠ 0)).take (wmExplNameLen - 1)

/-- `'/'` and the name -/
def pathOf (name : List Byte) : List Byte := 0x2F :: name.take (wmExplNameLen - 1)

def newEntry (fs : Fs) (de : DirEntry) : Entry :=
  let name := entryName de.name
  match fs.stat (pathOf name) with
  | none => ⟨de.inodeNr, 0, .unknown, name⟩
  | some (mode, size) => ⟨de.inodeNr, size, kindOf mode, name⟩

/-- the first loop of `expl_refresh`: how many entries there are, `entries[]`, and the indices -/
def fill (fs : Fs) : List DirEntry → Nat → (Nat → Entry) → Nat × (Nat → Entry) × List Nat
  | [], n, a => (n, a, [])
  | de :: l, n, a =>
    if n < wmExplMaxEntries then
      if de.inodeNr ≤ 0 ∨ de.name.head? = some 0x2E then fill fs l n a
      else
        let (m, a, idx) := fill fs l (n + 1) (Function.update a n (newEntry fs de))
        (m, a, n :: idx)
    else (n, a, [])

def strcmp : List Byte → List Byte → Int
  | [], [] => 0
  | [], b :: _ => -b.toInt
  | a :: _, [] => a.toInt
  | a :: s, b :: t => if a = b then strcmp s t else a.toInt - b.toInt

/-- directories first, then by name -/
def Entry.compare (t key : Entry) : Int :=
  let c : Int := (if t.kind = .dir then 0 else 1) - (if key.kind = .dir then 0 else 1)
  if c = 0 then strcmp t.name key.name else c

/-- the inner loop of the insertion sort, from `j + 1` down; with the indices -/
def insertEntry (key : Entry) : Nat → (Nat → Entry) → (Nat → Entry) × List Nat
  | 0, a => (Function.update a 0 key, [0])
  | j + 1, a =>
    if (a j).compare key ≤ 0 then (Function.update a (j + 1) key, [j, j + 1])
    else
      let (a, idx) := insertEntry key j (Function.update a (j + 1) (a j))
      (a, j :: (j + 1) :: idx)

/-- the outer loop, from `i` on -/
def sortEntries : Nat → Nat → (Nat → Entry) → (Nat → Entry) × List Nat
  | 0, _, a => (a, [])
  | k + 1, i, a =>
    let (a, idx) := insertEntry (a i) i a
    let (a, rest) := sortEntries k (i + 1) a
    (a, i :: idx ++ rest)

/-- `expl_refresh`; the indices are taken against the `n_entries` that it sets -/
def Files.explRefresh (f : Files) (fs : Fs) : Files × Int :=
  match fs.dir with
  | .notOpened => (f, -1)
  | .notRead => (f.setExpl { f.desk.expl with nEntries := 0 }, 0)
  | .entries l =>
    let (n, a, filled) := fill fs l 0 f.entries
    let (a, sorted) := sortEntries (n - 1) 1 a
    let n : Int := n
    let f := { f with entries := a }.touch ((filled ++ sorted).map fun i : Nat => .entry i n)
    let e := f.desk.expl
    let cursor := if e.cursor ≥ n then if n > 0 then n - 1 else 0 else e.cursor
    ((f.setExpl { e with nEntries := n, cursor := cursor }).wmExplScrollToCursor fs.stray, n)

/-! ## the view of a file -/

/-- the text that can be shown -/
def sanitize : List Byte → List Byte
  | [] => []
  | c :: l =>
    if c = 0x0A then 0x0A :: sanitize l
    else if c = 0x09 then 0x20 :: sanitize l
    else if c = 0x0D then sanitize l
    else if 0x20 ≤ c ∧ c ≤ 0x7E then c :: sanitize l
    else 0x2E :: sanitize l

/-- a line break and `[truncated]` -/
def truncatedNote : List Byte :=
  [0x0A, 0x5B, 0x74, 0x72, 0x75, 0x6E, 0x63, 0x61, 0x74, 0x65, 0x64, 0x5D]

/-- `expl_open_view`; what the note would write behind `view[]` is left out -/
def Files.explOpenView (f : Files) (fs : Fs) (idx : Int) : Files :=
  let e := f.desk.expl
  if idx < 0 ∨ idx ≥ e.nEntries then f
  else
    let f := f.touch [.entry idx e.nEntries]
    let ent := f.entries idx.toNat
    if ent.kind ≠ .file then f.setExpl { e with state := .list }
    else
      match fs.file (pathOf ent.name) with
      | none => f.setExpl { e with state := .list }
      | some bytes =>
        let text := sanitize (bytes.take wmExplViewMax)
        let text := if ent.size > text.length ∧ text.length + 1 < wmExplViewMax
          then text ++ truncatedNote else text
        { f with view := text }.setExpl
          { e with viewLen := text.length, viewRow := 0, state := .view,
                   viewName := ent.name.map fun b : Byte => UInt8.ofNat b.toNat }

/-! ## keys -/

/-- `expl_key` in a view -/
def Files.viewKey (f : Files) (rows : Int) (ch : Byte) : Files :=
  let (lines, f) := f.explViewLines
  let e := f.desk.expl
  let maxRow := if lines - rows < 0 then 0 else lines - rows
  if ch = GUI_KEY_UP then
    if e.viewRow > 0 then f.setExpl { e with viewRow := e.viewRow - 1 } else f
  else if ch = GUI_KEY_DOWN then
    if e.viewRow < maxRow then f.setExpl { e with viewRow := e.viewRow + 1 } else f
  else if ch = GUI_KEY_PGUP then
    let row := e.viewRow - (rows - 1)
    f.setExpl { e with viewRow := if row < 0 then 0 else row }
  else if ch = GUI_KEY_PGDN then
    let row := e.viewRow + (rows - 1)
    f.setExpl { e with viewRow := if row > maxRow then maxRow else row }
  else if ch = GUI_KEY_HOME then f.setExpl { e with viewRow := 0 }
  else if ch = GUI_KEY_END then f.setExpl { e with viewRow := maxRow }
  else if ch = 0x0A ∨ ch = 0x08 ∨ ch = 0x71 then f.setExpl { e with state := .list }
  else f

/-- the cursor after a key that only moves it -/
def movedCursor (e : Explorer) (rows : Int) (ch : Byte) : Int :=
  if ch = GUI_KEY_UP then if e.cursor > 0 then e.cursor - 1 else e.cursor
  else if ch = GUI_KEY_DOWN then if e.cursor < e.nEntries - 1 then e.cursor + 1 else e.cursor
  else if ch = GUI_KEY_PGUP then
    if e.cursor - (rows - 1) < 0 then 0 else e.cursor - (rows - 1)
  else if ch = GUI_KEY_PGDN then
    if e.cursor + (rows - 1) ≥ e.nEntries then e.nEntries - 1 else e.cursor + (rows - 1)
  else if ch = GUI_KEY_HOME then 0
  else if ch = GUI_KEY_END then e.nEntries - 1
  else e.cursor

/-- `case GUI_KEY_DEL`, with the path that is unlinked -/
def Files.deleteKey (f : Files) (fs : Fs) : Files × Option (List Byte) :=
  let e := f.desk.expl
  if e.cursor < 0 ∨ e.cursor ≥ e.nEntries then (f, none)
  else
    let f := f.touch [.entry e.cursor e.nEntries]
    let path := pathOf (f.entries e.cursor.toNat).name
    (if fs.unlinked path then (f.explRefresh fs).1 else f, some path)

/-- `expl_key`, with the path that it unlinks; Enter has no case of its own in the list -/
def Files.explKey (f : Files) (fs : Fs) (ch : Byte) : Files × Option (List Byte) :=
  let (rows, f) := f.explWindowRows
  let rows := if rows < 1 then 1 else rows
  if f.desk.expl.state = .view then (f.viewKey rows ch, none)
  else
    let (f, path) :=
      if ch = GUI_KEY_DEL then f.deleteKey fs
      else (f.setExpl { f.desk.expl with cursor := movedCursor f.desk.expl rows ch }, none)
    (f.wmExplScrollToCursor fs.stray, path)

/-! ## drawing -/

/-- the rows of `wm_draw_expl_list` from `idx` on -/
def drawRows (nEntries : Int) : Nat → Int → List Access
  | 0, _ => []
  | k + 1, idx =>
    if idx ≥ nEntries then [] else .entry idx nEntries :: drawRows nEntries k (idx + 1)

/-- `wm_draw_explorer` in window `i`: first `windows[win_id]`, then the rows that are visible -/
def Files.wmDrawExplorer (f : Files) (i : Slot) : Files :=
  let e := f.desk.expl
  let (rows, f) := (f.touch [.window i.val]).wmExplVisibleRows 0
  if e.state = .view then f
  else if e.nEntries = 0 then f
  else f.touch (drawRows e.nEntries rows.toNat e.scroll)

/-- `wm_draw_window` -/
def Files.wmDrawWindow (f : Files) (i : Slot) : Files :=
  let f := f.touch [.window i.val]
  if (f.desk.windows i).state = .closed then f
  else if f.desk.expl.winId = some i then f.wmDrawExplorer i
  else f

/-- `wm_paint_all` -/
def Files.wmPaintAll (f : Files) : Files :=
  (sortByZ f.desk.zOrder (slots.filter f.desk.isNormal)).foldl Files.wmDrawWindow f

/-! ## the running desktop -/

/-- the explorer has the focus -/
def Files.focused (f : Files) : Bool :=
  f.desk.expl.winId.isSome ∧ f.desk.activeWindow = f.desk.expl.winId

inductive Event where
  /-- a key that `tty_gui_getchar` gives -/
  | key (fs : Fs) (ch : Byte)
  /-- `expl_refresh` for a command of the terminal, and when the desktop starts -/
  | refresh (fs : Fs)
  | openView (fs : Fs) (idx : Int)
  /-- ESC -/
  | esc
  | paint
  /-- clicks and the mouse, and windows that are opened, closed or focused -/
  | call (c : Call)

/-- `windows[]` is indexed with the window under the mouse -/
def Files.clickAccesses (f : Files) : Call → List Access
  | .handleClick x y => ((f.desk.wmHitTest x y).map fun i => .window i.val).toList
  | .updateMouse dx dy _ =>
    let d := f.desk.moveMouse dx dy
    ((d.wmHitTest d.mouseX d.mouseY).map fun i => .window i.val).toList
  | _ => []

/-- `desktop_run`: keys go to the window that has the focus -/
def Files.step (f : Files) : Event → Files
  | .key fs ch => if f.focused then (f.explKey fs ch).1 else f
  | .refresh fs => (f.explRefresh fs).1
  | .openView fs idx => f.explOpenView fs idx
  | .esc =>
    if f.desk.expl.state = .view ∧ f.focused then
      f.setExpl { f.desk.expl with state := .list }
    else { f with desk := { f.desk with running := 0 } }
  | .paint => f.wmPaintAll
  | .call c => { f with desk := f.desk.call c }.touch (f.clickAccesses c)

end Noxis.Wm
