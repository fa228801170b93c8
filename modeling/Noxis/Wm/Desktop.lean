import Noxis.Lib.Layers
import Mathlib.Algebra.Group.Int.Defs
import Mathlib.Algebra.GroupWithZero.Nat

/-!
# The window manager's desktop

`kernel/wm.c` keeps the windows of the desktop in a table of eight slots; each window carries its
place in the stacking order as a number.

* `Desktop`                    the table, the mouse, the drag, the terminal and the explorer
* `Desktop.wmRestack`          writes the stacking order anew, with one window in front
* `Desktop.wmHitTest`          the window under a point
* `Desktop.wmPaintAll`         what is drawn, in this order
* `Call`, `Desktop.call`       the calls that the other tasks make

The frame buffer is not here: what a window is drawn with does not touch the desktop.
-/

namespace Noxis.Wm

/-! ## data -/

abbrev wmMaxWindows : Nat := 8
abbrev Slot := Fin wmMaxWindows

instance neZero_maxWindows : NeZero wmMaxWindows := ⟨by decide⟩

/-- the loop over the table -/
def slots : List Slot := List.finRange wmMaxWindows

theorem mem_slots (i : Slot) : i ∈ slots := List.mem_finRange i

theorem nodup_slots : slots.Nodup := List.nodup_finRange wmMaxWindows

def gfxFbW : Int := 800
def gfxFbH : Int := 600
def wmTitleHeight : Int := 18
def wmBorderWidth : Int := 2
def wmMinWidth : Int := 60
def wmMinHeight : Int := 48
def wmTermCellH : Int := 16
def wmExplPad : Int := 2
/-- 56 columns of 8 pixels, the border and the padding -/
def wmTermWinW : Int := 56 * 8 + 2 * wmBorderWidth + 2 * 2
/-- 24 rows of 16 pixels, the title bar, the lower border and the padding -/
def wmTermWinH : Int := 24 * wmTermCellH + wmTitleHeight + wmBorderWidth + 2 * 2
def wmTermWinX : Int := gfxFbW - wmTermWinW - 16
def wmTermWinY : Int := 8

/-- a C `int`: sums wrap at 32 bits -/
def int (n : Int) : Int := n.bmod (2 ^ 32)

inductive WindowState where
  | closed
  | normal
  | minimized
  | maximized
  deriving DecidableEq, Repr

structure Window where
  x : Int
  y : Int
  width : Int
  height : Int
  state : WindowState
  /-- larger numbers are nearer to the eye -/
  zOrder : Int
  title : List UInt8

structure Terminal where
  cells : Fin 24 → Fin 56 → UInt8
  curCol : Int
  curRow : Int
  winId : Option Slot

inductive ExplState where
  | list
  | view
  deriving DecidableEq, Repr

structure Explorer where
  winId : Option Slot
  state : ExplState
  nEntries : Int
  cursor : Int
  scroll : Int
  viewRow : Int
  viewLen : Int
  viewName : List UInt8

/-- a slot that the source writes as -1 is `none` -/
structure Desktop where
  windows : Slot → Window
  activeWindow : Option Slot
  mouseX : Int
  mouseY : Int
  mouseButtons : Int
  dragWindow : Option Slot
  dragOffsetX : Int
  dragOffsetY : Int
  running : Int
  term : Terminal
  expl : Explorer

/-- the slot of a window id, when the id is one of the table -/
def slot? (winId : Int) : Option Slot :=
  if h : 0 ≤ winId ∧ winId < wmMaxWindows then some ⟨winId.toNat, by omega⟩ else none

def Desktop.setWindow (d : Desktop) (i : Slot) (w : Window) : Desktop :=
  { d with windows := Function.update d.windows i w }

/-! ## the stacking order -/

/-- one round of the insertion sort: the sorted part is walked from its end, so it stands here
with the last one first -/
def insertKey (z : Slot → Int) (key : Slot) : List Slot → List Slot
  | [] => [key]
  | j :: js => if z key < z j then j :: insertKey z key js else key :: j :: js

/-- the insertion sort of `wm_restack` and of `wm_paint_all` -/
def sortByZ (z : Slot → Int) (order : List Slot) : List Slot :=
  (order.foldl (fun done key => insertKey z key done) []).reverse

/-- `k`, `k + 1`, … into the windows of `order` -/
def renumber (ws : Slot → Window) : List Slot → Int → Slot → Window
  | [], _ => ws
  | i :: order, k => renumber (Function.update ws i { ws i with zOrder := k }) order (k + 1)

def Desktop.zOrder (d : Desktop) (i : Slot) : Int := (d.windows i).zOrder

def Desktop.isNormal (d : Desktop) (i : Slot) : Bool := (d.windows i).state = .normal

def Desktop.wmRestack (d : Desktop) (front : Option Slot) : Desktop :=
  let front := front.filter d.isNormal
  let order := sortByZ d.zOrder (slots.filter fun i => some i ≠ front ∧ d.isNormal i)
  let ws := renumber d.windows order 1
  match front with
  | none => { d with windows := ws }
  | some i =>
    { d with windows := Function.update ws i { ws i with zOrder := order.length + 1 } }

def Desktop.wmFocusWindow (d : Desktop) (winId : Int) : Desktop :=
  match slot? winId with
  | none => d
  | some i =>
    if d.isNormal i then { d.wmRestack (some i) with activeWindow := some i } else d

/-! ## opening and closing -/

/-- the first slot of a closed window -/
def Desktop.freeSlot (d : Desktop) : Option Slot :=
  slots.find? fun i => (d.windows i).state = .closed

def Desktop.wmCreateWindow (d : Desktop) (x y w h : Int) (title : List UInt8) :
    Desktop × Option Slot :=
  match d.freeSlot with
  | none => (d, none)
  | some i =>
    let w := if w < wmMinWidth then wmMinWidth else w
    let h := if h < wmMinHeight then wmMinHeight else h
    let x := if x < 0 then 0 else x
    let y := if y < 0 then 0 else y
    let x := if int (x + w) > gfxFbW then int (gfxFbW - w) else x
    let y := if int (y + h) > gfxFbH then int (gfxFbH - h) else y
    let d := d.setWindow i
      { d.windows i with x := x, y := y, width := w, height := h, state := .normal }
    let d := d.wmRestack (some i)
    (d.setWindow i { d.windows i with title := (title.takeWhile (· ≠ 0)).take 31 }, some i)

def Desktop.wmCloseWindow (d : Desktop) (winId : Int) : Desktop :=
  match slot? winId with
  | none => d
  | some i =>
    let d := d.setWindow i { d.windows i with state := .closed, zOrder := 0 }
    let d := if d.activeWindow = some i then { d with activeWindow := none } else d
    let d := if d.term.winId = some i then { d with term := { d.term with winId := none } } else d
    let d := if d.expl.winId = some i then { d with expl := { d.expl with winId := none } } else d
    d.wmRestack none

def Terminal.clear (t : Terminal) : Terminal :=
  { t with cells := fun _ _ => 0x20, curCol := 0, curRow := 0 }

def Desktop.wmTermOpen (d : Desktop) (title : List UInt8) : Desktop :=
  match d.wmCreateWindow wmTermWinX wmTermWinY wmTermWinW wmTermWinH title with
  | (d, none) => d
  | (d, some i) =>
    let d := { d with term := { d.term with winId := some i }.clear }
    d.wmFocusWindow i.val

def Desktop.wmExplOpen (d : Desktop) (x y w h : Int) (title : List UInt8) : Desktop :=
  match d.wmCreateWindow x y w h title with
  | (d, none) => d
  | (d, some i) =>
    let d := { d with expl := { winId := some i, state := .list, nEntries := 0, cursor := 0,
                                scroll := 0, viewRow := 0, viewLen := 0, viewName := [] } }
    d.wmFocusWindow i.val

/-- the desktop at the start; the places and titles of the windows are what the memory held -/
def Desktop.wmInit (d : Desktop) : Desktop :=
  { windows := fun i => { d.windows i with state := .closed, zOrder := 0 }
    activeWindow := none
    mouseX := gfxFbW / 2
    mouseY := gfxFbH / 2
    mouseButtons := 0
    dragWindow := none
    dragOffsetX := 0
    dragOffsetY := 0
    running := 1
    term := { d.term with winId := none }.clear
    expl := { winId := none, state := .list, nEntries := 0, cursor := 0, scroll := 0,
              viewRow := 0, viewLen := 0, viewName := [] } }

/-! ## the mouse -/

/-- the point lies in the window's rectangle -/
def Window.contains (w : Window) (x y : Int) : Bool :=
  w.x ≤ x ∧ x < int (w.x + w.width) ∧ w.y ≤ y ∧ y < int (w.y + w.height)

/-- one round of the search, with the best window so far and its number -/
def Desktop.hitStep (d : Desktop) (x y : Int) (best : Option Slot × Int) (i : Slot) :
    Option Slot × Int :=
  if d.isNormal i ∧ (d.windows i).contains x y ∧ best.2 < d.zOrder i then
    (some i, d.zOrder i)
  else best

def Desktop.wmHitTest (d : Desktop) (x y : Int) : Option Slot :=
  (slots.foldl (d.hitStep x y) (none, -1)).1

def Desktop.wmExplVisibleRows (d : Desktop) (i : Slot) : Int :=
  let clientH := (d.windows i).height - wmTitleHeight - wmBorderWidth - 2 * wmExplPad
  if clientH ≤ 0 then 0 else clientH.tdiv wmTermCellH

def Desktop.wmExplScrollToCursor (d : Desktop) (i : Slot) : Desktop :=
  let rows := d.wmExplVisibleRows i
  if rows ≤ 0 then d
  else
    let scroll := if d.expl.cursor < d.expl.scroll then d.expl.cursor else d.expl.scroll
    let scroll := if d.expl.cursor ≥ scroll + rows then d.expl.cursor - rows + 1 else scroll
    { d with expl := { d.expl with scroll := scroll } }

/-- the row of the explorer under a click on its window `i` -/
def Desktop.selectRow (d : Desktop) (i : Slot) (y : Int) : Desktop :=
  let ty := (d.windows i).y + wmTitleHeight + wmExplPad
  let rows := d.wmExplVisibleRows i
  if y ≥ ty ∧ rows > 0 then
    let row := (y - ty).tdiv wmTermCellH + d.expl.scroll
    if row ≥ 0 ∧ row < d.expl.nEntries then
      ({ d with expl := { d.expl with cursor := row } } : Desktop).wmExplScrollToCursor i
    else d
  else d

def Desktop.wmHandleClick (d : Desktop) (x y : Int) : Desktop :=
  match d.wmHitTest x y with
  | none => d
  | some i =>
    let d := d.wmFocusWindow i.val
    if d.expl.winId = some i ∧ d.expl.state = .list then d.selectRow i y else d

/-- the mouse stays on the screen -/
def Desktop.moveMouse (d : Desktop) (dx dy : Int) : Desktop :=
  let x := int (d.mouseX + dx)
  let y := int (d.mouseY + dy)
  let x := if x < 0 then 0 else x
  let x := if x ≥ gfxFbW then gfxFbW - 1 else x
  let y := if y < 0 then 0 else y
  let y := if y ≥ gfxFbH then gfxFbH - 1 else y
  { d with mouseX := x, mouseY := y }

/-- a press of the left button takes hold of the active window's title bar -/
def Desktop.startDrag (d : Desktop) : Desktop :=
  match d.activeWindow with
  | none => { d with dragWindow := none }
  | some i =>
    if d.mouseY < int ((d.windows i).y + wmTitleHeight) then
      { d with dragWindow := some i
               dragOffsetX := int (d.mouseX - (d.windows i).x)
               dragOffsetY := int (d.mouseY - (d.windows i).y) }
    else { d with dragWindow := none }

/-- the window that is held follows the mouse -/
def Desktop.drag (d : Desktop) : Desktop :=
  match d.dragWindow with
  | none => d
  | some i =>
    let w := d.windows i
    let x := int (d.mouseX - d.dragOffsetX)
    let y := int (d.mouseY - d.dragOffsetY)
    let x := if x < 0 then 0 else x
    let y := if y < 0 then 0 else y
    let x := if int (x + w.width) > gfxFbW then int (gfxFbW - w.width) else x
    let y := if int (y + w.height) > gfxFbH then int (gfxFbH - w.height) else y
    d.setWindow i { w with x := x, y := y }

/-- the left button of a button mask -/
def left (buttons : Int) : Bool := buttons % 2 = 1

def Desktop.wmUpdateMouse (d : Desktop) (dx dy buttons : Int) : Desktop :=
  let d := d.moveMouse dx dy
  let d := if left buttons ∧ ¬ left d.mouseButtons then
      (d.wmHandleClick d.mouseX d.mouseY).startDrag
    else d
  let d := if left buttons then d.drag else d
  let d := if left buttons then d else { d with dragWindow := none }
  { d with mouseButtons := buttons }

/-! ## painting -/

inductive Paint where
  | desktop
  | window (i : Slot)
  | cursor
  deriving DecidableEq, Repr

/-- nothing is drawn of a closed window -/
def Desktop.wmDrawWindow (d : Desktop) (i : Slot) : List Paint :=
  if (d.windows i).state = .closed then [] else [.window i]

def Desktop.wmPaintAll (d : Desktop) : List Paint :=
  .desktop :: (sortByZ d.zOrder (slots.filter d.isNormal)).flatMap d.wmDrawWindow
    ++ [.cursor]

/-! ## calls -/

inductive Call where
  | createWindow (x y w h : Int) (title : List UInt8)
  | closeWindow (winId : Int)
  | focusWindow (winId : Int)
  | handleClick (x y : Int)
  | updateMouse (dx dy buttons : Int)
  | termOpen (title : List UInt8)
  | explOpen (x y w h : Int) (title : List UInt8)

def Desktop.call (d : Desktop) : Call → Desktop
  | .createWindow x y w h title => (d.wmCreateWindow x y w h title).1
  | .closeWindow winId => d.wmCloseWindow winId
  | .focusWindow winId => d.wmFocusWindow winId
  | .handleClick x y => d.wmHandleClick x y
  | .updateMouse dx dy buttons => d.wmUpdateMouse dx dy buttons
  | .termOpen title => d.wmTermOpen title
  | .explOpen x y w h title => d.wmExplOpen x y w h title

end Noxis.Wm
