import Noxis.Lib.Run
import Noxis.Wm.ZOrder

/-!
# Handles of windows

The desktop refers to windows by their slots: the active window, the window that is dragged, the windows
of the terminal and of the explorer.

* `Touched`          what a click or a change of the focus leaves alone
* `Opened`           what a new window changes
* `Dated`            the desktop with the dates of its windows and of the drag
* `handles_iff`      no handle dangles exactly if nobody closes the window that is dragged
* `handles_fails`    a window that is dragged is closed, and its slot used again
-/

namespace Noxis.Wm
open Run

variable {d d' d'' : Desktop} {i j : Slot} {w w' : Window}

/-! ## the focus -/

/-- the pointer, the buttons and the drag -/
def Desktop.pointer (d : Desktop) : (Int × Int × Int) × Option Slot × Int × Int :=
  ((d.mouseX, d.mouseY, d.mouseButtons), d.dragWindow, d.dragOffsetX, d.dragOffsetY)

/-- a change of the focus; the new active window is NORMAL -/
structure Touched (d d' : Desktop) : Prop where
  places : SamePlaces d.windows d'.windows
  active : d'.activeWindow = d.activeWindow ∨
    ∃ i, d'.activeWindow = some i ∧ (d.windows i).state = .normal
  term : d'.term.winId = d.term.winId
  expl : d'.expl.winId = d.expl.winId
  pointer : d'.pointer = d.pointer

theorem Touched.refl (d : Desktop) : Touched d d := ⟨.refl _, .inl rfl, rfl, rfl, rfl⟩

theorem focus_touched (d : Desktop) (winId : Int) : Touched d (d.wmFocusWindow winId) := by
  unfold Desktop.wmFocusWindow
  cases slot? winId with
  | none => exact .refl d
  | some i =>
    show Touched d (if d.isNormal i then _ else d)
    by_cases hi : d.isNormal i
    · obtain ⟨ws, heq, hws⟩ := restack_spec d (some i)
      rw [if_pos hi, heq]
      exact ⟨hws, .inr ⟨i, rfl, isNormal_iff.mp hi⟩, rfl, rfl, rfl⟩
    · rw [if_neg hi]
      exact .refl d

/-- a row of the list is selected -/
theorem selectRow_touched (d : Desktop) (i : Slot) (y : Int) : Touched d (d.selectRow i y) := by
  have hscroll : ∀ c, Touched d
      (({ d with expl := { d.expl with cursor := c } } : Desktop).wmExplScrollToCursor i) := by
    intro c
    unfold Desktop.wmExplScrollToCursor
    by_cases hr : ({ d with expl := { d.expl with cursor := c } } : Desktop).wmExplVisibleRows i ≤ 0
    · simp only [if_pos hr]
      exact ⟨.refl _, .inl rfl, rfl, rfl, rfl⟩
    · simp only [if_neg hr]
      exact ⟨.refl _, .inl rfl, rfl, rfl, rfl⟩
  unfold Desktop.selectRow
  simp only
  split_ifs
  · exact hscroll _
  · exact .refl d
  · exact .refl d

theorem Touched.trans (h : Touched d d') (h' : Touched d' d'') : Touched d d'' where
  places := h.places.trans h'.places
  active := by
    rcases h'.active with ha | ⟨i, ha, hi⟩
    · rw [ha]
      exact h.active
    · rw [h.places.state] at hi
      exact .inr ⟨i, ha, hi⟩
  term := h'.term.trans h.term
  expl := h'.expl.trans h.expl
  pointer := h'.pointer.trans h.pointer

theorem click_touched (d : Desktop) (x y : Int) : Touched d (d.wmHandleClick x y) := by
  unfold Desktop.wmHandleClick
  cases d.wmHitTest x y with
  | none => exact .refl d
  | some i =>
    simp only
    split_ifs
    · exact (focus_touched d i.val).trans (selectRow_touched _ i y)
    · exact focus_touched d i.val

/-! ## opening -/

/-- a coordinate is kept between 0 and `screen - size`, or at least the code tries -/
def clamp (pos size screen : Int) : Int :=
  let pos := if pos < 0 then 0 else pos
  if int (pos + size) > screen then int (screen - size) else pos

/-- a window of at least the least size, where it is asked for -/
def Window.opened (old : Window) (x y w h : Int) : Window :=
  let w := if w < wmMinWidth then wmMinWidth else w
  let h := if h < wmMinHeight then wmMinHeight else h
  { old with
    x := clamp x w gfxFbW, y := clamp y h gfxFbH, width := w, height := h, state := .normal }

/-- a new window in the slot `i`, which no handle but these may refer to -/
structure Opened (x y wd ht : Int) (i : Slot) (d d' : Desktop) : Prop where
  free : d.freeSlot = some i
  places : SamePlaces (Function.update d.windows i ((d.windows i).opened x y wd ht)) d'.windows
  active : d'.activeWindow = d.activeWindow ∨ d'.activeWindow = some i
  term : d'.term.winId = d.term.winId ∨ d'.term.winId = some i
  expl : d'.expl.winId = d.expl.winId ∨ d'.expl.winId = some i
  pointer : d'.pointer = d.pointer

/-- the table is full, or the first free slot is taken -/
def Opens (x y wd ht : Int) (d d' : Desktop) : Prop :=
  (d.freeSlot = none ∧ d' = d) ∨ ∃ i, Opened x y wd ht i d d'

theorem create_places (d : Desktop) (x y wd ht : Int) (title : List UInt8) :
    (d.freeSlot = none ∧ d.wmCreateWindow x y wd ht title = (d, none)) ∨
    ∃ i ws, d.freeSlot = some i ∧
      d.wmCreateWindow x y wd ht title = ({ d with windows := ws }, some i) ∧
      SamePlaces (Function.update d.windows i ((d.windows i).opened x y wd ht)) ws := by
  cases hf : d.freeSlot with
  | none =>
    refine .inl ⟨rfl, ?_⟩
    unfold Desktop.wmCreateWindow
    rw [hf]
  | some i =>
    obtain ⟨ws, heq, hws⟩ := restack_spec (d.setWindow i ((d.windows i).opened x y wd ht)) (some i)
    refine .inr ⟨i, Function.update ws i { ws i with title := (title.takeWhile (· ≠ 0)).take 31 },
      rfl, ?_, hws.trans fun j => ?_⟩
    · unfold Desktop.wmCreateWindow
      rw [hf]
      show (((d.setWindow i ((d.windows i).opened x y wd ht)).wmRestack (some i)).setWindow i
        { ((d.setWindow i ((d.windows i).opened x y wd ht)).wmRestack (some i)).windows i with
          title := _ }, _) = _
      rw [heq]
      rfl
    · by_cases hj : j = i
      · rw [hj, Function.update_self]
      · rw [Function.update_of_ne hj]

theorem create_opens (d : Desktop) (x y wd ht : Int) (title : List UInt8) :
    Opens x y wd ht d (d.wmCreateWindow x y wd ht title).1 := by
  rcases create_places d x y wd ht title with ⟨hf, h⟩ | ⟨i, ws, hf, h, hws⟩
  · rw [h]
    exact .inl ⟨hf, rfl⟩
  · rw [h]
    exact .inr ⟨i, hf, hws, .inl rfl, .inl rfl, .inl rfl, rfl⟩

/-- the focus of the new window -/
theorem Opened.focus {x y wd ht : Int} {t : Terminal} {e : Explorer} {ws : Slot → Window}
    (hf : d.freeSlot = some i)
    (hws : SamePlaces (Function.update d.windows i ((d.windows i).opened x y wd ht)) ws)
    (hterm : t.winId = d.term.winId ∨ t.winId = some i)
    (he : e.winId = d.expl.winId ∨ e.winId = some i) :
    Opened x y wd ht i d
      (({ d with windows := ws, term := t, expl := e } : Desktop).wmFocusWindow i.val) := by
  unfold Desktop.wmFocusWindow
  rw [slot?_val]
  simp only
  split_ifs
  · obtain ⟨vs, heq, hvs⟩ := restack_spec
      ({ d with windows := ws, term := t, expl := e } : Desktop) (some i)
    rw [heq]
    exact ⟨hf, hws.trans hvs, .inr rfl, hterm, he, rfl⟩
  · exact ⟨hf, hws, .inl rfl, hterm, he, rfl⟩

theorem termOpen_opens (d : Desktop) (title : List UInt8) :
    Opens wmTermWinX wmTermWinY wmTermWinW wmTermWinH d (d.wmTermOpen title) := by
  unfold Desktop.wmTermOpen
  rcases create_places d wmTermWinX wmTermWinY wmTermWinW wmTermWinH title with
    ⟨hf, h⟩ | ⟨i, ws, hf, h, hws⟩
  · rw [h]
    exact .inl ⟨hf, rfl⟩
  · rw [h]
    exact .inr ⟨i, Opened.focus hf hws (.inr rfl) (.inl rfl)⟩

theorem explOpen_opens (d : Desktop) (x y wd ht : Int) (title : List UInt8) :
    Opens x y wd ht d (d.wmExplOpen x y wd ht title) := by
  unfold Desktop.wmExplOpen
  rcases create_places d x y wd ht title with ⟨hf, h⟩ | ⟨i, ws, hf, h, hws⟩
  · rw [h]
    exact .inl ⟨hf, rfl⟩
  · rw [h]
    exact .inr ⟨i, Opened.focus hf hws (.inl rfl) (.inr rfl)⟩

/-- the other windows stay as they are -/
theorem Opened.other {x y wd ht : Int} (h : Opened x y wd ht i d d') (hj : j ≠ i) :
    (d'.windows j).state = (d.windows j).state ∧ (d'.windows j).x = (d.windows j).x ∧
      (d'.windows j).y = (d.windows j).y := by
  rw [h.places j, Function.update_of_ne hj]
  exact ⟨rfl, rfl, rfl⟩

theorem Opened.new {x y wd ht : Int} (h : Opened x y wd ht i d d') :
    (d'.windows i).state = .normal := by
  rw [h.places i, Function.update_self]
  rfl

/-! ## closing -/

/-- the slot `i` is closed, and no handle but the one of the drag may refer to it -/
structure Closed (i : Slot) (d d' : Desktop) : Prop where
  places : SamePlaces (Function.update d.windows i { d.windows i with state := .closed }) d'.windows
  active : ∀ j, d'.activeWindow = some j → d.activeWindow = some j ∧ j ≠ i
  term : ∀ j, d'.term.winId = some j → d.term.winId = some j ∧ j ≠ i
  expl : ∀ j, d'.expl.winId = some j → d.expl.winId = some j ∧ j ≠ i
  pointer : d'.pointer = d.pointer

/-- a handle of the slot is taken back -/
def without (i : Slot) (o : Option Slot) : Option Slot := if o = some i then none else o

theorem without_some {o : Option Slot} (h : without i o = some j) : o = some j ∧ j ≠ i := by
  unfold without at h
  split at h
  · exact nomatch h
  · rename_i ho
    exact ⟨h, fun hj => ho (hj ▸ h)⟩

theorem close_eq {winId : Int} (hi : slot? winId = some i) :
    d.wmCloseWindow winId = Desktop.wmRestack { d with
      windows := Function.update d.windows i { d.windows i with state := .closed, zOrder := 0 }
      activeWindow := without i d.activeWindow
      term := { d.term with winId := without i d.term.winId }
      expl := { d.expl with winId := without i d.expl.winId } } none := by
  unfold Desktop.wmCloseWindow without
  rw [hi]
  by_cases ha : d.activeWindow = some i <;> by_cases ht : d.term.winId = some i <;>
    by_cases he : d.expl.winId = some i <;>
    simp only [Desktop.setWindow, ha, ht, he, if_true, if_false]

theorem close_closed {winId : Int} (hi : slot? winId = some i) :
    Closed i d (d.wmCloseWindow winId) := by
  have hplaces : SamePlaces (Function.update d.windows i { d.windows i with state := .closed })
      (Function.update d.windows i { d.windows i with state := .closed, zOrder := 0 }) := by
    intro j
    by_cases hj : j = i
    · rw [hj, Function.update_self, Function.update_self]
    · rw [Function.update_of_ne hj, Function.update_of_ne hj]
  rw [close_eq hi]
  obtain ⟨ws, heq, hws⟩ := restack_spec { d with
      windows := Function.update d.windows i { d.windows i with state := .closed, zOrder := 0 }
      activeWindow := without i d.activeWindow
      term := { d.term with winId := without i d.term.winId }
      expl := { d.expl with winId := without i d.expl.winId } } none
  rw [heq]
  exact ⟨hplaces.trans hws, fun _ => without_some, fun _ => without_some,
    fun _ => without_some, rfl⟩

/-! ## the mouse -/

/-- a press takes hold of the active window, or of none -/
theorem startDrag_cases (d : Desktop) : d.startDrag = { d with dragWindow := none } ∨
    ∃ i, d.activeWindow = some i ∧ d.startDrag = { d with
      dragWindow := some i
      dragOffsetX := int (d.mouseX - (d.windows i).x)
      dragOffsetY := int (d.mouseY - (d.windows i).y) } := by
  obtain ⟨ws, active, mx, my, mb, dw, ox, oy, run, t, e⟩ := d
  cases active with
  | none => exact .inl rfl
  | some i =>
    unfold Desktop.startDrag
    simp only
    split_ifs
    · exact .inr ⟨i, rfl, rfl⟩
    · exact .inl rfl

/-- the window that is held moves -/
theorem drag_window (hi : d.dragWindow = some i) :
    d.drag = d.setWindow i { d.windows i with
      x := clamp (int (d.mouseX - d.dragOffsetX)) (d.windows i).width gfxFbW
      y := clamp (int (d.mouseY - d.dragOffsetY)) (d.windows i).height gfxFbH } := by
  unfold Desktop.drag
  rw [hi]
  rfl

theorem drag_none (hi : d.dragWindow = none) : d.drag = d := by
  unfold Desktop.drag
  rw [hi]

/-- a mouse report, before the window moves: a press changes the focus and the drag -/
def Desktop.pressed (d : Desktop) (dx dy buttons : Int) : Desktop :=
  let d' := d.moveMouse dx dy
  if left buttons ∧ ¬ left d.mouseButtons then (d'.wmHandleClick d'.mouseX d'.mouseY).startDrag
  else d'

theorem mouse_held {dx dy buttons : Int} (hb : left buttons) : d.wmUpdateMouse dx dy buttons =
    { (d.pressed dx dy buttons).drag with mouseButtons := buttons } := by
  unfold Desktop.wmUpdateMouse
  simp only [hb, if_true]
  unfold Desktop.pressed
  simp only [hb]
  rfl

theorem mouse_free {dx dy buttons : Int} (hb : ¬ left buttons) : d.wmUpdateMouse dx dy buttons =
    { d.moveMouse dx dy with dragWindow := none, mouseButtons := buttons } := by
  unfold Desktop.wmUpdateMouse
  simp only [hb]
  rfl

/-! ## handles -/

/-- **no handle dangles** -/
structure Sound (d : Desktop) : Prop where
  active : ∀ i, d.activeWindow = some i → (d.windows i).state = .normal
  drag : ∀ i, d.dragWindow = some i → (d.windows i).state = .normal
  term : ∀ i, d.term.winId = some i → (d.windows i).state = .normal
  expl : ∀ i, d.expl.winId = some i → (d.windows i).state = .normal

theorem Touched.sound (h : Touched d d') (hs : Sound d) : Sound d' := by
  have hstate := h.places.state
  constructor
  · intro i hi
    rw [hstate]
    rcases h.active with ha | ⟨j, ha, hj⟩
    · exact hs.active i (ha ▸ hi)
    · rw [ha] at hi
      cases hi
      exact hj
  · intro i hi
    have hdrag : d'.dragWindow = d.dragWindow := congrArg (fun p => p.2.1) h.pointer
    rw [hstate]
    exact hs.drag i (hdrag ▸ hi)
  · intro i hi
    rw [hstate]
    exact hs.term i (h.term ▸ hi)
  · intro i hi
    rw [hstate]
    exact hs.expl i (h.expl ▸ hi)

theorem Opened.sound {x y wd ht : Int} (h : Opened x y wd ht i d d') (hs : Sound d) : Sound d' := by
  -- who referred to a NORMAL window does so still
  have hkept : ∀ j, (d.windows j).state = .normal → (d'.windows j).state = .normal := by
    intro j hj
    by_cases hji : j = i
    · rw [hji]
      exact h.new
    · rw [(h.other hji).1]
      exact hj
  have hnew : ∀ {o o' : Option Slot}, (∀ j, o = some j → (d.windows j).state = .normal) →
      (o' = o ∨ o' = some i) → ∀ j, o' = some j → (d'.windows j).state = .normal := by
    intro o o' ho hoo j hj
    rcases hoo with rfl | rfl
    · exact hkept j (ho j hj)
    · cases hj
      exact h.new
  have hdrag : d'.dragWindow = d.dragWindow := congrArg (fun p => p.2.1) h.pointer
  exact ⟨hnew hs.active h.active, hnew hs.drag (.inl hdrag), hnew hs.term h.term,
    hnew hs.expl h.expl⟩

theorem Closed.other (h : Closed i d d') (hj : j ≠ i) :
    (d'.windows j).state = (d.windows j).state := by
  rw [h.places j, Function.update_of_ne hj]

theorem Closed.state (h : Closed i d d') : (d'.windows i).state = .closed := by
  rw [h.places i, Function.update_self]

/-- a close spares the window that is dragged -/
theorem Closed.sound (h : Closed i d d') (hs : Sound d) (hi : d.dragWindow ≠ some i) :
    Sound d' := by
  have hdrag : d'.dragWindow = d.dragWindow := congrArg (fun p => p.2.1) h.pointer
  constructor
  · intro j hj
    obtain ⟨hd, hne⟩ := h.active j hj
    rw [h.other hne]
    exact hs.active j hd
  · intro j hj
    rw [hdrag] at hj
    rw [h.other fun hji => hi (hji ▸ hj)]
    exact hs.drag j hj
  · intro j hj
    obtain ⟨hd, hne⟩ := h.term j hj
    rw [h.other hne]
    exact hs.term j hd
  · intro j hj
    obtain ⟨hd, hne⟩ := h.expl j hj
    rw [h.other hne]
    exact hs.expl j hd

theorem Sound.startDrag (hs : Sound d) : Sound d.startDrag := by
  rcases startDrag_cases d with h | ⟨i, hi, h⟩
  · rw [h]
    exact ⟨hs.active, nofun, hs.term, hs.expl⟩
  · rw [h]
    refine ⟨hs.active, fun j hj => ?_, hs.term, hs.expl⟩
    cases hj
    exact hs.active i hi

theorem drag_state (d : Desktop) (j : Slot) : (d.drag.windows j).state = (d.windows j).state := by
  cases hi : d.dragWindow with
  | none => rw [drag_none hi]
  | some i =>
    rw [drag_window hi]
    by_cases hj : j = i
    · rw [hj, setWindow_same]
    · rw [setWindow_ne hj]

theorem drag_handles (d : Desktop) : d.drag.activeWindow = d.activeWindow ∧
    d.drag.dragWindow = d.dragWindow ∧ d.drag.term = d.term ∧ d.drag.expl = d.expl := by
  cases hi : d.dragWindow with
  | none =>
    rw [drag_none hi]
    exact ⟨rfl, hi, rfl, rfl⟩
  | some i =>
    rw [drag_window hi]
    exact ⟨rfl, hi, rfl, rfl⟩

theorem Sound.drag' (hs : Sound d) : Sound d.drag := by
  obtain ⟨ha, hd, ht, he⟩ := drag_handles d
  constructor
  · intro i hi
    rw [drag_state]
    exact hs.active i (ha ▸ hi)
  · intro i hi
    rw [drag_state]
    exact hs.drag i (hd ▸ hi)
  · intro i hi
    rw [drag_state]
    exact hs.term i (ht ▸ hi)
  · intro i hi
    rw [drag_state]
    exact hs.expl i (he ▸ hi)

theorem Sound.pressed (hs : Sound d) (dx dy buttons : Int) : Sound (d.pressed dx dy buttons) := by
  have hmove : Sound (d.moveMouse dx dy) := ⟨hs.active, hs.drag, hs.term, hs.expl⟩
  unfold Desktop.pressed
  simp only
  split_ifs
  · exact ((click_touched _ _ _).sound hmove).startDrag
  · exact hmove

theorem Sound.mouse (hs : Sound d) (dx dy buttons : Int) :
    Sound (d.wmUpdateMouse dx dy buttons) := by
  by_cases hb : left buttons
  · have h := (hs.pressed dx dy buttons).drag'
    rw [mouse_held hb]
    exact ⟨h.active, h.drag, h.term, h.expl⟩
  · rw [mouse_free hb]
    exact ⟨hs.active, nofun, hs.term, hs.expl⟩

/-- the call does not close the window that is dragged -/
def Call.Spares (d : Desktop) : Call → Prop
  | .closeWindow winId => ∀ i, slot? winId = some i → d.dragWindow ≠ some i
  | _ => True

theorem Sound.opens {x y wd ht : Int} (hs : Sound d) (h : Opens x y wd ht d d') : Sound d' := by
  rcases h with ⟨-, rfl⟩ | ⟨i, h⟩
  · exact hs
  · exact h.sound hs

/-- **A call leaves no dangling handle** exactly if it spares the window that is dragged. -/
theorem call_sound_iff (hs : Sound d) (c : Call) : Sound (d.call c) ↔ c.Spares d := by
  cases c with
  | createWindow x y w h title => exact iff_of_true (hs.opens (create_opens d x y w h title)) trivial
  | focusWindow winId => exact iff_of_true ((focus_touched d winId).sound hs) trivial
  | handleClick x y => exact iff_of_true ((click_touched d x y).sound hs) trivial
  | updateMouse dx dy buttons => exact iff_of_true (hs.mouse dx dy buttons) trivial
  | termOpen title => exact iff_of_true (hs.opens (termOpen_opens d title)) trivial
  | explOpen x y w h title => exact iff_of_true (hs.opens (explOpen_opens d x y w h title)) trivial
  | closeWindow winId =>
    show Sound (d.wmCloseWindow winId) ↔ ∀ i, slot? winId = some i → d.dragWindow ≠ some i
    constructor
    · intro hs' i hi hd
      have h := close_closed (d := d) hi
      have hdrag : (d.wmCloseWindow winId).dragWindow = some i :=
        (congrArg (fun p => p.2.1) h.pointer).trans hd
      have hn := hs'.drag i hdrag
      rw [h.state] at hn
      exact nomatch hn
    · intro hsp
      cases hi : slot? winId with
      | none =>
        unfold Desktop.wmCloseWindow
        rw [hi]
        exact hs
      | some i => exact (close_closed hi).sound hs (hsp i hi)

/-! ## dates -/

/-- the desktop, how many calls have been made, which of them has opened the window of a slot, and
which has begun the drag -/
structure Dated where
  desk : Desktop
  now : Nat
  opened : Slot → Nat
  began : Nat

/-- the call opens a window in the slot -/
def Opening (d d' : Desktop) (i : Slot) : Prop :=
  (d.windows i).state = .closed ∧ (d'.windows i).state = .normal

instance (d d' : Desktop) (i : Slot) : Decidable (Opening d d' i) :=
  inferInstanceAs (Decidable (_ ∧ _))

/-- the left button goes down -/
def Call.presses (d : Desktop) : Call → Bool
  | .updateMouse _ _ buttons => left buttons && !left d.mouseButtons
  | _ => false

def Dated.call (m : Dated) (c : Call) : Dated where
  desk := m.desk.call c
  now := m.now + 1
  opened := fun i => if Opening m.desk (m.desk.call c) i then m.now else m.opened i
  began := if c.presses m.desk then m.now else m.began

def Call.isMouse : Call → Bool
  | .updateMouse .. => true
  | _ => false

/-- **a mouse update moves no window that was opened after the drag began** -/
def Follows (m : Dated) (c : Call) (m' : Dated) : Prop :=
  c.isMouse = true → ∀ i, ((m'.desk.windows i).x, (m'.desk.windows i).y) ≠
    ((m.desk.windows i).x, (m.desk.windows i).y) → ¬ m'.began < m'.opened i

/-- the dates fit: the window that is dragged is older than the drag -/
structure Dated.Fit (m : Dated) : Prop where
  sound : Sound m.desk
  past : ∀ i, (m.desk.windows i).state = .normal → m.opened i < m.now
  drag : ∀ i, m.desk.dragWindow = some i → m.opened i < m.began

theorem pressed_places (d : Desktop) (dx dy buttons : Int) :
    SamePlaces d.windows (d.pressed dx dy buttons).windows := by
  unfold Desktop.pressed
  simp only
  split_ifs
  · have hclick := (click_touched (d.moveMouse dx dy) (d.moveMouse dx dy).mouseX
      (d.moveMouse dx dy).mouseY).places
    rcases startDrag_cases ((d.moveMouse dx dy).wmHandleClick (d.moveMouse dx dy).mouseX
      (d.moveMouse dx dy).mouseY) with h | ⟨i, -, h⟩
    · rw [h]
      exact hclick
    · rw [h]
      exact hclick
  · exact .refl _

theorem mouse_state (d : Desktop) (dx dy buttons : Int) (i : Slot) :
    ((d.wmUpdateMouse dx dy buttons).windows i).state = (d.windows i).state := by
  by_cases hb : left buttons
  · rw [mouse_held hb]
    exact (drag_state _ i).trans ((pressed_places d dx dy buttons).state i)
  · rw [mouse_free hb]
    rfl

/-- the window that a mouse update moves is the one that is dragged then -/
theorem mouse_moves {dx dy buttons : Int}
    (h : (((d.wmUpdateMouse dx dy buttons).windows i).x,
      ((d.wmUpdateMouse dx dy buttons).windows i).y) ≠ ((d.windows i).x, (d.windows i).y)) :
    (d.wmUpdateMouse dx dy buttons).dragWindow = some i := by
  by_cases hb : left buttons
  · rw [mouse_held hb] at h ⊢
    show (d.pressed dx dy buttons).drag.dragWindow = some i
    rw [(drag_handles _).2.1]
    by_contra hd
    refine h ?_
    show (((d.pressed dx dy buttons).drag.windows i).x,
      ((d.pressed dx dy buttons).drag.windows i).y) = _
    have hstay : (d.pressed dx dy buttons).drag.windows i = (d.pressed dx dy buttons).windows i := by
      cases hw : (d.pressed dx dy buttons).dragWindow with
      | none => rw [drag_none hw]
      | some j =>
        have hij : i ≠ j := by
          rintro rfl
          exact hd hw
        rw [drag_window hw, setWindow_ne hij]
    rw [hstay, pressed_places d dx dy buttons i]
  · rw [mouse_free hb] at h
    exact absurd rfl h

/-- where the window that is dragged comes from -/
theorem mouse_drag {dx dy buttons : Int} (hs : Sound d)
    (h : (d.wmUpdateMouse dx dy buttons).dragWindow = some i) :
    if (Call.updateMouse dx dy buttons).presses d then (d.windows i).state = .normal
    else d.dragWindow = some i := by
  by_cases hb : left buttons
  · rw [mouse_held hb] at h
    have hd : (d.pressed dx dy buttons).dragWindow = some i := (drag_handles _).2.1.symm.trans h
    have hsound := (hs.pressed dx dy buttons).drag i hd
    rw [(pressed_places d dx dy buttons).state] at hsound
    split
    · exact hsound
    · rename_i hp
      have hfree : ¬ (left buttons = true ∧ ¬ left d.mouseButtons = true) := by
        rintro ⟨h1, h2⟩
        refine hp ?_
        show (left buttons && !left d.mouseButtons) = true
        rw [h1, Bool.eq_false_of_not_eq_true h2]
        rfl
      unfold Desktop.pressed at hd
      rw [if_neg hfree] at hd
      exact hd
  · rw [mouse_free hb] at h
    exact nomatch h

/-- a call changes the state of a window by opening or closing it -/
theorem call_normal {c : Call} (h : ((d.call c).windows i).state = .normal) :
    (d.windows i).state = .normal ∨ Opening d (d.call c) i := by
  have hopens : ∀ {x y wd ht : Int}, Opens x y wd ht d (d.call c) →
      (d.windows i).state = .normal ∨ Opening d (d.call c) i := by
    rintro x y wd ht (⟨-, heq⟩ | ⟨j, ho⟩)
    · rw [heq] at h
      exact .inl h
    · by_cases hij : i = j
      · rw [hij]
        exact .inr ⟨freeSlot_closed ho.free, ho.new⟩
      · rw [(ho.other hij).1] at h
        exact .inl h
  cases c with
  | createWindow x y wd ht title => exact hopens (create_opens d x y wd ht title)
  | termOpen title => exact hopens (termOpen_opens d title)
  | explOpen x y wd ht title => exact hopens (explOpen_opens d x y wd ht title)
  | focusWindow winId => exact .inl ((focus_touched d winId).places.state i ▸ h)
  | handleClick x y => exact .inl ((click_touched d x y).places.state i ▸ h)
  | updateMouse dx dy buttons => exact .inl (mouse_state d dx dy buttons i ▸ h)
  | closeWindow winId =>
    have h' : ((d.wmCloseWindow winId).windows i).state = .normal := h
    cases hj : slot? winId with
    | none =>
      unfold Desktop.wmCloseWindow at h'
      rw [hj] at h'
      exact .inl h'
    | some j =>
      have hc := close_closed (d := d) hj
      by_cases hij : i = j
      · rw [hij, hc.state] at h'
        exact nomatch h'
      · rw [hc.other hij] at h'
        exact .inl h'

/-- only a mouse update changes the drag -/
theorem call_drag {c : Call} (hs : Sound d) (h : (d.call c).dragWindow = some i) :
    if c.presses d then (d.windows i).state = .normal else d.dragWindow = some i := by
  have hsame : (d.call c).pointer = d.pointer → d.dragWindow = some i := fun hp =>
    (congrArg (fun p => p.2.1) hp).symm.trans h
  have hopens : ∀ {x y wd ht : Int}, Opens x y wd ht d (d.call c) → d.dragWindow = some i := by
    rintro x y wd ht (⟨-, heq⟩ | ⟨j, ho⟩)
    · rw [heq] at h
      exact h
    · exact hsame ho.pointer
  cases c with
  | createWindow x y wd ht title => exact hopens (create_opens d x y wd ht title)
  | termOpen title => exact hopens (termOpen_opens d title)
  | explOpen x y wd ht title => exact hopens (explOpen_opens d x y wd ht title)
  | focusWindow winId => exact hsame (focus_touched d winId).pointer
  | handleClick x y => exact hsame (click_touched d x y).pointer
  | updateMouse dx dy buttons => exact mouse_drag hs h
  | closeWindow winId =>
    have h' : (d.wmCloseWindow winId).dragWindow = some i := h
    show d.dragWindow = some i
    cases hj : slot? winId with
    | none =>
      unfold Desktop.wmCloseWindow at h'
      rw [hj] at h'
      exact h'
    | some j => exact hsame (close_closed hj).pointer

theorem Dated.Fit.opened {m : Dated} (c : Call) (hi : (m.desk.windows i).state = .normal) :
    (m.call c).opened i = m.opened i := by
  show (if Opening m.desk (m.desk.call c) i then m.now else m.opened i) = _
  refine if_neg fun ho => ?_
  rw [ho.1] at hi
  exact nomatch hi

/-- **One call** that spares the window that is dragged. -/
theorem Dated.Fit.call {m : Dated} {c : Call} (h : m.Fit) (hc : c.Spares m.desk) :
    (m.call c).Fit ∧ Follows m c (m.call c) := by
  have hdrag : ∀ i, (m.desk.call c).dragWindow = some i →
      (m.call c).opened i < (m.call c).began := by
    intro i hi
    have hd := call_drag h.sound hi
    show _ < if c.presses m.desk then m.now else m.began
    split at hd
    · rename_i hp
      rw [if_pos hp, Fit.opened c hd]
      exact h.past i hd
    · rename_i hp
      rw [if_neg hp, Fit.opened c (h.sound.drag i hd)]
      exact h.drag i hd
  refine ⟨⟨(call_sound_iff h.sound c).mpr hc, fun i hi => ?_, hdrag⟩, fun hm i hne => ?_⟩
  · rcases call_normal hi with hn | ho
    · rw [Fit.opened c hn]
      exact Nat.lt_succ_of_lt (h.past i hn)
    · show (if Opening m.desk (m.desk.call c) i then m.now else m.opened i) < m.now + 1
      rw [if_pos ho]
      exact Nat.lt_succ_self _
  · cases c with
    | updateMouse dx dy buttons => exact Nat.lt_asymm (hdrag i (mouse_moves hne))
    | _ => exact nomatch hm

/-- the desktop as `wm_init` leaves it -/
def Dated.start (d : Desktop) : Dated := ⟨d.wmInit, 0, fun _ => 0, 0⟩

theorem Dated.Fit.start (d : Desktop) : (Dated.start d).Fit :=
  ⟨⟨nofun, nofun, nofun, nofun⟩, nofun, nofun⟩

/-- **No handle dangles, and nothing new is dragged**, exactly if no call closes the window that is
dragged. -/
theorem handles_iff (d : Desktop) (cs : List Call) :
    Always (fun m c m' => m' = m.call c) (fun m c m' => Sound m'.desk ∧ Follows m c m')
        (Dated.start d) cs ↔
      Always (fun m c m' => m' = m.call c) (fun m c _ => c.Spares m.desk) (Dated.start d) cs := by
  refine Always.iff_of_inv (I := Dated.Fit) ?_ ?_ cs _ (Dated.Fit.start d)
  · rintro m c _ h rfl
    exact ⟨fun hp => (call_sound_iff h.sound c).mp hp.1, fun hc => ⟨(h.call hc).1.sound, (h.call hc).2⟩⟩
  · rintro m c _ h rfl hc
    exact (h.call hc).1

/-- the memory of the desktop before `wm_init` -/
def blankDesktop : Desktop where
  windows := fun _ => ⟨0, 0, 0, 0, .closed, 0, []⟩
  activeWindow := none
  mouseX := 0
  mouseY := 0
  mouseButtons := 0
  dragWindow := none
  dragOffsetX := 0
  dragOffsetY := 0
  running := 0
  term := ⟨fun _ _ => 0, 0, 0, none⟩
  expl := ⟨none, .list, 0, 0, 0, 0, 0, []⟩

/-- a window is held by its title bar and closed, another one gets its slot, and the mouse moves -/
def closedInDrag : List Call :=
  [.createWindow 20 20 120 80 [], .updateMouse (-360) (-275) 0, .updateMouse 0 0 1, .closeWindow 0,
    .createWindow 300 300 100 100 [], .updateMouse 10 10 1]

/-- **The handle of the drag dangles, and the new window is dragged.** -/
theorem handles_fails :
    ¬ Always (fun m c m' => m' = m.call c) (fun _ _ m' => Sound m'.desk)
        (Dated.start blankDesktop) closedInDrag ∧
      ¬ Always (fun m c m' => m' = m.call c) Follows (Dated.start blankDesktop) closedInDrag := by
  constructor
  · intro h
    obtain ⟨-, h⟩ := h _ rfl
    obtain ⟨-, h⟩ := h _ rfl
    obtain ⟨-, h⟩ := h _ rfl
    obtain ⟨hs, -⟩ := h _ rfl
    have hn := hs.drag 0 (by decide +kernel)
    exact absurd hn (by decide +kernel)
  · intro h
    obtain ⟨-, h⟩ := h _ rfl
    obtain ⟨-, h⟩ := h _ rfl
    obtain ⟨-, h⟩ := h _ rfl
    obtain ⟨-, h⟩ := h _ rfl
    obtain ⟨-, h⟩ := h _ rfl
    obtain ⟨hf, -⟩ := h _ rfl
    exact absurd (hf rfl 0 (by decide +kernel)) (by decide +kernel)

end Noxis.Wm
