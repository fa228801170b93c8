import Mathlib.Data.List.Pairwise
import Noxis.Wm.OnScreen

/-!
# A drag starts from a title bar

* `Layout`         what the calls keep: the windows are a stack, and each is where the code that keeps
                   it on the screen leaves it
* `Layout.run`     every desktop that calls make is such a layout
* `Press.Ok`       a press of the left button takes hold of the topmost window under the pointer, by
                   its title bar, and moves no window
* `press_iff`      **it does so exactly if a press on the bare desktop is below the title bar of the
                   active window**
-/

namespace Noxis.Wm

variable {d d' : Desktop} {i j : Slot} {st : List Slot} {w : Window}
  {pos size screen x y wd ht : Int}

/-! ## layouts -/

/-- a size of a window -/
def IsSize (n : Int) : Prop := 0 ≤ n ∧ n < 2 ^ 31

/-- the window is not moved by the code that keeps it on the screen -/
structure Window.Placed (w : Window) : Prop where
  x : IsInt w.x
  y : IsInt w.y
  width : IsSize w.width
  height : IsSize w.height
  stillX : clamp w.x w.width gfxFbW = w.x
  stillY : clamp w.y w.height gfxFbH = w.y

def Placed (ws : Slot → Window) : Prop := ∀ i, (ws i).state = .normal → (ws i).Placed

structure Layout (d : Desktop) : Prop where
  stack : ∃ st, Layered d st
  placed : Placed d.windows

theorem clamp_nonneg (h : 0 ≤ pos) : clamp pos size screen =
    if int (pos + size) > screen then int (screen - size) else pos := by
  have hpos : (if pos < 0 then 0 else pos) = pos := if_neg (by omega)
  unfold clamp
  rw [hpos]

theorem clamp_neg (h : pos < 0) : clamp pos size screen = clamp 0 size screen := by
  have hpos : (if pos < 0 then 0 else pos) = 0 := if_pos h
  rw [clamp_nonneg (le_refl 0)]
  unfold clamp
  rw [hpos]

theorem clamp_again (h0 : 0 ≤ pos) (hpos : IsInt pos) (hsize : IsSize size) (hs : IsSize screen) :
    IsInt (clamp pos size screen) ∧
      clamp (clamp pos size screen) size screen = clamp pos size screen := by
  obtain ⟨hz0, hz1⟩ := hsize
  obtain ⟨hs0, hs1⟩ := hs
  have hdiff : int (screen - size) = screen - size := int_of_range (by omega) (by omega)
  rw [clamp_nonneg h0, hdiff]
  by_cases hfar : int (pos + size) > screen
  · rw [if_pos hfar]
    refine ⟨⟨by omega, by omega⟩, ?_⟩
    by_cases hwide : screen - size < 0
    · -- a window that is wider than the screen
      have hedge : int (0 + size) = size := by
        rw [Int.zero_add]
        exact int_of_range (by omega) hz1
      rw [clamp_neg hwide, clamp_nonneg (le_refl 0), hedge, if_pos (by omega), hdiff]
    · have hedge : int (screen - size + size) = screen := by
        rw [Int.sub_add_cancel]
        exact int_of_range (by omega) (by omega)
      rw [clamp_nonneg (by omega), hedge, if_neg (by omega)]
  · rw [if_neg hfar]
    refine ⟨hpos, ?_⟩
    rw [clamp_nonneg h0, if_neg hfar]

/-- **What is clamped once stays.** -/
theorem clamp_idem (hpos : IsInt pos) (hsize : IsSize size) (hs : IsSize screen) :
    IsInt (clamp pos size screen) ∧
      clamp (clamp pos size screen) size screen = clamp pos size screen := by
  by_cases hneg : pos < 0
  · rw [clamp_neg hneg]
    exact clamp_again (le_refl 0) (by unfold IsInt; decide) hsize hs
  · exact clamp_again (by omega) hpos hsize hs

theorem isSize_screen : IsSize gfxFbW ∧ IsSize gfxFbH := by
  unfold IsSize
  decide

/-- a window whose place comes out of the code that keeps it on the screen -/
theorem placed_clamp (hx : IsInt x) (hy : IsInt y) (hw : IsSize w.width) (hh : IsSize w.height)
    (hwx : w.x = clamp x w.width gfxFbW) (hwy : w.y = clamp y w.height gfxFbH) : w.Placed := by
  obtain ⟨hxi, hxs⟩ := clamp_idem hx hw isSize_screen.1
  obtain ⟨hyi, hys⟩ := clamp_idem hy hh isSize_screen.2
  rw [← hwx] at hxi hxs
  rw [← hwy] at hyi hys
  exact ⟨hxi, hyi, hw, hh, hxs, hys⟩

theorem Window.Placed.of_eq {w' : Window} (h : w.Placed)
    (hw : w' = { w with zOrder := w'.zOrder, title := w'.title }) : w'.Placed := by
  rw [hw]
  exact ⟨h.x, h.y, h.width, h.height, h.stillX, h.stillY⟩

/-! ## the calls keep a layout -/

section
variable {ws ws' : Slot → Window}

theorem Placed.congr (h : Placed ws) (hw : SamePlaces ws ws') : Placed ws' := by
  intro i hi
  rw [hw.state] at hi
  exact (h i hi).of_eq (hw i)

/-- one window is placed anew -/
theorem Placed.update (h : Placed ws) (hw : w.state = .normal → w.Placed) :
    Placed (Function.update ws i w) := by
  intro j hj
  by_cases hji : j = i
  · subst hji
    rw [Function.update_self] at hj ⊢
    exact hw hj
  · rw [Function.update_of_ne hji] at hj ⊢
    exact h j hj

end

theorem IsInt.int (n : Int) : IsInt (int n) := by
  have h0 : (0 : Int) < (2 ^ 32 : Nat) := by decide
  have hle := Int.le_bmod (x := n) (m := 2 ^ 32) (by decide)
  have hlt := Int.bmod_lt (x := n) (m := 2 ^ 32) (by decide)
  unfold IsInt Wm.int
  omega

/-- the arguments of a call are C integers -/
def Call.Ints : Call → Prop
  | .createWindow x y w h _ => (IsInt x ∧ IsInt y) ∧ IsInt w ∧ IsInt h
  | .explOpen x y w h _ => (IsInt x ∧ IsInt y) ∧ IsInt w ∧ IsInt h
  | _ => True

theorem isSize_atLeast {least : Int} (hl : IsSize least) (hs : IsInt size) :
    IsSize (atLeast least size) := by
  obtain ⟨hl0, hl1⟩ := hl
  obtain ⟨hs0, hs1⟩ := hs
  unfold IsSize atLeast
  split <;> omega

theorem opened_placed (w : Window) (hx : IsInt x) (hy : IsInt y) (hw : IsInt wd) (hh : IsInt ht) :
    (w.opened x y wd ht).Placed := by
  rw [opened_eq]
  exact placed_clamp hx hy (isSize_atLeast (by unfold IsSize; decide) hw)
    (isSize_atLeast (by unfold IsSize; decide) hh) rfl rfl

theorem Placed.opens (h : Placed d.windows) (ho : Opens x y wd ht d d') (hx : IsInt x) (hy : IsInt y)
    (hw : IsInt wd) (hh : IsInt ht) : Placed d'.windows := by
  rcases ho with ⟨-, rfl⟩ | ⟨i, ho⟩
  · exact h
  · exact (h.update fun _ => opened_placed _ hx hy hw hh).congr ho.places

theorem Placed.close (h : Placed d.windows) (hc : Closed i d d') : Placed d'.windows :=
  (h.update (w := { d.windows i with state := .closed }) nofun).congr hc.places

/-- the window that is dragged is clamped again -/
theorem Placed.drag (h : Placed d.windows) : Placed d.drag.windows := by
  cases hi : d.dragWindow with
  | none =>
    rw [drag_none hi]
    exact h
  | some i =>
    rw [drag_window hi]
    refine h.update fun hn => ?_
    exact placed_clamp (IsInt.int _) (IsInt.int _) (h i hn).width (h i hn).height rfl rfl

theorem startDrag_windows (d : Desktop) : d.startDrag.windows = d.windows := by
  rcases startDrag_cases d with heq | ⟨i, -, heq⟩
  · rw [heq]
  · rw [heq]

theorem Placed.pressed (h : Placed d.windows) (dx dy buttons : Int) :
    Placed (d.pressed dx dy buttons).windows := by
  have hmove : Placed (d.moveMouse dx dy).windows := h
  unfold Desktop.pressed
  simp only
  split_ifs
  · rw [startDrag_windows]
    exact hmove.congr (click_touched _ _ _).places
  · exact hmove

theorem Placed.mouse (h : Placed d.windows) (dx dy buttons : Int) :
    Placed (d.wmUpdateMouse dx dy buttons).windows := by
  by_cases hb : left buttons
  · rw [mouse_held hb]
    exact (h.pressed dx dy buttons).drag
  · rw [mouse_free hb]
    exact h

theorem Placed.call (h : Placed d.windows) (c : Call) (hc : c.Ints) : Placed (d.call c).windows := by
  cases c with
  | createWindow x y wd ht title =>
    obtain ⟨⟨hx, hy⟩, hw, hh⟩ := hc
    exact h.opens (create_opens d x y wd ht title) hx hy hw hh
  | explOpen x y wd ht title =>
    obtain ⟨⟨hx, hy⟩, hw, hh⟩ := hc
    exact h.opens (explOpen_opens d x y wd ht title) hx hy hw hh
  | termOpen title =>
    have hint : IsInt wmTermWinX ∧ IsInt wmTermWinY ∧ IsInt wmTermWinW ∧ IsInt wmTermWinH := by
      unfold IsInt
      decide
    exact h.opens (termOpen_opens d title) hint.1 hint.2.1 hint.2.2.1 hint.2.2.2
  | focusWindow winId => exact h.congr (focus_touched d winId).places
  | handleClick x y => exact h.congr (click_touched d x y).places
  | updateMouse dx dy buttons => exact h.mouse dx dy buttons
  | closeWindow winId =>
    show Placed (d.wmCloseWindow winId).windows
    cases hi : slot? winId with
    | none =>
      unfold Desktop.wmCloseWindow
      rw [hi]
      exact h
    | some i => exact h.close (close_closed hi)

theorem Layout.init (d : Desktop) : Layout d.wmInit := ⟨⟨[], .init d⟩, nofun⟩

/-- **Every desktop that calls make is a layout.** -/
theorem Layout.run (h : Layout d) (cs : List Call) (hc : ∀ c ∈ cs, c.Ints) :
    Layout (cs.foldl Desktop.call d) := by
  induction cs generalizing d with
  | nil => exact h
  | cons c cs ih =>
    obtain ⟨st, hst⟩ := h.stack
    have hnext : Layout (d.call c) :=
      ⟨⟨c.effect d st, hst.call c⟩, Placed.call h.placed c (hc c List.mem_cons_self)⟩
    exact ih hnext fun c' hc' => hc c' (List.mem_cons_of_mem c hc')

/-! ## a press of the left button -/

/-- the left button goes down -/
structure Press where
  desk : Desktop
  layout : Layout desk
  dx : Int
  dy : Int
  buttons : Int
  down : left buttons = true
  up : left desk.mouseButtons = false

/-- the desktop with the pointer where the button goes down -/
def Press.at (p : Press) : Desktop := p.desk.moveMouse p.dx p.dy

def Press.px (p : Press) : Int := p.at.mouseX
def Press.py (p : Press) : Int := p.at.mouseY

def Press.after (p : Press) : Desktop := p.desk.wmUpdateMouse p.dx p.dy p.buttons

/-- the NORMAL window with the largest number that contains the point -/
structure Desktop.Topmost (d : Desktop) (x y : Int) (i : Slot) : Prop where
  normal : (d.windows i).state = .normal
  contains : (d.windows i).contains x y = true
  top : ∀ j, j ≠ i → (d.windows j).state = .normal → (d.windows j).contains x y = true →
    d.zOrder j < d.zOrder i

/-- the point is on the title bar -/
structure Window.OnTitle (w : Window) (x y : Int) : Prop where
  left : w.x ≤ x
  right : x < w.x + w.width
  top : w.y ≤ y
  bottom : y < w.y + wmTitleHeight

/-- **The property.** -/
structure Press.Ok (p : Press) : Prop where
  title : ∀ i, p.after.dragWindow = some i →
    p.desk.Topmost p.px p.py i ∧ (p.desk.windows i).OnTitle p.px p.py
  still : ∀ i, (p.after.windows i).x = (p.desk.windows i).x ∧
    (p.after.windows i).y = (p.desk.windows i).y

/-- a press on the bare desktop is below the title bar of the active window, if there is one -/
def Press.Clear (p : Press) : Prop :=
  (∀ i, (p.desk.windows i).state = .normal → ¬ (p.desk.windows i).contains p.px p.py = true) →
    ∀ i, p.desk.activeWindow = some i → int ((p.desk.windows i).y + wmTitleHeight) ≤ p.py

theorem contains_iff : w.contains x y = true ↔
    (w.x ≤ x ∧ x < int (w.x + w.width)) ∧ w.y ≤ y ∧ y < int (w.y + w.height) := by
  unfold Window.contains
  rw [decide_eq_true_iff, and_assoc]

/-- the window under the point, or none is there -/
theorem Layered.hit_cases (h : Layered d st) (x y : Int) :
    (d.wmHitTest x y = none ∧
      ∀ i, (d.windows i).state = .normal → ¬ (d.windows i).contains x y = true) ∨
    ∃ i, d.wmHitTest x y = some i ∧ d.Topmost x y i := by
  obtain ⟨-, hall, hres⟩ := hitFold_spec (d := d) (x := x) (y := y) slots (none, -1)
  rcases hres with hres | ⟨i, -, hi, hc, hres⟩
  · refine .inl ⟨congrArg Prod.fst hres, fun i hi hc => ?_⟩
    have hle := hall i (mem_slots i) (isNormal_iff.mpr hi) hc
    have hpos := h.zOrder_pos ((h.mem i).mpr hi)
    rw [hres] at hle
    change d.zOrder i ≤ -1 at hle
    omega
  · refine .inr ⟨i, congrArg Prod.fst hres, isNormal_iff.mp hi, hc, fun j hji hj hcj => ?_⟩
    have hle := hall j (mem_slots j) (isNormal_iff.mpr hj) hcj
    rw [hres] at hle
    -- no two windows have one number
    have hsymm : Std.Symm fun a b : Slot => d.zOrder a ≠ d.zOrder b := ⟨fun _ _ => Ne.symm⟩
    have hdis : st.Pairwise fun a b => d.zOrder a ≠ d.zOrder b :=
      h.numbered.pairwise.imp fun hlt => ne_of_lt hlt
    have hne := hdis.forall ((h.mem j).mpr hj) ((h.mem i).mpr (isNormal_iff.mp hi)) hji
    exact lt_of_le_of_ne hle hne

theorem click_active (hit : d.wmHitTest x y = some i) (hi : (d.windows i).state = .normal) :
    (d.wmHandleClick x y).activeWindow = some i := by
  have hfocus : (d.wmFocusWindow i.val).activeWindow = some i := by
    unfold Desktop.wmFocusWindow
    rw [slot?_val]
    simp only
    rw [if_pos (isNormal_iff.mpr hi)]
  unfold Desktop.wmHandleClick
  rw [hit]
  simp only
  split_ifs
  · rw [← hfocus]
    generalize d.wmFocusWindow i.val = d'
    unfold Desktop.selectRow Desktop.wmExplScrollToCursor
    simp only
    split_ifs <;> rfl
  · exact hfocus

/-- where a press takes hold of a window, the window stays -/
theorem grab_still {px : Int} (hx : IsInt x) (hc : clamp x wd screen = x) :
    clamp (int (px - int (px - x))) wd screen = x := by
  have hback : int (px - int (px - x)) = x := by
    have hbmod : int (px - int (px - x)) = int (px - (px - x)) := Int.sub_bmod_bmod ..
    rw [hbmod, Int.sub_sub_self]
    exact int_of_range hx.1 hx.2
  rw [hback, hc]

/-! ## the two ways of a press -/

/-- the active window is held, and follows the mouse -/
theorem hold_some (ha : d.activeWindow = some i)
    (ht : d.mouseY < int ((d.windows i).y + wmTitleHeight)) :
    d.startDrag.drag.dragWindow = some i ∧ d.startDrag.drag.windows =
      Function.update d.windows i { d.windows i with
        x := clamp (int (d.mouseX - int (d.mouseX - (d.windows i).x))) (d.windows i).width gfxFbW
        y := clamp (int (d.mouseY - int (d.mouseY - (d.windows i).y))) (d.windows i).height
          gfxFbH } := by
  have heq : d.startDrag = { d with
      dragWindow := some i
      dragOffsetX := int (d.mouseX - (d.windows i).x)
      dragOffsetY := int (d.mouseY - (d.windows i).y) } := by
    unfold Desktop.startDrag
    rw [ha]
    exact if_pos ht
  rw [heq]
  exact ⟨rfl, rfl⟩

theorem hold_none (h : ∀ i, d.activeWindow = some i →
    ¬ d.mouseY < int ((d.windows i).y + wmTitleHeight)) :
    d.startDrag.drag.dragWindow = none ∧ d.startDrag.drag.windows = d.windows := by
  have heq : d.startDrag = { d with dragWindow := none } := by
    unfold Desktop.startDrag
    cases ha : d.activeWindow with
    | none => rfl
    | some i => exact if_neg (h i ha)
  rw [heq]
  exact ⟨rfl, rfl⟩

/-- the desktop when the click is done -/
def Press.clicked (p : Press) : Desktop := p.at.wmHandleClick p.px p.py

theorem Press.after_eq (p : Press) :
    p.after = { p.clicked.startDrag.drag with mouseButtons := p.buttons } := by
  have hpressed : p.desk.pressed p.dx p.dy p.buttons = p.clicked.startDrag := by
    unfold Desktop.pressed
    have hup : ¬ left p.desk.mouseButtons = true := by
      rw [p.up]
      exact Bool.false_ne_true
    exact if_pos ⟨p.down, hup⟩
  unfold Press.after
  rw [mouse_held p.down, hpressed]

/-- the click moves no window -/
theorem Press.clicked_window (p : Press) (i : Slot) :
    (p.clicked.windows i).x = (p.desk.windows i).x ∧ (p.clicked.windows i).y = (p.desk.windows i).y ∧
      (p.clicked.windows i).width = (p.desk.windows i).width ∧
      (p.clicked.windows i).height = (p.desk.windows i).height := by
  have hplaces : SamePlaces p.desk.windows p.clicked.windows := (click_touched p.at p.px p.py).places
  rw [hplaces i]
  exact ⟨rfl, rfl, rfl, rfl⟩

theorem Press.clicked_mouse (p : Press) : p.clicked.mouseX = p.px ∧ p.clicked.mouseY = p.py := by
  have hp := (click_touched p.at p.px p.py).pointer
  exact ⟨congrArg (fun q => q.1.1) hp, congrArg (fun q => q.1.2.1) hp⟩

/-- nothing is held -/
theorem Press.ok_of_none (p : Press) (h : ∀ i, p.clicked.activeWindow = some i →
    ¬ p.py < int ((p.desk.windows i).y + wmTitleHeight)) : p.Ok := by
  obtain ⟨hdrag, hwindows⟩ := hold_none (d := p.clicked) (by
    intro i hi
    rw [p.clicked_mouse.2, (p.clicked_window i).2.1]
    exact h i hi)
  have hafter := p.after_eq
  refine ⟨fun i hi => ?_, fun i => ?_⟩
  · rw [hafter] at hi
    change p.clicked.startDrag.drag.dragWindow = some i at hi
    rw [hdrag] at hi
    cases hi
  · rw [hafter]
    show (p.clicked.startDrag.drag.windows i).x = _ ∧ (p.clicked.startDrag.drag.windows i).y = _
    rw [hwindows]
    exact ⟨(p.clicked_window i).1, (p.clicked_window i).2.1⟩

/-- the sums of the code do not overflow there -/
theorem Press.onTitle (p : Press) (hw : w.Placed) (hc : w.contains p.px p.py = true)
    (ht : p.py < int (w.y + wmTitleHeight)) : w.OnTitle p.px p.py := by
  obtain ⟨⟨hleft, hright⟩, htop, -⟩ := contains_iff.mp hc
  obtain ⟨hx0, hx1⟩ := hw.x
  obtain ⟨hy0, hy1⟩ := hw.y
  obtain ⟨hw0, hw1⟩ := hw.width
  obtain ⟨⟨hpx0, hpx1⟩, hpy0, hpy1⟩ : (0 ≤ p.px ∧ p.px < gfxFbW) ∧ 0 ≤ p.py ∧ p.py < gfxFbH :=
    moveMouse_spec p.desk p.dx p.dy
  unfold gfxFbW at hpx1
  unfold gfxFbH at hpy1
  unfold wmTitleHeight at ht
  refine ⟨hleft, ?_, htop, ?_⟩
  · by_cases hedge : w.x + w.width < 2 ^ 31
    · rwa [int_of_range (by omega) hedge] at hright
    · omega
  · unfold wmTitleHeight
    rwa [int_of_range (by omega) (by omega)] at ht

/-- the topmost window at the point is held, and stays where it is -/
theorem Press.ok_of_hit (p : Press) (hit : p.at.wmHitTest p.px p.py = some i)
    (ht : p.desk.Topmost p.px p.py i) : p.Ok := by
  have hactive : p.clicked.activeWindow = some i := click_active hit ht.normal
  obtain ⟨hx, hy, hw, hh⟩ := p.clicked_window i
  obtain ⟨hmx, hmy⟩ := p.clicked_mouse
  by_cases htitle : p.py < int ((p.desk.windows i).y + wmTitleHeight)
  · obtain ⟨hdrag, hwindows⟩ := hold_some hactive (by rw [hmy, hy]; exact htitle)
    have hplaced := p.layout.placed i ht.normal
    rw [hmx, hmy, hx, hy, hw, hh, grab_still hplaced.x hplaced.stillX,
      grab_still hplaced.y hplaced.stillY] at hwindows
    have hafter := p.after_eq
    refine ⟨fun j hj => ?_, fun j => ?_⟩
    · rw [hafter] at hj
      change p.clicked.startDrag.drag.dragWindow = some j at hj
      rw [hdrag] at hj
      cases hj
      exact ⟨ht, p.onTitle hplaced ht.contains htitle⟩
    · rw [hafter]
      show (p.clicked.startDrag.drag.windows j).x = _ ∧ (p.clicked.startDrag.drag.windows j).y = _
      rw [hwindows]
      by_cases hji : j = i
      · rw [hji, Function.update_self]
        exact ⟨rfl, rfl⟩
      · rw [Function.update_of_ne hji]
        exact ⟨(p.clicked_window j).1, (p.clicked_window j).2.1⟩
  · refine p.ok_of_none fun j hj => ?_
    rw [hactive] at hj
    cases hj
    exact htitle

/-- **A press takes hold of title bars alone** if and only if no title bar of the active window is
above a press on the bare desktop. -/
theorem press_iff (p : Press) : p.Ok ↔ p.Clear := by
  obtain ⟨st, hst⟩ := p.layout.stack
  rcases hst.hit_cases p.px p.py with ⟨hit, hbare⟩ | ⟨i, hit, ht⟩
  · -- the bare desktop: the active window stays active
    have hclicked : p.clicked = p.at := by
      have hhit : p.at.wmHitTest p.px p.py = none := hit
      unfold Press.clicked Desktop.wmHandleClick
      rw [hhit]
    constructor
    · intro hok _ i hi
      by_contra habove
      have hactive : p.clicked.activeWindow = some i := by
        rw [hclicked]
        exact hi
      have hhold := hold_some hactive (by rw [p.clicked_mouse.2, (p.clicked_window i).2.1]; omega)
      have hdrag : p.after.dragWindow = some i := by
        rw [p.after_eq]
        exact hhold.1
      obtain ⟨htop, -⟩ := hok.title i hdrag
      exact hbare i htop.normal htop.contains
    · intro hclear
      refine p.ok_of_none fun i hi => ?_
      rw [hclicked] at hi
      exact Int.not_lt.mpr (hclear hbare i hi)
  · exact ⟨fun _ hbare => absurd ht.contains (hbare i ht.normal), fun _ => p.ok_of_hit hit ht⟩

/-- a desktop with the terminal open, the pointer brought to the upper left corner -/
def cornerDesk : Desktop :=
  [.termOpen [], .updateMouse (-400) (-300) 0].foldl Desktop.call blankDesktop.wmInit

theorem cornerDesk_up : left cornerDesk.mouseButtons = false := by decide +kernel

def cornerPress : Press where
  desk := cornerDesk
  layout := (Layout.init blankDesktop).run _ fun c hc => by
    simp only [List.mem_cons, List.not_mem_nil, or_false] at hc
    rcases hc with rfl | rfl <;> exact trivial
  dx := 0
  dy := 0
  buttons := 1
  down := by decide
  up := cornerDesk_up

/-- **A press on the bare desktop drags the terminal.** -/
theorem press_fails : ¬ ∀ p : Press, p.Ok := by
  intro hall
  have hclear := (press_iff cornerPress).mp (hall cornerPress)
  have hbare : ∀ i, (cornerDesk.windows i).state = .normal →
      ¬ (cornerDesk.windows i).contains cornerPress.px cornerPress.py = true := by
    decide +kernel
  exact absurd (hclear hbare 0 (by decide +kernel)) (by decide +kernel)

end Noxis.Wm
