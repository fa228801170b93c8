import Noxis.Wm.Handles

/-!
# Windows and the pointer stay on the screen

* `OnScreen`          every window and the pointer lie within the screen
* `clamp_spec`        what the clamping code does, as long as its sum does not overflow
* `Call.Valid`        sizes that fit the screen, coordinates that are C integers
* `Call.Fits`         the right and the lower edge of a new window are C integers too
* `onScreen_iff`      all stays on the screen exactly if every new window fits
* `onScreen_fails`    a window at the largest coordinate
-/

namespace Noxis.Wm
open Run

variable {d d' : Desktop} {i j : Slot} {pos size screen x y wd ht : Int} {w : Window}

/-! ## clamping -/

theorem int_of_range {n : Int} (h1 : -2 ^ 31 ≤ n) (h2 : n < 2 ^ 31) : int n = n := by
  unfold int
  exact Int.bmod_eq_of_le (by omega) (by omega)

/-- as long as the edge is a C integer, it is kept on the screen -/
theorem clamp_spec (h0 : 0 ≤ size) (hs : size ≤ screen) (hmax : screen < 2 ^ 31)
    (hpos : pos + size < 2 ^ 31) :
    0 ≤ clamp pos size screen ∧ clamp pos size screen + size ≤ screen := by
  have hscreen : int (screen - size) = screen - size := int_of_range (by omega) (by omega)
  have hedge : int ((if pos < 0 then 0 else pos) + size) = (if pos < 0 then 0 else pos) + size :=
    int_of_range (by split <;> omega) (by split <;> omega)
  unfold clamp
  simp only
  rw [hscreen, hedge]
  split_ifs <;> omega

/-- an edge that is too far becomes negative, and the coordinate stays -/
theorem clamp_far (hs : size ≤ screen) (hmax : screen < 2 ^ 31)
    (hpos : pos < 2 ^ 31) (hfar : 2 ^ 31 ≤ pos + size) : clamp pos size screen = pos := by
  have hneg : ¬ pos < 0 := by omega
  have hedge : int (pos + size) = pos + size - 2 ^ 32 := by
    have hsub : int (pos + size - 2 ^ 32) = int (pos + size) := by
      exact_mod_cast Int.sub_bmod_right (pos + size) (2 ^ 32)
    rw [← hsub]
    exact int_of_range (by omega) (by omega)
  unfold clamp
  simp only [if_neg hneg]
  rw [hedge, if_neg (by omega)]

/-! ## the invariant -/

/-- **a window lies within the screen** -/
structure Window.Inside (w : Window) : Prop where
  x : 0 ≤ w.x
  right : w.x + w.width ≤ gfxFbW
  y : 0 ≤ w.y
  bottom : w.y + w.height ≤ gfxFbH

structure OnScreen (d : Desktop) : Prop where
  windows : ∀ i, (d.windows i).state = .normal → (d.windows i).Inside
  mouseX : 0 ≤ d.mouseX ∧ d.mouseX < gfxFbW
  mouseY : 0 ≤ d.mouseY ∧ d.mouseY < gfxFbH

/-- and the code's differences are small; the window that is dragged may be closed -/
structure Steady (d : Desktop) : Prop extends OnScreen d where
  size : ∀ i, (d.windows i).state = .normal →
    0 ≤ (d.windows i).width ∧ 0 ≤ (d.windows i).height
  active : ∀ i, d.activeWindow = some i → (d.windows i).state = .normal
  offset : d.dragWindow ≠ none → (-gfxFbW ≤ d.dragOffsetX ∧ d.dragOffsetX ≤ gfxFbW) ∧
    (-gfxFbH ≤ d.dragOffsetY ∧ d.dragOffsetY ≤ gfxFbH)

/-- the windows are where they were, and so is the pointer -/
theorem Steady.congr (h : Steady d) (hw : ∀ i, (d'.windows i).state = .normal →
      (d'.windows i).Inside ∧ 0 ≤ (d'.windows i).width ∧ 0 ≤ (d'.windows i).height)
    (ha : ∀ i, d'.activeWindow = some i → (d'.windows i).state = .normal)
    (hp : d'.pointer = d.pointer) : Steady d' := by
  have hx : d'.mouseX = d.mouseX := congrArg (fun p => p.1.1) hp
  have hy : d'.mouseY = d.mouseY := congrArg (fun p => p.1.2.1) hp
  have hd : d'.dragWindow = d.dragWindow := congrArg (fun p => p.2.1) hp
  have hox : d'.dragOffsetX = d.dragOffsetX := congrArg (fun p => p.2.2.1) hp
  have hoy : d'.dragOffsetY = d.dragOffsetY := congrArg (fun p => p.2.2.2) hp
  refine ⟨⟨fun i hi => (hw i hi).1, ?_, ?_⟩, fun i hi => (hw i hi).2, ha, ?_⟩
  · rw [hx]
    exact h.mouseX
  · rw [hy]
    exact h.mouseY
  · rw [hd, hox, hoy]
    exact h.offset

theorem Steady.window (h : Steady d) (hi : (d.windows i).state = .normal) :
    (d.windows i).Inside ∧ 0 ≤ (d.windows i).width ∧ 0 ≤ (d.windows i).height :=
  ⟨h.windows i hi, h.size i hi⟩

/-- the window differs in its number and title alone -/
theorem Steady.same (h : Steady d) (hs : (d.windows i).state = .normal)
    (hw : w = { d.windows i with zOrder := w.zOrder, title := w.title }) :
    w.Inside ∧ 0 ≤ w.width ∧ 0 ≤ w.height := by
  obtain ⟨⟨h1, h2, h3, h4⟩, h5⟩ := h.window hs
  rw [hw]
  exact ⟨⟨h1, h2, h3, h4⟩, h5⟩

theorem Touched.steady (ht : Touched d d') (h : Steady d) : Steady d' := by
  refine h.congr (fun i hi => ?_) (fun i hi => ?_) ht.pointer
  · rw [ht.places.state] at hi
    exact h.same hi (ht.places i)
  · rw [ht.places.state]
    rcases ht.active with ha | ⟨j, ha, hj⟩
    · exact h.active i (ha ▸ hi)
    · rw [ha] at hi
      cases hi
      exact hj

theorem Closed.steady (hc : Closed i d d') (h : Steady d) : Steady d' := by
  refine h.congr (fun j hj => ?_) (fun j hj => ?_) hc.pointer
  · by_cases hji : j = i
    · rw [hji, hc.state] at hj
      exact nomatch hj
    · have hw := hc.places j
      rw [Function.update_of_ne hji] at hw
      rw [hc.other hji] at hj
      exact h.same hj hw
  · obtain ⟨ha, hji⟩ := hc.active j hj
    rw [hc.other hji]
    exact h.active j ha

/-! ## a new window -/

/-- the size that a window gets -/
def atLeast (least size : Int) : Int := if size < least then least else size

theorem opened_eq (w : Window) (x y wd ht : Int) : w.opened x y wd ht = { w with
    x := clamp x (atLeast wmMinWidth wd) gfxFbW
    y := clamp y (atLeast wmMinHeight ht) gfxFbH
    width := atLeast wmMinWidth wd
    height := atLeast wmMinHeight ht
    state := .normal } := rfl

/-- a coordinate is a C integer -/
def IsInt (n : Int) : Prop := -2 ^ 31 ≤ n ∧ n < 2 ^ 31

/-- the edges of the window at the place that is asked for -/
def EdgesFit (x y wd ht : Int) : Prop :=
  x + atLeast wmMinWidth wd < 2 ^ 31 ∧ y + atLeast wmMinHeight ht < 2 ^ 31

theorem atLeast_spec {least size screen : Int} (h : size ≤ screen) (hl : least ≤ screen)
    (h0 : 0 ≤ least) : 0 ≤ atLeast least size ∧ atLeast least size ≤ screen := by
  unfold atLeast
  split <;> omega

/-- **A new window is inside** exactly if its edges fit. -/
theorem opened_inside (w : Window) (hw : wd ≤ gfxFbW) (hh : ht ≤ gfxFbH) (hx : IsInt x)
    (hy : IsInt y) : (w.opened x y wd ht).Inside ↔ EdgesFit x y wd ht := by
  obtain ⟨hw0, hw1⟩ := atLeast_spec hw (show wmMinWidth ≤ gfxFbW by decide) (by decide)
  obtain ⟨hh0, hh1⟩ := atLeast_spec hh (show wmMinHeight ≤ gfxFbH by decide) (by decide)
  have hmaxw : gfxFbW < 2 ^ 31 := by decide
  have hmaxh : gfxFbH < 2 ^ 31 := by decide
  rw [opened_eq]
  constructor
  · rintro ⟨-, hright, -, hbottom⟩
    simp only at hright hbottom
    constructor
    · by_contra hfar
      rw [clamp_far hw1 hmaxw hx.2 (by omega)] at hright
      omega
    · by_contra hfar
      rw [clamp_far hh1 hmaxh hy.2 (by omega)] at hbottom
      omega
  · rintro ⟨hfx, hfy⟩
    obtain ⟨h1, h2⟩ := clamp_spec hw0 hw1 hmaxw hfx
    obtain ⟨h3, h4⟩ := clamp_spec hh0 hh1 hmaxh hfy
    exact ⟨h1, h2, h3, h4⟩

theorem Window.Inside.of_eq {w' : Window} (h : w.Inside)
    (hw : w' = { w with zOrder := w'.zOrder, title := w'.title }) : w'.Inside := by
  rw [hw]
  exact ⟨h.x, h.right, h.y, h.bottom⟩

theorem Opened.steady (ho : Opened x y wd ht i d d') (h : Steady d) (hw : wd ≤ gfxFbW)
    (hh : ht ≤ gfxFbH) (hin : ((d.windows i).opened x y wd ht).Inside) : Steady d' := by
  refine h.congr (fun j hj => ?_) (fun j hj => ?_) ho.pointer
  · by_cases hji : j = i
    · subst hji
      have hp := ho.places j
      rw [Function.update_self] at hp
      refine ⟨hin.of_eq hp, ?_⟩
      rw [hp]
      exact ⟨(atLeast_spec hw (show wmMinWidth ≤ gfxFbW by decide) (by decide)).1,
        (atLeast_spec hh (show wmMinHeight ≤ gfxFbH by decide) (by decide)).1⟩
    · have hp := ho.places j
      rw [Function.update_of_ne hji] at hp
      rw [(ho.other hji).1] at hj
      exact h.same hj hp
  · by_cases hji : j = i
    · rw [hji]
      exact ho.new
    · rw [(ho.other hji).1]
      rcases ho.active with ha | ha
      · exact h.active j (ha ▸ hj)
      · rw [ha] at hj
        exact absurd (Option.some.inj hj).symm hji

theorem Opened.inside (ho : Opened x y wd ht i d d') (h : OnScreen d') :
    ((d.windows i).opened x y wd ht).Inside := by
  obtain ⟨h1, h2, h3, h4⟩ := h.windows i ho.new
  have hp := ho.places i
  rw [Function.update_self] at hp
  rw [hp] at h1 h2 h3 h4
  exact ⟨h1, h2, h3, h4⟩

/-- a call that opens a window keeps all on the screen exactly if it fits -/
theorem Opens.steady_iff (ho : Opens x y wd ht d d') (h : Steady d) (hw : wd ≤ gfxFbW)
    (hh : ht ≤ gfxFbH) (hx : IsInt x) (hy : IsInt y) :
    (OnScreen d' ↔ (d.freeSlot ≠ none → EdgesFit x y wd ht)) ∧ (OnScreen d' → Steady d') := by
  rcases ho with ⟨hf, rfl⟩ | ⟨i, ho⟩
  · exact ⟨iff_of_true h.toOnScreen fun hn => absurd hf hn, fun _ => h⟩
  · have hin := opened_inside (d.windows i) hw hh hx hy
    refine ⟨⟨fun hs _ => hin.mp (ho.inside hs), fun hfit => ?_⟩, fun hs => ?_⟩
    · have hfree : d.freeSlot ≠ none := by
        rw [ho.free]
        exact nofun
      exact (ho.steady h hw hh (hin.mpr (hfit hfree))).toOnScreen
    · exact ho.steady h hw hh (ho.inside hs)

/-! ## the mouse -/

theorem moveMouse_spec (d : Desktop) (dx dy : Int) :
    (0 ≤ (d.moveMouse dx dy).mouseX ∧ (d.moveMouse dx dy).mouseX < gfxFbW) ∧
      0 ≤ (d.moveMouse dx dy).mouseY ∧ (d.moveMouse dx dy).mouseY < gfxFbH := by
  have hw : gfxFbW = 800 := rfl
  have hh : gfxFbH = 600 := rfl
  unfold Desktop.moveMouse
  simp only
  constructor
  · split_ifs <;> omega
  · split_ifs <;> omega

theorem Steady.moveMouse (h : Steady d) (dx dy : Int) : Steady (d.moveMouse dx dy) := by
  obtain ⟨hx, hy⟩ := moveMouse_spec d dx dy
  exact ⟨⟨h.windows, hx, hy⟩, h.size, h.active, h.offset⟩

theorem Steady.startDrag (h : Steady d) : Steady d.startDrag := by
  rcases startDrag_cases d with heq | ⟨i, hi, heq⟩
  · rw [heq]
    exact ⟨⟨h.windows, h.mouseX, h.mouseY⟩, h.size, h.active, fun hn => absurd rfl hn⟩
  · obtain ⟨⟨h1, h2, h3, h4⟩, h5, h6⟩ := h.window (h.active i hi)
    have hx := h.mouseX
    have hy := h.mouseY
    have hw : gfxFbW = 800 := rfl
    have hh : gfxFbH = 600 := rfl
    have hox : int (d.mouseX - (d.windows i).x) = d.mouseX - (d.windows i).x :=
      int_of_range (by omega) (by omega)
    have hoy : int (d.mouseY - (d.windows i).y) = d.mouseY - (d.windows i).y :=
      int_of_range (by omega) (by omega)
    rw [heq]
    refine ⟨⟨h.windows, hx, hy⟩, h.size, h.active, fun _ => ?_⟩
    show (-gfxFbW ≤ int (d.mouseX - (d.windows i).x) ∧ int (d.mouseX - (d.windows i).x) ≤ gfxFbW) ∧
      -gfxFbH ≤ int (d.mouseY - (d.windows i).y) ∧ int (d.mouseY - (d.windows i).y) ≤ gfxFbH
    rw [hox, hoy]
    omega

/-- a window that is dragged stays inside -/
theorem Steady.drag (h : Steady d) : Steady d.drag := by
  cases hi : d.dragWindow with
  | none =>
    rw [drag_none hi]
    exact h
  | some i =>
    have hne : d.dragWindow ≠ none := by
      rw [hi]
      exact nofun
    obtain ⟨hox, hoy⟩ := h.offset hne
    have hx := h.mouseX
    have hy := h.mouseY
    have hw : gfxFbW = 800 := rfl
    have hh : gfxFbH = 600 := rfl
    have hint : int (d.mouseX - d.dragOffsetX) = d.mouseX - d.dragOffsetX :=
      int_of_range (by omega) (by omega)
    have hint' : int (d.mouseY - d.dragOffsetY) = d.mouseY - d.dragOffsetY :=
      int_of_range (by omega) (by omega)
    refine h.congr (fun j hj => ?_) (fun j hj => ?_) ?_
    · rw [drag_state] at hj
      rw [drag_window hi]
      by_cases hji : j = i
      · subst hji
        obtain ⟨⟨h1, h2, h3, h4⟩, h5, h6⟩ := h.window hj
        have hcx : 0 ≤ clamp (int (d.mouseX - d.dragOffsetX)) (d.windows j).width gfxFbW ∧
            clamp (int (d.mouseX - d.dragOffsetX)) (d.windows j).width gfxFbW +
              (d.windows j).width ≤ gfxFbW :=
          clamp_spec h5 (by omega) (by omega) (by omega)
        have hcy : 0 ≤ clamp (int (d.mouseY - d.dragOffsetY)) (d.windows j).height gfxFbH ∧
            clamp (int (d.mouseY - d.dragOffsetY)) (d.windows j).height gfxFbH +
              (d.windows j).height ≤ gfxFbH :=
          clamp_spec h6 (by omega) (by omega) (by omega)
        rw [setWindow_same]
        exact ⟨⟨hcx.1, hcx.2, hcy.1, hcy.2⟩, h5, h6⟩
      · rw [setWindow_ne hji]
        exact h.window hj
    · rw [drag_state]
      rw [(drag_handles d).1] at hj
      exact h.active j hj
    · rw [drag_window hi]
      rfl

theorem Steady.pressed (h : Steady d) (dx dy buttons : Int) :
    Steady (d.pressed dx dy buttons) := by
  unfold Desktop.pressed
  simp only
  split_ifs
  · exact ((click_touched _ _ _).steady (h.moveMouse dx dy)).startDrag
  · exact h.moveMouse dx dy

/-- **A mouse report**, whatever its deltas and buttons are. -/
theorem Steady.mouse (h : Steady d) (dx dy buttons : Int) :
    Steady (d.wmUpdateMouse dx dy buttons) := by
  by_cases hb : left buttons
  · obtain ⟨⟨h1, h2, h3⟩, h4, h5, h6⟩ := (h.pressed dx dy buttons).drag
    rw [mouse_held hb]
    exact ⟨⟨h1, h2, h3⟩, h4, h5, h6⟩
  · obtain ⟨⟨h1, h2, h3⟩, h4, h5, -⟩ := h.moveMouse dx dy
    rw [mouse_free hb]
    exact ⟨⟨h1, h2, h3⟩, h4, h5, fun hn => absurd rfl hn⟩

/-! ## runs -/

/-- what callers promise: coordinates are C integers, and sizes fit the screen -/
def Call.Valid : Call → Prop
  | .createWindow x y w h _ => (IsInt x ∧ IsInt y) ∧ w ≤ gfxFbW ∧ h ≤ gfxFbH
  | .explOpen x y w h _ => (IsInt x ∧ IsInt y) ∧ w ≤ gfxFbW ∧ h ≤ gfxFbH
  | _ => True

/-- the edges of a new window are C integers too -/
def Call.Fits (d : Desktop) : Call → Prop
  | .createWindow x y w h _ => d.freeSlot ≠ none → EdgesFit x y w h
  | .explOpen x y w h _ => d.freeSlot ≠ none → EdgesFit x y w h
  | _ => True

/-- **One call** -/
theorem call_onScreen_iff {c : Call} (h : Steady d) (hv : c.Valid) :
    (OnScreen (d.call c) ↔ c.Fits d) ∧ (OnScreen (d.call c) → Steady (d.call c)) := by
  have hkeeps : Steady (d.call c) → (OnScreen (d.call c) ↔ True) ∧
      (OnScreen (d.call c) → Steady (d.call c)) :=
    fun hs => ⟨iff_of_true hs.toOnScreen trivial, fun _ => hs⟩
  cases c with
  | createWindow x y wd ht title =>
    obtain ⟨⟨hx, hy⟩, hw, hh⟩ := hv
    exact (create_opens d x y wd ht title).steady_iff h hw hh hx hy
  | explOpen x y wd ht title =>
    obtain ⟨⟨hx, hy⟩, hw, hh⟩ := hv
    exact (explOpen_opens d x y wd ht title).steady_iff h hw hh hx hy
  | termOpen title =>
    obtain ⟨hiff, hs⟩ := (termOpen_opens d title).steady_iff h (by decide) (by decide)
      (show IsInt wmTermWinX by unfold IsInt; decide)
      (show IsInt wmTermWinY by unfold IsInt; decide)
    have hfit : EdgesFit wmTermWinX wmTermWinY wmTermWinW wmTermWinH := by
      unfold EdgesFit
      decide
    exact hkeeps (hs (hiff.mpr fun _ => hfit))
  | focusWindow winId => exact hkeeps ((focus_touched d winId).steady h)
  | handleClick x y => exact hkeeps ((click_touched d x y).steady h)
  | updateMouse dx dy buttons => exact hkeeps (h.mouse dx dy buttons)
  | closeWindow winId =>
    refine hkeeps ?_
    show Steady (d.wmCloseWindow winId)
    cases hi : slot? winId with
    | none =>
      unfold Desktop.wmCloseWindow
      rw [hi]
      exact h
    | some i => exact (close_closed hi).steady h

theorem Steady.init (d : Desktop) : Steady d.wmInit := by
  have hx : 0 ≤ gfxFbW / 2 ∧ gfxFbW / 2 < gfxFbW := by decide
  have hy : 0 ≤ gfxFbH / 2 ∧ gfxFbH / 2 < gfxFbH := by decide
  exact ⟨⟨nofun, hx, hy⟩, nofun, nofun, fun hn => absurd rfl hn⟩

/-- **All stays on the screen** exactly if the edges of every new window fit a C integer. -/
theorem onScreen_iff (d : Desktop) (cs : List Call) :
    Always (fun d c d' => c.Valid ∧ d' = d.call c) (fun _ _ d' => OnScreen d') d.wmInit cs ↔
      Always (fun d c d' => c.Valid ∧ d' = d.call c) (fun d c _ => c.Fits d) d.wmInit cs := by
  refine Always.iff_of_inv (I := Steady) ?_ ?_ cs _ (Steady.init d)
  · rintro d c _ h ⟨hv, rfl⟩
    exact (call_onScreen_iff h hv).1
  · rintro d c _ h ⟨hv, rfl⟩ hf
    obtain ⟨hiff, hs⟩ := call_onScreen_iff h hv
    exact hs (hiff.mpr hf)

/-- **A window at the largest coordinate** stays there. -/
theorem onScreen_fails :
    ¬ Always (fun d c d' => c.Valid ∧ d' = d.call c) (fun _ _ d' => OnScreen d')
      blankDesktop.wmInit [.createWindow (2 ^ 31 - 1) 0 100 100 []] := by
  intro h
  have hv : (Call.createWindow (2 ^ 31 - 1) 0 100 100 []).Valid := by
    unfold Call.Valid IsInt
    decide
  obtain ⟨hs, -⟩ := h _ ⟨hv, rfl⟩
  have hright := (hs.windows 0 (by decide +kernel)).right
  exact absurd hright (by decide +kernel)

end Noxis.Wm
