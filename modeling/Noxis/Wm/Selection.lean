import Noxis.Wm.Explorer
import Noxis.Wm.ZOrder
import Noxis.Lib.Run

/-!
# The selection of the explorer

* `Selection d`         the cursor is an entry of the list, in a row that is visible
* `Kept d`              the invariant: the window of the explorer is open and high enough as well
* `Kept.call`           no call of the window manager breaks it
* `Event.Fits`          the events that do not break it
* `selection_iff`       a run keeps the selection exactly if all its events fit
* `selection_fails`     End in an empty list
-/

namespace Noxis.Wm

variable {d d' : Desktop} {f f' : Files} {i : Slot}

/-! ## the invariant -/

/-- **the selection is in range**; a list with no entry has its cursor at 0 -/
structure Selection (d : Desktop) : Prop where
  scroll_nonneg : 0 ≤ d.expl.scroll
  scroll_le : d.expl.scroll ≤ d.expl.cursor
  cursor_lt : d.expl.cursor < max d.expl.nEntries 1
  visible : ∀ i, d.expl.winId = some i → d.expl.cursor < d.expl.scroll + d.wmExplVisibleRows i

structure Kept (d : Desktop) : Prop extends Selection d where
  nEntries_nonneg : 0 ≤ d.expl.nEntries
  window : ∀ i, d.expl.winId = some i →
    (d.windows i).state ≠ .closed ∧ wmMinHeight ≤ (d.windows i).height

/-- windows that are open stay open, and as high as they are -/
def SameWindows (d d' : Desktop) : Prop := ∀ i, (d.windows i).state ≠ .closed →
  (d'.windows i).state ≠ .closed ∧ (d'.windows i).height = (d.windows i).height

theorem SameWindows.refl (d : Desktop) : SameWindows d d := fun _ h => ⟨h, rfl⟩

theorem SameWindows.trans {d'' : Desktop} (h : SameWindows d d') (h' : SameWindows d' d'') :
    SameWindows d d'' := by
  intro i hi
  obtain ⟨h1, h2⟩ := h i hi
  obtain ⟨h3, h4⟩ := h' i h1
  exact ⟨h3, h4.trans h2⟩

/-- the parts of the explorer that the selection is about -/
structure SameList (e e' : Explorer) : Prop where
  winId : e'.winId = e.winId
  nEntries : e'.nEntries = e.nEntries
  cursor : e'.cursor = e.cursor
  scroll : e'.scroll = e.scroll

theorem SameList.refl (e : Explorer) : SameList e e := ⟨rfl, rfl, rfl, rfl⟩

theorem visibleRows_congr (h : (d'.windows i).height = (d.windows i).height) :
    d'.wmExplVisibleRows i = d.wmExplVisibleRows i := by
  unfold Desktop.wmExplVisibleRows
  rw [h]

theorem visibleRows_pos (h : wmMinHeight ≤ (d.windows i).height) : 1 ≤ d.wmExplVisibleRows i := by
  have h48 : (48 : Int) ≤ (d.windows i).height := h
  have hclient : wmTermCellH ≤ (d.windows i).height - wmTitleHeight - wmBorderWidth - 2 * wmExplPad := by
    show (16 : Int) ≤ (d.windows i).height - 18 - 2 - 2 * 2
    omega
  have hpos : (0 : Int) < wmTermCellH := by decide
  unfold Desktop.wmExplVisibleRows
  rw [if_neg (not_le.mpr (lt_of_lt_of_le hpos hclient)),
    Int.tdiv_eq_ediv_of_nonneg (le_trans hpos.le hclient)]
  exact Int.le_ediv_of_mul_le hpos (by rwa [one_mul])

theorem Kept.congr_window (h : Kept d) (he : SameList d.expl d'.expl)
    (hw : ∀ i, d.expl.winId = some i → (d'.windows i).state ≠ .closed ∧
      (d'.windows i).height = (d.windows i).height) : Kept d' where
  scroll_nonneg := by
    rw [he.scroll]
    exact h.scroll_nonneg
  scroll_le := by
    rw [he.scroll, he.cursor]
    exact h.scroll_le
  cursor_lt := by
    rw [he.cursor, he.nEntries]
    exact h.cursor_lt
  visible i hi := by
    rw [he.winId] at hi
    rw [he.cursor, he.scroll, visibleRows_congr (hw i hi).2]
    exact h.visible i hi
  nEntries_nonneg := by
    rw [he.nEntries]
    exact h.nEntries_nonneg
  window i hi := by
    rw [he.winId] at hi
    obtain ⟨hs', hh'⟩ := hw i hi
    exact ⟨hs', hh'.symm ▸ (h.window i hi).2⟩

theorem Kept.congr (h : Kept d) (he : SameList d.expl d'.expl) (hw : SameWindows d d') : Kept d' :=
  h.congr_window he fun i hi => hw i (h.window i hi).1

/-- with no window there are no rows to be seen -/
theorem Kept.of_closed (h : Kept d) (he : d'.expl = { d.expl with winId := none }) : Kept d' where
  scroll_nonneg := by
    rw [he]
    exact h.scroll_nonneg
  scroll_le := by
    rw [he]
    exact h.scroll_le
  cursor_lt := by
    rw [he]
    exact h.cursor_lt
  visible i hi := by
    rw [he] at hi
    exact absurd hi (by simp)
  nEntries_nonneg := by
    rw [he]
    exact h.nEntries_nonneg
  window i hi := by
    rw [he] at hi
    exact absurd hi (by simp)

/-! ## scrolling to the cursor -/

/-- the scroll that `wm_expl_scroll_to_cursor` chooses -/
def scrollFor (rows cursor scroll : Int) : Int :=
  if rows ≤ 0 then scroll
  else
    let scroll := if cursor < scroll then cursor else scroll
    if cursor ≥ scroll + rows then cursor - rows + 1 else scroll

theorem scrollFor_spec {rows cursor scroll : Int} (hr : 1 ≤ rows) (hs : 0 ≤ scroll)
    (hc : 0 ≤ cursor) :
    0 ≤ scrollFor rows cursor scroll ∧ scrollFor rows cursor scroll ≤ cursor ∧
      cursor < scrollFor rows cursor scroll + rows := by
  unfold scrollFor
  rw [if_neg (by omega)]
  simp only
  split_ifs <;> omega

theorem Desktop.scroll_eq (d : Desktop) (i : Slot) :
    d.wmExplScrollToCursor i = { d with expl := { d.expl with
      scroll := scrollFor (d.wmExplVisibleRows i) d.expl.cursor d.expl.scroll } } := by
  unfold Desktop.wmExplScrollToCursor scrollFor
  by_cases h : d.wmExplVisibleRows i ≤ 0
  · simp only [if_pos h]
  · simp only [if_neg h]

/-- the list has `n` entries and the cursor goes to `c` -/
def Desktop.select (d : Desktop) (n c : Int) : Desktop :=
  { d with expl := { d.expl with nEntries := n, cursor := c } }

/-- **a cursor in the list is brought into view** -/
theorem kept_scroll {n c : Int} (h : Kept d) (hi : d.expl.winId = some i) (hn : 0 ≤ n) (hc : 0 ≤ c)
    (hlt : c < max n 1) : Kept ((d.select n c).wmExplScrollToCursor i) := by
  obtain ⟨h1, h2, h3⟩ :=
    scrollFor_spec (visibleRows_pos (h.window i hi).2) h.scroll_nonneg hc
  rw [Desktop.scroll_eq]
  exact
    { scroll_nonneg := h1
      scroll_le := h2
      cursor_lt := hlt
      visible := by
        intro j hj
        have hji : j = i := Option.some.inj (hj.symm.trans hi)
        rw [hji]
        exact h3
      nEntries_nonneg := hn
      window := h.window }

/-! ## the calls of the window manager -/

theorem wmRestack_height (d : Desktop) (front : Option Slot) (i : Slot) :
    ((d.wmRestack front).windows i).height = (d.windows i).height := by
  obtain ⟨ws, heq, hws⟩ := restack_spec d front
  rw [heq]
  show (ws i).height = (d.windows i).height
  rw [hws i]

theorem wmRestack_expl (d : Desktop) (front : Option Slot) : (d.wmRestack front).expl = d.expl := by
  obtain ⟨ws, heq, -⟩ := restack_spec d front
  rw [heq]

theorem SameWindows.restack (d : Desktop) (front : Option Slot) :
    SameWindows d (d.wmRestack front) := by
  intro i hi
  rw [wmRestack_state, wmRestack_height]
  exact ⟨hi, rfl⟩

theorem wmFocusWindow_expl (d : Desktop) (winId : Int) : (d.wmFocusWindow winId).expl = d.expl := by
  unfold Desktop.wmFocusWindow
  cases slot? winId with
  | none => rfl
  | some i =>
    show (if d.isNormal i then _ else d).expl = _
    split_ifs
    · exact wmRestack_expl d _
    · rfl

theorem SameWindows.focus (d : Desktop) (winId : Int) : SameWindows d (d.wmFocusWindow winId) := by
  unfold Desktop.wmFocusWindow
  cases slot? winId with
  | none => exact SameWindows.refl d
  | some i =>
    show SameWindows d (if d.isNormal i then _ else d)
    split_ifs
    · exact SameWindows.restack d _
    · exact SameWindows.refl d

theorem Kept.focus (h : Kept d) (winId : Int) : Kept (d.wmFocusWindow winId) :=
  h.congr (wmFocusWindow_expl d winId ▸ SameList.refl d.expl) (SameWindows.focus d winId)

theorem SameWindows.setWindow {w : Window} (h : (d.windows i).state ≠ .closed →
    w.state ≠ .closed ∧ w.height = (d.windows i).height) : SameWindows d (d.setWindow i w) := by
  intro j hj
  by_cases hji : j = i
  · rw [hji] at hj ⊢
    rw [setWindow_same]
    exact h hj
  · rw [setWindow_ne hji]
    exact ⟨hj, rfl⟩

/-- a new window has a slot that was closed -/
theorem create_spec (d : Desktop) (x y w ht : Int) (title : List UInt8) :
    (d.wmCreateWindow x y w ht title).1.expl = d.expl ∧
      SameWindows d (d.wmCreateWindow x y w ht title).1 ∧
      ∀ i, (d.wmCreateWindow x y w ht title).2 = some i →
        ((d.wmCreateWindow x y w ht title).1.windows i).state ≠ .closed ∧
        wmMinHeight ≤ ((d.wmCreateWindow x y w ht title).1.windows i).height := by
  unfold Desktop.wmCreateWindow
  cases hf : d.freeSlot with
  | none =>
    refine ⟨rfl, SameWindows.refl d, fun i hi => ?_⟩
    exact absurd hi (by simp)
  | some i =>
    have hcl := freeSlot_closed hf
    simp only
    generalize hw :
      ({ d.windows i with x := _, y := _, width := _, height := _, state := _ } : Window) = win
    have hheight : wmMinHeight ≤ win.height := by
      rw [← hw]
      show wmMinHeight ≤ if ht < wmMinHeight then wmMinHeight else ht
      split_ifs with hlt
      · exact le_refl _
      · exact not_lt.mp hlt
    have hstate : win.state ≠ .closed := by
      rw [← hw]
      exact WindowState.noConfusion
    have hsame : SameWindows d (d.setWindow i win) := SameWindows.setWindow fun hn => absurd hcl hn
    have hwin : (((d.setWindow i win).wmRestack (some i)).windows i).state ≠ .closed ∧
        (((d.setWindow i win).wmRestack (some i)).windows i).height = win.height := by
      rw [wmRestack_state, wmRestack_height, setWindow_same]
      exact ⟨hstate, rfl⟩
    refine ⟨wmRestack_expl _ _, ?_, ?_⟩
    · refine (hsame.trans (SameWindows.restack _ _)).trans (SameWindows.setWindow fun hn => ⟨hn, rfl⟩)
    · intro j hj
      rw [← Option.some.inj hj, setWindow_same]
      exact ⟨hwin.1, hwin.2.symm ▸ hheight⟩

theorem Kept.create (h : Kept d) (x y w ht : Int) (title : List UInt8) :
    Kept (d.wmCreateWindow x y w ht title).1 := by
  obtain ⟨he, hs, -⟩ := create_spec d x y w ht title
  exact h.congr (he ▸ SameList.refl d.expl) hs

theorem Kept.termOpen (h : Kept d) (title : List UInt8) : Kept (d.wmTermOpen title) := by
  have hc := h.create wmTermWinX wmTermWinY wmTermWinW wmTermWinH title
  unfold Desktop.wmTermOpen
  revert hc
  cases d.wmCreateWindow wmTermWinX wmTermWinY wmTermWinW wmTermWinH title with
  | mk d1 id =>
    intro hc
    cases id with
    | none => exact hc
    | some i =>
      refine Kept.focus ?_ _
      exact Kept.congr (d := d1) hc (SameList.refl _) (SameWindows.refl _)

/-- a new explorer has an empty list -/
theorem Kept.explOpen (h : Kept d) (x y w ht : Int) (title : List UInt8) :
    Kept (d.wmExplOpen x y w ht title) := by
  have hc := h.create x y w ht title
  obtain ⟨-, -, hnew⟩ := create_spec d x y w ht title
  unfold Desktop.wmExplOpen
  revert hc hnew
  cases d.wmCreateWindow x y w ht title with
  | mk d1 id =>
    intro hc hnew
    cases id with
    | none => exact hc
    | some i =>
      refine Kept.focus ?_ _
      have hwin := hnew i rfl
      exact
        { scroll_nonneg := le_refl _
          scroll_le := le_refl _
          cursor_lt := by
            show (0 : Int) < max 0 1
            decide
          visible := by
            intro j hj
            rw [← Option.some.inj hj]
            show (0 : Int) < 0 + d1.wmExplVisibleRows i
            have := visibleRows_pos (d := d1) hwin.2
            omega
          nEntries_nonneg := le_refl _
          window := by
            intro j hj
            rw [← Option.some.inj hj]
            exact hwin }

/-- nothing but the window `i` differs that the selection depends on -/
structure SameBut (i : Slot) (d d' : Desktop) : Prop where
  expl : d'.expl = d.expl
  windows : ∀ j, j ≠ i → d'.windows j = d.windows j

theorem SameBut.of_ite {c : Prop} [Decidable c] {d'' : Desktop} (h : SameBut i d d')
    (h' : SameBut i d' d'') : SameBut i d (if c then d'' else d') := by
  split_ifs
  · exact ⟨h'.expl.trans h.expl, fun j hj => (h'.windows j hj).trans (h.windows j hj)⟩
  · exact h

/-- the window goes, and with it the explorer if it was there -/
theorem Kept.leave (h : Kept d) (hs : SameBut i d d') :
    Kept ((if d'.expl.winId = some i then { d' with expl := { d'.expl with winId := none } }
      else d').wmRestack none) := by
  have hr : ∀ d1, Kept d1 → Kept (d1.wmRestack none) := fun d1 hk =>
    hk.congr (wmRestack_expl d1 none ▸ SameList.refl d1.expl) (SameWindows.restack d1 none)
  apply hr
  split_ifs with hx
  · exact h.of_closed (congrArg (fun e : Explorer => { e with winId := none }) hs.expl)
  · refine h.congr_window (hs.expl ▸ SameList.refl d.expl) fun j hj => ?_
    have hji : j ≠ i := by
      rintro rfl
      exact hx (hs.expl ▸ hj)
    rw [hs.windows j hji]
    exact ⟨(h.window j hj).1, rfl⟩

theorem Kept.close (h : Kept d) (winId : Int) : Kept (d.wmCloseWindow winId) := by
  unfold Desktop.wmCloseWindow
  cases slot? winId with
  | none => exact h
  | some i =>
    have hset : SameBut i d (d.setWindow i { d.windows i with state := .closed, zOrder := 0 }) :=
      ⟨rfl, fun j hj => setWindow_ne hj _⟩
    refine h.leave ?_
    refine SameBut.of_ite ?_ ⟨rfl, fun _ _ => rfl⟩
    exact SameBut.of_ite hset ⟨rfl, fun _ _ => rfl⟩

/-! ## the mouse -/

theorem Kept.moveMouse (h : Kept d) (dx dy : Int) : Kept (d.moveMouse dx dy) :=
  h.congr (SameList.refl _) (SameWindows.refl _)

theorem Kept.startDrag (h : Kept d) : Kept d.startDrag := by
  unfold Desktop.startDrag
  cases d.activeWindow with
  | none => exact h.congr (SameList.refl _) (SameWindows.refl _)
  | some i =>
    simp only
    split_ifs
    · exact h.congr (SameList.refl _) (SameWindows.refl _)
    · exact h.congr (SameList.refl _) (SameWindows.refl _)

theorem Kept.drag (h : Kept d) : Kept d.drag := by
  unfold Desktop.drag
  cases d.dragWindow with
  | none => exact h
  | some i => exact h.congr (SameList.refl _) (SameWindows.setWindow fun hn => ⟨hn, rfl⟩)

theorem Kept.selectRow (h : Kept d) (hi : d.expl.winId = some i) (y : Int) :
    Kept (d.selectRow i y) := by
  unfold Desktop.selectRow
  simp only
  split_ifs with h1 h2
  · have hlt := h2.2
    exact kept_scroll (n := d.expl.nEntries) h hi h.nEntries_nonneg h2.1 (by omega)
  · exact h
  · exact h

theorem Kept.click (h : Kept d) (x y : Int) : Kept (d.wmHandleClick x y) := by
  unfold Desktop.wmHandleClick
  cases d.wmHitTest x y with
  | none => exact h
  | some i =>
    simp only
    split_ifs with hsel
    · exact (h.focus _).selectRow hsel.1 y
    · exact h.focus _

theorem Kept.mouse (h : Kept d) (dx dy buttons : Int) : Kept (d.wmUpdateMouse dx dy buttons) := by
  have hpress : Kept (if left buttons ∧ ¬ left (d.moveMouse dx dy).mouseButtons then
        ((d.moveMouse dx dy).wmHandleClick (d.moveMouse dx dy).mouseX
          (d.moveMouse dx dy).mouseY).startDrag
      else d.moveMouse dx dy) := by
    split_ifs
    · exact ((h.moveMouse dx dy).click _ _).startDrag
    · exact h.moveMouse dx dy
  unfold Desktop.wmUpdateMouse
  simp only
  revert hpress
  generalize (if left buttons ∧ ¬ left (d.moveMouse dx dy).mouseButtons then
    ((d.moveMouse dx dy).wmHandleClick (d.moveMouse dx dy).mouseX
      (d.moveMouse dx dy).mouseY).startDrag else d.moveMouse dx dy) = d1
  intro hpress
  by_cases hb : left buttons
  · simp only [if_pos hb]
    exact hpress.drag.congr (SameList.refl _) (SameWindows.refl _)
  · simp only [if_neg hb]
    exact hpress.congr (SameList.refl _) (SameWindows.refl _)

theorem Kept.call (h : Kept d) (c : Call) : Kept (d.call c) := by
  cases c with
  | createWindow x y w ht title => exact h.create x y w ht title
  | closeWindow winId => exact h.close winId
  | focusWindow winId => exact h.focus winId
  | handleClick x y => exact h.click x y
  | updateMouse dx dy buttons => exact h.mouse dx dy buttons
  | termOpen title => exact h.termOpen title
  | explOpen x y w ht title => exact h.explOpen x y w ht title

/-! ## the entries -/

/-- every index that `fill` writes is one of the list that it makes -/
theorem fill_lt (fs : Fs) (l : List DirEntry) (n : Nat) (a : Nat → Entry) :
    n ≤ (fill fs l n a).1 ∧ ∀ k ∈ (fill fs l n a).2.2, k < (fill fs l n a).1 := by
  induction l generalizing n a with
  | nil => exact ⟨le_refl n, fun k hk => absurd hk List.not_mem_nil⟩
  | cons de l ih =>
    rw [fill]
    split_ifs with hn hskip
    · exact ih n a
    · obtain ⟨h1, h2⟩ := ih (n + 1) (Function.update a n (newEntry fs de))
      refine ⟨Nat.le_of_succ_le h1, fun k hk => ?_⟩
      rcases List.mem_cons.mp hk with rfl | hk
      · exact h1
      · exact h2 k hk
    · exact ⟨le_refl n, fun k hk => absurd hk List.not_mem_nil⟩

theorem insertEntry_le (key : Entry) (j : Nat) (a : Nat → Entry) :
    ∀ k ∈ (insertEntry key j a).2, k ≤ j := by
  induction j generalizing a with
  | zero =>
    intro k hk
    exact le_of_eq (List.mem_singleton.mp hk)
  | succ j ih =>
    intro k hk
    rw [insertEntry] at hk
    split_ifs at hk with hle
    · rcases List.mem_pair.mp hk with rfl | rfl <;> omega
    · rcases List.mem_cons.mp hk with rfl | hk
      · omega
      · rcases List.mem_cons.mp hk with rfl | hk
        · exact le_refl _
        · exact Nat.le_succ_of_le (ih _ k hk)

theorem sortEntries_lt (m i : Nat) (a : Nat → Entry) :
    ∀ k ∈ (sortEntries m i a).2, k < i + m := by
  induction m generalizing i a with
  | zero => exact fun k hk => absurd hk List.not_mem_nil
  | succ m ih =>
    intro k hk
    rw [sortEntries] at hk
    rcases List.mem_cons.mp hk with rfl | hk
    · omega
    · rcases List.mem_append.mp hk with hk | hk
      · have := insertEntry_le _ _ _ k hk
        omega
      · have := ih (i + 1) _ k hk
        omega

/-- **the directory is read into its own entries** -/
theorem refresh_lt (fs : Fs) (l : List DirEntry) (a : Nat → Entry) :
    ∀ k ∈ (fill fs l 0 a).2.2 ++
        (sortEntries ((fill fs l 0 a).1 - 1) 1 (fill fs l 0 a).2.1).2,
      k < (fill fs l 0 a).1 := by
  intro k hk
  rcases List.mem_append.mp hk with hk | hk
  · exact (fill_lt fs l 0 a).2 k hk
  · by_cases h0 : (fill fs l 0 a).1 = 0
    · rw [h0] at hk
      exact absurd hk List.not_mem_nil
    · have := sortEntries_lt _ _ _ k hk
      omega

/-! ## what is indexed -/

/-- the selection is in range, and so was every index -/
structure Files.Ok (f : Files) : Prop where
  selection : Selection f.desk
  inRange : ∀ a ∈ f.accesses, a.InRange

structure Files.Inv (f : Files) : Prop where
  kept : Kept f.desk
  inRange : ∀ a ∈ f.accesses, a.InRange

theorem Files.Inv.ok (h : f.Inv) : f.Ok := ⟨h.kept.toSelection, h.inRange⟩

theorem inRange_append {l m : List Access} (hl : ∀ a ∈ l, a.InRange) (hm : ∀ a ∈ m, a.InRange) :
    ∀ a ∈ l ++ m, a.InRange := by
  intro a ha
  rcases List.mem_append.mp ha with ha | ha
  · exact hl a ha
  · exact hm a ha

theorem inRange_slot (i : Slot) : ∀ a ∈ [Access.window i.val], a.InRange := by
  intro a ha
  rw [List.mem_singleton.mp ha]
  have := i.isLt
  exact ⟨by omega, by omega⟩

theorem Files.Inv.touch (h : f.Inv) {l : List Access} (hl : ∀ a ∈ l, a.InRange) : (f.touch l).Inv :=
  ⟨h.kept, inRange_append h.inRange hl⟩

theorem winId_some (h : f.desk.expl.winId = some i) : f.winId = i.val := by
  unfold Files.winId
  rw [h]

theorem winId_none (h : f.desk.expl.winId = none) : f.winId = -1 := by
  unfold Files.winId
  rw [h]

/-- in an open window -/
theorem scrollToCursor_some (h : f.desk.expl.winId = some i) (stray : Int) :
    f.wmExplScrollToCursor stray =
      { f with desk := f.desk.wmExplScrollToCursor i }.touch [.window i.val] := by
  have hrows : (f.wmExplVisibleRows stray) = (f.desk.wmExplVisibleRows i, f.touch [.window i.val]) := by
    unfold Files.wmExplVisibleRows Desktop.wmExplVisibleRows
    rw [h, winId_some h]
  unfold Files.wmExplScrollToCursor
  rw [hrows, Desktop.scroll_eq]
  unfold scrollFor
  by_cases hr : f.desk.wmExplVisibleRows i ≤ 0
  · simp only [if_pos hr]
  · simp only [if_neg hr]
    rfl

/-- what it does in any case -/
theorem scrollToCursor_spec (f : Files) (stray : Int) :
    (f.wmExplScrollToCursor stray).accesses = f.accesses ++ [.window f.winId] ∧
      (f.wmExplScrollToCursor stray).desk.expl.winId = f.desk.expl.winId ∧
      (f.wmExplScrollToCursor stray).desk.expl.cursor = f.desk.expl.cursor ∧
      (f.wmExplScrollToCursor stray).desk.expl.nEntries = f.desk.expl.nEntries := by
  unfold Files.wmExplScrollToCursor
  by_cases hr : (f.wmExplVisibleRows stray).1 ≤ 0
  · simp only [if_pos hr]
    exact ⟨rfl, rfl, rfl, rfl⟩
  · simp only [if_neg hr]
    exact ⟨rfl, rfl, rfl, rfl⟩

/-- **with no window the memory before the table is read** -/
theorem not_ok_scroll (h : f.desk.expl.winId = none) (stray : Int) :
    ¬ (f.wmExplScrollToCursor stray).Ok := by
  intro hok
  have hmem : Access.window (-1) ∈ (f.wmExplScrollToCursor stray).accesses := by
    rw [(scrollToCursor_spec f stray).1, winId_none h]
    exact List.mem_append_right _ (List.mem_singleton_self _)
  have hlt := (hok.inRange _ hmem).1
  omega

/-- **a cursor that left the list stays outside** -/
theorem not_ok_cursor (h : ¬ (0 ≤ f.desk.expl.cursor ∧ f.desk.expl.cursor < max f.desk.expl.nEntries 1))
    (stray : Int) : ¬ (f.wmExplScrollToCursor stray).Ok := by
  intro hok
  obtain ⟨-, -, hc, hn⟩ := scrollToCursor_spec f stray
  have h1 := hok.selection.scroll_nonneg
  have h2 := hok.selection.scroll_le
  have h3 := hok.selection.cursor_lt
  rw [hc] at h2 h3
  rw [hn] at h3
  exact h ⟨le_trans h1 h2, h3⟩

/-- a cursor in the list, in an open window -/
theorem inv_scroll {n c : Int} (h : f.Inv) (hi : f.desk.expl.winId = some i) (hn : 0 ≤ n)
    (hc : 0 ≤ c) (hlt : c < max n 1) (hd : f'.desk = f.desk.select n c)
    (ha : ∀ a ∈ f'.accesses, a.InRange) (stray : Int) : (f'.wmExplScrollToCursor stray).Inv := by
  have hi' : f'.desk.expl.winId = some i := by
    rw [hd]
    exact hi
  have hk : Kept (f'.desk.wmExplScrollToCursor i) := by
    rw [hd]
    exact kept_scroll h.kept hi hn hc hlt
  rw [scrollToCursor_some hi']
  exact ⟨hk, inRange_append ha (inRange_slot i)⟩

/-! ## reading the directory -/

/-- a directory that cannot be read finds the cursor at 0, one that can be read finds a window -/
def Files.refreshFits (f : Files) (fs : Fs) : Prop :=
  match fs.dir with
  | .notOpened => True
  | .notRead => f.desk.expl.cursor = 0
  | .entries _ => f.desk.expl.winId ≠ none

/-- `expl_refresh` up to its last call, for a directory that was read -/
theorem refresh_entries (f : Files) {fs : Fs} {l : List DirEntry} (hd : fs.dir = .entries l)
    (h0 : 0 ≤ f.desk.expl.cursor) : ∃ (n c : Int) (f' : Files),
      (f.explRefresh fs).1 = f'.wmExplScrollToCursor fs.stray ∧ f'.desk = f.desk.select n c ∧
      0 ≤ n ∧ 0 ≤ c ∧ c < max n 1 ∧
      ((∀ a ∈ f.accesses, a.InRange) → ∀ a ∈ f'.accesses, a.InRange) := by
  have hlt := refresh_lt fs l f.entries
  unfold Files.explRefresh
  rw [hd]
  refine ⟨(fill fs l 0 f.entries).1, _, _, rfl, rfl, Int.natCast_nonneg _, ?_, ?_, ?_⟩
  · show 0 ≤ if f.desk.expl.cursor ≥ _ then _ else f.desk.expl.cursor
    split_ifs <;> omega
  · show (if f.desk.expl.cursor ≥ _ then _ else f.desk.expl.cursor) < _
    split_ifs <;> omega
  · intro hf
    refine inRange_append hf fun a ha => ?_
    obtain ⟨k, hk, rfl⟩ := List.mem_map.mp ha
    have hk' := hlt k hk
    exact ⟨Int.natCast_nonneg k, by omega⟩

theorem Files.Inv.refresh (h : f.Inv) {fs : Fs} (hf : f.refreshFits fs) :
    (f.explRefresh fs).1.Inv := by
  have h0 := le_trans h.kept.scroll_nonneg h.kept.scroll_le
  unfold Files.refreshFits at hf
  cases hd : fs.dir with
  | notOpened =>
    unfold Files.explRefresh
    rw [hd]
    exact h
  | notRead =>
    rw [hd] at hf
    have hc : f.desk.expl.cursor = 0 := hf
    unfold Files.explRefresh
    rw [hd]
    refine ⟨?_, h.inRange⟩
    exact
      { scroll_nonneg := h.kept.scroll_nonneg
        scroll_le := h.kept.scroll_le
        cursor_lt := by
          show f.desk.expl.cursor < max 0 1
          rw [hc]
          decide
        visible := h.kept.visible
        nEntries_nonneg := le_refl _
        window := h.kept.window }
  | entries l =>
    rw [hd] at hf
    obtain ⟨i, hi⟩ := Option.ne_none_iff_exists'.mp hf
    obtain ⟨n, c, f', heq, hdesk, hn, hc, hlt, hacc⟩ := refresh_entries f hd h0
    rw [heq]
    exact inv_scroll h hi hn hc hlt hdesk (hacc h.inRange) fs.stray

theorem not_ok_refresh (h : f.Inv) {fs : Fs} (hf : ¬ f.refreshFits fs) :
    ¬ (f.explRefresh fs).1.Ok := by
  have h0 := le_trans h.kept.scroll_nonneg h.kept.scroll_le
  unfold Files.refreshFits at hf
  cases hd : fs.dir with
  | notOpened =>
    rw [hd] at hf
    exact absurd trivial hf
  | notRead =>
    rw [hd] at hf
    unfold Files.explRefresh
    rw [hd]
    intro hok
    have hlt : f.desk.expl.cursor < max 0 1 := hok.selection.cursor_lt
    exact hf (by show f.desk.expl.cursor = 0; omega)
  | entries l =>
    rw [hd] at hf
    obtain ⟨n, c, f', heq, hdesk, -⟩ := refresh_entries f hd h0
    rw [heq]
    refine not_ok_scroll ?_ fs.stray
    rw [hdesk]
    exact not_not.mp hf

/-! ## keys -/

theorem movedCursor_iff {e : Explorer} {rows : Int} (ch : Byte) (h0 : 0 ≤ e.cursor)
    (hlt : e.cursor < max e.nEntries 1) (hn : 0 ≤ e.nEntries) (hr : 1 ≤ rows) :
    (0 ≤ movedCursor e rows ch ∧ movedCursor e rows ch < max e.nEntries 1) ↔
      (ch = GUI_KEY_PGDN ∨ ch = GUI_KEY_END → 0 < e.nEntries) := by
  by_cases hk : ch = GUI_KEY_PGDN ∨ ch = GUI_KEY_END
  · rw [forall_prop_of_true hk]
    rcases hk with rfl | rfl
    · show (0 ≤ (if e.cursor + (rows - 1) ≥ e.nEntries then e.nEntries - 1 else e.cursor + (rows - 1)) ∧
        (if e.cursor + (rows - 1) ≥ e.nEntries then e.nEntries - 1 else e.cursor + (rows - 1)) < _) ↔ _
      split_ifs <;> omega
    · show 0 ≤ e.nEntries - 1 ∧ e.nEntries - 1 < _ ↔ _
      omega
  · refine iff_of_true ?_ fun hc => absurd hc hk
    obtain ⟨hp, he⟩ := not_or.mp hk
    unfold movedCursor
    rw [if_neg hp, if_neg he]
    split_ifs <;> omega

/-- `f` with another row of the view, or another state -/
def Files.InView (f g : Files) : Prop :=
  ∃ row st, g = f.setExpl { f.desk.expl with viewRow := row, state := st }

theorem Files.InView.ite {g g' : Files} {c : Prop} [Decidable c] (h : f.InView g)
    (h' : f.InView g') : f.InView (if c then g else g') := by
  split
  · exact h
  · exact h'

/-- in a view the selection is not touched -/
theorem viewKey_spec (hi : f.desk.expl.winId = some i) (rows : Int) (ch : Byte) :
    ∃ row st, f.viewKey rows ch =
      (f.touch [.window i.val]).setExpl { f.desk.expl with viewRow := row, state := st } := by
  have hlines : ∃ lines, f.explViewLines = (lines, f.touch [.window i.val]) := by
    unfold Files.explViewLines
    rw [hi]
    exact ⟨_, rfl⟩
  obtain ⟨lines, hl⟩ := hlines
  have hrow : ∀ row, (f.touch [.window i.val]).InView
      ((f.touch [.window i.val]).setExpl { f.desk.expl with viewRow := row }) :=
    fun row => ⟨row, _, rfl⟩
  have hstay : (f.touch [.window i.val]).InView (f.touch [.window i.val]) := ⟨_, _, rfl⟩
  show (f.touch [.window i.val]).InView _
  unfold Files.viewKey
  rw [hl]
  refine .ite (.ite (hrow _) hstay) ?_
  refine .ite (.ite (hrow _) hstay) ?_
  refine .ite (hrow _) (.ite (hrow _) (.ite (hrow _) (.ite (hrow _) ?_)))
  exact .ite ⟨_, .list, rfl⟩ hstay

theorem explWindowRows_some (hi : f.desk.expl.winId = some i) :
    ∃ rows, f.explWindowRows = (rows, f.touch [.window i.val]) := by
  unfold Files.explWindowRows
  rw [hi]
  exact ⟨_, rfl⟩

/-- the cursor stays where it is and is brought into view -/
theorem Files.Inv.scroll (h : f.Inv) (hi : f.desk.expl.winId = some i) (stray : Int) :
    (f.wmExplScrollToCursor stray).Inv :=
  inv_scroll h hi h.kept.nEntries_nonneg (le_trans h.kept.scroll_nonneg h.kept.scroll_le)
    h.kept.cursor_lt rfl h.inRange stray

theorem refresh_winId (f : Files) (fs : Fs) :
    (f.explRefresh fs).1.desk.expl.winId = f.desk.expl.winId := by
  unfold Files.explRefresh
  cases fs.dir with
  | notOpened => rfl
  | notRead => rfl
  | entries l => exact (scrollToCursor_spec _ fs.stray).2.1

/-- `case GUI_KEY_DEL` fits unless the file is unlinked and the directory does not fit -/
def Files.deleteFits (f : Files) (fs : Fs) : Prop :=
  f.desk.expl.cursor < f.desk.expl.nEntries →
    fs.unlinked (pathOf (f.entries f.desk.expl.cursor.toNat).name) = true → f.refreshFits fs

/-- Delete, and the call behind it -/
theorem delete_iff (h : f.Inv) (hi : f.desk.expl.winId = some i) (fs : Fs) :
    (f.deleteFits fs → ((f.deleteKey fs).1.wmExplScrollToCursor fs.stray).Inv) ∧
      (¬ f.deleteFits fs → ¬ ((f.deleteKey fs).1.wmExplScrollToCursor fs.stray).Ok) := by
  have h0 := le_trans h.kept.scroll_nonneg h.kept.scroll_le
  unfold Files.deleteKey Files.deleteFits
  by_cases hlt : f.desk.expl.cursor < f.desk.expl.nEntries
  · have htouch : (f.touch [.entry f.desk.expl.cursor f.desk.expl.nEntries]).Inv := by
      refine h.touch fun a ha => ?_
      rw [List.mem_singleton.mp ha]
      exact ⟨h0, hlt⟩
    rw [if_neg (by omega), forall_prop_of_true hlt]
    simp only
    by_cases hu : fs.unlinked (pathOf (f.entries f.desk.expl.cursor.toNat).name) = true
    · have hu' : fs.unlinked (pathOf ((f.touch [.entry f.desk.expl.cursor f.desk.expl.nEntries]).entries
          f.desk.expl.cursor.toNat).name) = true := hu
      rw [forall_prop_of_true hu, if_pos hu']
      constructor
      · intro hf
        exact (htouch.refresh hf).scroll ((refresh_winId _ fs).trans hi) fs.stray
      · intro hf
        -- the window is there, so the directory was not read and the cursor stands above 0
        refine not_ok_cursor (fun hc => hf ?_) fs.stray
        unfold Files.explRefresh at hc
        unfold Files.refreshFits
        cases hd : fs.dir with
        | notOpened => trivial
        | notRead =>
          rw [hd] at hc
          have hc0 : 0 ≤ f.desk.expl.cursor ∧ f.desk.expl.cursor < max 0 1 := hc
          show f.desk.expl.cursor = 0
          omega
        | entries l => exact hi ▸ Option.some_ne_none i
    · have hu' : ¬ fs.unlinked (pathOf ((f.touch [.entry f.desk.expl.cursor f.desk.expl.nEntries]).entries
          f.desk.expl.cursor.toNat).name) = true := hu
      rw [if_neg hu']
      exact ⟨fun _ => htouch.scroll hi fs.stray, fun hf => absurd (fun hc => absurd hc hu) hf⟩
  · rw [if_pos (.inr (not_lt.mp hlt))]
    exact ⟨fun _ => h.scroll hi fs.stray, fun hf => absurd (fun hc => absurd hc hlt) hf⟩

/-- a key for the list fits unless it takes the cursor out of an empty list -/
def Files.keyFits (f : Files) (fs : Fs) (ch : Byte) : Prop :=
  f.desk.expl.state = .list →
    (ch = GUI_KEY_PGDN ∨ ch = GUI_KEY_END → 0 < f.desk.expl.nEntries) ∧
      (ch = GUI_KEY_DEL → f.deleteFits fs)

theorem key_iff (h : f.Inv) (hi : f.desk.expl.winId = some i) (fs : Fs) (ch : Byte) :
    (f.keyFits fs ch → (f.explKey fs ch).1.Inv) ∧
      (¬ f.keyFits fs ch → ¬ (f.explKey fs ch).1.Ok) := by
  obtain ⟨r, hrows⟩ := explWindowRows_some hi
  have h1 : (f.touch [.window i.val]).Inv := h.touch (inRange_slot i)
  have hr : 1 ≤ if r < 1 then 1 else r := by split_ifs <;> omega
  unfold Files.explKey Files.keyFits
  rw [hrows]
  simp only
  by_cases hv : f.desk.expl.state = .view
  · have hv' : (f.touch [.window i.val]).desk.expl.state = .view := hv
    rw [if_pos hv']
    have hinv : ((f.touch [.window i.val]).viewKey (if r < 1 then 1 else r) ch).Inv := by
      obtain ⟨row, st, heq⟩ := viewKey_spec (f := f.touch [.window i.val]) hi (if r < 1 then 1 else r) ch
      rw [heq]
      refine ⟨?_, (h1.touch (inRange_slot i)).inRange⟩
      exact h.kept.congr ⟨rfl, rfl, rfl, rfl⟩ (SameWindows.refl _)
    refine ⟨fun _ => hinv, fun hf => absurd (fun hl => ?_) hf⟩
    rw [hv] at hl
    exact absurd hl (by decide)
  · have hv' : ¬ (f.touch [.window i.val]).desk.expl.state = .view := hv
    have hl : f.desk.expl.state = .list := by
      cases hs : f.desk.expl.state with
      | list => rfl
      | view => exact absurd hs hv
    rw [if_neg hv', forall_prop_of_true hl]
    by_cases hdel : ch = GUI_KEY_DEL
    · rw [if_pos hdel]
      have hnot : ¬ (ch = GUI_KEY_PGDN ∨ ch = GUI_KEY_END) := by
        rw [hdel]
        decide
      obtain ⟨hd1, hd2⟩ := delete_iff h1 hi fs
      constructor
      · rintro ⟨-, hf⟩
        exact hd1 (hf hdel)
      · intro hf
        exact hd2 fun hc => hf ⟨fun hk => absurd hk hnot, fun _ => hc⟩
    · rw [if_neg hdel]
      have hmove := movedCursor_iff ch (le_trans h.kept.scroll_nonneg h.kept.scroll_le)
        h.kept.cursor_lt h.kept.nEntries_nonneg hr
      constructor
      · rintro ⟨hf, -⟩
        obtain ⟨hc, hlt⟩ := hmove.mpr hf
        refine inv_scroll h1 hi h.kept.nEntries_nonneg hc hlt ?_ ?_ fs.stray
        · rfl
        · exact h1.inRange
      · intro hf
        refine not_ok_cursor (fun hc => hf ?_) fs.stray
        exact ⟨hmove.mp hc, fun hc => absurd hc hdel⟩

/-! ## the view, and drawing -/

theorem Files.Inv.congr (h : f.Inv) (he : SameList f.desk.expl f'.desk.expl)
    (hw : f'.desk.windows = f.desk.windows) {l : List Access} (hl : ∀ a ∈ l, a.InRange)
    (ha : f'.accesses = f.accesses ++ l) : f'.Inv := by
  refine ⟨h.kept.congr he fun i hi => ?_, ?_⟩
  · rw [hw]
    exact ⟨hi, rfl⟩
  · rw [ha]
    exact inRange_append h.inRange hl

theorem Files.Inv.openView (h : f.Inv) (fs : Fs) (idx : Int) : (f.explOpenView fs idx).Inv := by
  unfold Files.explOpenView
  by_cases hidx : idx < 0 ∨ idx ≥ f.desk.expl.nEntries
  · simp only [if_pos hidx]
    exact h
  · have hin : ∀ a ∈ [Access.entry idx f.desk.expl.nEntries], a.InRange := by
      intro a ha
      rw [List.mem_singleton.mp ha]
      exact ⟨by omega, by omega⟩
    simp only [if_neg hidx]
    split_ifs
    · exact h.congr ⟨rfl, rfl, rfl, rfl⟩ rfl hin rfl
    · cases fs.file _ with
      | none => exact h.congr ⟨rfl, rfl, rfl, rfl⟩ rfl hin rfl
      | some bytes => exact h.congr ⟨rfl, rfl, rfl, rfl⟩ rfl hin rfl

theorem drawRows_inRange (n : Int) (k : Nat) (idx : Int) (h : 0 ≤ idx) :
    ∀ a ∈ drawRows n k idx, a.InRange := by
  induction k generalizing idx with
  | zero => exact fun a ha => absurd ha List.not_mem_nil
  | succ k ih =>
    rw [drawRows]
    split_ifs with hge
    · exact fun a ha => absurd ha List.not_mem_nil
    · intro a ha
      rcases List.mem_cons.mp ha with rfl | ha
      · exact ⟨h, by omega⟩
      · exact ih (idx + 1) (by omega) a ha

theorem Files.Inv.drawExplorer (h : f.Inv) (hi : f.desk.expl.winId = some i) :
    (f.wmDrawExplorer i).Inv ∧ (f.wmDrawExplorer i).desk = f.desk := by
  have hrows : ∃ rows, (f.touch [.window i.val]).wmExplVisibleRows 0 =
      (rows, (f.touch [.window i.val]).touch [.window i.val]) := by
    refine ⟨_, Prod.ext rfl ?_⟩
    show (f.touch [.window i.val]).touch [.window (f.touch [.window i.val]).winId] = _
    rw [winId_some (f := f.touch [.window i.val]) hi]
  obtain ⟨rows, hr⟩ := hrows
  have h2 := (h.touch (inRange_slot i)).touch (inRange_slot i)
  unfold Files.wmDrawExplorer
  rw [hr]
  simp only
  split_ifs
  · exact ⟨h2, rfl⟩
  · exact ⟨h2, rfl⟩
  · exact ⟨h2.touch (drawRows_inRange _ _ _ h.kept.scroll_nonneg), rfl⟩

theorem Files.Inv.drawWindow (h : f.Inv) (i : Slot) : (f.wmDrawWindow i).Inv := by
  have h1 := h.touch (inRange_slot i)
  unfold Files.wmDrawWindow
  simp only
  split_ifs with hs he
  · exact h1
  · exact (h1.drawExplorer he).1
  · exact h1

theorem Files.Inv.paint (h : f.Inv) : f.wmPaintAll.Inv := by
  have hfold : ∀ (l : List Slot) (f : Files), f.Inv → (l.foldl Files.wmDrawWindow f).Inv := by
    intro l
    induction l with
    | nil => exact fun f h => h
    | cons i l ih => exact fun f h => ih _ (h.drawWindow i)
  exact hfold _ f h

/-! ## the run -/

/-- the events that keep the selection: no End and no Page Down in an empty list, no directory that
cannot be read while the cursor stands above 0, none that can be read while there is no window -/
def Files.fits (f : Files) : Event → Prop
  | .key fs ch => f.focused = true → f.keyFits fs ch
  | .refresh fs => f.refreshFits fs
  | _ => True

theorem clickAccesses_inRange (f : Files) (c : Call) : ∀ a ∈ f.clickAccesses c, a.InRange := by
  have hhit : ∀ o : Option Slot, ∀ a ∈ (o.map fun i => Access.window i.val).toList, a.InRange := by
    intro o
    cases o with
    | none => exact fun a ha => absurd ha List.not_mem_nil
    | some i => exact inRange_slot i
  cases c with
  | handleClick x y => exact hhit _
  | updateMouse dx dy buttons => exact hhit _
  | _ => exact fun a ha => absurd ha List.not_mem_nil

theorem step_spec (h : f.Inv) (e : Event) :
    (f.fits e → (f.step e).Inv) ∧ (¬ f.fits e → ¬ (f.step e).Ok) := by
  cases e with
  | key fs ch =>
    by_cases hfoc : f.focused = true
    · obtain ⟨i, hi⟩ := Option.isSome_iff_exists.mp (of_decide_eq_true hfoc).1
      show (_ → (if f.focused then _ else _ : Files).Inv) ∧ (_ → ¬ (if f.focused then _ else _ : Files).Ok)
      rw [if_pos hfoc]
      obtain ⟨h1, h2⟩ := key_iff h hi fs ch
      exact ⟨fun hf => h1 (hf hfoc), fun hf => h2 fun hk => hf fun _ => hk⟩
    · show (_ → (if f.focused then _ else _ : Files).Inv) ∧ _
      rw [if_neg hfoc]
      exact ⟨fun _ => h, fun hf => absurd (fun hc => absurd hc hfoc) hf⟩
  | refresh fs => exact ⟨h.refresh, not_ok_refresh h⟩
  | openView fs idx => exact ⟨fun _ => h.openView fs idx, fun hf => absurd trivial hf⟩
  | esc =>
    refine ⟨fun _ => ?_, fun hf => absurd trivial hf⟩
    show (if f.desk.expl.state = .view ∧ f.focused then _ else _ : Files).Inv
    split_ifs
    · exact h.congr ⟨rfl, rfl, rfl, rfl⟩ rfl (l := []) (fun a ha => absurd ha List.not_mem_nil)
        (List.append_nil _).symm
    · exact h.congr ⟨rfl, rfl, rfl, rfl⟩ rfl (l := []) (fun a ha => absurd ha List.not_mem_nil)
        (List.append_nil _).symm
  | paint => exact ⟨fun _ => h.paint, fun hf => absurd trivial hf⟩
  | call c =>
    exact ⟨fun _ => ⟨h.kept.call c, inRange_append h.inRange (clickAccesses_inRange f c)⟩,
      fun hf => absurd trivial hf⟩

/-- the desktop at its start -/
def Files.start (f : Files) : Files := { f with desk := f.desk.wmInit, accesses := [] }

theorem inv_start (f : Files) : f.start.Inv where
  kept :=
    { scroll_nonneg := le_refl _
      scroll_le := le_refl _
      cursor_lt := by
        show (0 : Int) < max 0 1
        decide
      visible := fun i hi => absurd hi (by simp [Files.start, Desktop.wmInit])
      nEntries_nonneg := le_refl _
      window := fun i hi => absurd hi (by simp [Files.start, Desktop.wmInit]) }
  inRange := fun a ha => absurd ha List.not_mem_nil

/-- **The selection stays in range** along a run, and nothing is indexed outside of `entries[]` and
`windows[]`, exactly if every event fits where it happens. -/
theorem selection_iff (f : Files) (es : List Event) :
    Run.Always (fun f e f' => f' = f.step e) (fun _ _ f' => f'.Ok) f.start es ↔
      Run.Always (fun f e f' => f' = f.step e) (fun f e _ => f.fits e) f.start es := by
  refine Run.Always.iff_of_inv (I := Files.Inv) ?_ ?_ es f.start (inv_start f)
  · rintro f e _ h rfl
    obtain ⟨h1, h2⟩ := step_spec h e
    exact ⟨fun hok => by_contra fun hf => h2 hf hok, fun hf => (h1 hf).ok⟩
  · rintro f e _ h rfl hf
    exact (step_spec h e).1 hf

/-! ## End in an empty directory -/

/-- a root directory with no files -/
def emptyRoot : Fs where
  dir := .entries []
  stat := fun _ => none
  file := fun _ => none
  unlinked := fun _ => false
  stray := 0

/-- the memory before the desktop starts -/
def noFiles : Files where
  desk :=
    { windows := fun _ => ⟨0, 0, 0, 0, .closed, 0, []⟩
      activeWindow := none, mouseX := 0, mouseY := 0, mouseButtons := 0
      dragWindow := none, dragOffsetX := 0, dragOffsetY := 0, running := 0
      term := ⟨fun _ _ => 0, 0, 0, none⟩
      expl := ⟨none, .list, 0, 0, 0, 0, 0, []⟩ }
  entries := fun _ => ⟨0, 0, .unknown, []⟩
  view := []
  accesses := []

/-- `case GUI_KEY_END` in the list -/
theorem endKey_cursor (hf : f.focused) (hi : f.desk.expl.winId = some i)
    (hl : f.desk.expl.state = .list) (fs : Fs) :
    (f.step (.key fs GUI_KEY_END)).desk.expl.cursor = f.desk.expl.nEntries - 1 := by
  obtain ⟨rows, hrows⟩ := explWindowRows_some hi
  have hview : ¬ (f.touch [.window i.val]).desk.expl.state = .view := by
    show ¬ f.desk.expl.state = .view
    rw [hl]
    decide
  show (if f.focused then (f.explKey fs GUI_KEY_END).1 else f).desk.expl.cursor = _
  rw [if_pos hf]
  unfold Files.explKey
  rw [hrows]
  simp only [if_neg hview]
  rw [(scrollToCursor_spec _ fs.stray).2.2.1]
  rfl

/-- the explorer is opened with an empty list, and End takes the cursor to -1 -/
theorem selection_fails :
    ¬ Run.Always (fun f e f' => f' = f.step e) (fun _ _ f' => f'.Ok) noFiles.start
      [.call (.explOpen 8 8 288 584 []), .refresh emptyRoot, .key emptyRoot GUI_KEY_END] := by
  intro h
  obtain ⟨-, h⟩ := h _ rfl
  obtain ⟨-, h⟩ := h _ rfl
  obtain ⟨hok, -⟩ := h _ rfl
  -- the explorer is in slot 0, it has the focus and no entries
  have hc : (((noFiles.start.step (.call (.explOpen 8 8 288 584 []))).step
      (.refresh emptyRoot)).step (.key emptyRoot GUI_KEY_END)).desk.expl.cursor = 0 - 1 :=
    endKey_cursor (i := 0) (by decide +kernel) (by decide +kernel) (by decide +kernel) emptyRoot
  have h1 := le_trans hok.selection.scroll_nonneg hok.selection.scroll_le
  rw [hc] at h1
  exact absurd h1 (by decide)

end Noxis.Wm
