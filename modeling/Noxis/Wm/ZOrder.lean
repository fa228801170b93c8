import Noxis.Wm.Desktop

/-!
# The stacking order is a stack

* `Layered d st`                 the numbers of the table `d` are the stack `st`, the bottom first
* `SamePlaces`                   windows that differ in their numbers and titles alone
* `SortedBut.restack`            what `wm_restack` makes of a sorted table
* `Call.effect`                  what a call does to the stack
* `zOrder_refines`               every run keeps the table and the stack in step
-/

namespace Noxis.Wm

open Noxis.Layers

variable {d d' : Desktop} {st : List Slot} {i j : Slot} {z : Slot → Int} {key : Slot}

/-! ## the insertion sort -/

theorem insertKey_eq (l : List Slot) :
    insertKey z key l = l.orderedInsert (fun a b => z b ≤ z a) key := by
  induction l with
  | nil => rfl
  | cons j js ih =>
    rw [insertKey, List.orderedInsert_cons, ih]
    by_cases hlt : z key < z j
    · rw [if_pos hlt, if_neg (by omega)]
    · rw [if_neg hlt, if_pos (by omega)]

theorem sortByZ_eq (l : List Slot) :
    sortByZ z l = (l.reverse.insertionSort fun a b => z b ≤ z a).reverse := by
  have hstep : (fun done key => insertKey z key done) =
      fun done key => List.orderedInsert (fun a b => z b ≤ z a) key done := by
    funext done key
    exact insertKey_eq done
  rw [sortByZ, hstep, ← List.foldr_reverse]
  rfl

theorem sortByZ_perm (l : List Slot) : (sortByZ z l).Perm l := by
  rw [sortByZ_eq]
  exact (List.reverse_perm _).trans ((List.perm_insertionSort _ _).trans (List.reverse_perm l))

theorem sortByZ_sorted (l : List Slot) : (sortByZ z l).Pairwise fun a b => z a ≤ z b := by
  rw [sortByZ_eq, List.pairwise_reverse]
  have : Std.Total fun a b : Slot => z b ≤ z a := ⟨fun a b => le_total (z b) (z a)⟩
  have : IsTrans Slot fun a b => z b ≤ z a := ⟨fun a b c hab hbc => le_trans hbc hab⟩
  exact List.pairwise_insertionSort _ _

/-! ## numbers in the table -/

theorem isNormal_iff : d.isNormal i = true ↔ (d.windows i).state = .normal := decide_eq_true_iff

theorem setWindow_same (i : Slot) (w : Window) : (d.setWindow i w).windows i = w := by
  show Function.update d.windows i w i = w
  rw [Function.update_self]

theorem setWindow_ne (h : j ≠ i) (w : Window) : (d.setWindow i w).windows j = d.windows j := by
  show Function.update d.windows i w j = d.windows j
  rw [Function.update_of_ne h]

theorem renumber_apply (ws : Slot → Window) (l : List Slot) (k : Int) (i : Slot) :
    renumber ws l k i = { ws i with zOrder := number (fun j => (ws j).zOrder) l k i } := by
  induction l generalizing ws k with
  | nil => rfl
  | cons j l ih =>
    have hz : (fun i => (Function.update ws j { ws j with zOrder := k } i).zOrder) =
        Function.update (fun i => (ws i).zOrder) j k := by
      funext i
      by_cases hi : i = j
      · rw [hi, Function.update_self, Function.update_self]
      · rw [Function.update_of_ne hi, Function.update_of_ne hi]
    rw [renumber, ih, hz, number]
    by_cases hi : i = j
    · rw [hi, Function.update_self]
    · rw [Function.update_of_ne hi]

/-- **the numbers of the table are a stack**, the bottom first -/
structure Layered (d : Desktop) (st : List Slot) : Prop where
  nodup : st.Nodup
  mem : ∀ i, i ∈ st ↔ (d.windows i).state = .normal
  numbered : Numbered d.zOrder st 1
  rest : ∀ i, (d.windows i).state ≠ .normal → (d.windows i).state = .closed ∧ d.zOrder i = 0

/-- the two tables have one stacking order -/
def SameOrder (d d' : Desktop) : Prop :=
  ∀ i, (d'.windows i).state = (d.windows i).state ∧ d'.zOrder i = d.zOrder i

theorem SameOrder.trans {d'' : Desktop} (h : SameOrder d d') (h' : SameOrder d' d'') :
    SameOrder d d'' :=
  fun i => ⟨(h' i).1.trans (h i).1, (h' i).2.trans (h i).2⟩

theorem Layered.congr (h : Layered d st) (hd : SameOrder d d') : Layered d' st where
  nodup := h.nodup
  mem i := by rw [h.mem, (hd i).1]
  numbered := h.numbered.congr fun i _ => (hd i).2
  rest i hi := by
    rw [(hd i).1] at hi ⊢
    rw [(hd i).2]
    exact h.rest i hi

/-- a table that is sorted by its numbers, apart from one window -/
structure SortedBut (d : Desktop) (front : Option Slot) (st : List Slot) : Prop where
  nodup : st.Nodup
  mem : ∀ i, i ∈ st ↔ some i ≠ front ∧ (d.windows i).state = .normal
  sorted : st.Pairwise fun a b => d.zOrder a < d.zOrder b
  rest : ∀ i, (d.windows i).state ≠ .normal → (d.windows i).state = .closed ∧ d.zOrder i = 0

/-- the list that the sort starts from gives the stack -/
theorem sortByZ_slots (hn : st.Nodup) (hs : st.Pairwise fun a b => z a < z b) {p : Slot → Bool}
    (hp : ∀ i, i ∈ st ↔ p i = true) : sortByZ z (slots.filter p) = st := by
  refine eq_of_sorted (sortByZ_sorted _) hs ((sortByZ_perm _).trans ?_)
  refine (List.perm_ext_iff_of_nodup (nodup_slots.filter p) hn).mpr fun i => ?_
  rw [List.mem_filter, hp]
  exact and_iff_right (mem_slots i)

theorem SortedBut.order_eq {front : Option Slot} (h : SortedBut d front st) :
    sortByZ d.zOrder (slots.filter fun i => some i ≠ front ∧ d.isNormal i) = st := by
  refine sortByZ_slots h.nodup h.sorted fun i => ?_
  rw [h.mem, decide_eq_true_iff, isNormal_iff]

/-! ## restacking -/

/-- the windows differ in their numbers and titles alone -/
def SamePlaces (ws ws' : Slot → Window) : Prop :=
  ∀ i, ws' i = { ws i with zOrder := (ws' i).zOrder, title := (ws' i).title }

theorem SamePlaces.refl (ws : Slot → Window) : SamePlaces ws ws := fun _ => rfl

theorem SamePlaces.trans {ws ws' ws'' : Slot → Window} (h : SamePlaces ws ws')
    (h' : SamePlaces ws' ws'') : SamePlaces ws ws'' := by
  intro i
  rw [h' i, h i]

theorem SamePlaces.state {ws ws' : Slot → Window} (h : SamePlaces ws ws') (i : Slot) :
    (ws' i).state = (ws i).state := by
  rw [h i]

theorem restack_spec (d : Desktop) (front : Option Slot) :
    ∃ ws, d.wmRestack front = { d with windows := ws } ∧ SamePlaces d.windows ws := by
  unfold Desktop.wmRestack
  cases front.filter d.isNormal with
  | none =>
    refine ⟨_, rfl, fun i => ?_⟩
    rw [renumber_apply]
  | some j =>
    refine ⟨_, rfl, fun i => ?_⟩
    by_cases hi : i = j
    · rw [hi, Function.update_self, renumber_apply]
    · rw [Function.update_of_ne hi, renumber_apply]

theorem wmRestack_state (front : Option Slot) (i : Slot) :
    ((d.wmRestack front).windows i).state = (d.windows i).state := by
  obtain ⟨ws, heq, hws⟩ := restack_spec d front
  rw [heq]
  exact hws.state i

theorem SortedBut.zOrder_none (h : SortedBut d none st) :
    (d.wmRestack none).zOrder = number d.zOrder st 1 := by
  funext i
  show (renumber d.windows (sortByZ d.zOrder
    (slots.filter fun i => some i ≠ none ∧ d.isNormal i)) 1 i).zOrder = _
  rw [h.order_eq, renumber_apply]
  rfl

theorem SortedBut.zOrder_some (hi : (d.windows i).state = .normal) (h : SortedBut d (some i) st) :
    (d.wmRestack (some i)).zOrder = Function.update (number d.zOrder st 1) i (st.length + 1) := by
  have hfront : (some i).filter d.isNormal = some i :=
    Option.filter_some_pos (decide_eq_true hi)
  funext j
  unfold Desktop.zOrder Desktop.wmRestack
  rw [hfront]
  show (Function.update (renumber d.windows (sortByZ d.zOrder
    (slots.filter fun j => some j ≠ some i ∧ d.isNormal j)) 1) i _ j).zOrder = _
  by_cases hj : j = i
  · rw [hj, Function.update_self, Function.update_self, h.order_eq]
  · rw [Function.update_of_ne hj, Function.update_of_ne hj, h.order_eq, renumber_apply]

/-- without a front window the numbers close their gaps -/
theorem SortedBut.restack (h : SortedBut d none st) : Layered (d.wmRestack none) st := by
  refine ⟨h.nodup, fun i => ?_, ?_, fun i hi => ?_⟩
  · rw [wmRestack_state, h.mem]
    exact and_iff_right nofun
  · rw [h.zOrder_none]
    exact numbered_number h.nodup
  · rw [wmRestack_state] at hi ⊢
    have hnot : i ∉ st := fun hmem => hi ((h.mem i).mp hmem).2
    rw [h.zOrder_none, number_of_notMem hnot]
    exact h.rest i hi

/-- the front window gets the number above all others -/
theorem SortedBut.restack_front (hi : (d.windows i).state = .normal)
    (h : SortedBut d (some i) st) : Layered (d.wmRestack (some i)) (st ++ [i]) := by
  have hnot : i ∉ st := fun hmem => ((h.mem i).mp hmem).1 rfl
  refine ⟨List.nodup_append.mpr ⟨h.nodup, List.nodup_singleton i, ?_⟩, fun j => ?_, ?_,
    fun j hj => ?_⟩
  · intro a ha b hb hab
    rw [List.mem_singleton.mp hb] at hab
    exact hnot (hab ▸ ha)
  · rw [List.mem_append, List.mem_singleton, h.mem, wmRestack_state]
    by_cases hj : j = i
    · rw [hj]
      exact iff_of_true (.inr rfl) hi
    · rw [or_iff_left hj]
      exact and_iff_right fun he => hj (Option.some.inj he)
  · have hnum : Numbered (number d.zOrder st 1) st 1 := numbered_number h.nodup
    rw [h.zOrder_some hi]
    refine (hnum.congr fun j hj => ?_).append ?_
    · have hji : j ≠ i := fun he => hnot (he ▸ hj)
      exact Function.update_of_ne hji _ _
    · rw [Function.update_self]
      omega
  · rw [wmRestack_state] at hj ⊢
    have hji : j ≠ i := fun he => hj (he ▸ hi)
    have hjn : j ∉ st := fun hmem => hj ((h.mem j).mp hmem).2
    rw [h.zOrder_some hi, Function.update_of_ne hji, number_of_notMem hjn]
    exact h.rest j hj

/-- a window of the stack comes to the top -/
theorem Layered.restack_raise (h : Layered d st) (hi : (d.windows i).state = .normal) :
    Layered (d.wmRestack (some i)) (raise st i) := by
  rw [raise_of_mem ((h.mem i).mpr hi)]
  refine SortedBut.restack_front hi ⟨h.nodup.erase i, fun j => ?_, ?_, h.rest⟩
  · rw [h.nodup.mem_erase_iff, h.mem]
    exact and_congr_left fun _ => not_congr (Option.some_inj).symm
  · exact h.numbered.pairwise.sublist List.erase_sublist

/-! ## what a call does to the stack -/

/-- a new window gets the first slot that the stack does not use and goes on top -/
def push (st : List Slot) : List Slot :=
  (slots.find? (· ∉ st)).elim st fun i => st ++ [i]

/-- the window under the point comes to the top -/
def click (d : Desktop) (st : List Slot) (x y : Int) : List Slot :=
  (topmost (fun i => (d.windows i).contains x y) st).elim st (raise st)

/-- what a call does to the stack of windows -/
def Call.effect (d : Desktop) (st : List Slot) : Call → List Slot
  | .createWindow .. => push st
  | .closeWindow winId => (slot? winId).elim st st.erase
  | .focusWindow winId => (slot? winId).elim st (raise st)
  | .handleClick x y => click d st x y
  | .updateMouse dx dy buttons =>
    if left buttons ∧ ¬ left d.mouseButtons then
      click d st (d.moveMouse dx dy).mouseX (d.moveMouse dx dy).mouseY
    else st
  | .termOpen _ => push st
  | .explOpen .. => push st

/-- the stack after a list of calls -/
def stackOf (d : Desktop) (st : List Slot) : List Call → List Slot
  | [] => st
  | c :: cs => stackOf (d.call c) (c.effect d st) cs

/-! ## hit test -/

/-- the search has found the largest number among the hits so far -/
theorem hitFold_spec {x y : Int} (l : List Slot) (best : Option Slot × Int) :
    let r := l.foldl (d.hitStep x y) best
    best.2 ≤ r.2 ∧
    (∀ i ∈ l, d.isNormal i → (d.windows i).contains x y → d.zOrder i ≤ r.2) ∧
    (r = best ∨ ∃ i ∈ l, d.isNormal i ∧ (d.windows i).contains x y ∧ r = (some i, d.zOrder i)) := by
  induction l generalizing best with
  | nil => exact ⟨le_refl _, fun i hi => (nomatch hi), .inl rfl⟩
  | cons j l ih =>
    obtain ⟨hle, hall, hres⟩ := ih (d.hitStep x y best j)
    rw [List.foldl_cons]
    by_cases hj : d.isNormal j ∧ (d.windows j).contains x y ∧ best.2 < d.zOrder j
    · have hstep : d.hitStep x y best j = (some j, d.zOrder j) := if_pos hj
      rw [hstep] at hle hall hres ⊢
      refine ⟨hj.2.2.le.trans hle, fun i hi hn hc => ?_, .inr ?_⟩
      · rcases List.mem_cons.mp hi with rfl | hi
        · exact hle
        · exact hall i hi hn hc
      · rcases hres with hres | ⟨i, hi, hn, hc, hres⟩
        · exact ⟨j, List.mem_cons_self, hj.1, hj.2.1, hres⟩
        · exact ⟨i, List.mem_cons_of_mem j hi, hn, hc, hres⟩
    · have hstep : d.hitStep x y best j = best := if_neg hj
      rw [hstep] at hle hall hres ⊢
      refine ⟨hle, fun i hi hn hc => ?_, ?_⟩
      · rcases List.mem_cons.mp hi with rfl | hi
        · have hjle : d.zOrder i ≤ best.2 := by
            by_contra hlt
            exact hj ⟨hn, hc, by omega⟩
          exact hjle.trans hle
        · exact hall i hi hn hc
      · rcases hres with hres | ⟨i, hi, hn, hc, hres⟩
        · exact .inl hres
        · exact .inr ⟨i, List.mem_cons_of_mem j hi, hn, hc, hres⟩

theorem Layered.zOrder_pos (h : Layered d st) (hi : i ∈ st) : 1 ≤ d.zOrder i :=
  h.numbered.le_of_mem hi

/-- `wm_hit_test` finds the topmost window of the stack -/
theorem Layered.hitTest (h : Layered d st) (x y : Int) :
    d.wmHitTest x y = topmost (fun i => (d.windows i).contains x y) st := by
  obtain ⟨-, hall, hres⟩ := hitFold_spec (d := d) (x := x) (y := y) slots (none, -1)
  have hn : ∀ i, d.isNormal i = true ↔ i ∈ st := fun i => by
    rw [h.mem, isNormal_iff]
  show (slots.foldl (d.hitStep x y) (none, -1)).1 = _
  rcases hres with hres | ⟨i, -, hi, hc, hres⟩
  · rw [hres] at hall ⊢
    refine (topmost_eq_none fun i hi hc => ?_).symm
    have hle := hall i (mem_slots i) ((hn i).mpr hi) hc
    have hpos := h.zOrder_pos hi
    change d.zOrder i ≤ -1 at hle
    omega
  · rw [hres] at hall ⊢
    refine (topmost_eq_some h.numbered.pairwise ((hn i).mp hi) hc fun j hj hcj => ?_).symm
    exact hall j (mem_slots j) ((hn j).mpr hj) hcj

/-! ## painting -/

/-- `wm_paint_all` draws the stack from the bottom to the top -/
theorem Layered.paintAll (h : Layered d st) :
    d.wmPaintAll = .desktop :: st.map .window ++ [.cursor] := by
  have hn : ∀ i, i ∈ st ↔ d.isNormal i = true := fun i => by
    rw [h.mem, isNormal_iff]
  rw [Desktop.wmPaintAll, sortByZ_slots h.nodup h.numbered.pairwise hn]
  have hdraw : st.flatMap d.wmDrawWindow = st.flatMap fun i => [Paint.window i] := by
    refine List.flatMap_congr fun i hi => ?_
    rw [Desktop.wmDrawWindow, (h.mem i).mp hi]
    exact if_neg nofun
  rw [hdraw, List.map_eq_flatMap]

/-! ## one call -/

theorem slot?_val (i : Slot) : slot? (i.val : Int) = some i := by
  have hi : (0 : Int) ≤ i.val ∧ (i.val : Int) < wmMaxWindows := by
    have hlt := i.isLt
    omega
  exact dif_pos hi

theorem Layered.closed (h : Layered d st) (hi : i ∉ st) :
    (d.windows i).state = .closed ∧ d.zOrder i = 0 :=
  h.rest i fun hn => hi ((h.mem i).mpr hn)

theorem SortedBut.congr {front : Option Slot} (h : SortedBut d front st) (hd : SameOrder d d') :
    SortedBut d' front st where
  nodup := h.nodup
  mem i := by rw [h.mem, (hd i).1]
  sorted := h.sorted.imp fun hlt => by rwa [(hd _).2, (hd _).2]
  rest i hi := by
    rw [(hd i).1] at hi ⊢
    rw [(hd i).2]
    exact h.rest i hi

/-- a window that keeps its state and its number may change in every other respect -/
theorem SameOrder.setWindow {w : Window} (hs : w.state = (d.windows i).state)
    (hz : w.zOrder = d.zOrder i) : SameOrder d (d.setWindow i w) := by
  intro j
  unfold Desktop.zOrder
  by_cases hj : j = i
  · rw [hj, setWindow_same]
    exact ⟨hs, hz⟩
  · rw [setWindow_ne hj]
    exact ⟨rfl, rfl⟩

/-- the slot of a new window is free -/
theorem freeSlot_closed (h : d.freeSlot = some i) : (d.windows i).state = .closed := by
  have hp := List.find?_some (p := fun i => (d.windows i).state = .closed) h
  exact of_decide_eq_true hp

theorem Layered.focus (h : Layered d st) (winId : Int) :
    Layered (d.wmFocusWindow winId) ((slot? winId).elim st (raise st)) := by
  unfold Desktop.wmFocusWindow
  cases slot? winId with
  | none => exact h
  | some i =>
    show Layered (if d.isNormal i then _ else d) (raise st i)
    by_cases hi : (d.windows i).state = .normal
    · rw [if_pos (isNormal_iff.mpr hi)]
      exact (h.restack_raise hi).congr fun _ => ⟨rfl, rfl⟩
    · rw [if_neg fun hn => hi (isNormal_iff.mp hn)]
      rwa [raise_of_notMem fun hmem => hi ((h.mem i).mp hmem)]

theorem Layered.freeSlot (h : Layered d st) : d.freeSlot = slots.find? (· ∉ st) := by
  have hp : (fun i => decide ((d.windows i).state = .closed)) = fun i => decide (i ∉ st) := by
    funext i
    refine decide_eq_decide.mpr ⟨fun hc hmem => ?_, fun hi => (h.closed hi).1⟩
    rw [(h.mem i).mp hmem] at hc
    cases hc
  rw [Desktop.freeSlot, hp]

/-- a window that is put into a slot outside the stack goes on top -/
theorem Layered.enter (h : Layered d st) (hi : i ∉ st) {w : Window} (hw : w.state = .normal) :
    Layered ((d.setWindow i w).wmRestack (some i)) (st ++ [i]) := by
  have hne : ∀ j ∈ st, j ≠ i := fun j hj he => hi (he ▸ hj)
  have hz : ∀ j, j ≠ i → (d.setWindow i w).zOrder j = d.zOrder j := fun j hj =>
    congrArg Window.zOrder (setWindow_ne hj w)
  refine SortedBut.restack_front ?_ ⟨h.nodup, fun j => ?_, ?_, fun j hj => ?_⟩
  · rw [setWindow_same, hw]
  · by_cases hj : j = i
    · rw [hj]
      exact iff_of_false hi fun hc => hc.1 rfl
    · rw [h.mem, setWindow_ne hj]
      exact (and_iff_right fun he => hj (Option.some.inj he)).symm
  · refine h.numbered.pairwise.imp_of_mem fun {a b} ha hb hab => ?_
    rwa [hz a (hne a ha), hz b (hne b hb)]
  · by_cases hji : j = i
    · rw [hji, setWindow_same] at hj
      exact absurd hw hj
    · rw [setWindow_ne hji] at hj ⊢
      rw [hz j hji]
      exact h.rest j hj

/-- the new window is the one that `wm_create_window` returns -/
theorem Layered.create (h : Layered d st) (x y w ht : Int) (title : List UInt8) :
    (d.wmCreateWindow x y w ht title).2 = slots.find? (· ∉ st) ∧
    Layered (d.wmCreateWindow x y w ht title).1 (push st) := by
  unfold Desktop.wmCreateWindow push
  rw [h.freeSlot]
  cases hfree : slots.find? (· ∉ st) with
  | none => exact ⟨rfl, h⟩
  | some i =>
    have hfound := List.find?_some hfree
    exact ⟨rfl, (h.enter (of_decide_eq_true hfound) rfl).congr (SameOrder.setWindow rfl rfl)⟩

/-- the focus of a window that is already on top moves nothing -/
theorem Layered.create_focus (hc : Layered d' (push st))
    (hi : slots.find? (· ∉ st) = some i) : Layered (d'.wmFocusWindow i.val) (push st) := by
  have hfound := List.find?_some hi
  have hfocus := hc.focus i.val
  rw [slot?_val] at hfocus
  rw [push, hi] at hfocus ⊢
  rwa [Option.elim_some, Option.elim_some, raise_append_self (of_decide_eq_true hfound)] at hfocus

theorem Layered.termOpen (h : Layered d st) (title : List UInt8) :
    Layered (d.wmTermOpen title) (push st) := by
  obtain ⟨hid, hc⟩ := h.create wmTermWinX wmTermWinY wmTermWinW wmTermWinH title
  unfold Desktop.wmTermOpen
  cases hr : d.wmCreateWindow wmTermWinX wmTermWinY wmTermWinW wmTermWinH title with
  | mk d₁ id =>
    rw [hr] at hid hc
    cases id with
    | none => exact hc
    | some i =>
      show Layered (Desktop.wmFocusWindow _ i.val) (push st)
      exact Layered.create_focus (hc.congr fun _ => ⟨rfl, rfl⟩) hid.symm

theorem Layered.explOpen (h : Layered d st) (x y w ht : Int) (title : List UInt8) :
    Layered (d.wmExplOpen x y w ht title) (push st) := by
  obtain ⟨hid, hc⟩ := h.create x y w ht title
  unfold Desktop.wmExplOpen
  cases hr : d.wmCreateWindow x y w ht title with
  | mk d₁ id =>
    rw [hr] at hid hc
    cases id with
    | none => exact hc
    | some i =>
      show Layered (Desktop.wmFocusWindow _ i.val) (push st)
      exact Layered.create_focus (hc.congr fun _ => ⟨rfl, rfl⟩) hid.symm

theorem SameOrder.of_ite {c : Prop} [Decidable c] (h : SameOrder d d') :
    SameOrder d (if c then d' else d) := by
  by_cases hc : c
  · rwa [if_pos hc]
  · rw [if_neg hc]
    exact fun _ => ⟨rfl, rfl⟩

/-- a window that is closed leaves the stack -/
theorem Layered.leave (h : Layered d st) {w : Window} (hs : w.state = .closed)
    (hz : w.zOrder = 0) : SortedBut (d.setWindow i w) none (st.erase i) := by
  have hne : ∀ j ∈ st.erase i, j ≠ i ∧ j ∈ st := fun j hj => h.nodup.mem_erase_iff.mp hj
  have hzo : ∀ j, j ≠ i → (d.setWindow i w).zOrder j = d.zOrder j := fun j hj =>
    congrArg Window.zOrder (setWindow_ne hj w)
  refine ⟨h.nodup.erase i, fun j => ?_, ?_, fun j hj => ?_⟩
  · rw [h.nodup.mem_erase_iff, h.mem]
    by_cases hj : j = i
    · rw [hj, setWindow_same, hs]
      exact iff_of_false (fun hc => hc.1 rfl) fun hc => nomatch hc.2
    · rw [setWindow_ne hj]
      exact and_congr_left fun _ => iff_of_true hj nofun
  · refine (h.numbered.pairwise.sublist List.erase_sublist).imp_of_mem fun {a b} ha hb hab => ?_
    rwa [hzo a (hne a ha).1, hzo b (hne b hb).1]
  · by_cases hji : j = i
    · rw [hji, setWindow_same]
      refine ⟨hs, ?_⟩
      rw [Desktop.zOrder, setWindow_same, hz]
    · rw [setWindow_ne hji] at hj ⊢
      rw [hzo j hji]
      exact h.rest j hj

/-- the others close the gap -/
theorem Layered.close (h : Layered d st) (winId : Int) :
    Layered (d.wmCloseWindow winId) ((slot? winId).elim st st.erase) := by
  unfold Desktop.wmCloseWindow
  cases slot? winId with
  | none => exact h
  | some i =>
    have hleave : SortedBut (d.setWindow i { d.windows i with state := .closed, zOrder := 0 })
        none (st.erase i) := h.leave rfl rfl
    refine SortedBut.restack (hleave.congr ?_)
    refine SameOrder.trans ?_ (SameOrder.of_ite fun _ => ⟨rfl, rfl⟩)
    refine SameOrder.trans ?_ (SameOrder.of_ite fun _ => ⟨rfl, rfl⟩)
    exact SameOrder.of_ite fun _ => ⟨rfl, rfl⟩

/-! ## the mouse -/

theorem SameOrder.selectRow (d : Desktop) (i : Slot) (y : Int) : SameOrder d (d.selectRow i y) := by
  have hscroll : ∀ d : Desktop, (d.wmExplScrollToCursor i).windows = d.windows := by
    intro d
    unfold Desktop.wmExplScrollToCursor
    by_cases hr : d.wmExplVisibleRows i ≤ 0
    · simp only [if_pos hr]
    · simp only [if_neg hr]
  unfold Desktop.selectRow
  refine SameOrder.of_ite (SameOrder.of_ite fun j => ?_)
  unfold Desktop.zOrder
  rw [hscroll]
  exact ⟨rfl, rfl⟩

theorem Layered.click (h : Layered d st) (x y : Int) :
    Layered (d.wmHandleClick x y) (click d st x y) := by
  unfold Desktop.wmHandleClick Wm.click
  rw [h.hitTest]
  cases topmost (fun i => (d.windows i).contains x y) st with
  | none => exact h
  | some i =>
    have hfocus := h.focus i.val
    rw [slot?_val] at hfocus
    exact hfocus.congr (SameOrder.of_ite (SameOrder.selectRow _ i y))

theorem SameOrder.startDrag (d : Desktop) : SameOrder d d.startDrag := by
  unfold Desktop.startDrag
  cases d.activeWindow with
  | none => exact fun _ => ⟨rfl, rfl⟩
  | some i =>
    by_cases hy : d.mouseY < int ((d.windows i).y + wmTitleHeight)
    · simp only [if_pos hy]
      exact fun _ => ⟨rfl, rfl⟩
    · simp only [if_neg hy]
      exact fun _ => ⟨rfl, rfl⟩

theorem SameOrder.drag (d : Desktop) : SameOrder d d.drag := by
  unfold Desktop.drag
  cases d.dragWindow with
  | none => exact fun _ => ⟨rfl, rfl⟩
  | some i => exact SameOrder.setWindow rfl rfl

/-- a mouse report touches the order by a press alone -/
theorem Layered.mouse (h : Layered d st) (dx dy buttons : Int) :
    Layered (d.wmUpdateMouse dx dy buttons) ((Call.updateMouse dx dy buttons).effect d st) := by
  have hmove : Layered (d.moveMouse dx dy) st := h.congr fun _ => ⟨rfl, rfl⟩
  have hpress : Layered (if left buttons ∧ ¬ left d.mouseButtons then
        ((d.moveMouse dx dy).wmHandleClick (d.moveMouse dx dy).mouseX
          (d.moveMouse dx dy).mouseY).startDrag
      else d.moveMouse dx dy) ((Call.updateMouse dx dy buttons).effect d st) := by
    by_cases hb : left buttons ∧ ¬ left d.mouseButtons
    · rw [if_pos hb, Call.effect, if_pos hb]
      exact (hmove.click _ _).congr (SameOrder.startDrag _)
    · rw [if_neg hb, Call.effect, if_neg hb]
      exact hmove
  unfold Desktop.wmUpdateMouse
  refine hpress.congr (SameOrder.trans (SameOrder.of_ite (c := left buttons) (SameOrder.drag _)) ?_)
  intro i
  by_cases hb : left buttons
  · simp only [if_pos hb]
    exact ⟨rfl, rfl⟩
  · simp only [if_neg hb]
    exact ⟨rfl, rfl⟩

/-! ## runs -/

theorem Layered.call (h : Layered d st) (c : Call) : Layered (d.call c) (c.effect d st) := by
  cases c with
  | createWindow x y w ht title => exact (h.create x y w ht title).2
  | closeWindow winId => exact h.close winId
  | focusWindow winId => exact h.focus winId
  | handleClick x y => exact h.click x y
  | updateMouse dx dy buttons => exact h.mouse dx dy buttons
  | termOpen title => exact h.termOpen title
  | explOpen x y w ht title => exact h.explOpen x y w ht title

theorem Layered.init (d : Desktop) : Layered d.wmInit [] where
  nodup := List.nodup_nil
  mem _ := iff_of_false nofun nofun
  numbered := trivial
  rest _ _ := ⟨rfl, rfl⟩

theorem Layered.run (h : Layered d st) (cs : List Call) :
    Layered (cs.foldl Desktop.call d) (stackOf d st cs) := by
  induction cs generalizing d st with
  | nil => exact h
  | cons c cs ih => exact ih (h.call c)

/-- **The stacking order refines a stack of windows.**  After any calls the numbers of the windows
are `1 … N` along the stack that the calls build, closed windows have 0, the hit test finds the
highest window of the stack at the point, and the windows are painted from the bottom up. -/
theorem zOrder_refines (d₀ : Desktop) (cs : List Call) :
    let d := cs.foldl Desktop.call d₀.wmInit
    let st := stackOf d₀.wmInit [] cs
    (st.Nodup ∧ (∀ i, i ∈ st ↔ (d.windows i).state = .normal) ∧
      st.map d.zOrder = (List.range st.length).map fun n : Nat => 1 + (n : Int)) ∧
    (∀ i, (d.windows i).state ≠ .normal → (d.windows i).state = .closed ∧ d.zOrder i = 0) ∧
    (∀ x y w ht title, (d.wmCreateWindow x y w ht title).2 = slots.find? (· ∉ st)) ∧
    (∀ x y, d.wmHitTest x y = topmost (fun i => (d.windows i).contains x y) st) ∧
    d.wmPaintAll = .desktop :: st.map .window ++ [.cursor] := by
  have h : Layered (cs.foldl Desktop.call d₀.wmInit) (stackOf d₀.wmInit [] cs) :=
    (Layered.init d₀).run cs
  refine ⟨⟨h.nodup, h.mem, h.numbered.map_eq⟩, h.rest, fun x y w ht title => ?_, h.hitTest,
    h.paintAll⟩
  exact (h.create x y w ht title).1

end Noxis.Wm
