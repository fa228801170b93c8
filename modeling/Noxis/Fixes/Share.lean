import Noxis.Lib.Run
import Noxis.Lib.Rotation
import Noxis.Fixes.Transparent
import Mathlib.Algebra.BigOperators.Group.Finset.Basic
import Mathlib.Data.List.FinRange

/-!
# 23-fixes: weighted round robin gives the exact share

`Slice R w s c q`: the slots of `R` stay runnable with the weights `w`, all others are dead, and the
running slot `c` has `q` slices left.  A tick on such a state is one `Rotation.turn` (`Slice.tick`),
so the slots that get the CPU along a run are those of the rounds of `cyclic R c` (`exact_share`).
-/

namespace Noxis.Fixes
open Run Rotation

/-- the slots counted round and round -/
def slotAt (k : Nat) : Slot := Fin.ofNat maxTasks k

/-- the slots of `R` in slot order, from `c` on -/
def cyclic (R : Finset Slot) (c : Slot) : List Slot :=
  ((List.range' c.val maxTasks).map slotAt).filter (· ∈ R)

/-- the slot of `R` that follows `x` in slot order, `x` itself the last one -/
def nextSlot (R : Finset Slot) (x : Slot) : Slot :=
  (((List.range' (x.val + 1) maxTasks).find? fun k => slotAt k ∈ R).map slotAt).getD x

section
variable {R : Finset Slot} {c x : Slot} {a b : Nat}

theorem slotAt_val (k : Nat) : (slotAt k).val = k % 32 := rfl

theorem slotAt_self (x : Slot) : slotAt x.val = x := Fin.ext (Nat.mod_eq_of_lt x.isLt)

theorem slotAt_congr (h : a % 32 = b % 32) : slotAt a = slotAt b := Fin.ext h

/-- the next number of `R` is at most one round away -/
theorem next_le (h : Next (fun k => slotAt k ∈ R) a b) : b ≤ a + 32 := by
  by_contra hlt
  apply h.first (a + 32) (by omega) (by omega)
  rw [slotAt_congr (b := a) (by omega)]
  exact h.here

theorem nextSlot_eq (h : Next (fun k => slotAt k ∈ R) a b) : nextSlot R (slotAt a) = slotAt b := by
  have hle := next_le h
  have hlt := h.lt
  -- counted from the slot itself, not from `a`
  have hfind : ((List.range' ((slotAt a).val + 1) maxTasks).find? fun k => decide (slotAt k ∈ R)) =
      some (b - (a - a % 32)) := by
    rw [slotAt_val, List.find?_range'_eq_some]
    refine ⟨?_, ?_, fun j h1 h2 => ?_⟩
    · rw [decide_eq_true_eq, slotAt_congr (b := b) (by omega)]
      exact h.holds
    · rw [List.mem_range'_1]
      exact ⟨by omega, by show _ < a % 32 + 1 + 32; omega⟩
    · have hj := h.first (j + (a - a % 32)) (by omega) (by omega)
      rw [slotAt_congr (a := j + (a - a % 32)) (b := j) (by omega)] at hj
      simpa using hj
  unfold nextSlot
  rw [hfind]
  exact slotAt_congr (by omega)

/-- a slot of `R` has a next one -/
theorem exists_next (hc : c ∈ R) : ∃ b, Next (fun k => slotAt k ∈ R) c.val b := by
  have hend : slotAt (c.val + 1 + 31) ∈ R := by
    rw [slotAt_congr (b := c.val) (by omega), slotAt_self]
    exact hc
  obtain ⟨b, -, -, -, hb, hmem, hfirst⟩ :=
    isChain_filter_first (p := fun k => slotAt k ∈ R) (c.val + 1) 31 hend
  have hhere : slotAt c.val ∈ R := by
    rw [slotAt_self]
    exact hc
  exact ⟨b, hhere, hb, hmem, fun j h1 h2 => hfirst j h1 h2⟩

theorem cyclic_eq (R : Finset Slot) (c : Slot) :
    cyclic R c = ((List.range' c.val maxTasks).filter fun k => slotAt k ∈ R).map slotAt := by
  unfold cyclic
  rw [List.filter_map]
  rfl

/-- the slots of `R` follow one another, and `c` comes again -/
theorem cyclic_chain (hc : c ∈ R) :
    ∃ l, cyclic R c = c :: l ∧ List.IsChain (fun x y => nextSlot R x = y) (c :: l ++ [c]) := by
  have hself : slotAt c.val ∈ R := by
    rw [slotAt_self]
    exact hc
  have hend : slotAt (c.val + 32) ∈ R := by
    rw [slotAt_congr (b := c.val) (by omega)]
    exact hself
  have hchain := isChain_filter (p := fun k => slotAt k ∈ R) c.val 32 hend
  have hcons : (List.range' c.val 32).filter (fun k => slotAt k ∈ R) =
      c.val :: (List.range' (c.val + 1) 31).filter fun k => slotAt k ∈ R := by
    rw [List.range'_succ, List.filter_cons_of_pos (by simpa using hself)]
  rw [hcons] at hchain
  refine ⟨((List.range' (c.val + 1) 31).filter fun k => slotAt k ∈ R).map slotAt, ?_, ?_⟩
  · rw [cyclic_eq]
    show List.map slotAt ((List.range' c.val 32).filter _) = _
    rw [hcons, List.map_cons, slotAt_self]
  · have hmap := List.isChain_map_of_isChain slotAt
      (S := fun x y => nextSlot R x = y) (fun a b h => nextSlot_eq h) hchain
    rw [List.map_append, List.map_cons, List.map_singleton, slotAt_self,
      slotAt_congr (a := c.val + 32) (b := c.val) (by omega), slotAt_self] at hmap
    exact hmap

theorem mem_cyclic : x ∈ cyclic R c ↔ x ∈ R := by
  unfold cyclic
  rw [List.mem_filter, decide_eq_true_eq]
  constructor
  · exact And.right
  · intro hx
    have hxlt : x.val < 32 := x.isLt
    have hclt : c.val < 32 := c.isLt
    refine ⟨List.mem_map.mpr ?_, hx⟩
    by_cases h : c.val ≤ x.val
    · exact ⟨x.val, List.mem_range'_1.mpr ⟨h, by show _ < c.val + 32; omega⟩, slotAt_self x⟩
    · refine ⟨x.val + 32, List.mem_range'_1.mpr ⟨by omega, by show _ < c.val + 32; omega⟩, ?_⟩
      rw [slotAt_congr (b := x.val) (by omega), slotAt_self]

theorem cyclic_nodup : (cyclic R c).Nodup := by
  unfold cyclic
  apply List.Nodup.filter
  apply List.Nodup.map_on _ List.nodup_range'
  intro a ha b hb hab
  have ha' := List.mem_range'_1.mp ha
  have hb' := List.mem_range'_1.mp hb
  have hval : a % 32 = b % 32 := congrArg Fin.val hab
  unfold maxTasks at ha' hb'
  omega

end

/-! ## one tick -/

/-- the slots of `R` stay runnable, all others are dead; `c` runs and has `q` slices left -/
structure Slice (R : Finset Slot) (w : Slot → Nat) (s : Sys) (c : Slot) (q : Nat) : Prop where
  cur : s.currentTask = some c
  mem : c ∈ R
  kernel : 0 ∉ R
  running : (s.tasks c).state = .running
  ready : ∀ i ∈ R, i ≠ c → (s.tasks i).state = .ready
  dead : ∀ i, i ≠ 0 → i ∉ R → (s.tasks i).state = .dead
  weight : ∀ i ∈ R, (s.tasks i).weight = w i ∧ 1 ≤ w i ∧ w i ≤ 255
  quantum : (s.tasks c).quantumLeft = q

section
variable {R : Finset Slot} {w : Slot → Nat} {s s' : Sys} {c : Slot} {q r : Nat}

/-- nothing that the scheduler reads has changed -/
theorem Slice.congr (h : Slice R w s c q) (hcur : s'.currentTask = s.currentTask)
    (ht : ∀ i, (s'.tasks i).state = (s.tasks i).state ∧ (s'.tasks i).weight = (s.tasks i).weight ∧
      (s'.tasks i).quantumLeft = (s.tasks i).quantumLeft) : Slice R w s' c q where
  cur := hcur.trans h.cur
  mem := h.mem
  kernel := h.kernel
  running := (ht c).1.trans h.running
  ready i hi hc := (ht i).1.trans (h.ready i hi hc)
  dead i h0 hi := (ht i).1.trans (h.dead i h0 hi)
  weight i hi := ⟨(ht i).2.1.trans (h.weight i hi).1, (h.weight i hi).2⟩
  quantum := (ht c).2.2.trans h.quantum

/-- what the search looks at: the slots of `R` are ready, all others dead -/
structure AllReady (R : Finset Slot) (ts : Slot → Task) : Prop where
  ready : ∀ i ∈ R, (ts i).state = .ready
  dead : ∀ i, i ≠ 0 → i ∉ R → (ts i).state = .dead

theorem Slice.save (h : Slice R w s c q) (r : Nat) : AllReady R (saveCurrent s r).tasks := by
  have hsave : saveCurrent s r = s.setTask c fun t =>
      { t with regs := readRegs s.mem r, state := if t.state = .running then .ready else t.state } := by
    unfold saveCurrent
    rw [h.cur]
  rw [hsave]
  constructor
  · intro i hi
    by_cases hic : i = c
    · subst hic
      rw [Sys.setTask_same]
      exact if_pos h.running
    · rw [Sys.setTask_ne _ _ hic]
      exact h.ready i hi hic
  · intro i h0 hi
    have hic : i ≠ c := fun e => hi (e ▸ h.mem)
    rw [Sys.setTask_ne _ _ hic]
    exact h.dead i h0 hi

theorem searchIdx_eq (c : Slot) (i : Nat) :
    searchIdx (some c) i = if slotAt (c.val + i) = 0 then 1 else slotAt (c.val + i) := by
  unfold searchIdx
  simp only
  by_cases h0 : (c.val + i) % maxTasks = 0
  · rw [if_pos h0, if_pos (Fin.ext h0)]
  · rw [if_neg h0, if_neg fun e => h0 (congrArg Fin.val e)]
    rfl

/-- the search finds the next slot of `R` -/
theorem search_next {ts : Slot → Task} (ht : AllReady R ts) (h0 : (0 : Slot) ∉ R) {b : Nat}
    (hb : Next (fun k => slotAt k ∈ R) c.val b) (tick n i : Nat) (hi : 0 < i) (hib : c.val + i ≤ b)
    (hbn : b < c.val + i + n) : search tick (some c) n i ts = (ts, some (slotAt b)) := by
  induction n generalizing i with
  | zero => omega
  | succ n ih =>
    have hfound : ∀ x ∈ R, searchIdx (some c) i = x →
        search tick (some c) (n + 1) i ts = (ts, some x) := by
      intro x hx hidx
      rw [search, hidx]
      simp only [ht.ready x hx]
    have hskip : ∀ x, x ≠ 0 → x ∉ R → searchIdx (some c) i = x → c.val + i < b →
        search tick (some c) (n + 1) i ts = (ts, some (slotAt b)) := by
      intro x hx0 hx hidx hlt
      rw [search, hidx]
      simp only [ht.dead x hx0 hx]
      exact ih (i + 1) (by omega) (by omega) (by omega)
    have hidx := searchIdx_eq c i
    by_cases hz : slotAt (c.val + i) = 0
    · -- slot 0 is never looked at; slot 1 is, here and once more in the next turn
      rw [if_pos hz] at hidx
      have hlt : c.val + i < b := by
        by_contra hge
        have heq : c.val + i = b := by omega
        rw [heq] at hz
        exact h0 (hz ▸ hb.holds)
      by_cases h1 : (1 : Slot) ∈ R
      · have hone : slotAt (c.val + i + 1) = 1 := by
          have hval : (c.val + i) % 32 = 0 := congrArg Fin.val hz
          exact Fin.ext (show (c.val + i + 1) % 32 = 1 by omega)
        have hbeq : b = c.val + i + 1 := by
          by_contra hne
          exact hb.first (c.val + i + 1) (by omega) (by omega) (hone ▸ h1)
        rw [hfound 1 h1 hidx, hbeq, hone]
      · exact hskip 1 (by decide) h1 hidx hlt
    · rw [if_neg hz] at hidx
      by_cases heq : c.val + i = b
      · rw [heq] at hidx
        exact hfound _ hb.holds hidx
      · exact hskip _ hz (hb.first _ (by omega) (by omega)) hidx (by omega)

theorem quantumTask_slice (h : Slice R w s c q) (r : Nat) :
    quantumTask (saveCurrent s r) = if q = 0 then none else some c := by
  have hc0 : c ≠ 0 := fun e => h.kernel (e ▸ h.mem)
  have hready := (h.save r).ready c h.mem
  have hq : ((saveCurrent s r).tasks c).quantumLeft = q := by
    unfold saveCurrent
    rw [h.cur]
    simp only [Sys.setTask_same]
    exact h.quantum
  unfold quantumTask
  rw [(saveCurrent_current s r).1, h.cur]
  simp only [hready, hq]
  by_cases h0 : q = 0
  · rw [if_pos h0, if_neg fun hc => absurd hc.2.2 (by omega)]
  · rw [if_neg h0, if_pos ⟨hc0, trivial, by omega⟩]

/-- fields that a tick does not touch -/
theorem saveCurrent_weight (s : Sys) (r : Nat) (i : Slot) :
    ((saveCurrent s r).tasks i).weight = (s.tasks i).weight := by
  unfold saveCurrent
  cases s.currentTask with
  | none => rfl
  | some c =>
    by_cases hi : i = c
    · subst hi
      rw [Sys.setTask_same]
    · rw [Sys.setTask_ne _ _ hi]

/-- **One tick is one turn.** -/
theorem Slice.tick (h : Slice R w s c q) (r : Nat) :
    Slice R w (schedulerTick s r) (turn (nextSlot R) w (c, q)).1 (turn (nextSlot R) w (c, q)).2 := by
  have hc0 : c ≠ 0 := fun e => h.kernel (e ▸ h.mem)
  have hquant := quantumTask_slice h r
  have hsave := h.save r
  unfold turn
  by_cases hq0 : q = 0
  · -- the slice is over
    obtain ⟨b, hb⟩ := exists_next h.mem
    have hnext : nextSlot R c = slotAt b := by
      have hn := nextSlot_eq hb
      rw [slotAt_self] at hn
      exact hn
    have hclt : c.val < 32 := c.isLt
    have hle := next_le hb
    have hlt := hb.lt
    have hsearch : search (saveCurrent s r).tick (saveCurrent s r).currentTask maxTasks 1
        (saveCurrent s r).tasks = ((saveCurrent s r).tasks, some (slotAt b)) := by
      rw [(saveCurrent_current s r).1, h.cur]
      exact search_next hsave h.kernel hb _ maxTasks 1 (by omega) (by omega)
        (by show b < c.val + 1 + 32; omega)
    rw [if_pos hq0] at hquant ⊢
    rw [schedulerTick_next hquant hsearch, hnext]
    have hbR : slotAt b ∈ R := hb.holds
    obtain ⟨hw, hw1, hw2⟩ := h.weight _ hbR
    have hne : ∀ i, i ≠ slotAt b → (dispatch { saveCurrent s r with
        tasks := (saveCurrent s r).tasks } (slotAt b) r).tasks i = (saveCurrent s r).tasks i :=
      fun i hi => Function.update_of_ne hi ..
    refine ⟨rfl, hbR, h.kernel, ?_, fun i hi hib => ?_, fun i hi0 hi => ?_, fun i hi => ?_, ?_⟩
    · unfold dispatch
      simp only [Sys.setTask_same]
    · rw [hne i hib]
      exact hsave.ready i hi
    · rw [hne i fun e => hi (e ▸ hbR)]
      exact hsave.dead i hi0 hi
    · by_cases hib : i = slotAt b
      · subst hib
        refine ⟨?_, hw1, hw2⟩
        unfold dispatch
        simp only [Sys.setTask_same]
        rw [saveCurrent_weight, hw]
      · rw [hne i hib, saveCurrent_weight]
        exact h.weight i hi
    · unfold dispatch
      simp only [Sys.setTask_same]
      rw [saveCurrent_weight, hw]
      omega
  · -- one more slice
    rw [if_neg hq0] at hquant ⊢
    rw [schedulerTick_quantum hquant]
    have hcur : (saveCurrent s r).currentTask = some c := (saveCurrent_current s r).1.trans h.cur
    refine ⟨hcur, h.mem, h.kernel, by rw [Sys.setTask_same], fun i hi hic => ?_,
      fun i hi0 hi => ?_, fun i hi => ?_, ?_⟩
    · rw [Sys.setTask_ne _ _ hic]
      exact hsave.ready i hi
    · have hic : i ≠ c := fun e => hi (e ▸ h.mem)
      rw [Sys.setTask_ne _ _ hic]
      exact hsave.dead i hi0 hi
    · by_cases hic : i = c
      · subst hic
        rw [Sys.setTask_same]
        refine ⟨?_, (h.weight i hi).2⟩
        show ((saveCurrent s r).tasks i).weight = w i
        rw [saveCurrent_weight]
        exact (h.weight i hi).1
      · rw [Sys.setTask_ne _ _ hic, saveCurrent_weight]
        exact h.weight i hi
    · rw [Sys.setTask_same]
      show ((saveCurrent s r).tasks c).quantumLeft - 1 = q - 1
      unfold saveCurrent
      rw [h.cur]
      simp only [Sys.setTask_same]
      rw [h.quantum]

end

/-! ## runs -/

/-- the tasks compute, are asked to exit, and are interrupted by the timer -/
def Busy : Event → Prop
  | .run _ _ | .timer | .kill _ => True
  | _ => False

/-- how many ticks the run has -/
def timers : List Event → Nat
  | [] => 0
  | .timer :: es => timers es + 1
  | _ :: es => timers es

section
variable {L : Layout} {R : Finset Slot} {w : Slot → Nat} {m m' : Machine} {c : Slot} {q : Nat}

theorem Slice.timer (h : Slice R w m.sys c q) (hst : step L m .timer = some m') :
    Slice R w m'.sys (turn (nextSlot R) w (c, q)).1 (turn (nextSlot R) w (c, q)).2 := by
  cases hst
  have henter : Slice R w (enter m timerInt) c q := h.congr rfl fun _ => ⟨rfl, rfl, rfl⟩
  exact henter.tick _

/-- an event without a tick -/
theorem Slice.quiet (h : Slice R w m.sys c q) {e : Event} (hb : Busy e) (he : e ≠ .timer)
    (hst : step L m e = some m') : Slice R w m'.sys c q := by
  cases e with
  | run cpu ws =>
    simp only [step] at hst
    by_cases hok : runOk L m.sys cpu ws
    · rw [if_pos hok] at hst
      cases hst
      exact h.congr rfl fun _ => ⟨rfl, rfl, rfl⟩
    · rw [if_neg hok] at hst
      cases hst
  | timer => exact absurd rfl he
  | kill id =>
    cases hst
    show Slice R w (taskKill m.sys id).1 c q
    unfold taskKill
    by_cases hid : 0 < id ∧ id < maxTasks
    · rw [dif_pos hid]
      by_cases hd : (m.sys.tasks ⟨id.toNat, by omega⟩).state = .dead
      · simp only [if_pos hd]
        exact h
      · simp only [if_neg hd]
        refine h.congr rfl fun i => ?_
        by_cases hi : i = ⟨id.toNat, by omega⟩
        · rw [hi, Sys.setTask_same]
          exact ⟨rfl, rfl, rfl⟩
        · rw [Sys.setTask_ne _ _ hi]
          exact ⟨rfl, rfl, rfl⟩
    · rw [dif_neg hid]
      exact h
  | yield => exact hb.elim
  | sleep ms => exact hb.elim
  | create n a wt => exact hb.elim
  | exit => exact hb.elim

/-- a run has as many turns as ticks -/
theorem Slice.run (es : List Event) (h : Slice R w m.sys c q) (hb : ∀ e ∈ es, Busy e)
    (hrun : exec (step L) m es = some m') :
    Slice R w m'.sys ((turn (nextSlot R) w)^[timers es] (c, q)).1
      ((turn (nextSlot R) w)^[timers es] (c, q)).2 := by
  induction es generalizing m c q with
  | nil =>
    cases hrun
    exact h
  | cons e es ih =>
    obtain ⟨u, hu, hr⟩ := exec_cons hrun
    have hb' : ∀ e ∈ es, Busy e := fun e he => hb e (List.mem_cons_of_mem _ he)
    by_cases he : e = .timer
    · subst he
      exact ih (h.timer hu) hb' hr
    · have hcount : timers (e :: es) = timers es := by
        cases e with
        | timer => exact absurd rfl he
        | _ => rfl
      rw [hcount]
      exact ih (h.quiet (hb e List.mem_cons_self) he hu) hb' hr

/-- **The share is exact.**  Just after the first tick of a slice of `c`, tick after tick gives the CPU
to the slots of the round of `R` from `c` on, every slot for its weight, over and over. -/
theorem exact_share (h : Slice R w m.sys c (w c - 1)) (es : List Event) (hb : ∀ e ∈ es, Busy e)
    (hrun : exec (step L) m es = some m') :
    ((cyclic R c).Nodup ∧ ∀ i, i ∈ cyclic R c ↔ i ∈ R) ∧
    (round w (cyclic R c)).length = ∑ i ∈ R, w i ∧
    m'.sys.currentTask = (round w (cyclic R c))[timers es % ∑ i ∈ R, w i]? ∧
    m'.sys.currentTask ≠ some 0 := by
  have hend := h.run es hb hrun
  obtain ⟨l, hl, hchain⟩ := cyclic_chain h.mem
  have hpos : ∀ x ∈ c :: l, 0 < w x := by
    intro x hx
    rw [← hl] at hx
    exact (h.weight x (mem_cyclic.mp hx)).2.1
  have hsum : (round w (cyclic R c)).length = ∑ i ∈ R, w i := by
    have hR : (cyclic R c).toFinset = R := by
      ext i
      rw [List.mem_toFinset, mem_cyclic]
    rw [length_round, ← hR, List.sum_toFinset w cyclic_nodup, hR]
  refine ⟨⟨cyclic_nodup, fun i => mem_cyclic⟩, hsum, ?_, ?_⟩
  · rw [hend.cur, ← hsum, hl, turn_iterate hpos hchain]
  · rw [hend.cur]
    intro h0
    exact h.kernel (Option.some.inj h0 ▸ hend.mem)

end

/-! ## three to one -/

namespace Demo

/-- slot 1 has weight 3, slot 2 weight 1 -/
def weights (i : Slot) : Nat := if i = 1 then 3 else 1

/-- the first tick of a slice of slot 1 -/
def threeToOne : Machine :=
  interrupt (create layout (create layout boot ['a'] 0x5000 3) ['b'] 0x6000 1) timerInt

theorem threeToOne_slice : Slice {1, 2} weights threeToOne.sys 1 (weights 1 - 1) :=
  ⟨by decide +kernel, by decide, by decide, by decide +kernel, by decide +kernel,
    by decide +kernel, by decide +kernel, by decide +kernel⟩

end Demo

open Demo in
theorem exact_share_threeToOne :
    ((cyclic {1, 2} 1).Nodup ∧ ∀ i, i ∈ cyclic {1, 2} 1 ↔ i ∈ ({1, 2} : Finset Slot)) ∧
    (round weights (cyclic {1, 2} 1)).length = ∑ i ∈ {1, 2}, weights i ∧
    (interrupt threeToOne timerInt).sys.currentTask =
      (round weights (cyclic {1, 2} 1))[timers [.timer] % ∑ i ∈ {1, 2}, weights i]? ∧
    (interrupt threeToOne timerInt).sys.currentTask ≠ some 0 :=
  exact_share (L := layout) threeToOne_slice [.timer] (fun e he => by
    cases List.mem_singleton.mp he
    trivial) rfl

end Noxis.Fixes
