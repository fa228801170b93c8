import Noxis.Ipc.Wait

/-!
# 25-osfs11/mm/forkexit.c: a wait without children

`do_wait` finds the children of its caller by their `p_parent`.  `cleanup` frees a record and leaves
its `p_parent` alone, so that the child is found again when it is gone.

* `State.Stale`   a free record that still names a parent
* `Told`          who has no child is told so, and only who has a living one is suspended
* `told_iff`      **when that holds along a run**
-/

namespace Noxis.Ipc.Wait
open Run

/-- the record of a child that is gone, or that never was: zeroed records name the parent 0 -/
def State.Stale (m : State) (pid c : Pid) : Prop :=
  (m.table c).free = true ∧ (m.table c).parent = some pid

/-- no process has `pid` for its parent, neither a living one nor one that is not reaped -/
def State.Childless (m : State) (pid : Pid) : Prop := ∀ c, (m.lives.life c).parent ≠ some pid

/-- what a wait says to its caller -/
structure Told (s : State) (r : Request) (t : State) : Prop where
  /-- NO_TASK at once -/
  childless : ∀ pid, r = .wait pid → s.Childless pid → t.log = s.log ++ [.asked pid, .noChild pid]
  /-- a suspended caller has a living child -/
  suspended : ∀ pid, r = .wait pid → (t.table pid).waiting = true →
    ∃ c, s.lives.life c = .alive (some pid)

/-- a wait without children meets no record that still names the caller -/
def Fresh (s : State) (r : Request) : Prop :=
  ∀ pid, r = .wait pid → s.Childless pid → ∀ c, ¬ s.Stale pid c

variable {m m' : State} {pid c : Pid}

theorem life_parent_iff :
    (m.lives.life c).parent = some pid ↔ (m.table c).free = false ∧ (m.table c).parent = some pid := by
  show (m.table c).life.parent = some pid ↔ _
  unfold Rec.life
  cases (m.table c).free <;> cases (m.table c).hanging <;> simp [Life.parent]

theorem hasChildren_iff : m.hasChildren pid = true ↔ ∃ c, (m.table c).parent = some pid := by
  unfold State.hasChildren
  rw [List.any_eq_true]
  constructor
  · rintro ⟨c, -, hc⟩
    exact ⟨c, of_decide_eq_true hc⟩
  · rintro ⟨c, hc⟩
    exact ⟨c, mem_slots c, decide_eq_true hc⟩

/-- what the loop counts: the children, and the stale records -/
theorem hasChildren_iff_of_childless (h : m.Childless pid) :
    m.hasChildren pid = true ↔ ∃ c, m.Stale pid c := by
  rw [hasChildren_iff]
  constructor
  · rintro ⟨c, hc⟩
    refine ⟨c, ?_, hc⟩
    by_contra hf
    exact h c (life_parent_iff.mpr ⟨Bool.not_eq_true _ ▸ hf, hc⟩)
  · rintro ⟨c, -, hc⟩
    exact ⟨c, hc⟩

/-- without children there is no HANGING one -/
theorem KeptBut.zombieOf_none (h : Kept m) (hc : m.Childless pid) : m.zombieOf pid = none := by
  refine List.find?_eq_none.mpr fun c _ hboth => ?_
  rw [Bool.and_eq_true, decide_eq_true_eq] at hboth
  exact hc c (life_parent_iff.mpr ⟨h.not_free hboth.2, hboth.1⟩)

/-- the caller of `do_wait` is suspended when the loop counts children and none is HANGING -/
theorem State.doWait_waiting (ha : m.able pid = true) :
    ((m.doWait pid).table pid).waiting = true ↔ m.zombieOf pid = none ∧ m.hasChildren pid = true := by
  have hw := (State.able_iff.mp ha).2.1
  cases hz : m.zombieOf pid with
  | some c =>
    rw [State.doWait_some hz]
    have hq : (((m.note (.asked pid)).cleanup c).table pid).waiting = false := by
      unfold State.cleanup
      rw [State.set_table]
      split
      · rfl
      · exact hw
    simp [hq]
  | none =>
    rw [State.doWait_none hz]
    by_cases hany : m.hasChildren pid = true
    · rw [if_pos hany]
      simp [hany]
    · rw [if_neg hany]
      simp [hany, hw]

/-- **One wait**: it tells its caller what is true if no stale record is in its way. -/
theorem KeptBut.told {r : Request} (h : Kept m) (ht : step m r = some m') :
    Told m r m' ↔ Fresh m r := by
  have hwait : ∀ pid, r = .wait pid → m.able pid = true ∧ m' = m.doWait pid := by
    rintro pid rfl
    obtain ⟨ha, hm⟩ := Option.ite_none_right_eq_some.mp ht
    exact ⟨ha, (Option.some.inj hm).symm⟩
  constructor
  · -- a stale record is counted, and its caller suspended without a living child
    intro htold pid hr hchild c hstale
    obtain ⟨ha, rfl⟩ := hwait pid hr
    have hany := (hasChildren_iff_of_childless hchild).mpr ⟨c, hstale⟩
    have hsusp := (State.doWait_waiting ha).mpr ⟨h.zombieOf_none hchild, hany⟩
    obtain ⟨d, hd⟩ := htold.suspended pid hr hsusp
    apply hchild d
    rw [hd]
    rfl
  · intro hfresh
    constructor
    · intro pid hr hchild
      obtain ⟨ha, rfl⟩ := hwait pid hr
      have hnone : ¬ m.hasChildren pid = true := by
        intro hany
        obtain ⟨c, hc⟩ := (hasChildren_iff_of_childless hchild).mp hany
        exact hfresh pid hr hchild c hc
      rw [State.doWait_none (h.zombieOf_none hchild), if_neg hnone]
      exact List.append_assoc ..
    · intro pid hr hsusp
      obtain ⟨ha, rfl⟩ := hwait pid hr
      obtain ⟨hz, hany⟩ := (State.doWait_waiting ha).mp hsusp
      have hsome : ∃ c, (m.lives.life c).parent = some pid := by
        by_contra hall
        obtain ⟨c, hc⟩ := (hasChildren_iff_of_childless (not_exists.mp hall)).mp hany
        exact hfresh pid hr (not_exists.mp hall) c hc
      obtain ⟨c, hc⟩ := hsome
      obtain ⟨hf, hpar⟩ := life_parent_iff.mp hc
      have hhang : (m.table c).hanging = false := by
        have hno := List.find?_eq_none.mp hz c (mem_slots c)
        rw [Bool.and_eq_true, decide_eq_true_eq, not_and, Bool.not_eq_true] at hno
        exact hno hpar
      exact ⟨c, hpar ▸ alive_of hf hhang⟩

/-- **Along every run of requests each wait tells its caller what is true, if and only if none without
children meets a record that still names the caller.** -/
theorem told_iff (rs : List Request) :
    Always (stepOf step) Told boot rs ↔ Always (stepOf step) (fun s r _ => Fresh s r) boot rs := by
  refine Always.iff_of_inv (I := Kept) (fun s r t hs ht => hs.told ht) ?_ rs boot boot_kept
  intro s r t hs ht _
  exact (step_spec hs ht).1

/-- INIT forks a process, which exits and is reaped; the next wait suspends INIT -/
theorem told_fails : ¬ ∀ rs : List Request, Always (stepOf step) Told boot rs := by
  intro hall
  let events : List Request := [.fork init, .exit 12 0 false, .wait init]
  let bad (t u : State) : Bool :=
    (slots.all fun c => decide ((t.lives.life c).parent ≠ some init)) && (u.table init).waiting
  refine Always.not_of_exec events bad ?_ ?_ (hall (events ++ [.wait init]))
  · intro t u _ hbad htold
    obtain ⟨hnone, hsusp⟩ := (Bool.and_eq_true _ _).mp hbad
    obtain ⟨c, hc⟩ := htold.suspended init rfl hsusp
    have hne := of_decide_eq_true (List.all_eq_true.mp hnone c (mem_slots c))
    rw [hc] at hne
    exact hne rfl
  · decide +kernel

end Noxis.Ipc.Wait
