import Noxis.Lib.Reaping
import Noxis.Lib.Run
import Noxis.Ipc.Proc
import Mathlib.Data.Fintype.Basic

/-!
# 25-osfs11/mm/forkexit.c: fork, exit and wait, request by request

MM works on one request at a time.  `Rec` is what it reads and writes of a record of `proc_table`
besides what it copies, `State.log` what it is asked and what it answers.

* `doFork`, `doExit`, `doWait`, `cleanup`   the functions of the source;
* `Request`, `step`                         a request of a process that can make one;
* `Kept`                                    what holds between requests;
* `Served`                                  what a request leaves, and what it does for who waits
-/

namespace Noxis.Ipc.Wait
open Run

/-- a record of `proc_table`: `free` is `p_flags == FREE_SLOT`, and `none` is the parent NO_TASK -/
structure Rec where
  free : Bool
  waiting : Bool
  hanging : Bool
  parent : Option Pid
  exitStatus : Int
  deriving DecidableEq, Repr

abbrev Table := Pid → Rec

structure State where
  table : Table
  log : List (Note Pid)

def State.set (m : State) (p : Pid) (f : Rec → Rec) : State :=
  { m with table := Function.update m.table p (f (m.table p)) }

def State.note (m : State) (n : Note Pid) : State := { m with log := m.log ++ [n] }

/-- `proc_table` from its start -/
def slots : List Pid := List.finRange (nrTasks + nrProcs)

/-! ## the code -/

/-- `for (i = 0; …) if (p->p_flags == FREE_SLOT) break` -/
def State.freeSlot (m : State) : Option Pid := slots.find? fun i => (m.table i).free

/-- `none` is a failed assertion -/
def State.doFork (m : State) (pid : Pid) : Option State :=
  match m.freeSlot with
  | none => some (m.note (.noSlot pid))
  | some child =>
    if child.val < nrTasks + nrNativeProcs then none
    else some ((m.set child fun _ => { m.table pid with parent := some pid }).note
      (.forked pid child))

/-- the message to the parent, then FREE_SLOT -/
def State.cleanup (m : State) (proc : Pid) : State :=
  (m.note (.reaped (m.table proc).parent proc (m.table proc).exitStatus)).set proc fun r =>
    { r with free := true, waiting := false, hanging := false }

/-- a turn of the loop in `do_exit` -/
def State.adopt (m : State) (pid i : Pid) : State :=
  if (m.table i).parent = some pid then
    let m := m.set i fun r => { r with parent := some init }
    if (m.table init).waiting ∧ (m.table i).hanging then
      (m.set init fun r => { r with waiting := false }).cleanup i
    else m
  else m

/-- `for (i = 0; i < NR_TASKS + NR_PROCS; i++)` -/
def State.adoptAll (m : State) (pid : Pid) : State := slots.foldl (fun m i => m.adopt pid i) m

/-- `beyond` is the WAITING bit where `proc_table[NO_TASK]` would be; `none` is a write there -/
def State.doExit (m : State) (pid : Pid) (status : Int) (beyond : Bool) : Option State :=
  let parentPid := (m.table pid).parent
  let m := (m.set pid fun r => { r with exitStatus := status }).note (.exited pid status)
  let waiting := match parentPid with
    | some parent => (m.table parent).waiting
    | none => beyond
  let marked :=
    if waiting then parentPid.map fun parent =>
      (m.set parent fun r => { r with waiting := false }).cleanup pid
    else some (m.set pid fun r => { r with hanging := true })
  marked.map fun m => m.adoptAll pid

/-- the first HANGING child -/
def State.zombieOf (m : State) (pid : Pid) : Option Pid :=
  slots.find? fun i => decide ((m.table i).parent = some pid) && (m.table i).hanging

/-- `children` at the end of the loop is not 0 -/
def State.hasChildren (m : State) (pid : Pid) : Bool :=
  slots.any fun i => decide ((m.table i).parent = some pid)

def State.doWait (m : State) (pid : Pid) : State :=
  let m := m.note (.asked pid)
  match m.zombieOf pid with
  | some child => m.cleanup child
  | none =>
    if m.hasChildren pid then m.set pid fun r => { r with waiting := true }
    else m.note (.noChild pid)

/-! ## requests -/

inductive Request where
  | fork (pid : Pid)
  | exit (pid : Pid) (status : Int) (beyond : Bool)
  | wait (pid : Pid)
  deriving DecidableEq, Repr

/-- a process that exists and does not wait for an answer -/
def State.able (m : State) (pid : Pid) : Bool :=
  !(m.table pid).free && !(m.table pid).waiting && !(m.table pid).hanging

/-- INIT never exits -/
def step (m : State) : Request → Option State
  | .fork pid => if m.able pid then m.doFork pid else none
  | .exit pid status beyond =>
    if m.able pid ∧ pid ≠ init then m.doExit pid status beyond else none
  | .wait pid => if m.able pid then some (m.doWait pid) else none

/-- `kernel_main`: the records of zeroed memory have the parent 0 -/
def bootRec (i : Pid) : Rec :=
  if nrTasks + nrNativeProcs ≤ i.val then ⟨true, false, false, some 0, 0⟩
  else ⟨false, false, false, none, 0⟩

def boot : State := ⟨bootRec, []⟩

/-! ## what the table stands for -/

def Rec.life (r : Rec) : Life Pid :=
  if r.free then .free else if r.hanging then .zombie r.parent r.exitStatus else .alive r.parent

def State.lives (m : State) : Lives Pid := ⟨fun i => (m.table i).life, fun i => (m.table i).waiting⟩

variable {m m' m'' : State} {p c pid i : Pid} {f : Rec → Rec} {n : Note Pid} {st : Int}
  {rest : List Pid}

@[simp] theorem State.note_table : (m.note n).table = m.table := rfl
@[simp] theorem State.note_lives : (m.note n).lives = m.lives := rfl

theorem State.set_table (m : State) (p : Pid) (f : Rec → Rec) (i : Pid) :
    (m.set p f).table i = if i = p then f (m.table p) else m.table i := by
  show Function.update m.table p (f (m.table p)) i = _
  rw [Function.update_apply]

@[simp] theorem State.set_self : (m.set p f).table p = f (m.table p) := by
  rw [State.set_table, if_pos rfl]

theorem State.set_eq_self (h : f (m.table p) = m.table p) : m.set p f = m := by
  unfold State.set
  rw [h, Function.update_eq_self]

/-- a part of every record that `f` leaves alone -/
theorem State.set_proj {β : Type} (g : Rec → β) (h : ∀ r, g (f r) = g r) :
    g ((m.set p f).table i) = g (m.table i) := by
  rw [State.set_table]
  split
  · rename_i hi
    rw [hi, h]
  · rfl

theorem State.set_lives : (m.set p f).lives =
    ⟨Function.update m.lives.life p (f (m.table p)).life,
      Function.update m.lives.asked p (f (m.table p)).waiting⟩ := by
  have hproj : ∀ {β : Type} (g : Rec → β), (fun i => g ((m.set p f).table i)) =
      Function.update (fun i => g (m.table i)) p (g (f (m.table p))) := by
    intro β g
    funext i
    rw [State.set_table, Function.update_apply]
    split <;> rfl
  show Lives.mk (fun i => ((m.set p f).table i).life) (fun i => ((m.set p f).table i).waiting) = _
  rw [hproj Rec.life, hproj Rec.waiting]
  rfl

/-- a record whose WAITING bit stays -/
theorem State.set_lives_quiet (h : (f (m.table p)).waiting = (m.table p).waiting) :
    (m.set p f).lives = { m.lives with life := Function.update m.lives.life p (f (m.table p)).life } := by
  rw [State.set_lives, h]
  show Lives.mk _ (Function.update m.lives.asked p (m.lives.asked p)) = _
  rw [Function.update_eq_self]

/-- a record of which only the WAITING bit changes -/
theorem State.set_lives_waiting (h : (f (m.table p)).life = (m.table p).life) :
    (m.set p f).lives =
      { m.lives with asked := Function.update m.lives.asked p (f (m.table p)).waiting } := by
  rw [State.set_lives, h]
  show Lives.mk (Function.update m.lives.life p (m.lives.life p)) _ = _
  rw [Function.update_eq_self]

theorem State.cleanup_lives (h : (m.table c).waiting = false) :
    (m.cleanup c).lives = { m.lives with life := Function.update m.lives.life c .free } := by
  unfold State.cleanup
  rw [State.set_lives_quiet h.symm]
  rfl

/-! ## each request is a few turns -/

/-- the notes from `m` to `m'` are turns of the lives -/
def Sim (m m' : State) : Prop := ∃ l, m'.log = m.log ++ l ∧ Replay init m.lives l m'.lives

theorem Sim.refl (m : State) : Sim m m := ⟨[], (List.append_nil _).symm, .nil⟩

theorem Sim.trans (h : Sim m m') (h' : Sim m' m'') : Sim m m'' := by
  obtain ⟨l, hl, hr⟩ := h
  obtain ⟨l', hl', hr'⟩ := h'
  refine ⟨l ++ l', ?_, hr.trans hr'⟩
  rw [hl', hl, List.append_assoc]

/-- what holds between requests; within `do_exit` the children of `pid` in `rest` are orphans -/
structure KeptBut (pid : Pid) (rest : List Pid) (m : State) : Prop where
  /-- a free record is nothing else -/
  free_quiet : ∀ i, (m.table i).free = true →
    (m.table i).waiting = false ∧ (m.table i).hanging = false
  /-- who has exited does not wait -/
  hanging_quiet : ∀ i, (m.table i).hanging = true → (m.table i).waiting = false
  boot_kept : ∀ i : Pid, i.val < nrTasks + nrNativeProcs →
    (m.table i).free = false ∧ (m.table i).parent = none
  init_kept : (m.table init).hanging = false
  /-- **no WAITING parent has a HANGING child** -/
  answered : ∀ p c, (m.table c).parent = some p → (m.table p).waiting = true →
    (m.table c).hanging = false
  /-- a child's parent has not exited -/
  parent_alive : ∀ p c, (m.table c).parent = some p → (m.table c).free = false →
    ((m.table p).free = false ∧ (m.table p).hanging = false) ∨ (p = pid ∧ c ∈ rest)

abbrev Kept (m : State) : Prop := KeptBut init [] m

theorem KeptBut.init_free (h : KeptBut pid rest m) : (m.table init).free = false :=
  (h.boot_kept init (by decide)).1

theorem KeptBut.not_free (h : KeptBut pid rest m) (hc : (m.table c).hanging = true) :
    (m.table c).free = false := by
  by_contra hf
  rw [Bool.not_eq_false] at hf
  rw [(h.free_quiet c hf).2] at hc
  exact Bool.false_ne_true hc

theorem KeptBut.zombie (h : KeptBut pid rest m) (hc : (m.table c).hanging = true) :
    m.lives.life c = .zombie (m.table c).parent (m.table c).exitStatus := by
  show (m.table c).life = _
  unfold Rec.life
  rw [h.not_free hc, hc]
  rfl

theorem alive_of (hf : (m.table p).free = false) (hh : (m.table p).hanging = false) :
    m.lives.life p = .alive (m.table p).parent := by
  show (m.table p).life = _
  unfold Rec.life
  rw [hf, hh]
  rfl

theorem State.able_iff : m.able p = true ↔
    (m.table p).free = false ∧ (m.table p).waiting = false ∧ (m.table p).hanging = false := by
  unfold State.able
  rw [Bool.and_eq_true, Bool.and_eq_true, Bool.not_eq_true', Bool.not_eq_true', Bool.not_eq_true',
    and_assoc]

theorem able_lives (h : m.able p = true) : m.lives.Able p := by
  obtain ⟨hf, hw, hh⟩ := State.able_iff.mp h
  refine ⟨?_, hw⟩
  rw [alive_of hf hh]
  rfl

/-- a message to a process that has asked, and the slot of its child free -/
def State.answer (m : State) (p c : Pid) : State :=
  (m.set p fun r => { r with waiting := false }).cleanup c

theorem State.answer_log (m : State) (p c : Pid) : (m.answer p c).log =
    m.log ++ [.reaped (m.table c).parent c (m.table c).exitStatus] := by
  have hp : ((m.set p fun r => { r with waiting := false }).table c).parent = (m.table c).parent :=
    State.set_proj Rec.parent fun _ => rfl
  have hs : ((m.set p fun r => { r with waiting := false }).table c).exitStatus =
      (m.table c).exitStatus := State.set_proj Rec.exitStatus fun _ => rfl
  show m.log ++ [.reaped _ c _] = _
  rw [hp, hs]

/-- the record of `i` after an answer -/
theorem State.answer_table (m : State) (p c i : Pid) : (m.answer p c).table i =
    ⟨(m.table i).free || decide (i = c), (m.table i).waiting && decide (i ≠ p ∧ i ≠ c),
      (m.table i).hanging && decide (i ≠ c), (m.table i).parent, (m.table i).exitStatus⟩ := by
  unfold State.answer State.cleanup
  rw [State.set_table, State.note_table, State.set_table, State.set_table]
  by_cases hc : i = c
  · subst hc
    by_cases hp : i = p
    · subst hp
      simp
    · simp [hp]
  · by_cases hp : i = p
    · subst hp
      simp [hc]
    · simp [hc, hp]

theorem State.answer_lives (hc : (m.table c).waiting = false) : (m.answer p c).lives =
    ⟨Function.update m.lives.life c .free, Function.update m.lives.asked p false⟩ := by
  have hq : ((m.set p fun r => { r with waiting := false }).table c).waiting = false := by
    rw [State.set_table]
    split
    · rfl
    · exact hc
  unfold State.answer
  rw [State.cleanup_lives hq, State.set_lives_waiting rfl]

/-- a process with a parent in the table has been forked -/
theorem KeptBut.forked (h : KeptBut pid rest m) (hc : (m.table c).parent = some p) :
    nrTasks + nrNativeProcs ≤ c.val := by
  by_contra hlt
  rw [(h.boot_kept c (by omega)).2] at hc
  exact nomatch hc

/-- nothing is broken by an answer -/
theorem KeptBut.answer (h : KeptBut pid rest m) (p : Pid) (hc : (m.table c).hanging = true)
    (hb : nrTasks + nrNativeProcs ≤ c.val) : KeptBut pid rest (m.answer p c) := by
  have hne : ∀ i : Pid, i.val < nrTasks + nrNativeProcs → i ≠ c := by
    rintro i hi rfl
    omega
  constructor
  · intro i hf
    rw [State.answer_table] at hf ⊢
    have hq := h.free_quiet i
    grind
  · intro i hf
    rw [State.answer_table] at hf ⊢
    have hq := h.hanging_quiet i
    grind
  · intro i hi
    rw [State.answer_table]
    have hq := h.boot_kept i hi
    have := hne i hi
    grind
  · rw [State.answer_table]
    have := h.init_kept
    grind
  · intro q d hpar hw
    rw [State.answer_table] at hpar hw ⊢
    have := h.answered q d
    grind
  · intro q d hpar hf
    rw [State.answer_table] at hpar hf ⊢
    have := h.parent_alive q d
    grind

/-- `pid` has exited -/
def State.Gone (m : State) (pid : Pid) : Prop :=
  (m.table pid).free = true ∨ (m.table pid).hanging = true

theorem State.Gone.life (h : m.Gone pid) : (m.lives.life pid).isAlive = false := by
  show (m.table pid).life.isAlive = false
  unfold Rec.life
  rcases h with h | h
  · rw [h]
    rfl
  · rw [h]
    split <;> rfl

/-- the new parent of `i` -/
def State.reparent (m : State) (i : Pid) : State := m.set i fun r => { r with parent := some init }

theorem State.reparent_table (m : State) (i j : Pid) : (m.reparent i).table j =
    { m.table j with parent := if j = i then some init else (m.table j).parent } := by
  show (m.set i _).table j = _
  rw [State.set_table]
  by_cases hj : j = i
  · rw [if_pos hj, if_pos hj, hj]
  · rw [if_neg hj, if_neg hj]

theorem State.adopt_eq (m : State) (pid i : Pid) : m.adopt pid i =
    if (m.table i).parent = some pid then
      if (m.table init).waiting = true ∧ (m.table i).hanging = true then (m.reparent i).answer init i
      else m.reparent i
    else m := by
  have hw : ((m.reparent i).table init).waiting = (m.table init).waiting := by
    rw [State.reparent_table]
  have hh : ((m.reparent i).table i).hanging = (m.table i).hanging := by
    rw [State.reparent_table]
  unfold State.adopt
  rw [← hw, ← hh]
  rfl

theorem reparent_sim (hp : (m.table i).parent = some pid) (hg : m.Gone pid) : Sim m (m.reparent i) := by
  have hlife : Rec.life { m.table i with parent := some init } = (m.lives.life i).adopt init pid := by
    show _ = (m.table i).life.adopt init pid
    unfold Rec.life
    rw [hp]
    cases (m.table i).free with
    | true => rfl
    | false =>
      cases (m.table i).hanging with
      | true =>
        show Life.zombie (some init) _ = Life.zombie (if some pid = some pid then _ else _) _
        rw [if_pos rfl]
      | false =>
        show Life.alive (some init) = Life.alive (if some pid = some pid then _ else _)
        rw [if_pos rfl]
  refine ⟨[], (List.append_nil _).symm, Turn.replay ?_⟩
  unfold State.reparent
  rw [State.set_lives_quiet rfl, hlife]
  exact Turn.adopted hg.life

theorem answer_sim (h : (m.table p).waiting = true) (hc : (m.table c).parent = some p)
    (hf : (m.table c).free = false) (hh : (m.table c).hanging = true)
    (hq : (m.table c).waiting = false) : Sim m (m.answer p c) := by
  refine ⟨_, State.answer_log m p c, ?_⟩
  rw [State.answer_lives hq, hc]
  refine Turn.replay (Turn.reaped h ?_)
  show (m.table c).life = _
  unfold Rec.life
  rw [hf, hh, hc]
  rfl

theorem KeptBut.congr (h : KeptBut pid rest m) (ht : m'.table = m.table) : KeptBut pid rest m' := by
  constructor <;> rw [ht]
  exacts [h.free_quiet, h.hanging_quiet, h.boot_kept, h.init_kept, h.answered, h.parent_alive]

/-- an orphan has INIT for its parent, and INIT does not wait for it -/
theorem KeptBut.reparent (h : KeptBut pid (i :: rest) m) (hp : (m.table i).parent = some pid)
    (hn : ¬ ((m.table init).waiting = true ∧ (m.table i).hanging = true)) :
    KeptBut pid rest (m.reparent i) := by
  have hb := h.forked hp
  have hinit := h.init_kept
  have hfree := h.init_free
  constructor
  · intro j hf
    rw [State.reparent_table] at hf ⊢
    exact h.free_quiet j hf
  · intro j hf
    rw [State.reparent_table] at hf ⊢
    exact h.hanging_quiet j hf
  · intro j hj
    have hne : j ≠ i := by
      rintro rfl
      omega
    rw [State.reparent_table]
    show _ ∧ (if j = i then _ else _) = none
    rw [if_neg hne]
    exact h.boot_kept j hj
  · rw [State.reparent_table]
    exact hinit
  · intro q c hpar hw
    rw [State.reparent_table] at hpar hw ⊢
    have ha := h.answered q c
    grind
  · intro q c hpar hf
    rw [State.reparent_table] at hpar hf ⊢
    have ha := h.parent_alive q c
    grind

theorem answer_reparent_table (m : State) (p i : Pid) :
    ((m.reparent i).answer p i).table = ((m.answer p i).reparent i).table := by
  funext j
  rw [State.answer_table, State.reparent_table, State.reparent_table, State.answer_table]

/-- a turn of the loop -/
theorem KeptBut.adopt (h : KeptBut pid (i :: rest) m) (hpid : pid ≠ init) (hg : m.Gone pid) :
    KeptBut pid rest (m.adopt pid i) ∧ Sim m (m.adopt pid i) ∧ (m.adopt pid i).Gone pid := by
  rw [State.adopt_eq]
  by_cases hp : (m.table i).parent = some pid
  · rw [if_pos hp]
    have hsim := reparent_sim hp hg
    by_cases hn : (m.table init).waiting = true ∧ (m.table i).hanging = true
    · -- INIT waits, and its new child has exited
      rw [if_pos hn]
      have hself : (m.reparent i).table i = { m.table i with parent := some init } := by
        rw [State.reparent_table, if_pos rfl]
      have hkept : KeptBut pid rest ((m.answer init i).reparent i) := by
        refine (h.answer init hn.2 (h.forked hp)).reparent ?_ ?_
        · rw [State.answer_table]
          exact hp
        · rw [State.answer_table]
          simp
      refine ⟨hkept.congr (answer_reparent_table m init i), hsim.trans (answer_sim ?_ ?_ ?_ ?_ ?_), ?_⟩
      · rw [State.reparent_table]
        exact hn.1
      · rw [hself]
      · rw [hself]
        exact h.not_free hn.2
      · rw [hself]
        exact hn.2
      · rw [hself]
        exact h.hanging_quiet i hn.2
      · unfold State.Gone
        rw [answer_reparent_table, State.reparent_table, State.answer_table]
        by_cases hpi : pid = i
        · left
          simp [hpi]
        · simpa [hpi, State.Gone] using hg
    · rw [if_neg hn]
      refine ⟨h.reparent hp hn, hsim, ?_⟩
      unfold State.Gone
      rw [State.reparent_table]
      exact hg
  · rw [if_neg hp]
    refine ⟨{ h with parent_alive := ?_ }, Sim.refl m, hg⟩
    intro p c hpar hf
    rcases h.parent_alive p c hpar hf with ha | ⟨rfl, hm⟩
    · exact .inl ha
    · rcases List.mem_cons.mp hm with rfl | hm
      · exact absurd hpar hp
      · exact .inr ⟨rfl, hm⟩

/-- the whole loop -/
theorem KeptBut.adopts {l : List Pid} (h : KeptBut pid l m) (hpid : pid ≠ init) (hg : m.Gone pid) :
    Kept (l.foldl (fun m i => m.adopt pid i) m) ∧ Sim m (l.foldl (fun m i => m.adopt pid i) m) := by
  induction l generalizing m with
  | nil =>
    refine ⟨{ h with parent_alive := ?_ }, Sim.refl m⟩
    intro p c hpar hf
    exact (h.parent_alive p c hpar hf).imp id fun hm => absurd hm.2 List.not_mem_nil
  | cons i l ih =>
    obtain ⟨h1, hs1, hg1⟩ := h.adopt hpid hg
    obtain ⟨h2, hs2⟩ := ih h1 hg1
    exact ⟨h2, hs1.trans hs2⟩

/-! ## exit -/

/-- `p->exit_status = status` -/
def State.exiting (m : State) (pid : Pid) (status : Int) : State :=
  (m.set pid fun r => { r with exitStatus := status }).note (.exited pid status)

theorem State.exiting_table (m : State) (pid : Pid) (status : Int) (i : Pid) :
    (m.exiting pid status).table i =
      { m.table i with exitStatus := if i = pid then status else (m.table i).exitStatus } := by
  unfold State.exiting
  rw [State.note_table, State.set_table]
  by_cases hi : i = pid
  · rw [if_pos hi, if_pos hi, hi]
  · rw [if_neg hi, if_neg hi]

/-- the parent does not wait -/
def State.hang (m : State) (pid : Pid) : State := m.set pid fun r => { r with hanging := true }

theorem State.hang_table (m : State) (pid i : Pid) :
    (m.hang pid).table i = { m.table i with hanging := (m.table i).hanging || decide (i = pid) } := by
  show (m.set pid _).table i = _
  rw [State.set_table]
  by_cases hi : i = pid
  · rw [if_pos hi, hi]
    simp
  · rw [if_neg hi]
    simp [hi]

theorem mem_slots (i : Pid) : i ∈ slots := List.mem_finRange i

theorem KeptBut.exiting (h : KeptBut p rest m) : KeptBut p rest (m.exiting pid st) := by
  constructor
  · intro i
    rw [State.exiting_table]
    exact h.free_quiet i
  · intro i
    rw [State.exiting_table]
    exact h.hanging_quiet i
  · intro i
    rw [State.exiting_table]
    exact h.boot_kept i
  · rw [State.exiting_table]
    exact h.init_kept
  · intro q c
    rw [State.exiting_table, State.exiting_table]
    exact h.answered q c
  · intro q c
    rw [State.exiting_table, State.exiting_table]
    exact h.parent_alive q c

/-- HANGING is set only while the parent does not wait -/
theorem KeptBut.hang (h : Kept m) (ha : m.able pid = true) (hpid : pid ≠ init)
    (hn : ∀ p, (m.table pid).parent = some p → (m.table p).waiting = false) :
    KeptBut pid slots (m.hang pid) := by
  obtain ⟨hf, hw, hh⟩ := State.able_iff.mp ha
  constructor
  · intro i hi
    rw [State.hang_table] at hi ⊢
    have hq := h.free_quiet i hi
    grind
  · intro i hi
    rw [State.hang_table] at hi ⊢
    have hq := h.hanging_quiet i
    grind
  · intro i hi
    rw [State.hang_table]
    exact h.boot_kept i hi
  · rw [State.hang_table]
    have := h.init_kept
    grind
  · intro q c hpar hq
    rw [State.hang_table] at hpar hq ⊢
    have := h.answered q c
    grind
  · intro q c hpar hc
    rw [State.hang_table] at hpar hc ⊢
    have := h.parent_alive q c hpar hc
    have := mem_slots c
    grind

/-- the parent waits: the record is free at once -/
theorem KeptBut.free (h : Kept m) (ha : m.able pid = true) (hpar : (m.table pid).parent = some p) :
    KeptBut pid slots (m.answer p pid) := by
  have hb := h.forked hpar
  constructor
  · intro i hi
    rw [State.answer_table] at hi ⊢
    have hq := h.free_quiet i
    grind
  · intro i hi
    rw [State.answer_table] at hi ⊢
    have hq := h.hanging_quiet i
    grind
  · intro i hi
    have hne : i ≠ pid := by
      rintro rfl
      omega
    rw [State.answer_table]
    have := h.boot_kept i hi
    grind
  · rw [State.answer_table]
    have := h.init_kept
    grind
  · intro q c hc hq
    rw [State.answer_table] at hc hq ⊢
    have := h.answered q c
    grind
  · intro q c hc hf
    rw [State.answer_table] at hc hf ⊢
    have := h.parent_alive q c
    have := mem_slots c
    grind

theorem State.doExit_eq (m : State) (pid : Pid) (status : Int) (beyond : Bool) :
    m.doExit pid status beyond =
      (match (m.table pid).parent with
        | some p => some (if (m.table p).waiting = true then (m.exiting pid status).answer p pid
            else (m.exiting pid status).hang pid)
        | none => if beyond then none else some ((m.exiting pid status).hang pid)).map
      fun m : State => m.adoptAll pid := by
  unfold State.doExit
  cases hpar : (m.table pid).parent with
  | none =>
    cases beyond <;> rfl
  | some p =>
    have hw : ((m.exiting pid status).table p).waiting = (m.table p).waiting := by
      rw [State.exiting_table]
    show (if ((m.exiting pid status).table p).waiting = true then
      some ((m.exiting pid status).answer p pid) else some ((m.exiting pid status).hang pid)).map _ =
      (some (if _ then _ else _)).map _
    rw [hw]
    split <;> rfl

theorem State.exiting_self (m : State) (pid : Pid) (status : Int) :
    (m.exiting pid status).table pid = { m.table pid with exitStatus := status } := by
  rw [State.exiting_table, if_pos rfl]

/-- the status of a process that has not exited yet is not looked at -/
theorem State.exiting_lives (ha : m.able pid = true) : (m.exiting pid st).lives = m.lives := by
  obtain ⟨hf, -, hh⟩ := State.able_iff.mp ha
  have hlife : Rec.life { m.table pid with exitStatus := st } = m.lives.life pid := by
    show _ = (m.table pid).life
    unfold Rec.life
    rw [hf, hh]
    rfl
  unfold State.exiting
  rw [State.note_lives, State.set_lives_quiet rfl, hlife, Function.update_eq_self]

theorem Sim.hang (ha : m.able pid = true) : Sim m ((m.exiting pid st).hang pid) := by
  obtain ⟨hf, hw, hh⟩ := State.able_iff.mp ha
  have hlife : Rec.life { m.table pid with exitStatus := st, hanging := true } =
      .zombie (m.table pid).parent st := by
    unfold Rec.life
    rw [hf]
    rfl
  refine ⟨[.exited pid st], rfl, Turn.replay ?_⟩
  unfold State.hang
  rw [State.set_lives_quiet rfl, State.exiting_lives ha, State.exiting_self, hlife]
  exact Turn.exited hw (alive_of hf hh)

/-- who waits is told at once -/
theorem Sim.free (ha : m.able pid = true) (hpar : (m.table pid).parent = some p)
    (hp : (m.table p).waiting = true) :
    Replay init m.lives [.exited pid st, .reaped (some p) pid st]
      ((m.exiting pid st).answer p pid).lives := by
  obtain ⟨hf, hw, hh⟩ := State.able_iff.mp ha
  have hq : ((m.exiting pid st).table pid).waiting = false := by
    rw [State.exiting_self]
    exact hw
  rw [State.answer_lives hq, State.exiting_lives ha]
  have h1 : Turn init m.lives [.exited pid st]
      { m.lives with life := Function.update m.lives.life pid (.zombie (some p) st) } := by
    rw [← hpar]
    exact Turn.exited hw (alive_of hf hh)
  have h2 : Turn init { m.lives with
      life := Function.update m.lives.life pid (.zombie (some p) st) } _ _ :=
    Turn.reaped hp (Function.update_self ..)
  rw [Function.update_idem] at h2
  exact h1.replay.trans h2.replay

/-- **An exit**: a parent that waits is answered, and what is kept is kept. -/
theorem Kept.exit {beyond : Bool} (h : Kept m) (ha : m.able pid = true) (hpid : pid ≠ init)
    (hd : m.doExit pid st beyond = some m') :
    Kept m' ∧ Sim m m' ∧ ∀ p, (m.table pid).parent = some p → (m.table p).waiting = true →
      ∃ l, m'.log = m.log ++ [.exited pid st, .reaped (some p) pid st] ++ l := by
  have ha' : (m.exiting pid st).able pid = true := by
    unfold State.able
    rw [State.exiting_self]
    exact ha
  have hhang : (∀ p, (m.table pid).parent = some p → (m.table p).waiting = false) →
      ((m.exiting pid st).hang pid).adoptAll pid = m' →
      Kept m' ∧ Sim m m' := by
    rintro hn rfl
    have hk : KeptBut pid slots ((m.exiting pid st).hang pid) := by
      refine (h.exiting).hang ha' hpid ?_
      intro p hp
      rw [State.exiting_table]
      rw [State.exiting_table] at hp
      exact hn p hp
    have hg : ((m.exiting pid st).hang pid).Gone pid := by
      right
      rw [State.hang_table]
      simp
    obtain ⟨hk', hs⟩ := hk.adopts hpid hg
    exact ⟨hk', (Sim.hang ha).trans hs⟩
  rw [State.doExit_eq] at hd
  cases hpar : (m.table pid).parent with
  | none =>
    rw [hpar] at hd
    cases beyond with
    | true => exact nomatch hd
    | false =>
      obtain ⟨hk, hs⟩ := hhang (fun p hp => nomatch hpar.symm.trans hp) (Option.some.inj hd)
      exact ⟨hk, hs, fun p hp => nomatch hp⟩
  | some p =>
    rw [hpar] at hd
    have hd : State.adoptAll (if (m.table p).waiting = true then (m.exiting pid st).answer p pid
        else (m.exiting pid st).hang pid) pid = m' := Option.some.inj hd
    by_cases hp : (m.table p).waiting = true
    · rw [if_pos hp] at hd
      have hpar' : ((m.exiting pid st).table pid).parent = some p := by
        rw [State.exiting_self]
        exact hpar
      have hk : KeptBut pid slots ((m.exiting pid st).answer p pid) := (h.exiting).free ha' hpar'
      have hg : ((m.exiting pid st).answer p pid).Gone pid := by
        left
        rw [State.answer_table]
        simp
      obtain ⟨hk', l, hl, hr⟩ := hk.adopts hpid hg
      rw [show List.foldl _ _ slots = m' from hd] at hk' hl hr
      have hlog : ((m.exiting pid st).answer p pid).log =
          m.log ++ [.exited pid st, .reaped (some p) pid st] := by
        rw [State.answer_log, State.exiting_self, hpar]
        exact List.append_assoc ..
      rw [hlog] at hl
      refine ⟨hk', ⟨_, ?_, (Sim.free ha hpar hp).trans hr⟩, ?_⟩
      · rw [hl, List.append_assoc]
      · rintro q ⟨⟩ -
        exact ⟨l, hl⟩
    · rw [if_neg hp] at hd
      have hn : ∀ q, (m.table pid).parent = some q → (m.table q).waiting = false := by
        intro q hq
        rw [hpar] at hq
        rw [← Option.some.inj hq]
        exact Bool.eq_false_iff.mpr hp
      obtain ⟨hk, hs⟩ := hhang hn hd
      refine ⟨hk, hs, ?_⟩
      rintro q ⟨⟩ hq
      exact absurd hq hp

/-! ## fork -/

theorem State.freeSlot_none (h : m.freeSlot = none) (i : Pid) : (m.table i).free = false := by
  have hi := List.find?_eq_none.mp h i (mem_slots i)
  rwa [Bool.not_eq_true] at hi

/-- **A fork** takes a free record, if there is one; the assertion on it holds. -/
theorem Kept.fork (h : Kept m) (ha : m.able pid = true) :
    ∃ m', m.doFork pid = some m' ∧ Kept m' ∧ Sim m m' := by
  obtain ⟨hf, hw, hh⟩ := State.able_iff.mp ha
  cases hc : m.freeSlot with
  | none =>
    have hfull : ∀ i, m.lives.life i ≠ .free := by
      intro i hi
      have hi' : (m.table i).life = .free := hi
      unfold Rec.life at hi'
      rw [State.freeSlot_none hc i] at hi'
      cases hhang : (m.table i).hanging <;> rw [hhang] at hi' <;> exact nomatch hi'
    refine ⟨m.note (.noSlot pid), ?_, h.congr rfl, [.noSlot pid], rfl, ?_⟩
    · unfold State.doFork
      rw [hc]
    · exact (Turn.noSlot (able_lives ha) hfull).replay
  | some child =>
    have hfree : (m.table child).free = true := by
      have hfirst := List.find?_some hc
      exact hfirst
    have hb : ¬ child.val < nrTasks + nrNativeProcs := by
      intro hlt
      rw [(h.boot_kept child hlt).1] at hfree
      exact Bool.false_ne_true hfree
    obtain ⟨hcw, hch⟩ := h.free_quiet child hfree
    have htable : ∀ i, (m.set child fun _ => { m.table pid with parent := some pid }).table i =
        if i = child then { m.table pid with parent := some pid } else m.table i := by
      intro i
      rw [State.set_table]
    refine ⟨(m.set child fun _ => { m.table pid with parent := some pid }).note (.forked pid child),
      ?_, ?_, [.forked pid child], rfl, Turn.replay ?_⟩
    · unfold State.doFork
      rw [hc]
      exact if_neg hb
    · refine KeptBut.congr (m := m.set child fun _ => { m.table pid with parent := some pid }) ?_ rfl
      constructor
      · intro i hi
        rw [htable] at hi ⊢
        have := h.free_quiet i
        grind
      · intro i hi
        rw [htable] at hi ⊢
        have := h.hanging_quiet i
        grind
      · intro i hi
        rw [htable, if_neg (by rintro rfl; exact hb hi)]
        exact h.boot_kept i hi
      · rw [htable]
        have := h.init_kept
        grind
      · intro q c hpar hq
        rw [htable] at hpar hq ⊢
        have := h.answered q c
        grind
      · intro q c hpar hcf
        rw [htable] at hpar hcf ⊢
        have := h.parent_alive q c
        grind
    · have hlife : Rec.life { m.table pid with parent := some pid } = .alive (some pid) := by
        unfold Rec.life
        rw [hf, hh]
        rfl
      rw [State.note_lives, State.set_lives_quiet (hw.trans hcw.symm), hlife]
      refine Turn.forked (able_lives ha) ?_
      show (m.table child).life = .free
      unfold Rec.life
      rw [hfree]
      rfl

/-! ## wait -/

theorem State.zombieOf_some (h : m.zombieOf pid = some c) :
    (m.table c).parent = some pid ∧ (m.table c).hanging = true := by
  have hc := List.find?_some h
  rw [Bool.and_eq_true, decide_eq_true_eq] at hc
  exact hc

/-- `do_wait` with a HANGING child, with none of its children HANGING, without children -/
theorem State.doWait_some (h : m.zombieOf pid = some c) :
    m.doWait pid = (m.note (.asked pid)).cleanup c := by
  have hc : (m.note (.asked pid)).zombieOf pid = some c := h
  unfold State.doWait
  simp only [hc]

theorem State.doWait_none (h : m.zombieOf pid = none) : m.doWait pid =
    if m.hasChildren pid then
      (m.note (.asked pid)).set pid fun r => { r with waiting := true }
    else (m.note (.asked pid)).note (.noChild pid) := by
  have hc : (m.note (.asked pid)).zombieOf pid = none := h
  unfold State.doWait
  simp only [hc]
  rfl

/-- the lives while `pid` is asking -/
theorem asked_turn (ha : m.able pid = true) : Replay init m.lives [.asked pid]
    ⟨m.lives.life, Function.update m.lives.asked pid true⟩ := (Turn.asked (able_lives ha)).replay

theorem asked_answered (ha : m.able pid = true) :
    Function.update (Function.update m.lives.asked pid true) pid false = m.lives.asked := by
  have hw : m.lives.asked pid = false := (able_lives ha).2
  rw [Function.update_idem, ← hw, Function.update_eq_self]

/-- **A wait** with HANGING children: the one in the first slot is cleaned up at once. -/
theorem KeptBut.wait_some (h : Kept m) (ha : m.able pid = true) (hc : m.zombieOf pid = some c) :
    Kept (m.doWait pid) ∧ Replay init m.lives
      [.asked pid, .reaped (some pid) c (m.table c).exitStatus] (m.doWait pid).lives ∧
      (m.doWait pid).log = m.log ++ [.asked pid, .reaped (some pid) c (m.table c).exitStatus] := by
  obtain ⟨hpar, hhang⟩ := State.zombieOf_some hc
  have hw := (State.able_iff.mp ha).2.1
  have hsame : (m.note (.asked pid)).set pid (fun r => { r with waiting := false }) =
      m.note (.asked pid) := by
    refine State.set_eq_self ?_
    show { m.table pid with waiting := false } = m.table pid
    rw [← hw]
  have hclean : (m.note (.asked pid)).cleanup c = (m.note (.asked pid)).answer pid c := by
    unfold State.answer
    rw [hsame]
  rw [State.doWait_some hc]
  refine ⟨?_, ?_, ?_⟩
  · rw [hclean]
    have hk : Kept (m.note (.asked pid)) := h.congr rfl
    exact hk.answer pid hhang (h.forked hpar)
  · have hq : ((m.note (.asked pid)).table c).waiting = false := h.hanging_quiet c hhang
    rw [State.cleanup_lives hq]
    have hzombie : m.lives.life c = .zombie (some pid) (m.table c).exitStatus := by
      rw [h.zombie hhang, hpar]
    have ht : Turn init ⟨m.lives.life, Function.update m.lives.asked pid true⟩ _ _ :=
      Turn.reaped (Function.update_self ..) hzombie
    have hr := (asked_turn ha).trans ht.replay
    rw [asked_answered ha] at hr
    exact hr
  · rw [hclean, State.answer_log, State.note_table, hpar]
    exact List.append_assoc ..

/-- a wait with no child HANGING: the process is WAITING, or told that it has no child -/
theorem KeptBut.wait_none (h : Kept m) (ha : m.able pid = true) (hc : m.zombieOf pid = none) :
    Kept (m.doWait pid) ∧ Sim m (m.doWait pid) := by
  obtain ⟨hf, hw, hh⟩ := State.able_iff.mp ha
  have hno : ∀ i, (m.table i).parent = some pid → (m.table i).hanging = false := by
    intro i hi
    have hi' := List.find?_eq_none.mp hc i (mem_slots i)
    rw [Bool.and_eq_true, decide_eq_true_eq, not_and, Bool.not_eq_true] at hi'
    exact hi' hi
  rw [State.doWait_none hc]
  by_cases hany : m.hasChildren pid = true
  · rw [if_pos hany]
    refine ⟨?_, [.asked pid], rfl, ?_⟩
    · have htable : ∀ i, ((m.note (.asked pid)).set pid fun r => { r with waiting := true }).table i =
          { m.table i with waiting := (m.table i).waiting || decide (i = pid) } := by
        intro i
        rw [State.set_table]
        by_cases hi : i = pid
        · rw [if_pos hi, hi]
          simp
        · rw [if_neg hi]
          simp [hi]
      constructor
      · intro i hi
        rw [htable] at hi ⊢
        have := h.free_quiet i
        grind
      · intro i hi
        rw [htable] at hi ⊢
        have := h.hanging_quiet i
        grind
      · intro i hi
        rw [htable]
        exact h.boot_kept i hi
      · rw [htable]
        exact h.init_kept
      · intro q c hpar hq
        rw [htable] at hpar hq ⊢
        have := h.answered q c
        have := hno c
        grind
      · intro q c hpar hcf
        rw [htable] at hpar hcf ⊢
        exact h.parent_alive q c hpar hcf
    · rw [State.set_lives_waiting rfl]
      exact asked_turn ha
  · rw [if_neg hany]
    have hnone : ∀ c, (m.lives.life c).parent ≠ some pid := by
      intro c hpar
      refine hany (List.any_eq_true.mpr ⟨c, mem_slots c, decide_eq_true ?_⟩)
      have hpar' : (m.table c).life.parent = some pid := hpar
      unfold Rec.life at hpar'
      cases hcf : (m.table c).free <;> cases hch : (m.table c).hanging <;> rw [hcf, hch] at hpar'
      · exact hpar'
      · exact hpar'
      · exact nomatch hpar'
      · exact nomatch hpar'
    refine ⟨h.congr rfl, [.asked pid, .noChild pid], List.append_assoc .., ?_⟩
    have ht : Turn init ⟨m.lives.life, Function.update m.lives.asked pid true⟩ _ _ :=
      Turn.noChild (Function.update_self ..) hnone
    have hr := (asked_turn ha).trans ht.replay
    rw [asked_answered ha] at hr
    exact hr

/-! ## runs -/

theorem boot_kept : Kept boot where
  free_quiet := by
    intro i _
    show (bootRec i).waiting = false ∧ (bootRec i).hanging = false
    unfold bootRec
    split <;> exact ⟨rfl, rfl⟩
  hanging_quiet := by
    intro i _
    show (bootRec i).waiting = false
    unfold bootRec
    split <;> rfl
  boot_kept := by
    intro i hi
    show (bootRec i).free = false ∧ (bootRec i).parent = none
    unfold bootRec
    rw [if_neg (by omega)]
    exact ⟨rfl, rfl⟩
  init_kept := rfl
  answered := by
    intro p c _ _
    show (bootRec c).hanging = false
    unfold bootRec
    split <;> rfl
  parent_alive := by
    intro p c hpar hf
    have hpar' : (bootRec c).parent = some p := hpar
    have hf' : (bootRec c).free = false := hf
    unfold bootRec at hpar' hf'
    split at hpar'
    · rename_i hc
      rw [if_pos hc] at hf'
      exact nomatch hf'
    · exact nomatch hpar'

/-- what a request leaves, and what it does for who waits -/
structure Served (s : State) (r : Request) (t : State) : Prop where
  /-- no WAITING parent has a HANGING child, and the parent of a process has not exited -/
  kept : Kept t
  /-- all that has been recorded are turns of the processes' lives: a process is reaped by who asks,
  its parent or INIT after it, with its status -/
  replay : Replay init boot.lives t.log t.lives
  /-- each exit is reaped once, the last one apart while the process is HANGING -/
  once : ∀ c, t.log.countP (Note.isExit c) =
    t.log.countP (Note.isReap c) + ((t.table c).hanging).toNat
  /-- a parent that waits is told at once -/
  exit : ∀ pid status beyond p, r = .exit pid status beyond → (s.table pid).parent = some p →
    (s.table p).waiting = true →
    ∃ l, t.log = s.log ++ [.exited pid status, .reaped (some p) pid status] ++ l
  /-- a wait is answered at once with the first HANGING child -/
  wait : ∀ pid c, r = .wait pid → s.zombieOf pid = some c →
    t.log = s.log ++ [.asked pid, .reaped (some pid) c (s.table c).exitStatus]

/-- one request -/
theorem step_spec {r : Request} (h : Kept m) (ht : step m r = some m') :
    Kept m' ∧ Sim m m' ∧
      (∀ pid status beyond p, r = .exit pid status beyond → (m.table pid).parent = some p →
        (m.table p).waiting = true →
        ∃ l, m'.log = m.log ++ [.exited pid status, .reaped (some p) pid status] ++ l) ∧
      ∀ pid c, r = .wait pid → m.zombieOf pid = some c →
        m'.log = m.log ++ [.asked pid, .reaped (some pid) c (m.table c).exitStatus] := by
  cases r with
  | fork pid =>
    obtain ⟨ha, ht⟩ := Option.ite_none_right_eq_some.mp ht
    obtain ⟨t, hd, hk, hs⟩ := h.fork ha
    rw [hd] at ht
    rw [← Option.some.inj ht]
    exact ⟨hk, hs, nofun, nofun⟩
  | exit pid status beyond =>
    obtain ⟨⟨ha, hpid⟩, ht⟩ := Option.ite_none_right_eq_some.mp ht
    obtain ⟨hk, hs, hl⟩ := h.exit ha hpid ht
    refine ⟨hk, hs, ?_, nofun⟩
    rintro _ _ _ p ⟨⟩
    exact hl p
  | wait pid =>
    obtain ⟨ha, ht⟩ := Option.ite_none_right_eq_some.mp ht
    rw [← Option.some.inj ht]
    cases hc : m.zombieOf pid with
    | some c =>
      obtain ⟨hk, hr, hl⟩ := h.wait_some ha hc
      refine ⟨hk, ⟨_, hl, hr⟩, nofun, ?_⟩
      rintro _ d ⟨⟩ hd
      rw [hc] at hd
      rw [← Option.some.inj hd]
      exact hl
    | none =>
      obtain ⟨hk, hs⟩ := h.wait_none ha hc
      refine ⟨hk, hs, nofun, ?_⟩
      rintro _ d ⟨⟩ hd
      exact nomatch hc.symm.trans hd

theorem KeptBut.zombies (h : Kept m) (c : Pid) : m.lives.zombies c = ((m.table c).hanging).toNat := by
  show ((m.table c).life.isZombie).toNat = _
  cases hh : (m.table c).hanging with
  | true =>
    rw [show (m.table c).life = _ from h.zombie hh]
    rfl
  | false =>
    unfold Rec.life
    rw [hh]
    split <;> rfl

/-- **The wait protocol**: along every run of requests from any processes nobody waits for a process
that has exited, each exit is reaped once, by the parent or INIT, with its status, and who waits is
told. -/
theorem waited (rs : List Request) : Always (stepOf step) Served boot rs := by
  refine Always.of_inv (I := fun m => Kept m ∧ Replay init boot.lives m.log m.lives) ?_ rs boot
    ⟨boot_kept, .nil⟩
  rintro s r t ⟨hk, hr⟩ ht
  obtain ⟨hk', ⟨l, hl, hr'⟩, hexit, hwait⟩ := step_spec hk ht
  have hlog : Replay init boot.lives t.log t.lives := by
    rw [hl]
    exact hr.trans hr'
  refine ⟨⟨hk', hlog, ?_, hexit, hwait⟩, hk', hlog⟩
  intro c
  have honce := hlog.once c
  rw [hk'.zombies c, boot_kept.zombies c] at honce
  have hboot : (boot.table c).hanging = false := by
    show (bootRec c).hanging = false
    unfold bootRec
    split <;> rfl
  rw [hboot] at honce
  have h0 : false.toNat = 0 := rfl
  omega

/-! ## a child of INIT that is never reaped -/

/-- nothing depends on what has been recorded before -/
def State.behind (l : List (Note Pid)) (m : State) : State := ⟨m.table, l ++ m.log⟩

theorem State.note_behind (l : List (Note Pid)) (m : State) (n : Note Pid) :
    (m.behind l).note n = (m.note n).behind l :=
  congrArg (State.mk m.table) (List.append_assoc l m.log [n])

theorem State.set_behind (l : List (Note Pid)) (m : State) (p : Pid) (f : Rec → Rec) :
    (m.behind l).set p f = (m.set p f).behind l := rfl

theorem State.behind_table (l : List (Note Pid)) (m : State) : (m.behind l).table = m.table := rfl

theorem State.cleanup_behind (l : List (Note Pid)) (m : State) (c : Pid) :
    (m.behind l).cleanup c = (m.cleanup c).behind l := by
  unfold State.cleanup
  rw [State.behind_table, State.note_behind, State.set_behind]

theorem State.adopt_behind (l : List (Note Pid)) (m : State) (pid i : Pid) :
    (m.behind l).adopt pid i = (m.adopt pid i).behind l := by
  unfold State.adopt
  simp only [State.set_behind, State.behind_table, State.cleanup_behind]
  split_ifs <;> rfl

theorem State.adoptAll_behind (l : List (Note Pid)) (m : State) (pid : Pid) :
    (m.behind l).adoptAll pid = (m.adoptAll pid).behind l := by
  unfold State.adoptAll
  generalize slots = ps
  induction ps generalizing m with
  | nil => rfl
  | cons i ps ih =>
    show ps.foldl _ ((m.behind l).adopt pid i) = _
    rw [State.adopt_behind]
    exact ih (m.adopt pid i)

theorem State.doFork_behind (l : List (Note Pid)) (m : State) (pid : Pid) :
    (m.behind l).doFork pid = (m.doFork pid).map (State.behind l) := by
  have hfree : (m.behind l).freeSlot = m.freeSlot := rfl
  unfold State.doFork
  rw [hfree]
  cases m.freeSlot with
  | none =>
    show some ((m.behind l).note _) = some _
    rw [State.note_behind]
  | some child =>
    simp only [State.set_behind, State.behind_table, State.note_behind]
    split_ifs <;> rfl

theorem State.doExit_behind (l : List (Note Pid)) (m : State) (pid : Pid) (st : Int) (beyond : Bool) :
    (m.behind l).doExit pid st beyond = (m.doExit pid st beyond).map (State.behind l) := by
  unfold State.doExit
  simp only [State.set_behind, State.behind_table, State.note_behind, State.cleanup_behind]
  cases (m.table pid).parent with
  | none =>
    cases beyond with
    | true => rfl
    | false => exact congrArg some (State.adoptAll_behind l _ pid)
  | some p =>
    simp only [Option.map_some]
    split_ifs
    · exact congrArg some (State.adoptAll_behind l _ pid)
    · exact congrArg some (State.adoptAll_behind l _ pid)

theorem State.doWait_behind (l : List (Note Pid)) (m : State) (pid : Pid) :
    (m.behind l).doWait pid = (m.doWait pid).behind l := by
  cases hc : m.zombieOf pid with
  | some c =>
    have hc' : (m.behind l).zombieOf pid = some c := hc
    rw [State.doWait_some hc, State.doWait_some hc', State.note_behind, State.cleanup_behind]
  | none =>
    have hc' : (m.behind l).zombieOf pid = none := hc
    rw [State.doWait_none hc, State.doWait_none hc']
    have hany : (m.behind l).hasChildren pid = m.hasChildren pid := rfl
    rw [hany]
    simp only [State.set_behind, State.note_behind]
    split_ifs <;> rfl

theorem step_behind (l : List (Note Pid)) (m : State) (r : Request) :
    step (m.behind l) r = (step m r).map (State.behind l) := by
  have hable : ∀ p, (m.behind l).able p = m.able p := fun _ => rfl
  cases r with
  | fork pid =>
    unfold step
    simp only [hable, State.doFork_behind]
    split_ifs <;> rfl
  | exit pid status beyond =>
    unfold step
    simp only [hable, State.doExit_behind]
    split_ifs <;> rfl
  | wait pid =>
    unfold step
    simp only [hable, State.doWait_behind]
    split_ifs <;> rfl

/-- the table after a request does not depend on the record -/
theorem step_table {r : Request} {t t' : Table} (ht : m.table = t)
    (h : (step ⟨t, []⟩ r).map State.table = some t') : ∃ m', step m r = some m' ∧ m'.table = t' := by
  have hm : State.behind m.log ⟨t, []⟩ = m := by
    rw [← ht]
    exact congrArg (State.mk m.table) (List.append_nil _)
  obtain ⟨u, hu, rfl⟩ := Option.map_eq_some_iff.mp h
  have hstep := step_behind m.log ⟨t, []⟩ r
  rw [hm, hu] at hstep
  exact ⟨u.behind m.log, hstep, rfl⟩

/-- the records of 12 and 13 -/
def twoRecs (a b : Rec) : Table := fun i => if i = 12 then a else if i = 13 then b else bootRec i

/-- a child of INIT: not forked yet, running, exited, reaped -/
def unused : Rec := ⟨true, false, false, some 0, 0⟩
def running : Rec := ⟨false, false, false, some init, 0⟩
def exited : Rec := ⟨false, false, true, some init, 0⟩
def cleaned : Rec := ⟨true, false, false, some init, 0⟩

/-- INIT forks two processes, which exit; it reaps the first one and forks another one, which gets the
slot of it and exits too; and so on -/
def starving : Nat → Request
  | 0 => .fork init
  | 1 => .fork init
  | 2 => .exit 12 0 false
  | 3 => .exit 13 0 false
  | n + 4 => if n % 3 = 0 then .wait init else if n % 3 = 1 then .fork init else .exit 12 0 false

def starvingTable : Nat → Table
  | 0 => twoRecs unused unused
  | 1 => twoRecs running unused
  | 2 => twoRecs running running
  | 3 => twoRecs exited running
  | n + 4 => twoRecs (if n % 3 = 0 then exited else if n % 3 = 1 then cleaned else running) exited

theorem step_starving : ∀ n, (step ⟨starvingTable n, []⟩ (starving n)).map State.table =
    some (starvingTable (n + 1))
  | 0 => by decide +kernel
  | 1 => by decide +kernel
  | 2 => by decide +kernel
  | 3 => by decide +kernel
  | n + 4 => by
    have hn : n % 3 = 0 ∨ n % 3 = 1 ∨ n % 3 = 2 := by omega
    have hs : (n + 1) % 3 = (n % 3 + 1) % 3 := by omega
    show (step ⟨twoRecs (if n % 3 = 0 then exited else if n % 3 = 1 then cleaned else running) exited,
      []⟩ (if n % 3 = 0 then .wait init else if n % 3 = 1 then .fork init else .exit 12 0 false)).map
      State.table = some (twoRecs (if (n + 1) % 3 = 0 then exited
        else if (n + 1) % 3 = 1 then cleaned else running) exited)
    rw [hs]
    rcases hn with hn | hn | hn <;> rw [hn] <;> decide +kernel

/-- the run -/
def starvingRun : Nat → State
  | 0 => boot
  | n + 1 => (step (starvingRun n) (starving n)).getD (starvingRun n)

theorem starvingRun_table (n : Nat) : (starvingRun n).table = starvingTable n ∧
    step (starvingRun n) (starving n) = some (starvingRun (n + 1)) := by
  have hstep : ∀ n, (starvingRun n).table = starvingTable n →
      step (starvingRun n) (starving n) = some (starvingRun (n + 1)) ∧
        (starvingRun (n + 1)).table = starvingTable (n + 1) := by
    intro n hn
    obtain ⟨u, hu, ht⟩ := step_table hn (step_starving n)
    have hrun : starvingRun (n + 1) = u := by
      show (step (starvingRun n) (starving n)).getD (starvingRun n) = u
      rw [hu]
      rfl
    rw [hrun]
    exact ⟨hu, ht⟩
  have htable : (starvingRun n).table = starvingTable n := by
    induction n with
    | zero =>
      show bootRec = twoRecs unused unused
      decide +kernel
    | succ n ih => exact (hstep n ih).2
  exact ⟨htable, (hstep n htable).1⟩

/-- **A process whose parent is INIT, which waits again and again, may never be reaped.** -/
theorem waited_fails :
    ¬ ∀ (m : Nat → State) (r : Nat → Request), m 0 = boot →
      (∀ n, step (m n) (r n) = some (m (n + 1))) → (∀ n, ∃ k, n ≤ k ∧ r k = .wait init) →
      ∀ n c, ((m n).table c).hanging = true → ∃ k, n ≤ k ∧ ((m k).table c).hanging = false := by
  intro h
  have hwait : ∀ n, ∃ k, n ≤ k ∧ starving k = .wait init := by
    intro n
    refine ⟨3 * n + 4, by omega, ?_⟩
    show (if 3 * n % 3 = 0 then Request.wait init else _) = _
    rw [if_pos (Nat.mul_mod_right 3 n)]
  have hall : ∀ n, ((starvingRun (n + 4)).table 13).hanging = true := by
    intro n
    rw [(starvingRun_table (n + 4)).1]
    rfl
  obtain ⟨k, hk, hfree⟩ := h starvingRun starving rfl (fun n => (starvingRun_table n).2) hwait 4 13
    (hall 0)
  have hk' := hall (k - 4)
  rw [Nat.sub_add_cancel hk, hfree] at hk'
  exact Bool.false_ne_true hk'

end Noxis.Ipc.Wait
