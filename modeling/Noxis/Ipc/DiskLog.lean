import Noxis.Ipc.Clock
import Noxis.Ipc.Boot

/-!
# 25-osfs11/fs/disklog.c: schedule() while dump_fd_graph is in progress

`dump_fd_graph`, which FS runs after each UNLINK, sets the ticks and the priority of every process to
zero but of TTY, SYS, HD and itself (`dumpBegin`), reads and writes the disk, and puts them back
(`dumpEnd`).  Outside of it TestA, whose body is `for(;;);`, is always there for `schedule`; inside,
one of the four has to be runnable.

* `LogInv`        the invariant;
* `ends_iff`      `schedule` ends at every step of a run exactly if the run is `Served`.
-/

namespace Noxis.Ipc
open Run

/-- TestA, TestB and TestC: `for(;;);` -/
def Endless (p : Pid) : Prop := nrTasks + 1 ≤ p.val ∧ p.val < nrTasks + nrNativeProcs

instance (p : Pid) : Decidable (Endless p) := inferInstanceAs (Decidable (_ ∧ _))

def testA : Pid := 9

/-- the processes that `dump_fd_graph` leaves alone; FS is the caller -/
def Kept (p : Pid) : Prop := p = taskTty ∨ p = taskSys ∨ p = taskHd ∨ p = taskFs

instance (p : Pid) : Decidable (Kept p) := inferInstanceAs (Decidable (_ ∨ _))

structure LogState where
  k : Kernel
  /-- `tcks` and `prio` while FS is in `dump_fd_graph` -/
  saved : Option (Pid → Nat × Nat)

def dumpBegin (k : Kernel) : Kernel :=
  { k with procs := fun p =>
      if flags k p = .FREE_SLOT ∨ Kept p then k.procs p
      else { k.procs p with ticks := 0, priority := 0 } }

/-- `tcks` and `prio`; `g` is what the arrays hold where nothing is stored -/
def saveClocks (k : Kernel) (g : Pid → Nat × Nat) (p : Pid) : Nat × Nat :=
  if flags k p = .FREE_SLOT ∨ Kept p then g p else clocks k p

def dumpEnd (k : Kernel) (sv : Pid → Nat × Nat) : Kernel :=
  { k with procs := fun p =>
      if flags k p = .FREE_SLOT ∨ Kept p then k.procs p
      else { k.procs p with ticks := (sv p).1, priority := (sv p).2 } }

inductive LogEvent where
  /-- the running process makes a system call -/
  | call (fn : IpcFunction) (who : Who) (m : Nat)
  /-- `clock_handler`; `key` is `key_pressed`, `nested` says that `k_reenter` is not 0 -/
  | clock (key nested : Bool)
  /-- the handler of another interrupt calls `inform_int` -/
  | irq (t : Pid)
  /-- MM runs and writes the record of a process that forks, exits or waits, or of its child -/
  | mm (p : Pid) (x : Proc)
  /-- FS enters `dump_fd_graph`, or comes to its end -/
  | dump (g : Pid → Nat × Nat)
  | restore

/-- `clock_handler` -/
def clockHandler (k : Kernel) (key nested : Bool) : Except Fault Kernel := do
  let k ← Mm.informKey (k.set k.ready fun p => { p with ticks := p.ticks - 1 }) key
  if nested then .ok k
  else if 0 < (k.procs k.ready).ticks then .ok k
  else schedule k

def LogState.possible (s : LogState) : LogEvent → Prop
  | .call _ _ _ => flags s.k s.k.ready = .zero ∧ ¬ Endless s.k.ready
  | .clock _ _ => True
  | .irq _ => True
  | .mm p _ => s.k.ready = taskMm ∧ nrTasks ≤ p.val ∧ ¬ Endless p
  | .dump _ => s.k.ready = taskFs ∧ s.saved = none
  | .restore => s.k.ready = taskFs ∧ s.saved ≠ none

instance LogState.decidablePossible (s : LogState) (e : LogEvent) : Decidable (s.possible e) := by
  unfold LogState.possible
  cases e with
  | restore => exact inferInstanceAs (Decidable (_ ∧ ¬ s.saved = none))
  | dump g => cases s with | mk k sv => cases sv <;> infer_instance
  | _ => infer_instance

def LogState.withKernel (s : LogState) (r : Except Fault Kernel) : Except Fault LogState :=
  r.map fun k => { s with k := k }

def LogState.result (s : LogState) : LogEvent → Except Fault LogState
  | .call fn who m => s.withKernel (sysSendrec s.k fn who m s.k.ready)
  | .clock key nested => s.withKernel (clockHandler s.k key nested)
  | .irq t => s.withKernel (informInt s.k t)
  | .mm p x => .ok { s with k := s.k.set p fun _ => x }
  | .dump g => .ok { k := dumpBegin s.k, saved := some (saveClocks s.k g) }
  | .restore =>
    match s.saved with
    | some sv => .ok { k := dumpEnd s.k sv, saved := none }
    | none => .ok s

/-- the next event; none after a fault -/
def logStep : Except Fault LogState → LogEvent → Option (Except Fault LogState)
  | .error _, _ => none
  | .ok s, e => if s.possible e then some (s.result e) else none

/-- no call of `schedule` searches for ever -/
def Ends (_ : Except Fault LogState) (_ : LogEvent) (r : Except Fault LogState) : Prop :=
  r ≠ .error .noReady

/-- when a process blocks while `dump_fd_graph` is in progress, another one of TTY, SYS, HD and FS is
runnable -/
def Served : Except Fault LogState → LogEvent → Except Fault LogState → Prop
  | .ok s, .call fn who _, _ => s.saved ≠ none → Blocks s.k s.k.ready fn who →
      ∃ q, Kept q ∧ q ≠ s.k.ready ∧ flags s.k q = .zero
  | _, _, _ => True

/-! ## the invariant -/

structure LogCore (k : Kernel) (saved : Option (Pid → Nat × Nat)) : Prop where
  test : flags k testA = .zero
  kept : ∀ q, Kept q → 0 < (clocks k q).2
  outside : saved = none → 0 < (clocks k testA).2
  inside : ∀ sv, saved = some sv → 0 < (sv testA).2 ∧
    ∀ q, ¬ Kept q → flags k q = .FREE_SLOT ∨ clocks k q = (0, 0)

structure LogInv (s : LogState) : Prop where
  core : LogCore s.k s.saved
  ready : flags s.k s.k.ready = .zero
  running : s.saved ≠ none → Kept s.k.ready

section
variable {k k' : Kernel} {sv : Option (Pid → Nat × Nat)} {s s' : LogState} {e : LogEvent}

/-- the same priorities, no more ticks, and no other free records -/
theorem LogCore.change (h : LogCore k sv) (hp : ∀ q, (clocks k' q).2 = (clocks k q).2)
    (ht : ∀ q, (clocks k' q).1 ≤ (clocks k q).1 ∨ (clocks k' q).1 = (clocks k q).2)
    (hf : ∀ q, flags k q = .FREE_SLOT → flags k' q = .FREE_SLOT)
    (hz : flags k' testA = .zero) : LogCore k' sv := by
  refine ⟨hz, fun q hq => by rw [hp]; exact h.kept q hq, fun hs => by rw [hp]; exact h.outside hs,
    fun g hg => ⟨(h.inside g hg).1, fun q hq => ?_⟩⟩
  rcases (h.inside g hg).2 q hq with hfree | hc
  · exact .inl (hf q hfree)
  · have h2 := hp q
    have h1 := ht q
    rw [hc] at h1 h2
    refine .inr (Prod.ext ?_ h2)
    show (clocks k' q).1 = 0
    simp only at h1
    omega

/-- somebody is eligible -/
theorem LogCore.eligible (h : LogCore k sv) (hs : sv ≠ none → ∃ q, Kept q ∧ flags k q = .zero) :
    ∃ q, Eligible k q := by
  cases hsv : sv with
  | none => exact ⟨testA, h.test, .inr (h.outside hsv)⟩
  | some g =>
    obtain ⟨q, hq, hz⟩ := hs (by rw [hsv]; exact fun hc => (nomatch hc))
    exact ⟨q, hz, .inr (h.kept q hq)⟩

/-- in `dump_fd_graph` only the four are eligible -/
theorem LogCore.eligible_kept (h : LogCore k sv) (hs : sv ≠ none) {q : Pid} (hq : Eligible k q) :
    Kept q := by
  obtain ⟨g, hg⟩ := Option.ne_none_iff_exists'.mp hs
  by_contra hk
  obtain ⟨hz, hpos⟩ := hq
  rcases (h.inside g hg).2 q hk with hfree | hc
  · rw [hz] at hfree
    cases hfree
  · rw [hc] at hpos
    rcases hpos with h | h <;> exact absurd h (Nat.lt_irrefl 0)

/-- `schedule` establishes the invariant -/
theorem LogCore.schedule (h : LogCore k sv) (hs : Ipc.schedule k = .ok k') : LogInv ⟨k', sv⟩ := by
  have hflags : flags k' = flags k := (schedule_ok hs).flags
  refine ⟨h.change (fun q => (schedule_clocks hs q).1)
    (fun q => (schedule_clocks hs q).2.imp_left Nat.le_of_eq) (fun q hq => by rw [hflags]; exact hq)
    (by rw [hflags]; exact h.test), schedule_picks hs, fun hsv => ?_⟩
  exact h.eligible_kept hsv (schedule_eligible hs)

/-! ## the steps -/

/-- processes that are woken -/
theorem LogCore.woken (h : LogCore k sv) (hc : clocks k' = clocks k)
    (hf : ∀ q, flags k' q = flags k q ∨ flags k' q = .zero ∧ flags k q ≠ .FREE_SLOT) :
    LogCore k' sv := by
  refine h.change (fun q => by rw [hc]) (fun q => .inl (by rw [hc])) (fun q hq => ?_) ?_
  · rcases hf q with he | ⟨-, hne⟩
    · rw [he, hq]
    · exact absurd hq hne
  · rcases hf testA with he | ⟨he, -⟩
    · rw [he, h.test]
    · exact he

/-- a call that does not block, and an interrupt -/
theorem LogInv.woken (h : LogInv s) (hc : clocks k' = clocks s.k) (hr : k'.ready = s.k.ready)
    (hf : ∀ q, flags k' q = flags s.k q ∨ flags k' q = .zero ∧ flags s.k q ≠ .FREE_SLOT) :
    LogInv { s with k := k' } := by
  refine ⟨h.core.woken hc hf, ?_, fun hs => ?_⟩
  · show flags k' k'.ready = .zero
    rw [hr]
    rcases hf s.k.ready with he | ⟨he, -⟩
    · rw [he, h.ready]
    · exact he
  · show Kept k'.ready
    rw [hr]
    exact h.running hs

/-- the state in which a caller that blocks calls `schedule` -/
theorem LogInv.block {F : Flags} (h : LogInv s) (hend : ¬ Endless s.k.ready)
    (hc : clocks k' = clocks s.k) (hf : flags k' = Function.update (flags s.k) s.k.ready F) :
    LogCore k' s.saved := by
  refine h.core.change (fun q => by rw [hc]) (fun q => .inl (by rw [hc])) (fun q hq => ?_) ?_
  · have hqr : q ≠ s.k.ready := by
      rintro rfl
      rw [h.ready] at hq
      cases hq
    rw [hf, Function.update_of_ne hqr, hq]
  · have hne : testA ≠ s.k.ready := by
      intro he
      exact hend (he ▸ by decide)
    rw [hf, Function.update_of_ne hne, h.core.test]

/-- **A system call.** -/
theorem LogInv.call (h : LogInv s) {fn : IpcFunction} {who : Who} {m : Nat}
    (ha : s.possible (.call fn who m)) :
    (∀ k', sysSendrec s.k fn who m s.k.ready = .ok k' → LogInv { s with k := k' }) ∧
    ((s.saved ≠ none → Blocks s.k s.k.ready fn who →
        ∃ q, Kept q ∧ q ≠ s.k.ready ∧ flags s.k q = .zero) →
      sysSendrec s.k fn who m s.k.ready ≠ .error .noReady) := by
  have hout : Outcome s.k s.k.ready (Blocks s.k s.k.ready fn who)
      (sysSendrec s.k fn who m s.k.ready) := sysSendrec_outcome
  cases hout with
  | fault he hr =>
    rw [hr]
    refine ⟨fun k' hk' => (nomatch hk'), fun _ hn => he ?_⟩
    cases hn
    rfl
  | direct _ hr hc hready hf =>
    rw [hr]
    refine ⟨fun k' hk' => ?_, fun _ hn => (nomatch hn)⟩
    cases hk'
    exact h.woken hc hready hf
  | blocked hB hz hc hf hr =>
    have hcore := h.block ha.2 hc hf
    refine ⟨fun k' hk' => ?_, fun hserved hn => ?_⟩
    · rcases hr with hr | ⟨k₂, -, hr⟩
      · rw [hr] at hk'
        exact hcore.schedule hk'
      · rw [hr] at hk'
        cases hk'
    · rcases hr with hr | ⟨k₂, -, hr⟩
      · rw [hr, schedule_noReady_iff] at hn
        obtain ⟨q, hq⟩ := hcore.eligible fun hsv => by
          obtain ⟨q, hq, hne, hz⟩ := hserved hsv hB
          exact ⟨q, hq, by rw [hf, Function.update_of_ne hne, hz]⟩
        exact hn q hq
      · rw [hr] at hn
        cases hn

/-- a call that ends well although it blocks has left somebody to choose -/
theorem LogInv.call_served (h : LogInv s) {fn : IpcFunction} {who : Who} {m : Nat}
    (ha : s.possible (.call fn who m)) (hr : sysSendrec s.k fn who m s.k.ready = .ok k')
    (hs : s.saved ≠ none) (hB : Blocks s.k s.k.ready fn who) :
    ∃ q, Kept q ∧ q ≠ s.k.ready ∧ flags s.k q = .zero := by
  have hout : Outcome s.k s.k.ready (Blocks s.k s.k.ready fn who)
      (sysSendrec s.k fn who m s.k.ready) := sysSendrec_outcome
  cases hout with
  | fault he hr' => cases hr.symm.trans hr'
  | direct hnB => exact absurd hB hnB
  | blocked _ hz hc hf hr' =>
    rcases hr' with hr' | ⟨k₂, -, hr'⟩
    · rw [hr'] at hr
      have hel := schedule_eligible hr
      have hne : k'.ready ≠ s.k.ready := by
        intro he
        have hflags := hel.1
        rw [he, hf, Function.update_self] at hflags
        exact hz hflags
      refine ⟨k'.ready, (h.block ha.2 hc hf).eligible_kept hs hel, hne, ?_⟩
      have hflags := hel.1
      rw [hf, Function.update_of_ne hne] at hflags
      exact hflags
    · cases hr.symm.trans hr'

/-- one tick less for the running process -/
theorem LogInv.tick (h : LogInv s) :
    LogInv { s with k := s.k.set s.k.ready fun p => { p with ticks := p.ticks - 1 } } := by
  have hflags : flags (s.k.set s.k.ready fun p => { p with ticks := p.ticks - 1 }) = flags s.k :=
    Kernel.proj_set_eq Proc.flags _ _ _ rfl
  refine ⟨h.core.change (fun q => ?_) (fun q => .inl ?_) (fun q hq => by rw [hflags]; exact hq)
    (by rw [hflags]; exact h.core.test), ?_, h.running⟩
  · exact congrFun (Kernel.proj_set_eq Proc.priority s.k s.k.ready
      (fun p => { p with ticks := p.ticks - 1 }) rfl) q
  · by_cases hq : q = s.k.ready
    · subst hq
      show (Kernel.procs _ _).ticks ≤ _
      rw [Kernel.set_same]
      exact Nat.sub_le _ 1
    · show (Kernel.procs _ _).ticks ≤ _
      rw [Kernel.set_ne _ _ hq]
      exact le_refl _
  · rw [hflags]
    exact h.ready

/-- **An interrupt.** -/
theorem LogInv.inform (h : LogInv s) (t : Pid) :
    (∀ k', informInt s.k t = .ok k' → LogInv { s with k := k' }) ∧
      informInt s.k t ≠ .error .noReady := by
  cases informInt_outcome (k := s.k) (p := t) with
  | fault he hr =>
    rw [hr]
    refine ⟨fun k' hk' => (nomatch hk'), fun hn => he ?_⟩
    cases hn
    rfl
  | direct _ hr hc hready hf =>
    rw [hr]
    refine ⟨fun k' hk' => ?_, fun hn => (nomatch hn)⟩
    cases hk'
    exact h.woken hc hready hf
  | blocked hB => exact hB.elim

/-- **The clock** always finds somebody: the running process is runnable. -/
theorem LogInv.clock (h : LogInv s) (key nested : Bool) :
    (∀ k', clockHandler s.k key nested = .ok k' → LogInv { s with k := k' }) ∧
      clockHandler s.k key nested ≠ .error .noReady := by
  have ht := h.tick
  set k₀ := s.k.set s.k.ready fun p => { p with ticks := p.ticks - 1 } with hk₀
  -- `inform_int (TASK_TTY)`
  have hinform : (∀ k₁, Mm.informKey k₀ key = .ok k₁ → LogInv { s with k := k₁ }) ∧
      Mm.informKey k₀ key ≠ .error .noReady := by
    unfold Mm.informKey
    cases key with
    | true => exact ht.inform taskTty
    | false =>
      refine ⟨fun k₁ hk₁ => ?_, fun hn => (nomatch hn)⟩
      cases hk₁
      exact ht
  unfold clockHandler
  rw [← hk₀]
  cases hi : Mm.informKey k₀ key with
  | error e =>
    refine ⟨fun k' hk' => (nomatch hk'), fun hn => hinform.2 ?_⟩
    cases hn
    exact hi
  | ok k₁ =>
    have h₁ := hinform.1 k₁ hi
    have hok : (∀ k', (.ok k₁ : Except Fault Kernel) = .ok k' → LogInv { s with k := k' }) ∧
        (.ok k₁ : Except Fault Kernel) ≠ .error .noReady := by
      refine ⟨fun k' hk' => ?_, fun hn => (nomatch hn)⟩
      cases hk'
      exact h₁
    show (∀ k', (if nested then .ok k₁ else if 0 < (k₁.procs k₁.ready).ticks then .ok k₁
      else schedule k₁) = .ok k' → LogInv { s with k := k' }) ∧
        (if nested then .ok k₁ else if 0 < (k₁.procs k₁.ready).ticks then .ok k₁
          else schedule k₁) ≠ .error .noReady
    by_cases hn : nested = true
    · rw [if_pos hn]
      exact hok
    · rw [if_neg hn]
      by_cases hp : 0 < (k₁.procs k₁.ready).ticks
      · rw [if_pos hp]
        exact hok
      · rw [if_neg hp]
        refine ⟨fun k' hk' => h₁.core.schedule hk', fun hs => ?_⟩
        rw [schedule_noReady_iff] at hs
        obtain ⟨q, hq⟩ := h₁.core.eligible fun hsv => ⟨k₁.ready, h₁.running hsv, h₁.ready⟩
        exact hs q hq

/-- MM writes a record -/
theorem LogInv.mm (h : LogInv s) {p : Pid} {x : Proc} (ha : s.possible (.mm p x)) :
    LogInv { s with k := s.k.set p fun _ => x } := by
  obtain ⟨hready, hp, hend⟩ := ha
  -- it does not run while `dump_fd_graph` is in progress
  have hsv : s.saved = none := by
    by_contra hs
    have hk := h.running hs
    rw [hready] at hk
    exact absurd hk (by decide)
  have hkept : ∀ q, Kept q → q ≠ p := by
    rintro q hq rfl
    have hlt : q.val < nrTasks := by
      rcases hq with rfl | rfl | rfl | rfl <;> decide
    omega
  have hne : testA ≠ p := by
    rintro rfl
    exact hend (by decide)
  have hrp : s.k.ready ≠ p := by
    rw [hready]
    rintro rfl
    exact absurd hp (by decide)
  have hclock : ∀ q, q ≠ p → clocks (s.k.set p fun _ => x) q = clocks s.k q := by
    intro q hq
    unfold clocks
    rw [Kernel.set_ne _ _ hq]
  have hflag : ∀ q, q ≠ p → flags (s.k.set p fun _ => x) q = flags s.k q := by
    intro q hq
    unfold flags
    rw [Kernel.set_ne _ _ hq]
  refine ⟨⟨?_, fun q hq => ?_, fun _ => ?_, fun g hg => ?_⟩, ?_, fun hs => absurd hsv hs⟩
  · show flags _ testA = _
    rw [hflag _ hne]
    exact h.core.test
  · show 0 < (clocks _ q).2
    rw [hclock q (hkept q hq)]
    exact h.core.kept q hq
  · show 0 < (clocks _ testA).2
    rw [hclock _ hne]
    exact h.core.outside hsv
  · have hg' : s.saved = some g := hg
    rw [hsv] at hg'
    cases hg'
  · show flags _ s.k.ready = _
    rw [hflag _ hrp]
    exact h.ready

/-- every process is changed but those that `dump_fd_graph` leaves alone -/
def onOthers (k : Kernel) (f : Pid → Proc → Proc) : Kernel :=
  { k with procs := fun p =>
      if flags k p = .FREE_SLOT ∨ Kept p then k.procs p else f p (k.procs p) }

theorem onOthers_kept {p : Pid} (f : Pid → Proc → Proc) (h : flags k p = .FREE_SLOT ∨ Kept p) :
    (onOthers k f).procs p = k.procs p := if_pos h

theorem onOthers_other {p : Pid} (f : Pid → Proc → Proc)
    (h : ¬ (flags k p = .FREE_SLOT ∨ Kept p)) : (onOthers k f).procs p = f p (k.procs p) := if_neg h

theorem onOthers_flags (k : Kernel) {f : Pid → Proc → Proc} (hf : ∀ p x, (f p x).flags = x.flags) :
    flags (onOthers k f) = flags k := by
  funext q
  show ((onOthers k f).procs q).flags = _
  by_cases hq : flags k q = .FREE_SLOT ∨ Kept q
  · rw [onOthers_kept f hq]
    rfl
  · rw [onOthers_other f hq, hf]
    rfl

/-- TestA is neither free nor left alone -/
theorem LogInv.testA_other (h : LogInv s) : ¬ (flags s.k testA = .FREE_SLOT ∨ Kept testA) := by
  rw [h.core.test]
  decide

/-- FS enters `dump_fd_graph` -/
theorem LogInv.dump (h : LogInv s) {g : Pid → Nat × Nat} (ha : s.possible (.dump g)) :
    LogInv { k := dumpBegin s.k, saved := some (saveClocks s.k g) } := by
  obtain ⟨hready, hsv⟩ := ha
  let f : Pid → Proc → Proc := fun _ x => { x with ticks := 0, priority := 0 }
  have hflags : flags (dumpBegin s.k) = flags s.k := onOthers_flags s.k (f := f) fun _ _ => rfl
  refine ⟨⟨?_, fun q hq => ?_, fun hs => (nomatch hs), fun g' hg' => ?_⟩, ?_, fun _ => ?_⟩
  · rw [hflags]
    exact h.core.test
  · show 0 < ((onOthers s.k f).procs q).priority
    rw [onOthers_kept f (.inr hq)]
    exact h.core.kept q hq
  · cases hg'
    refine ⟨?_, fun q hq => ?_⟩
    · show 0 < (saveClocks s.k g testA).2
      unfold saveClocks
      rw [if_neg h.testA_other]
      exact h.core.outside hsv
    · by_cases hf : flags s.k q = .FREE_SLOT
      · exact .inl (by rw [hflags]; exact hf)
      · have hq' : ¬ (flags s.k q = .FREE_SLOT ∨ Kept q) := fun hc => hc.elim hf hq
        refine .inr ?_
        show (((onOthers s.k f).procs q).ticks, ((onOthers s.k f).procs q).priority) = _
        rw [onOthers_other f hq']
  · rw [hflags]
    exact h.ready
  · show Kept s.k.ready
    rw [hready]
    decide

/-- FS comes to the end of `dump_fd_graph` -/
theorem LogInv.restore (h : LogInv s) {g : Pid → Nat × Nat} (hsv : s.saved = some g) :
    LogInv { k := dumpEnd s.k g, saved := none } := by
  let f : Pid → Proc → Proc := fun p x => { x with ticks := (g p).1, priority := (g p).2 }
  have hflags : flags (dumpEnd s.k g) = flags s.k := onOthers_flags s.k (f := f) fun _ _ => rfl
  refine ⟨⟨?_, fun q hq => ?_, fun _ => ?_, fun g' hg' => (nomatch hg')⟩, ?_,
    fun hs => absurd rfl hs⟩
  · rw [hflags]
    exact h.core.test
  · show 0 < ((onOthers s.k f).procs q).priority
    rw [onOthers_kept f (.inr hq)]
    exact h.core.kept q hq
  · show 0 < ((onOthers s.k f).procs testA).priority
    rw [onOthers_other f h.testA_other]
    exact (h.core.inside g hsv).1
  · rw [hflags]
    exact h.ready

/-! ## runs -/

/-- no assertion, panic or endless walk -/
def NoPanic (_ : Except Fault LogState) (_ : LogEvent) (r : Except Fault LogState) : Prop :=
  ∀ f, r = .error f → f = .noReady

theorem logStep_some {r r' : Except Fault LogState} (h : logStep r e = some r') :
    ∃ s, r = .ok s ∧ s.possible e ∧ s.result e = r' := by
  cases r with
  | error f => cases h
  | ok s =>
    have h' : (if s.possible e then some (s.result e) else none) = some r' := h
    by_cases ha : s.possible e
    · rw [if_pos ha] at h'
      exact ⟨s, rfl, ha, Option.some.inj h'⟩
    · rw [if_neg ha] at h'
      cases h'

theorem withKernel_ok {r : Except Fault Kernel} (h : s.withKernel r = .ok s') :
    ∃ k, r = .ok k ∧ s' = { s with k := k } := by
  cases r with
  | error e => cases h
  | ok k =>
    cases h
    exact ⟨k, rfl, rfl⟩

theorem withKernel_error {r : Except Fault Kernel} {f : Fault} :
    s.withKernel r = .error f ↔ r = .error f := by
  cases r with
  | error e =>
    constructor
    · intro h
      cases h
      rfl
    · intro h
      cases h
      rfl
  | ok k => exact ⟨fun h => (nomatch h), fun h => (nomatch h)⟩

/-- **Step rule.**  A served step ends and keeps the invariant. -/
theorem LogInv.step (h : LogInv s) (ha : s.possible e) :
    (∀ s', s.result e = .ok s' → LogInv s') ∧
      (Served (.ok s) e (s.result e) → s.result e ≠ .error .noReady) := by
  have hkernel : ∀ {r : Except Fault Kernel}, (∀ k', r = .ok k' → LogInv { s with k := k' }) →
      ∀ s', s.withKernel r = .ok s' → LogInv s' := by
    intro r hr s' hs'
    obtain ⟨k', hk', rfl⟩ := withKernel_ok hs'
    exact hr k' hk'
  cases e with
  | call fn who m =>
    obtain ⟨h1, h2⟩ := h.call ha
    exact ⟨hkernel h1, fun hs hn => h2 hs (withKernel_error.mp hn)⟩
  | clock key nested =>
    obtain ⟨h1, h2⟩ := h.clock key nested
    exact ⟨hkernel h1, fun _ hn => h2 (withKernel_error.mp hn)⟩
  | irq t =>
    obtain ⟨h1, h2⟩ := h.inform t
    exact ⟨hkernel h1, fun _ hn => h2 (withKernel_error.mp hn)⟩
  | mm p x =>
    refine ⟨fun s' hs' => ?_, fun _ hn => (nomatch hn)⟩
    cases hs'
    exact h.mm ha
  | dump g =>
    refine ⟨fun s' hs' => ?_, fun _ hn => (nomatch hn)⟩
    cases hs'
    exact h.dump ha
  | restore =>
    obtain ⟨g, hg⟩ := Option.ne_none_iff_exists'.mp ha.2
    have hres : s.result .restore = .ok { k := dumpEnd s.k g, saved := none } := by
      unfold LogState.result
      rw [hg]
    rw [hres]
    refine ⟨fun s' hs' => ?_, fun _ hn => (nomatch hn)⟩
    cases hs'
    exact h.restore hg

/-- a step that ends without a fault is served -/
theorem LogInv.served (h : LogInv s) (ha : s.possible e) (hok : s.result e = .ok s') :
    Served (.ok s) e (.ok s') := by
  cases e with
  | call fn who m =>
    intro hs hB
    obtain ⟨k', hk', -⟩ := withKernel_ok hok
    exact h.call_served ha hk' hs hB
  | _ => trivial

/-- a fault, or a state with the invariant -/
def LogSafe (r : Except Fault LogState) : Prop := ∀ s, r = .ok s → LogInv s

/-- the two directions, from any state with the invariant -/
theorem LogInv.served_iff (h : LogInv s) (es : List LogEvent) :
    (Always (stepOf logStep) Served (.ok s) es → Always (stepOf logStep) Ends (.ok s) es) ∧
    (Always (stepOf logStep) NoPanic (.ok s) es → Always (stepOf logStep) Ends (.ok s) es →
      Always (stepOf logStep) Served (.ok s) es) := by
  have hsafe : LogSafe (.ok s) := by
    intro s' hs'
    cases hs'
    exact h
  have hkeep : ∀ r e r', LogSafe r → stepOf logStep r e r' → LogSafe r' := by
    intro r e r' hr hst s' hs'
    obtain ⟨s, rfl, ha, rfl⟩ := logStep_some hst
    exact ((hr s rfl).step ha).1 s' hs'
  have hends : ∀ r e r', LogSafe r → stepOf logStep r e r' → Served r e r' → Ends r e r' := by
    intro r e r' hr hst hs
    obtain ⟨s, rfl, ha, rfl⟩ := logStep_some hst
    exact ((hr s rfl).step ha).2 hs
  refine ⟨Always.of_inv_if (I := LogSafe)
    (fun r e r' hr hst hs => ⟨hends r e r' hr hst hs, hkeep r e r' hr hst⟩) es _ hsafe, fun hp => ?_⟩
  refine (Always.congr_inv_of (I := LogSafe) (fun r e r' hr hst hnp => ?_)
    (fun r e r' hr hst _ => hkeep r e r' hr hst) es _ hsafe hp).mp
  refine ⟨fun he => ?_, hends r e r' hr hst⟩
  obtain ⟨s, rfl, ha, rfl⟩ := logStep_some hst
  cases hres : s.result e with
  | error f =>
    rw [hres] at he hnp
    exact absurd (congrArg Except.error (hnp f rfl)) he
  | ok s' => exact (hr s rfl).served ha hres

end

/-! ## from the boot state -/

theorem boot_logInv (n : Nat) : LogInv { k := boot n, saved := none } := by
  refine ⟨⟨rfl, fun q hq => ?_, fun _ => ?_, fun g hg => (nomatch hg)⟩, rfl, fun hs => absurd rfl hs⟩
  · rcases hq with rfl | rfl | rfl | rfl <;> exact Nat.succ_pos _
  · exact Nat.succ_pos _

/-- **`schedule` ends** at every step of a served run from the boot state; and in a run without other
faults, if it ends at every step then every step is served. -/
theorem ends_iff (n : Nat) (es : List LogEvent) :
    (Always (stepOf logStep) Served (.ok ⟨boot n, none⟩) es →
      Always (stepOf logStep) Ends (.ok ⟨boot n, none⟩) es) ∧
    (Always (stepOf logStep) NoPanic (.ok ⟨boot n, none⟩) es →
      Always (stepOf logStep) Ends (.ok ⟨boot n, none⟩) es →
        Always (stepOf logStep) Served (.ok ⟨boot n, none⟩) es) :=
  (boot_logInv n).served_iff es

/-- the tasks come to their loops, and INIT asks FS to UNLINK a file -/
def untilUnlink : List LogEvent :=
  List.replicate 8 (.call .RECEIVE .any 0x1000) ++
    [.call .SEND (.proc taskFs) 0x2000, .call .RECEIVE (.proc taskFs) 0x2000]

/-- `get_ticks` of the running process: its SEND and its RECEIVE, then SYS -/
def askSys (p : Pid) : List LogEvent :=
  [.call .SEND (.proc taskSys) 0x3000, .call .RECEIVE (.proc taskSys) 0x3000,
    .call .SEND (.proc p) 0x1000, .call .RECEIVE .any 0x1000]

/-- `dump_fd_graph` reads a sector, and HD waits for the disk -/
def slowDisk : List LogEvent :=
  untilUnlink ++ [.dump fun _ => (0, 0), .call .SEND (.proc taskHd) 0x4000,
    .call .RECEIVE (.proc taskHd) 0x4000] ++ askSys taskHd ++ askSys taskHd ++
    [.call .RECEIVE .interrupt 0x5000]

theorem ends_fails : ¬ Always (stepOf logStep) Ends (.ok ⟨boot 0x80000, none⟩) slowDisk := by
  refine Always.not_of_exec slowDisk.dropLast
    (fun _ r => match r with | .error .noReady => true | _ => false) (fun s r _ hr => ?_)
    (by decide +kernel)
  split at hr
  · exact fun h => h rfl
  · cases hr

end Noxis.Ipc
