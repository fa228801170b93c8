import Noxis.Ipc.Mm
import Noxis.Ipc.Frame
import Noxis.Ipc.Boot

/-!
# 25-osfs11: fork is atomic for a parent that is blocked

`Building m`: MM has duplicated a record and has not finished the set-up of the child.  During the
set-up the clock may tick and other processes may run.

* `Frozen`, `Stage`   what holds during the set-up if the parent was blocked in its RECEIVE from MM
                      when its record was duplicated;
* `Stage.micro`       one micro-step of MM takes the set-up one stage further;
* `Stage.other`       no other event disturbs it;
* `atomic_iff`        the result for runs.
-/

namespace Noxis.Ipc

section
variable {k k' : Kernel} {p q z : Pid} {m : Nat}

/-! ## a process that waits for somebody else -/

/-- a process that receives from `z` is left alone by the system calls of the others -/
theorem sysSendrec_still {fn : IpcFunction} {who : Who} (hp : asks k p = some (.proc z))
    (hqp : q ≠ p) (hqz : q ≠ z) (hs : sysSendrec k fn who m q = .ok k') : asks k' p = asks k p := by
  cases fn with
  | SEND =>
    cases who with
    | noTask =>
      unfold sysSendrec at hs
      rw [check_bind_ok] at hs
      exact absurd rfl hs.1
    | any => exact absurd hs (by simp [sysSendrec, bind_ok])
    | interrupt => exact absurd hs (by simp [sysSendrec, bind_ok])
    | proc d =>
      obtain ⟨-, -, he | ⟨-, he⟩⟩ := sysSendrec_send hs
      · have hpd : p ≠ d := by
          rintro rfl
          have hw := he.wants
          rcases hw with ⟨hr, hw⟩
          have ha : asks k p = some (k.procs p).recvFrom := by
            show (k.procs p).asks = _
            unfold Proc.asks
            rw [hr]
            rfl
          rw [hp] at ha
          have ha' := Option.some.inj ha
          rw [← ha'] at hw
          rcases hw with hw | hw
          · cases hw
            exact hqz rfl
          · cases hw
        rw [he.asks, Function.update_of_ne hpd]
      · rw [he.asks]
  | RECEIVE =>
    obtain ⟨-, ⟨-, -, he⟩ | ⟨prev, s, -, he⟩ | ⟨-, -, he⟩⟩ := sysSendrec_receive hs
    · rcases he.rest with ⟨ha, -, -⟩ | ⟨ha, -⟩
      · rw [ha]
      · rw [ha, Function.update_of_ne hqp.symm]
    · rw [he.asks]
    · rw [he.asks, Function.update_of_ne hqp.symm]

/-- and so is a process that is not blocked -/
theorem sysSendrec_zero {fn : IpcFunction} {who : Who} (hp : flags k p = .zero) (hqp : q ≠ p)
    (hs : sysSendrec k fn who m q = .ok k') : flags k' p = .zero := by
  have hupd : ∀ r, Function.update (flags k) r .zero p = .zero := fun r => by
    by_cases hr : p = r
    · subst hr
      exact Function.update_self ..
    · rw [Function.update_of_ne hr]
      exact hp
  cases fn with
  | SEND =>
    cases who with
    | noTask =>
      unfold sysSendrec at hs
      rw [check_bind_ok] at hs
      exact absurd rfl hs.1
    | any => exact absurd hs (by simp [sysSendrec, bind_ok])
    | interrupt => exact absurd hs (by simp [sysSendrec, bind_ok])
    | proc d =>
      obtain ⟨-, -, he | ⟨-, he⟩⟩ := sysSendrec_send hs
      · rw [he.flags]
        exact hupd d
      · rw [he.flags, Function.update_of_ne hqp.symm]
        exact hp
  | RECEIVE =>
    obtain ⟨-, ⟨-, -, he⟩ | ⟨prev, s, -, he⟩ | ⟨-, -, he⟩⟩ := sysSendrec_receive hs
    · rcases he.rest with ⟨-, -, hf⟩ | ⟨-, -, hf, -⟩
      · rw [hf]
        exact hp
      · rw [hf]
        exact hupd q
    · rw [he.flags]
      exact hupd s
    · rw [he.flags, Function.update_of_ne hqp.symm]
      exact hp

theorem informInt_still (hp : asks k p = some (.proc z)) (hs : informInt k q = .ok k') :
    asks k' p = asks k p := by
  rcases (informInt_ok hs).rest with ⟨ha, -, -⟩ | ⟨ha, -, -, hq⟩
  · rw [ha]
  · have hpq : p ≠ q := by
      rintro rfl
      rw [hp] at hq
      rcases hq with hq | hq <;> cases hq
    rw [ha, Function.update_of_ne hpq]

theorem informInt_zero (hp : flags k p = .zero) (hs : informInt k q = .ok k') :
    flags k' p = .zero := by
  rcases (informInt_ok hs).rest with ⟨-, -, hf⟩ | ⟨-, -, hf, -⟩
  · rw [hf]
    exact hp
  · rw [hf]
    by_cases hpq : p = q
    · subst hpq
      exact Function.update_self ..
    · rw [Function.update_of_ne hpq]
      exact hp

end

namespace Mm
open Run

section
variable {L : Layout} {m m' : Machine} {k k' : Kernel} {p pid child : Pid}

theorem clockHandler_still {key : Bool} (hp : asks k p = some (.proc taskMm))
    (hs : clockHandler k key = .ok k') : asks k' p = asks k p := by
  unfold clockHandler at hs
  obtain ⟨k₁, hk₁, hs⟩ := bind_ok.mp hs
  have h0 : asks (k.set k.ready fun p => { p with ticks := p.ticks - 1 }) = asks k :=
    k.proj_set_eq Proc.asks k.ready _ rfl
  have h1 : asks k₁ p = asks k p := by
    cases key with
    | true => exact (informInt_still ((congrFun h0 p).trans hp) hk₁).trans (congrFun h0 p)
    | false => cases hk₁; exact congrFun h0 p
  by_cases ht : 0 < (k₁.procs k₁.ready).ticks
  · rw [if_pos ht] at hs
    cases hs
    exact h1
  · rw [if_neg ht] at hs
    rw [(schedule_ok hs).asks]
    exact h1

theorem clockHandler_zero {key : Bool} (hp : flags k p = .zero)
    (hs : clockHandler k key = .ok k') : flags k' p = .zero := by
  unfold clockHandler at hs
  obtain ⟨k₁, hk₁, hs⟩ := bind_ok.mp hs
  have h0 : flags (k.set k.ready fun p => { p with ticks := p.ticks - 1 }) = flags k :=
    k.proj_set_eq Proc.flags k.ready _ rfl
  have h1 : flags k₁ p = .zero := by
    cases key with
    | true => exact informInt_zero ((congrFun h0 p).trans hp) hk₁
    | false => cases hk₁; exact (congrFun h0 p).trans hp
  by_cases ht : 0 < (k₁.procs k₁.ready).ticks
  · rw [if_pos ht] at hs
    cases hs
    exact h1
  · rw [if_neg ht] at hs
    rw [(schedule_ok hs).flags]
    exact h1

theorem clockHandler_frame {key : Bool} (hs : clockHandler k key = .ok k') :
    Stays k k' ∧ Picks k k' := by
  unfold clockHandler at hs
  obtain ⟨k₁, hk₁, hs⟩ := bind_ok.mp hs
  have h0 := (Stays.rfl' (k := k)).set k.ready (fun p => { p with ticks := p.ticks - 1 })
    fun _ => ⟨rfl, rfl, rfl, rfl, rfl, rfl, rfl, rfl⟩
  have h1 : Stays k k₁ ∧ k₁.ready = k.ready := by
    cases key with
    | true =>
      obtain ⟨hi, hr⟩ := informInt_frame hk₁
      exact ⟨h0.trans hi, hr⟩
    | false => cases hk₁; exact ⟨h0, rfl⟩
  by_cases ht : 0 < (k₁.procs k₁.ready).ticks
  · rw [if_pos ht] at hs
    cases hs
    exact ⟨h1.1, .inl h1.2⟩
  · rw [if_neg ht] at hs
    exact ⟨h1.1.trans (schedule_stays hs), .inr (schedule_picks hs)⟩

/-! ## events that are not MM's -/

/-- nothing of `p` has changed -/
structure Undisturbed (L : Layout) (m m' : Machine) (p : Pid) : Prop where
  asks : asks m'.k p = asks m.k p
  fixed : (m.k.procs p).Fixed (m'.k.procs p)
  ram : ∀ a, owner L a = some p → m'.ram a = m.ram a

theorem asks_ne_ready (hp : asks m.k p = some (.proc taskMm)) (hr : flags m.k m.k.ready = .zero) :
    m.k.ready ≠ p := by
  rintro rfl
  rw [show Ipc.asks m.k m.k.ready = none from Proc.asks_of_zero hr] at hp
  cases hp

/-- what the running process writes is its own -/
theorem write_own {ws : List (Nat × Nat)} {q : Pid} {ram : Nat → Nat} {a : Nat}
    (hw : ∀ w ∈ ws, owner L w.1 = some q) (ha : owner L a = some p) (hpq : q ≠ p) :
    (ws.foldl (fun ram w => Function.update ram w.1 w.2) ram) a = ram a := by
  induction ws generalizing ram with
  | nil => rfl
  | cons w ws ih =>
    rw [List.foldl_cons, ih fun x hx => hw x (List.mem_cons_of_mem _ hx)]
    refine Function.update_of_ne ?_ ..
    rintro rfl
    have := hw w (List.mem_cons_self ..)
    rw [ha] at this
    cases this
    exact hpq rfl

/-- **A process that is blocked on MM is disturbed by MM only.** -/
theorem step_undisturbed {e : Event} (he : e ≠ .mm) (hp : asks m.k p = some (.proc taskMm))
    (hs : step L m e = some m') : Undisturbed L m m' p := by
  cases e with
  | mm => exact absurd rfl he
  | compute regs ws ms =>
    unfold step at hs
    simp only at hs
    split at hs
    · rename_i hc
      obtain ⟨-, hz, hws, -⟩ := hc
      have hr := asks_ne_ready hp hz
      cases hs
      refine ⟨?_, ?_, fun a ha => write_own hws ha hr⟩
      · exact congrFun (m.k.proj_set_eq Proc.asks m.k.ready
          (fun p => { p with regs := regs }) rfl) p
      · have hset : ∀ f, (m.k.procs p).Fixed ((m.k.set m.k.ready f).procs p) := fun f => by
          rw [Kernel.set_ne _ _ hr.symm]
          exact Proc.Fixed.rfl'
        exact hset fun p => { p with regs := regs }
    · cases hs
  | call fn who buf =>
    simp only [step] at hs
    split at hs
    · rename_i hc
      obtain ⟨hm, hz⟩ := hc
      have hr := asks_ne_ready hp hz
      split at hs
      · cases hs
      · rename_i k' hk
        cases hs
        refine ⟨?_, ?_, fun _ _ => rfl⟩
        · refine Eq.trans ?_ (sysSendrec_still hp hr hm hk)
          exact congrFun (k'.proj_set_eq Proc.asks m.k.ready
            (fun p => { p with regs := { p.regs with eax := 0 } }) rfl) p
        · have hset : ∀ f, (m.k.procs p).Fixed ((k'.set m.k.ready f).procs p) := fun f => by
            rw [Kernel.set_ne _ _ hr.symm]
            exact (sysSendrec_frame hk).1 p
          exact hset fun p => { p with regs := { p.regs with eax := 0 } }
    · cases hs
  | clock key =>
    simp only [step] at hs
    split at hs
    · cases hs
    · rename_i k' hk
      cases hs
      exact ⟨clockHandler_still hp hk, (clockHandler_frame hk).1 p, fun _ _ => rfl⟩
  | irq t =>
    simp only [step] at hs
    split at hs
    · cases hs
    · rename_i k' hk
      cases hs
      exact ⟨informInt_still hp hk, (informInt_frame hk).1 p, fun _ _ => rfl⟩

theorem step_todo {e : Event} (he : e ≠ .mm) (hs : step L m e = some m') : m'.todo = m.todo := by
  cases e with
  | mm => exact absurd rfl he
  | compute regs ws ms =>
    unfold step at hs
    simp only at hs
    split at hs <;> cases hs
    rfl
  | call fn who buf =>
    simp only [step] at hs
    split at hs
    · split at hs <;> cases hs
      rfl
    · cases hs
  | clock key =>
    simp only [step] at hs
    split at hs <;> cases hs
    rfl
  | irq t =>
    simp only [step] at hs
    split at hs <;> cases hs
    rfl

/-- MM stays as it is, and `p_proc_ready` stays or is a runnable process -/
theorem step_mm_still {e : Event} (he : e ≠ .mm) (hz : flags m.k taskMm = .zero)
    (hs : step L m e = some m') :
    flags m'.k taskMm = .zero ∧ Picks m.k m'.k ∧ m'.todo = m.todo ∧ m'.snap = m.snap := by
  cases e with
  | mm => exact absurd rfl he
  | compute regs ws ms =>
    unfold step at hs
    simp only at hs
    split at hs
    · cases hs
      refine ⟨?_, .inl rfl, rfl, rfl⟩
      exact (congrFun (m.k.proj_set_eq Proc.flags m.k.ready
        (fun p => { p with regs := regs }) rfl) taskMm).trans hz
    · cases hs
  | call fn who buf =>
    simp only [step] at hs
    split at hs
    · rename_i hc
      split at hs
      · cases hs
      · rename_i k' hk
        cases hs
        have hf := k'.proj_set_eq Proc.flags m.k.ready
          (fun p => { p with regs := { p.regs with eax := 0 } }) rfl
        refine ⟨(congrFun hf taskMm).trans (sysSendrec_zero hz hc.1 hk), ?_, rfl, rfl⟩
        exact (sysSendrec_frame hk).2.imp id fun h => (congrFun hf k'.ready).trans h
    · cases hs
  | clock key =>
    simp only [step] at hs
    split at hs
    · cases hs
    · rename_i k' hk
      cases hs
      exact ⟨clockHandler_zero hz hk, (clockHandler_frame hk).2, rfl, rfl⟩
  | irq t =>
    simp only [step] at hs
    split at hs
    · cases hs
    · rename_i k' hk
      cases hs
      exact ⟨informInt_zero hz hk, .inl (informInt_frame hk).2, rfl, rfl⟩

/-! ## the set-up of the child -/

def Micro.isSetup : Micro → Bool
  | .settle .. | .alloc .. | .image .. | .initDescC .. | .initDescRw .. => true
  | _ => false

def Plain (l : List Micro) : Prop := l.any Micro.isSetup = false

/-- the child has been duplicated and is not complete -/
def Building (m : Machine) : Prop := m.todo.any Micro.isSetup = true

/-- the segment of the parent -/
def segment (m : Machine) (x : Snap) : Desc := (m.k.procs x.parent).ldtC

/-- the first `n` bytes of the parent's segment, as they were when the child was duplicated, are in
the child's segment, as far as they are the parent's own memory -/
def Copied (L : Layout) (m : Machine) (x : Snap) (n : Nat) : Prop :=
  ∀ i < n, owner L ((segment m x).base + i) = some x.parent →
    m.ram (childBase x.child + i) = x.ram ((segment m x).base + i)

/-- what holds during the set-up -/
structure Frozen (L : Layout) (m : Machine) (x : Snap) : Prop where
  parent : asks m.k x.parent = some (.proc taskMm)
  child : asks m.k x.child = some (.proc taskMm)
  mm : flags m.k taskMm = .zero
  ready : m.k.ready ≠ x.child
  ne : x.parent ≠ x.child
  number : nrTasks + nrNativeProcs ≤ x.child.val
  regs : (m.k.procs x.child).regs = x.regs
  ram : ∀ a, owner L a = some x.parent → m.ram a = x.ram a

/-- how far the set-up is -/
inductive Stage (L : Layout) (m : Machine) (x : Snap) : List Micro → Prop
  | settle {sel : Nat} {rest : List Micro} : Plain rest →
    Stage L m x (.settle x.parent x.child sel :: .alloc x.parent x.child :: rest)
  | alloc {rest : List Micro} : Plain rest → (m.k.procs x.child).parent = some x.parent →
    Stage L m x (.alloc x.parent x.child :: rest)
  | image {done n : Nat} {rest : List Micro} : Plain rest →
    (m.k.procs x.child).parent = some x.parent → (segment m x).size ≤ procImageSizeDefault →
    done + n = (segment m x).size → Copied L m x done →
    Stage L m x (.image (childBase x.child + done) ((segment m x).base + done) n ::
      .initDescC x.child (childBase x.child) :: .initDescRw x.child (childBase x.child) :: rest)
  | initC {rest : List Micro} : Plain rest → (m.k.procs x.child).parent = some x.parent →
    (segment m x).size ≤ procImageSizeDefault → Copied L m x (segment m x).size →
    Stage L m x (.initDescC x.child (childBase x.child) ::
      .initDescRw x.child (childBase x.child) :: rest)
  | initRw {rest : List Micro} : Plain rest → (m.k.procs x.child).parent = some x.parent →
    (segment m x).size ≤ procImageSizeDefault → Copied L m x (segment m x).size →
    (m.k.procs x.child).ldtC.base = childBase x.child →
    Stage L m x (.initDescRw x.child (childBase x.child) :: rest)

/-- the child is complete: its parent, its segments, its registers and its memory -/
structure SetUp (L : Layout) (m : Machine) (x : Snap) : Prop where
  parent : (m.k.procs x.child).parent = some x.parent
  ldtC : (m.k.procs x.child).ldtC.base = childBase x.child
  ldtRw : (m.k.procs x.child).ldtRw.base = childBase x.child
  regs : (m.k.procs x.child).regs = x.regs
  copied : Copied L m x (segment m x).size

variable {x : Snap} {l : List Micro}

/-- the bytes of a child's segment are its own -/
theorem owner_child {i : Nat} (hc : nrTasks + nrNativeProcs ≤ child.val)
    (hi : i < procImageSizeDefault) : owner L (childBase child + i) = some child := by
  unfold nrNativeProcs at hc
  unfold procImageSizeDefault at hi
  have hdiv : nrTasks + nrNativeProcs +
      (childBase child + i - procsBase) / procImageSizeDefault = child.val := by
    unfold childBase procsBase procImageSizeDefault nrNativeProcs
    omega
  have hge : ¬ childBase child + i < procsBase := by
    unfold childBase
    omega
  unfold owner
  rw [if_neg hge, dif_pos (by rw [hdiv]; exact child.isLt)]
  exact congrArg some (Fin.ext hdiv)

theorem Copied.congr {n : Nat} (h : Copied L m x n) (hs : segment m' x = segment m x)
    (hr : ∀ a, owner L a = some x.child → m'.ram a = m.ram a)
    (hc : nrTasks + nrNativeProcs ≤ x.child.val) (hn : n ≤ procImageSizeDefault) :
    Copied L m' x n := by
  intro i hi ho
  rw [hs] at ho ⊢
  rw [hr _ (owner_child hc (lt_of_lt_of_le hi hn))]
  exact h i hi ho

theorem Frozen.other (h : Frozen L m x) {e : Event} (he : e ≠ .mm)
    (hs : step L m e = some m') : Frozen L m' x := by
  have hp := step_undisturbed he h.parent hs
  have hc := step_undisturbed he h.child hs
  obtain ⟨hz, hpick, -, -⟩ := step_mm_still he h.mm hs
  refine ⟨hp.asks.trans h.parent, hc.asks.trans h.child, hz, ?_, h.ne, h.number,
    hc.fixed.regs.trans h.regs, fun a ha => (hp.ram a ha).trans (h.ram a ha)⟩
  rcases hpick with hr | hr
  · rw [hr]
    exact h.ready
  · exact asks_ne_ready (hc.asks.trans h.child) hr

theorem Stage.other (h : Stage L m x l) (hf : Frozen L m x) {e : Event} (he : e ≠ .mm)
    (hs : step L m e = some m') : Stage L m' x l := by
  have hp := step_undisturbed he hf.parent hs
  have hc := step_undisturbed he hf.child hs
  have hseg : segment m' x = segment m x := hp.fixed.ldtC
  have hpar := hc.fixed.parent
  have hcop : ∀ n, n ≤ procImageSizeDefault → Copied L m x n → Copied L m' x n :=
    fun n hn hcop => hcop.congr hseg hc.ram hf.number hn
  cases h with
  | settle hr => exact .settle hr
  | alloc hr h1 => exact .alloc hr (hpar.trans h1)
  | image hr h1 hsize hdone hcopied =>
    rw [← hseg]
    refine .image hr (hpar.trans h1) (hseg ▸ hsize) (hseg ▸ hdone) (hcop _ ?_ hcopied)
    omega
  | initC hr h1 hsize hcopied =>
    refine .initC hr (hpar.trans h1) (hseg ▸ hsize) ?_
    rw [hseg]
    exact hcop _ hsize hcopied
  | initRw hr h1 hsize hcopied h2 =>
    refine .initRw hr (hpar.trans h1) (hseg ▸ hsize) ?_ ((congrArg Desc.base hc.fixed.ldtC).trans h2)
    rw [hseg]
    exact hcop _ hsize hcopied

/-! ## MM's own steps during the set-up -/

theorem allocMem_some {n base : Nat} (h : allocMem L child n = some base) :
    base = childBase child ∧ n ≤ procImageSizeDefault := by
  unfold allocMem at h
  split at h
  · cases h
  · rename_i hok
    rw [not_or, not_or] at hok
    exact ⟨(Option.some.inj h).symm, Nat.le_of_not_lt hok.2.1⟩

theorem Frozen.withTodo (h : Frozen L m x) (l : List Micro) : Frozen L { m with todo := l } x :=
  ⟨h.parent, h.child, h.mm, h.ready, h.ne, h.number, h.regs, h.ram⟩

theorem Stage.withTodo (h : Stage L m x l) (l' : List Micro) :
    Stage L { m with todo := l' } x l := by
  cases h with
  | settle hr => exact .settle hr
  | alloc hr h1 => exact .alloc hr h1
  | image hr h1 hsize hdone hcopied => exact Stage.image hr h1 hsize hdone hcopied
  | initC hr h1 hsize hcopied => exact Stage.initC hr h1 hsize hcopied
  | initRw hr h1 hsize hcopied h2 => exact Stage.initRw hr h1 hsize hcopied h2

/-- a change of the child's record that leaves its state and its registers alone -/
theorem Frozen.set (h : Frozen L m x) (f : Proc → Proc)
    (ha : (f (m.k.procs x.child)).asks = (m.k.procs x.child).asks)
    (hf : (f (m.k.procs x.child)).flags = (m.k.procs x.child).flags)
    (hr : (f (m.k.procs x.child)).regs = (m.k.procs x.child).regs) :
    Frozen L { m.setProc x.child f with todo := l } x := by
  have ha' : asks (m.k.set x.child f) = asks m.k := m.k.proj_set_eq Proc.asks x.child f ha
  have hf' : flags (m.k.set x.child f) = flags m.k := m.k.proj_set_eq Proc.flags x.child f hf
  refine ⟨(congrFun ha' _).trans h.parent, (congrFun ha' _).trans h.child,
    (congrFun hf' _).trans h.mm, h.ready, h.ne, h.number, ?_, h.ram⟩
  show ((m.k.set x.child f).procs x.child).regs = _
  rw [Kernel.set_same, hr]
  exact h.regs

theorem segment_set (h : x.parent ≠ x.child) (f : Proc → Proc) :
    segment { m.setProc x.child f with todo := l } x = segment m x := by
  show ((m.k.set x.child f).procs x.parent).ldtC = _
  rw [Kernel.set_ne _ _ h]
  rfl

/-- one byte of the image -/
theorem Copied.step {done : Nat} (h : Copied L m x done) (hf : Frozen L m x)
    (hn : done < procImageSizeDefault) :
    Copied L { m with
      ram := Function.update m.ram (childBase x.child + done) (m.ram ((segment m x).base + done))
      todo := l } x (done + 1) := by
  intro i hi ho
  have ho' : owner L ((segment m x).base + i) = some x.parent := ho
  show Function.update m.ram _ _ (childBase x.child + i) = x.ram ((segment m x).base + i)
  by_cases hid : i = done
  · subst hid
    rw [Function.update_self]
    exact hf.ram _ ho'
  · rw [Function.update_of_ne (by omega)]
    exact h i (by omega) ho'

theorem Frozen.step {done n : Nat} (h : Frozen L m x) (hn : done < procImageSizeDefault) :
    Frozen L { m with
      ram := Function.update m.ram (childBase x.child + done) n
      todo := l } x := by
  refine ⟨h.parent, h.child, h.mm, h.ready, h.ne, h.number, h.regs, fun a ha => ?_⟩
  show Function.update m.ram _ _ a = _
  rw [Function.update_of_ne]
  · exact h.ram a ha
  · rintro rfl
    rw [owner_child h.number hn] at ha
    exact h.ne (Option.some.inj ha).symm

/-- **One micro-step of the set-up.** -/
theorem Stage.micro {a : Micro} {rest : List Micro} (h : Stage L m x (a :: rest))
    (hf : Frozen L m x) (hs : microStep L m rest a = some m') :
    m'.snap = m.snap ∧ m'.k.ready = m.k.ready ∧
      (Frozen L m' x ∧ Stage L m' x m'.todo ∨ Plain m'.todo ∧ SetUp L m' x) := by
  cases h with
  | settle hr =>
    cases hs
    set f : Proc → Proc := fun p => { p with
      ldtSel := _, parent := some x.parent
      name := childName (m.k.procs x.parent).name x.child } with hfun
    have hsame := Kernel.set_same m.k x.child f
    refine ⟨rfl, rfl, .inl ⟨hf.set f rfl rfl rfl, .alloc hr ?_⟩⟩
    exact congrArg Proc.parent hsame
  | @alloc rest hr h1 =>
    simp only [microStep] at hs
    split at hs
    · split at hs
      · cases hs
      · rename_i base hb
        cases hs
        obtain ⟨rfl, hsize⟩ := allocMem_some hb
        have hnone : Copied L m x 0 := fun i hi => absurd hi (Nat.not_lt_zero i)
        have hr' : Plain (.tellFs FORK x.child :: .hearFs :: .birth x.child :: rest) := hr
        have himg := Stage.image hr' h1 hsize (Nat.zero_add _) hnone
        rw [Nat.add_zero, Nat.add_zero] at himg
        exact ⟨rfl, rfl, .inl ⟨hf.withTodo _, himg.withTodo _⟩⟩
    · cases hs
  | @image done n rest hr h1 hsize hdone hcopied =>
    cases n with
    | zero =>
      cases hs
      have hd : done = (segment m x).size := hdone
      subst hd
      have hinit := Stage.initC hr h1 hsize hcopied
      exact ⟨rfl, rfl, .inl ⟨hf.withTodo _, hinit.withTodo _⟩⟩
    | succ n =>
      cases hs
      have hlt : done < procImageSizeDefault := by omega
      have hd : done + 1 + n = (segment m x).size := by omega
      refine ⟨rfl, rfl, .inl ⟨hf.step hlt, ?_⟩⟩
      rw [Nat.add_assoc _ done 1, Nat.add_assoc _ done 1]
      exact Stage.image hr h1 hsize hd (hcopied.step hf hlt)
  | @initC rest hr h1 hsize hcopied =>
    cases hs
    set f : Proc → Proc := fun p => { p with ldtC := imageDesc (childBase x.child) } with hfun
    have hsame := Kernel.set_same m.k x.child f
    -- for any descriptor, so that nothing tries to compute this one
    have hasks : ∀ (p : Proc) (d : Desc), Proc.asks { p with ldtC := d } = p.asks := fun _ _ => rfl
    have hseg := segment_set (m := m)
      (l := .initDescRw x.child (childBase x.child) :: rest) hf.ne f
    refine ⟨rfl, rfl, .inl ⟨hf.set f (hasks _ _) rfl rfl, ?_⟩⟩
    refine Stage.initRw hr ((congrArg Proc.parent hsame).trans h1) (hseg ▸ hsize) ?_ ?_
    · have hcop := hcopied.congr hseg (fun _ _ => rfl) hf.number hsize
      exact (congrArg (fun d : Desc => Copied L _ x d.size) hseg).mpr hcop
    · exact congrArg (fun p : Proc => p.ldtC.base) hsame
  | @initRw _ hr h1 hsize hcopied h2 =>
    cases hs
    set f : Proc → Proc := fun p => { p with ldtRw := imageDesc (childBase x.child) } with hfun
    have hsame := Kernel.set_same m.k x.child f
    have hseg := segment_set (m := m) (l := rest) hf.ne f
    refine ⟨rfl, rfl, .inr ⟨hr, ?_⟩⟩
    refine ⟨(congrArg Proc.parent hsame).trans h1,
      (congrArg (fun p : Proc => p.ldtC.base) hsame).trans h2,
      congrArg (fun p : Proc => p.ldtRw.base) hsame,
      (congrArg Proc.regs hsame).trans hf.regs, ?_⟩
    have hcop := hcopied.congr hseg (fun _ _ => rfl) hf.number hsize
    exact (congrArg (fun d : Desc => Copied L _ x d.size) hseg).mpr hcop

/-! ## MM's other steps -/

theorem Stage.building (h : Stage L m x l) : l.any Micro.isSetup = true := by
  cases h <;> rfl

theorem Plain.call {fn : IpcFunction} {who : Who} {buf : Nat} (h : Plain l)
    (hs : m.call fn who buf l = some m') : Plain m'.todo := by
  obtain ⟨k', -, rfl⟩ := Machine.call_some.mp hs
  exact h

/-- only a duplication starts a set-up -/
theorem Plain.micro {a : Micro} {rest : List Micro} (h : Plain (a :: rest))
    (hd : ∀ pid, a ≠ .dup pid) (hs : microStep L m rest a = some m') : Plain m'.todo := by
  have hrest : Plain rest := by
    unfold Plain at h
    rw [List.any_cons, Bool.or_eq_false_iff] at h
    exact h.2
  cases a with
  | dup pid => exact absurd rfl (hd pid)
  | settle pid child sel => cases h
  | alloc pid child => cases h
  | image dst src n => cases h
  | initDescC child base => cases h
  | initDescRw child base => cases h
  | dispatch =>
    simp only [microStep] at hs
    split at hs
    · split at hs
      · cases hs; rfl
      · split at hs
        · split at hs
          · cases hs
          · cases hs; rfl
        · split at hs
          · cases hs; rfl
          · cases hs
    · cases hs
  | reply src => exact hrest.call hs
  | tellFs type pid => exact hrest.call hs
  | hearFs => exact hrest.call hs
  | birth child => exact hrest.call hs
  | exitMark pid parent status =>
    simp only [microStep] at hs
    split at hs
    · cases hs; exact hrest
    · cases hs; exact hrest
  | exitKids pid i =>
    simp only [microStep] at hs
    split at hs
    · split at hs
      · split at hs
        · cases hs; exact hrest
        · cases hs; exact hrest
      · cases hs; exact hrest
    · cases hs; exact hrest
  | waitScan pid i children =>
    simp only [microStep] at hs
    split at hs
    · split at hs
      · split at hs
        · cases hs; rfl
        · cases hs; exact hrest
      · cases hs; exact hrest
    · split at hs
      · cases hs; exact hrest
      · exact hrest.call hs
  | cleanup p =>
    simp only [microStep] at hs
    split at hs
    · cases hs
    · exact Plain.call (l := .free p :: rest) hrest hs
  | free p => cases hs; exact hrest

/-- **The duplication of a parent that is blocked.** -/
theorem Stage.start {rest : List Micro} (hr : Plain rest) (hz : flags m.k taskMm = .zero)
    (hmm : m.k.ready = taskMm) (hc : freeRecord m.k = some child)
    (hb : asks m.k pid = some (.proc taskMm)) (hs : microStep L m rest (.dup pid) = some m') :
    ∃ x, m'.snap = some x ∧ Frozen L m' x ∧ Stage L m' x m'.todo := by
  have hfree : flags m.k child = .FREE_SLOT := freeRecord_flags hc
  have hne : pid ≠ child := by
    rintro rfl
    have ha : asks m.k pid = none := by
      show (m.k.procs pid).asks = none
      unfold Proc.asks
      rw [show (m.k.procs pid).flags = _ from hfree]
      rfl
    rw [hb] at ha
    cases ha
  have hmc : taskMm ≠ child := by
    rintro rfl
    rw [hz] at hfree
    cases hfree
  have hset := Kernel.set_same m.k child fun _ => m.k.procs pid
  simp only [microStep, hc] at hs
  split at hs
  · cases hs
  · rename_i hnum
    cases hs
    refine ⟨_, rfl, ⟨?_, ?_, ?_, ?_, hne, Nat.le_of_not_lt hnum, ?_, fun _ _ => rfl⟩, .settle hr⟩
    · exact (congrArg Proc.asks (m.k.set_ne (fun _ => m.k.procs pid) hne)).trans hb
    · exact (congrArg Proc.asks hset).trans hb
    · exact (congrArg Proc.flags (m.k.set_ne (fun _ => m.k.procs pid) hmc)).trans hz
    · show m.k.ready ≠ child
      rw [hmm]
      exact hmc
    · exact congrArg Proc.regs hset

/-! ## runs -/

/-- `do_fork` is about to duplicate the record of `pid` -/
def Forks (s : Machine) (e : Event) (pid : Pid) : Prop :=
  e = .mm ∧ s.todo.head? = some (.dup pid) ∧ (freeRecord s.k).isSome = true

/-- **The property.**  The parent is blocked in its RECEIVE when it is duplicated; the child is not
selected before it is complete; and then it is the parent as it was. -/
structure ForkAtomic (L : Layout) (s : Machine) (e : Event) (t : Machine) : Prop where
  blocked : ∀ pid, Forks s e pid → asks s.k pid = some (.proc taskMm)
  waits : Building t → ∀ x ∈ t.snap, t.k.ready ≠ x.child
  setUp : Building s → ¬ Building t → ∀ x ∈ t.snap, SetUp L t x

/-- **The condition.**  MM gets to the duplication only after the parent has made its second system
call. -/
def ParentBlocked (s : Machine) (e : Event) (_ : Machine) : Prop :=
  ∀ pid, Forks s e pid → asks s.k pid = some (.proc taskMm)

/-- no child is being set up, or one whose parent is blocked -/
def Sound (L : Layout) (m : Machine) : Prop :=
  Plain m.todo ∨ ∃ x, m.snap = some x ∧ Frozen L m x ∧ Stage L m x m.todo

theorem not_building (h : Plain m.todo) : ¬ Building m := by
  unfold Building
  rw [show m.todo.any Micro.isSetup = false from h]
  exact Bool.false_ne_true

/-- **One step of the system.** -/
theorem Sound.step {e : Event} (h : Sound L m) (hs : step L m e = some m')
    (hb : ParentBlocked m e m') : Sound L m' ∧ ForkAtomic L m e m' := by
  rcases h with hplain | ⟨x, hx, hf, hst⟩
  · -- between two forks
    have hgo : Sound L m' → (Building m' → ∀ x ∈ m'.snap, m'.k.ready ≠ x.child) →
        Sound L m' ∧ ForkAtomic L m e m' := fun h1 h2 =>
      ⟨h1, hb, h2, fun hbm => absurd hbm (not_building hplain)⟩
    have hdone : Plain m'.todo → Sound L m' ∧ ForkAtomic L m e m' := fun h =>
      hgo (.inl h) fun hbm => absurd hbm (not_building h)
    by_cases he : e = .mm
    · subst he
      simp only [Mm.step] at hs
      split at hs
      · rename_i hr
        cases ht : m.todo with
        | nil =>
          rw [ht] at hs
          refine hdone ?_
          exact Plain.call (m := m.setMsg _ _) (l := [.dispatch]) rfl hs
        | cons a rest =>
          rw [ht] at hs
          have hplain' : Plain (a :: rest) := ht ▸ hplain
          by_cases hd : ∃ pid, a = .dup pid
          · obtain ⟨pid, rfl⟩ := hd
            cases hc : freeRecord m.k with
            | none =>
              simp only [microStep, hc] at hs
              cases hs
              exact hdone hplain'
            | some child =>
              have ha := hb pid ⟨rfl, by rw [ht]; rfl, by rw [hc]; rfl⟩
              have hrest : Plain rest := hplain'
              obtain ⟨x, hx, hf, hst⟩ := Stage.start hrest hr.2 hr.1 hc ha hs
              refine hgo (.inr ⟨x, hx, hf, hst⟩) fun _ y hy => ?_
              rw [hx] at hy
              cases hy
              exact hf.ready
          · exact hdone (hplain'.micro (fun pid e => hd ⟨pid, e⟩) hs)
      · cases hs
    · have hdis : m'.todo = m.todo := step_todo he hs
      exact hdone (by rw [hdis]; exact hplain)
  · -- during a set-up
    have hgo : Frozen L m' x ∧ Stage L m' x m'.todo → m'.snap = m.snap →
        Sound L m' ∧ ForkAtomic L m e m' := by
      rintro ⟨hf', hst'⟩ hsnap
      have hx' := hsnap.trans hx
      refine ⟨.inr ⟨x, hx', hf', hst'⟩, hb, fun _ y hy => ?_, fun _ hnb => ?_⟩
      · rw [hx'] at hy
        cases hy
        exact hf'.ready
      · exact absurd hst'.building hnb
    by_cases he : e = .mm
    · subst he
      simp only [Mm.step] at hs
      split at hs
      · cases ht : m.todo with
        | nil =>
          rw [ht] at hst
          cases hst
        | cons a rest =>
          rw [ht] at hs hst
          obtain ⟨hsnap, hready, hcase⟩ := hst.micro hf hs
          rcases hcase with hcase | ⟨hplain, hset⟩
          · exact hgo hcase hsnap
          · refine ⟨.inl hplain, hb, fun hbm => absurd hbm (not_building hplain), fun _ _ y hy => ?_⟩
            rw [hsnap, hx] at hy
            cases hy
            exact hset
      · cases hs
    · obtain ⟨-, -, htodo, hsnap⟩ := step_mm_still he hf.mm hs
      exact hgo ⟨hf.other he hs, htodo ▸ hst.other hf he hs⟩ hsnap

/-- **Fork is atomic** along every run, exactly when the parent is blocked at every duplication. -/
theorem atomic_iff (h : ¬ Building m) (es : List Event) :
    Always (stepOf (step L)) (ForkAtomic L) m es ↔ Always (stepOf (step L)) ParentBlocked m es := by
  have h0 : Sound L m := .inl (Bool.eq_false_iff.mpr h)
  refine Always.iff_of_inv (I := Sound L) (fun s e t hI hst => ?_) (fun s e t hI hst hb => ?_) es m h0
  · exact ⟨fun hp => hp.blocked, fun hb => (hI.step hst hb).2⟩
  · exact (hI.step hst hb).1

end

/-! ## the defect -/

/-- INIT is preempted between the SEND and the RECEIVE of its `fork`: the child is a copy of a
runnable process.  MM runs out of ticks twice before it goes on. -/
def forkPreempted : List Event :=
  tasksWait ++ List.replicate 4 (.clock false) ++
  [.compute .zero [] [(0x3000, { Msg.reset with type := FORK })],
    .call .SEND (.proc taskMm) 0x3000, .clock false, .mm, .mm] ++
  List.replicate 15 (.clock false) ++ List.replicate 3 (.call .RECEIVE .any 0x1000) ++
  List.replicate 15 (.clock false)

theorem atomic_iff_forkPreempted :
    Always (stepOf (step someLayout)) (ForkAtomic someLayout) bootMachine forkPreempted ↔
      Always (stepOf (step someLayout)) ParentBlocked bootMachine forkPreempted :=
  atomic_iff (not_building (m := bootMachine) rfl) forkPreempted

/-- when INIT makes its second system call, `schedule` selects the child, which has INIT's segments -/
theorem atomic_fails :
    ¬ Building bootMachine ∧
      ¬ Always (stepOf (step someLayout)) (ForkAtomic someLayout) bootMachine
        (forkPreempted ++ [.call .RECEIVE (.proc taskMm) 0x3000]) := by
  refine ⟨not_building rfl, Always.not_of_exec forkPreempted
    (fun _ u => u.todo.any Micro.isSetup && u.snap.any fun x => decide (u.k.ready = x.child)) ?_ ?_⟩
  · intro t u _ hb hk
    rw [Bool.and_eq_true] at hb
    obtain ⟨hbuild, hsnap⟩ := hb
    obtain ⟨x, hx, hr⟩ := (Option.any_eq_true _ _).mp hsnap
    exact hk.waits hbuild x hx (of_decide_eq_true hr)
  · decide +kernel

end Mm

end Noxis.Ipc
