import Noxis.Ipc.Mm
import Noxis.Ipc.Frame
import Noxis.Ipc.Boot

/-!
# 25-osfs11: fork, exit and the sender queues

`Tidy k`: the queue of each process consists of exactly the live processes that are SENDING to it.
System calls keep it (`Tidy.sysSendrec`); of MM's micro-steps two can break it, the duplication of a
record and the freeing of one (`dup_iff`, `free_iff`).  `queuesKept_iff` is the result for runs.
-/

namespace Noxis.Ipc.Mm
open Run

structure Tidy (k : Kernel) : Prop where
  queues : ∃ Q, Queues (waits k) (head k) (next k) Q
  live : ∀ p, (flags k p).freeSlot = true → waits k p = none

section
variable {L : Layout} {k k' : Kernel} {m m' : Machine} {p d pid child : Pid} {buf : Nat}

/-! ## what keeps the queues tidy -/

theorem Tidy.congr (h : Tidy k) (hw : waits k' = waits k) (hh : head k' = head k)
    (hn : next k' = next k)
    (hf : ∀ q, (flags k' q).freeSlot = true → (flags k q).freeSlot = true) : Tidy k' := by
  obtain ⟨Q, hQ⟩ := h.queues
  refine ⟨⟨Q, by rw [hw, hh, hn]; exact hQ⟩, fun q hq => ?_⟩
  rw [hw]
  exact h.live q (hf q hq)

theorem freeSlot_update {f : Pid → Flags} {x : Flags} (hx : x.freeSlot = false) (q : Pid)
    (h : (Function.update f p x q).freeSlot = true) : (f q).freeSlot = true := by
  by_cases hq : q = p
  · subst hq
    rw [Function.update_self, hx] at h
    cases h
  · rw [Function.update_of_ne hq] at h
    exact h

theorem Tidy.woken (h : Tidy k) (he : Woken k k' p) : Tidy k' := by
  refine h.congr he.waits he.head he.next fun q hq => ?_
  rcases he.rest with ⟨-, -, hf⟩ | ⟨-, -, hf, -⟩
  · rw [hf] at hq
    exact hq
  · rw [hf] at hq
    exact freeSlot_update rfl q hq

/-- a system call of a runnable process keeps the queues tidy -/
theorem Tidy.sysSendrec (h : Tidy k) (hp : flags k p = .zero) {fn : IpcFunction} {who : Who}
    (hs : sysSendrec k fn who buf p = .ok k') : Tidy k' := by
  obtain ⟨Q, hQ⟩ := h.queues
  have hwp := waits_of_zero hp
  cases fn with
  | SEND =>
    cases who with
    | noTask =>
      unfold Ipc.sysSendrec at hs
      rw [check_bind_ok] at hs
      exact absurd rfl hs.1
    | any => exact absurd hs (by simp [Ipc.sysSendrec, bind_ok])
    | interrupt => exact absurd hs (by simp [Ipc.sysSendrec, bind_ok])
    | proc d =>
      obtain ⟨-, -, he | ⟨-, he⟩⟩ := sysSendrec_send hs
      · refine h.congr he.waits he.head he.next fun q hq => ?_
        rw [he.flags] at hq
        exact freeSlot_update rfl q hq
      · refine ⟨⟨Function.update Q d (Q d ++ [p]), ?_⟩, fun q hq => ?_⟩
        · rw [he.waits]
          exact appended_queues hQ hwp he.links
        · rw [he.flags] at hq
          have hqp : q ≠ p := by
            rintro rfl
            rw [Function.update_self] at hq
            cases hq
          rw [Function.update_of_ne hqp] at hq
          rw [he.waits, Function.update_of_ne hqp]
          exact h.live q hq
  | RECEIVE =>
    obtain ⟨-, ⟨-, -, he⟩ | ⟨prev, q, hc, he⟩ | ⟨-, -, he⟩⟩ := sysSendrec_receive hs
    · exact h.woken he
    · obtain ⟨hmem, -, x, hx⟩ := hc.mem hQ
      refine ⟨⟨Function.update Q p ((Q p).erase q), ?_⟩, fun r hr => ?_⟩
      · rw [he.waits]
        exact removed_queues hQ hmem hx he.links
      · rw [he.flags] at hr
        have hrq : r ≠ q := by
          rintro rfl
          rw [Function.update_self] at hr
          cases hr
        rw [Function.update_of_ne hrq] at hr
        rw [he.waits, Function.update_of_ne hrq]
        exact h.live r hr
    · refine h.congr he.waits he.head he.next fun q hq => ?_
      rw [he.flags] at hq
      exact freeSlot_update rfl q hq

/-- a change of one record that leaves the sending and the links alone -/
theorem Tidy.set (h : Tidy k) (p : Pid) (f : Proc → Proc)
    (hw : (f (k.procs p)).waits = (k.procs p).waits)
    (hh : (f (k.procs p)).qSending = (k.procs p).qSending)
    (hn : (f (k.procs p)).nextSending = (k.procs p).nextSending)
    (hf : (f (k.procs p)).flags.freeSlot = (k.procs p).flags.freeSlot) : Tidy (k.set p f) := by
  refine h.congr (k.proj_set_eq Proc.waits p f hw) (k.proj_set_eq Proc.qSending p f hh)
    (k.proj_set_eq Proc.nextSending p f hn) fun q hq => ?_
  have hq' := congrFun (k.proj_set_eq (fun x => x.flags.freeSlot) p f hf) q
  exact hq'.symm.trans hq

theorem Tidy.ticks (h : Tidy k) (he : SameButTicks k k') : Tidy k' :=
  h.congr he.waits he.head he.next fun q hq => by
    rw [he.flags] at hq
    exact hq

/-- MM's own system calls -/
theorem Tidy.call (h : Tidy m.k) (hz : flags m.k taskMm = .zero) {fn : IpcFunction} {who : Who}
    {todo : List Micro} (hs : m.call fn who buf todo = some m') : Tidy m'.k := by
  obtain ⟨k', hk, rfl⟩ := Machine.call_some.mp hs
  exact h.sysSendrec hz hk

/-! ## MM's micro-steps -/

/-- duplicating the record of `pid`, which `do_fork` does first -/
theorem dup_iff (h : Tidy k) (hc : (k.procs child).flags = .FREE_SLOT) :
    (Tidy (k.set child fun _ => k.procs pid) ∧ head (k.set child fun _ => k.procs pid) child = none) ↔
      waits k pid = none ∧ ∀ q, waits k q ≠ some pid ∧ waits k q ≠ some child := by
  obtain ⟨Q, hQ⟩ := h.queues
  have hf : (flags k child).freeSlot = true := by
    show (k.procs child).flags.freeSlot = _
    rw [hc]
    rfl
  have hwc : waits k child = none := h.live child hf
  have hw := waits_set k child fun _ => k.procs pid
  have hh := head_set k child fun _ => k.procs pid
  have hn := next_set k child fun _ => k.procs pid
  by_cases hpc : pid = child
  · -- the record is copied onto itself
    subst hpc
    have hhp := hQ.head_none.trans (hQ.nil_iff (d := pid))
    rw [hh, Function.update_self, show (k.procs pid).qSending = none ↔ _ from hhp]
    constructor
    · rintro ⟨-, hq⟩
      exact ⟨hwc, fun q => ⟨hq q, hq q⟩⟩
    · rintro ⟨-, hq⟩
      exact ⟨h.set pid _ rfl rfl rfl rfl, fun q => (hq q).1⟩
  · constructor
    · rintro ⟨⟨⟨Q', hQ'⟩, -⟩, -⟩
      rw [hw, hh, hn] at hQ'
      exact (hQ.duplicate_iff hpc hwc).mp ⟨Q', hQ'⟩
    · intro hq
      obtain ⟨Q', hQ'⟩ := (hQ.duplicate_iff hpc hwc).mpr hq
      refine ⟨⟨⟨Q', by rw [hw, hh, hn]; exact hQ'⟩, fun q hq => ?_⟩, ?_⟩
      · rw [hw]
        rw [flags_set] at hq
        by_cases hqc : q = child
        · subst hqc
          rw [Function.update_self] at hq ⊢
          exact h.live pid hq
        · rw [Function.update_of_ne hqc] at hq ⊢
          exact h.live q hq
      · rw [hh, Function.update_self]
        exact hQ.head_none.mpr (hQ.nil_iff.mpr fun q => (hq.2 q).1)

/-- freeing the record of `p`, which `cleanup` does last -/
theorem free_iff (h : Tidy k) :
    Tidy (k.set p fun x => { x with flags := .FREE_SLOT }) ↔ waits k p = none := by
  obtain ⟨Q, hQ⟩ := h.queues
  rw [← hQ.forget_iff]
  set k' := k.set p fun x => { x with flags := .FREE_SLOT } with hk'
  have hw : waits k' = Function.update (waits k) p none := waits_set ..
  have hh : head k' = head k := k.proj_set_eq Proc.qSending p _ rfl
  have hn : next k' = next k := k.proj_set_eq Proc.nextSending p _ rfl
  constructor
  · rintro ⟨⟨Q', hQ'⟩, -⟩
    refine ⟨Q', ?_⟩
    rw [hw, hh, hn] at hQ'
    exact hQ'
  · rintro ⟨Q', hQ'⟩
    refine ⟨⟨Q', by rw [hw, hh, hn]; exact hQ'⟩, fun q hq => ?_⟩
    rw [hw]
    by_cases hqp : q = p
    · subst hqp
      rw [Function.update_self]
    · rw [hk', flags_set, Function.update_of_ne hqp] at hq
      rw [Function.update_of_ne hqp]
      exact h.live q hq

/-- what a micro-step has to keep besides the queues -/
def Micro.Kept (k k' : Kernel) : Micro → Prop
  /- a forked child starts with an empty queue -/
  | .dup _ => ∀ child, freeRecord k = some child → head k' child = none
  /- a freed slot is in no queue, and nobody stays SENDING to it -/
  | .free p => (∀ d l, IsQueue k' d l → p ∉ l) ∧ ∀ q, waits k' q ≠ some p
  | _ => True

/-- when duplicating or freeing a record does no harm -/
def Micro.Unlinked (k : Kernel) : Micro → Prop
  | .dup pid => ∀ child, freeRecord k = some child →
      waits k pid = none ∧ ∀ q, waits k q ≠ some pid ∧ waits k q ≠ some child
  | .free p => waits k p = none ∧ ∀ q, waits k q ≠ some p
  | _ => True

/-- the micro-steps that neither duplicate nor free a record -/
theorem Tidy.micro (h : Tidy m.k) (hz : flags m.k taskMm = .zero) {a : Micro} {rest : List Micro}
    (hd : ∀ pid, a ≠ .dup pid) (hf : ∀ p, a ≠ .free p)
    (hs : microStep L m rest a = some m') : Tidy m'.k := by
  have hflag : ∀ {k : Kernel} (p : Pid) (b : Bool), Tidy k →
      Tidy (k.set p fun p => { p with flags := { p.flags with waiting := b } }) :=
    fun p b hk => hk.set p _ rfl rfl rfl rfl
  have hmsg : ∀ a f, Tidy (m.setMsg a f).k := fun _ _ => h.congr rfl rfl rfl fun _ => id
  cases a with
  | dup pid => exact absurd rfl (hd pid)
  | free p => exact absurd rfl (hf p)
  | dispatch =>
    simp only [microStep] at hs
    split at hs
    · split at hs
      · cases hs; exact h
      · split at hs
        · split at hs
          · cases hs
          · cases hs; exact h
        · split at hs
          · cases hs; exact h
          · cases hs
    · cases hs
  | reply src => exact (hmsg _ _).call hz hs
  | settle pid child ldtSel =>
    cases hs
    exact h.set child (fun p => { p with
      ldtSel := ldtSel, parent := some pid, name := childName (m.k.procs pid).name child })
      rfl rfl rfl rfl
  | alloc pid child =>
    simp only [microStep] at hs
    split at hs
    · split at hs
      · cases hs
      · cases hs; exact h
    · cases hs
  | image dst src n =>
    cases n with
    | zero => cases hs; exact h
    | succ n => cases hs; exact h
  | initDescC child base =>
    cases hs
    exact h.set child (fun p => { p with ldtC := imageDesc base }) rfl rfl rfl rfl
  | initDescRw child base =>
    cases hs
    exact h.set child (fun p => { p with ldtRw := imageDesc base }) rfl rfl rfl rfl
  | tellFs type pid => exact (hmsg _ _).call hz hs
  | hearFs => exact h.call hz hs
  | birth child =>
    exact Tidy.call (m := (m.setMsg _ _).setMsg _ _) (h.congr rfl rfl rfl fun _ => id) hz hs
  | exitMark pid parent status =>
    have h1 : Tidy (m.k.set pid fun p => { p with exitStatus := status }) :=
      h.set pid _ rfl rfl rfl rfl
    simp only [microStep] at hs
    split at hs
    · cases hs
      exact hflag parent false h1
    · cases hs
      exact h1.set pid (fun p => { p with flags := { p.flags with hanging := true } })
        rfl rfl rfl rfl
  | exitKids pid i =>
    simp only [microStep] at hs
    split at hs
    · rename_i hi
      have h1 : Tidy (m.k.set ⟨i, hi⟩ fun p => { p with parent := some init }) :=
        h.set _ _ rfl rfl rfl rfl
      split at hs
      · split at hs
        · cases hs
          exact hflag init false h1
        · cases hs
          exact h1
      · cases hs; exact h
    · cases hs; exact h
  | waitScan pid i children =>
    simp only [microStep] at hs
    split at hs
    · split at hs
      · split at hs
        · cases hs; exact h
        · cases hs; exact h
      · cases hs; exact h
    · split at hs
      · cases hs
        exact hflag pid true h
      · exact (hmsg _ _).call hz hs
  | cleanup p =>
    simp only [microStep] at hs
    split at hs
    · cases hs
    · exact (hmsg _ _).call hz hs

/-- **One micro-step.** -/
theorem micro_iff (h : Tidy m.k) (hz : flags m.k taskMm = .zero) {a : Micro} {rest : List Micro}
    (hs : microStep L m rest a = some m') :
    Tidy m'.k ∧ a.Kept m.k m'.k ↔ a.Unlinked m.k := by
  by_cases hd : ∃ pid, a = .dup pid
  · obtain ⟨pid, rfl⟩ := hd
    simp only [microStep] at hs
    show Tidy m'.k ∧ (∀ child, freeRecord m.k = some child → head m'.k child = none) ↔
      ∀ child, freeRecord m.k = some child →
        waits m.k pid = none ∧ ∀ q, waits m.k q ≠ some pid ∧ waits m.k q ≠ some child
    cases hr : freeRecord m.k with
    | none =>
      rw [hr] at hs
      cases hs
      exact ⟨fun _ _ hc => (nomatch hc),
        fun _ => ⟨h.congr rfl rfl rfl fun _ => id, fun _ hc => (nomatch hc)⟩⟩
    | some child =>
      rw [hr] at hs
      simp only at hs
      split at hs
      · cases hs
      · cases hs
        have hi : _ ↔ waits m.k pid = none ∧ _ := dup_iff h (freeRecord_flags hr)
        constructor
        · rintro ⟨ht, hh⟩ c hc
          cases hc
          exact hi.mp ⟨ht, hh child rfl⟩
        · intro hu
          obtain ⟨ht, hh⟩ := hi.mpr (hu child rfl)
          refine ⟨ht, fun c hc => ?_⟩
          cases hc
          exact hh
  by_cases hf : ∃ p, a = .free p
  · obtain ⟨p, rfl⟩ := hf
    cases hs
    have hw : waits (m.k.set p fun x => { x with flags := .FREE_SLOT }) =
        Function.update (waits m.k) p none := waits_set ..
    have hi := free_iff (p := p) h
    constructor
    · rintro ⟨ht, -, hq⟩
      have hp := hi.mp ht
      have hw' := hw.trans (Function.update_eq_self_iff.mpr hp.symm)
      exact ⟨hp, fun q e => hq q ((congrFun hw' q).trans e)⟩
    · rintro ⟨hp, hq⟩
      have hw' := hw.trans (Function.update_eq_self_iff.mpr hp.symm)
      have ht := hi.mpr hp
      obtain ⟨Q, hQ⟩ := ht.queues
      refine ⟨ht, fun d l hl hm => ?_, fun q e => hq q ((congrFun hw' q).symm.trans e)⟩
      have hl' : l = Q d := Chain.unique hl (hQ.chain d)
      have hpd := (hQ.mem p d).mp (hl' ▸ hm)
      rw [hw', hp] at hpd
      cases hpd
  · have hk : a.Kept m.k m'.k ∧ a.Unlinked m.k := by
      cases a with
      | dup pid => exact absurd ⟨pid, rfl⟩ hd
      | free p => exact absurd ⟨p, rfl⟩ hf
      | _ => exact ⟨trivial, trivial⟩
    have ht := h.micro hz (fun pid e => hd ⟨pid, e⟩) (fun p e => hf ⟨p, e⟩) hs
    exact ⟨fun _ => hk.2, fun _ => ⟨ht, hk.1⟩⟩

/-! ## runs -/

/-- **The property.**  The queues stay tidy in every step; a forked child starts with an empty queue, a
freed slot is in no queue and nobody stays SENDING to it. -/
def QueuesKept (s : Machine) : Event → Machine → Prop
  | .mm, t => Tidy t.k ∧ ∀ a ∈ s.todo.head?, a.Kept s.k t.k
  | _, t => Tidy t.k

/-- **The condition.**  When `do_fork` duplicates a record, its process is not SENDING, and nobody is
SENDING to it or to the free slot; when `cleanup` frees a record, its process is not SENDING and
nobody is SENDING to it. -/
def Unlinked (s : Machine) : Event → Machine → Prop
  | .mm, _ => ∀ a ∈ s.todo.head?, a.Unlinked s.k
  | _, _ => True

theorem Tidy.clock {key : Bool} (h : Tidy k) (hs : clockHandler k key = .ok k') : Tidy k' := by
  unfold clockHandler at hs
  have h1 : Tidy (k.set k.ready fun p => { p with ticks := p.ticks - 1 }) :=
    h.set _ _ rfl rfl rfl rfl
  obtain ⟨k₁, hk₁, hs⟩ := bind_ok.mp hs
  have h2 : Tidy k₁ := by
    cases key with
    | true => exact h1.woken (informInt_ok hk₁)
    | false => cases hk₁; exact h1
  by_cases ht : 0 < (k₁.procs k₁.ready).ticks
  · rw [if_pos ht] at hs
    cases hs
    exact h2
  · rw [if_neg ht] at hs
    exact h2.ticks (schedule_ok hs)

/-- **One step of the system.** -/
theorem step_iff {e : Event} (h : Tidy m.k) (hs : step L m e = some m') :
    QueuesKept m e m' ↔ Unlinked m e m' := by
  cases e with
  | compute regs ws ms =>
    refine ⟨fun _ => trivial, fun _ => ?_⟩
    unfold step at hs
    simp only at hs
    split at hs
    · cases hs
      refine Tidy.congr (h.set m.k.ready (fun p => { p with regs := regs }) rfl rfl rfl rfl)
        rfl rfl rfl fun _ => id
    · cases hs
  | call fn who buf =>
    refine ⟨fun _ => trivial, fun _ => ?_⟩
    simp only [step] at hs
    split at hs
    · rename_i hr
      split at hs
      · cases hs
      · rename_i k' hk
        cases hs
        exact (h.sysSendrec hr.2 hk).set m.k.ready (fun p => { p with regs := { p.regs with eax := 0 } })
          rfl rfl rfl rfl
    · cases hs
  | mm =>
    simp only [step] at hs
    split at hs
    · rename_i hr
      show Tidy m'.k ∧ (∀ a ∈ m.todo.head?, a.Kept m.k m'.k) ↔ ∀ a ∈ m.todo.head?, a.Unlinked m.k
      cases ht : m.todo with
      | nil =>
        rw [ht] at hs
        have hk : Tidy m'.k :=
          Tidy.call (m := m.setMsg _ _) (h.congr rfl rfl rfl fun _ => id) hr.2 hs
        exact ⟨fun _ _ ha => (nomatch ha), fun _ => ⟨hk, fun _ ha => (nomatch ha)⟩⟩
      | cons a rest =>
        rw [ht] at hs
        have hi := micro_iff h hr.2 hs
        constructor
        · rintro ⟨hk, ha⟩ b hb
          cases hb
          exact hi.mp ⟨hk, ha a rfl⟩
        · intro ha
          obtain ⟨hk, hkept⟩ := hi.mpr (ha a rfl)
          refine ⟨hk, fun b hb => ?_⟩
          cases hb
          exact hkept
    · cases hs
  | clock key =>
    refine ⟨fun _ => trivial, fun _ => ?_⟩
    simp only [step] at hs
    split at hs
    · cases hs
    · rename_i k' hk
      cases hs
      exact h.clock hk
  | irq t =>
    refine ⟨fun _ => trivial, fun _ => ?_⟩
    simp only [step] at hs
    split at hs
    · cases hs
    · rename_i k' hk
      cases hs
      exact h.woken (informInt_ok hk)

/-- **Fork and exit keep the sender queues** along every run, exactly when nobody is linked to the
records that are duplicated and freed. -/
theorem queuesKept_iff (h : Tidy m.k) (es : List Event) :
    Always (stepOf (step L)) QueuesKept m es ↔ Always (stepOf (step L)) Unlinked m es := by
  refine Always.iff_of_inv (I := fun m => Tidy m.k) (fun s e t hs hst => step_iff hs hst) ?_ es m h
  intro s e t hs hst hu
  have hk := (step_iff hs hst).mpr hu
  cases e with
  | mm => exact hk.1
  | compute regs ws ms => exact hk
  | call fn who buf => exact hk
  | clock key => exact hk
  | irq t => exact hk

end

/-! ## the defect -/

theorem bootMachine_tidy : Tidy bootMachine.k := by
  have hw : ∀ p, waits bootMachine.k p = none := fun p => by
    show (if (bootProc 0x80000 p).flags.sending then _ else none) = none
    rw [(bootProc_flags _ p).1]
    rfl
  exact ⟨⟨_, Queues.empty hw fun p => (bootProc_flags _ p).2.2⟩, fun p _ => hw p⟩

/-- INIT's ticks run out, TestA sends it a message, TestB and TestC wait, INIT forks -/
def forkWhileSentTo : List Event :=
  tasksWait ++ List.replicate 5 (.clock false) ++
  [.call .SEND (.proc init) 0x1000, .call .RECEIVE .any 0x1000, .call .RECEIVE .any 0x1000,
    .compute .zero [] [(0x3000, { Msg.reset with type := FORK })],
    .call .SEND (.proc taskMm) 0x3000, .call .RECEIVE (.proc taskMm) 0x3000, .mm]

theorem queuesKept_iff_forkWhileSentTo :
    Always (stepOf (step someLayout)) QueuesKept bootMachine forkWhileSentTo ↔
      Always (stepOf (step someLayout)) Unlinked bootMachine forkWhileSentTo :=
  queuesKept_iff bootMachine_tidy forkWhileSentTo

/-- the child inherits the head of its parent's queue -/
theorem queuesKept_fails :
    Tidy bootMachine.k ∧
      ¬ Always (stepOf (step someLayout)) QueuesKept bootMachine (forkWhileSentTo ++ [.mm]) := by
  refine ⟨bootMachine_tidy, Always.not_of_exec forkWhileSentTo
    (fun t u => decide (t.todo.head? = some (.dup init)) && decide (freeRecord t.k = some 12) &&
      decide (head u.k 12 = some 9)) ?_ ?_⟩
  · intro t u _ hb hk
    simp only [Bool.and_eq_true, decide_eq_true_eq] at hb
    obtain ⟨⟨ht, hf⟩, hu⟩ := hb
    have hn : head u.k 12 = none := hk.2 _ ht 12 hf
    rw [hu] at hn
    cases hn
  · decide +kernel

end Noxis.Ipc.Mm
