import Noxis.Ipc.Boot

/-!
# 25-osfs11: the assertions of msg_send, msg_receive and inform_int

`Sane k Q` is the invariant that the assertions are about: every record is ready, SENDING, RECEIVING
or free, with the members that belong to it (`IpcPart.Ok`), and the queues are in order.  On such a
state each part of a call is computed (`handOver_sane`, `queueUp_sane`, `takeInt_sane`,
`takeMsg_sane`, `waitFor_sane`, `informInt_sane`), and only one assertion can fail: the one that
expects no pending interrupt of a process that blocks on a message of another one.

* `send_fine`      a SEND fails at no assertion;
* `receive_int`    a RECEIVE that takes the pending interrupt;
* `receive_fine`   any other RECEIVE fails at an assertion exactly if it is `Unexpected`.
-/

namespace Noxis.Ipc
open Run

/-! ## what the assertions look at -/

structure IpcPart where
  flags : Flags
  msg : Nat
  recvFrom : Who
  sendTo : Option Pid
  hasIntMsg : Bool
  base : Nat

def Proc.ipc (x : Proc) : IpcPart :=
  ⟨x.flags, x.msg, x.recvFrom, x.sendTo, x.hasIntMsg, x.ldtRw.base⟩

def ipc (k : Kernel) (p : Pid) : IpcPart := (k.procs p).ipc

/-- a request of a driver for which an interrupt is an answer -/
def Who.takesInt (w : Who) : Prop := w = .any ∨ w = .interrupt

instance (w : Who) : Decidable w.takesInt := inferInstanceAs (Decidable (_ ∨ _))

/-- the members of a record belong together -/
inductive IpcPart.Ok : IpcPart → Prop
  | ready (i : Bool) (b : Nat) : Ok ⟨.zero, 0, .noTask, none, i, b⟩
  | sending {m : Nat} (d : Pid) (i : Bool) (b : Nat) : m ≠ 0 → m < 2 ^ 32 →
    Ok ⟨.SENDING, m, .noTask, some d, i, b⟩
  /-- no interrupt is pending that it would take -/
  | receiving {m : Nat} {w : Who} {i : Bool} (b : Nat) : m ≠ 0 → m < 2 ^ 32 → w ≠ .noTask →
    (w.takesInt → i = false) → Ok ⟨.RECEIVING, m, w, none, i, b⟩
  | free {m : Nat} (w : Who) (d : Option Pid) (i : Bool) (b : Nat) : m < 2 ^ 32 →
    Ok ⟨.FREE_SLOT, m, w, d, i, b⟩

structure Sane (k : Kernel) (Q : Pid → List Pid) : Prop where
  queues : Queues (waits k) (head k) (next k) Q
  part : ∀ p, (ipc k p).Ok
  /-- tasks and native processes live in a flat segment -/
  flat : ∀ p : Pid, p.val < nrTasks + nrNativeProcs → (ipc k p).base = 0
  below : k.below.1.sending = false

/-- of what the assertions look at, the record of `p` is now `x` -/
structure Becomes (k k' : Kernel) (p : Pid) (x : IpcPart) : Prop where
  ipc : ipc k' = Function.update (ipc k) p x
  below : k'.below = k.below

section
variable {k k' : Kernel} {Q : Pid → List Pid} {p d src : Pid} {m : Nat}

theorem ipc_set (k : Kernel) (p : Pid) (f : Proc → Proc) :
    ipc (k.set p f) = Function.update (ipc k) p (f (k.procs p)).ipc := k.proj_set _ p f

theorem SameButTicks.ipc (h : SameButTicks k k') : Ipc.ipc k' = Ipc.ipc k :=
  funext fun p => h.proj Proc.ipc (fun _ _ => rfl) p

theorem check_bind_pos {β : Type} {P : Prop} [Decidable P] {f : Unit → Except Fault β} (h : P) :
    (check P >>= f) = f () := by
  unfold check
  rw [if_pos h]
  rfl

theorem check_bind_neg {β : Type} {P : Prop} [Decidable P] {f : Unit → Except Fault β} (h : ¬ P) :
    (check P >>= f) = .error .assert := by
  unfold check
  rw [if_neg h]
  rfl

/-! ## the records of a sane state -/

theorem ready_eq (h : (ipc k p).Ok) (hp : flags k p = .zero) :
    ipc k p = ⟨.zero, 0, .noTask, none, (k.procs p).hasIntMsg, (k.procs p).ldtRw.base⟩ := by
  have hflags : (ipc k p).flags = .zero := hp
  have hint : (ipc k p).hasIntMsg = (k.procs p).hasIntMsg := rfl
  have hbase : (ipc k p).base = (k.procs p).ldtRw.base := rfl
  cases he : ipc k p with
  | mk f m w s i b =>
    rw [he] at h hflags hint hbase
    cases h with
    | ready => rw [← hint, ← hbase]
    | sending => cases hflags
    | receiving => cases hflags
    | free => cases hflags

/-- a process that is not blocked -/
theorem Sane.ready (h : Sane k Q) (hp : flags k p = .zero) :
    (k.procs p).flags = .zero ∧ (k.procs p).msg = 0 ∧ (k.procs p).recvFrom = .noTask ∧
      (k.procs p).sendTo = none := by
  have he := ready_eq (h.part p) hp
  exact ⟨hp, congrArg IpcPart.msg he, congrArg IpcPart.recvFrom he, congrArg IpcPart.sendTo he⟩

/-- a process that stands in a queue -/
theorem Sane.sending (h : Sane k Q) (hp : waits k p = some d) :
    (k.procs p).flags = .SENDING ∧ (k.procs p).msg ≠ 0 ∧ (k.procs p).recvFrom = .noTask ∧
      (k.procs p).sendTo = some d := by
  obtain ⟨hs, hd⟩ := waits_some.mp hp
  have hpart := h.part p
  have hsend : (ipc k p).flags.sending = true := hs
  cases he : ipc k p with
  | mk f m w s i b =>
    rw [he] at hpart hsend
    have hf : (k.procs p).flags = f := congrArg IpcPart.flags he
    have hm : (k.procs p).msg = m := congrArg IpcPart.msg he
    have hw : (k.procs p).recvFrom = w := congrArg IpcPart.recvFrom he
    cases hpart with
    | ready => cases hsend
    | sending d' i b hm0 => exact ⟨hf, by rw [hm]; exact hm0, hw, hd⟩
    | receiving => cases hsend
    | free => cases hsend

/-- a process that is blocked receiving -/
theorem Sane.receiving (h : Sane k Q) (hp : (k.procs p).flags.receiving = true) :
    (k.procs p).flags = .RECEIVING ∧ (k.procs p).msg ≠ 0 ∧ (k.procs p).sendTo = none ∧
      ((k.procs p).recvFrom.takesInt → (k.procs p).hasIntMsg = false) := by
  have hpart := h.part p
  have hrecv : (ipc k p).flags.receiving = true := hp
  cases he : ipc k p with
  | mk f m w s i b =>
    rw [he] at hpart hrecv
    have hf : (k.procs p).flags = f := congrArg IpcPart.flags he
    have hm : (k.procs p).msg = m := congrArg IpcPart.msg he
    have hw : (k.procs p).recvFrom = w := congrArg IpcPart.recvFrom he
    have hs : (k.procs p).sendTo = s := congrArg IpcPart.sendTo he
    have hi : (k.procs p).hasIntMsg = i := congrArg IpcPart.hasIntMsg he
    cases hpart with
    | ready => cases hrecv
    | sending => cases hrecv
    | receiving b hm0 hlt hw0 hint =>
      exact ⟨hf, by rw [hm]; exact hm0, hs, by rw [hw, hi]; exact hint⟩
    | free => cases hrecv

theorem IpcPart.Ok.msg_lt {x : IpcPart} (h : x.Ok) : x.msg < 2 ^ 32 := by
  cases h with
  | ready => exact Nat.two_pow_pos 32
  | sending _ _ _ _ hlt => exact hlt
  | receiving _ _ hlt => exact hlt
  | free _ _ _ _ hlt => exact hlt

theorem Sane.msg_lt (h : Sane k Q) (p : Pid) : (k.procs p).msg < 2 ^ 32 := (h.part p).msg_lt

/-! ## the parts of a call -/

theorem ok_bind {α β : Type} (a : α) (f : α → Except Fault β) : (Except.ok a >>= f) = f a := rfl

theorem Sane.va2la (h : Sane k Q) (p : Pid) {va : Nat} (hv : va < 2 ^ 32) :
    va2la k p va = .ok (((k.procs p).ldtRw.base + va) % 2 ^ 32) := by
  unfold Ipc.va2la
  simp only
  rw [check_bind_pos]
  intro hp
  have hb : (k.procs p).ldtRw.base = 0 := h.flat p hp
  rw [hb, Nat.zero_add, Nat.mod_eq_of_lt hv]

/-- `copyMsg` looks at the segments only -/
theorem copyMsg_eq {la la' a b : Nat} (hd : Ipc.va2la k d a = .ok la) (hp : Ipc.va2la k p b = .ok la') :
    copyMsg k d a p b = .ok { k with
      mem := Function.update k.mem la (k.mem la'), copies := k.copies ++ [⟨p, b, d, a⟩] } := by
  unfold copyMsg
  rw [hd, ok_bind, hp, ok_bind]

theorem wants_ne (hp : flags k p = .zero) (hw : wants k d p) : p ≠ d := by
  rintro rfl
  have hf : (k.procs p).flags = .zero := hp
  have hr := hw.1
  rw [hf] at hr
  cases hr

/-- **Handing over** never fails. -/
theorem handOver_sane (h : Sane k Q) (hp : flags k p = .zero) (hw : wants k d p) (hm : m ≠ 0)
    (hlt : m < 2 ^ 32) : ∃ k', handOver k p d m = .ok k' ∧ Becomes k k' d
      ⟨.zero, 0, .noTask, none, (k.procs d).hasIntMsg, (k.procs d).ldtRw.base⟩ := by
  obtain ⟨hf, hmsg, hsend, -⟩ := h.receiving hw.1
  obtain ⟨hpf, hpm, hpr, hps⟩ := h.ready hp
  have hpd := wants_ne hp hw
  unfold handOver
  rw [check_bind_pos hmsg, check_bind_pos hm,
    copyMsg_eq (h.va2la d (h.msg_lt d)) (h.va2la p hlt), ok_bind]
  simp only [unblock, Kernel.set_same, Kernel.set_ne _ _ hpd, hf, hsend, hpf, hpm, hpr, hps]
  rw [check_bind_pos (by decide), check_bind_pos trivial, check_bind_pos trivial,
    check_bind_pos trivial, check_bind_pos trivial, check_bind_pos trivial]
  refine ⟨_, rfl, ?_, rfl⟩
  rw [ipc_set]
  congr 1
  simp only [Proc.ipc, hf, hsend]
  rfl

/-- the last one of a queue is found -/
theorem lastOf_queue (hQ : Queues (waits k) (head k) (next k) Q) {x : Pid} (hx : head k d = some x) :
    ∃ z, lastOf (next k) fuel x = some z := by
  obtain ⟨-, b, -, hb⟩ := hQ.lastOf_some hx card_le_fuel
  exact ⟨b, hb⟩

/-- **Queueing up** fails only where `schedule` does. -/
theorem queueUp_sane (h : Sane k Q) (hp : flags k p = .zero) (hpd : p ≠ d) (hm : m ≠ 0) :
    ∃ k₁, queueUp k p d m = schedule k₁ ∧ Becomes k k₁ p
      ⟨.SENDING, m, .noTask, some d, (k.procs p).hasIntMsg, (k.procs p).ldtRw.base⟩ := by
  obtain ⟨hpf, -, hpr, -⟩ := h.ready hp
  set k₀ := (k.set p fun x => { x with flags := { x.flags with sending := true } }).set p
    fun x => { x with sendTo := some d, msg := m } with hk₀
  have hp₀ : k₀.procs p = { k.procs p with
      flags := { (k.procs p).flags with sending := true }, sendTo := some d, msg := m } := by
    rw [hk₀, Kernel.set_same, Kernel.set_same]
  have hhead : head k₀ = head k :=
    (Kernel.proj_set_eq Proc.qSending _ _ _ rfl).trans (Kernel.proj_set_eq Proc.qSending _ _ _ rfl)
  have hnext : next k₀ = next k :=
    (Kernel.proj_set_eq Proc.nextSending _ _ _ rfl).trans
      (Kernel.proj_set_eq Proc.nextSending _ _ _ rfl)
  -- the queue has an end
  obtain ⟨k₁, hk₁, hbelow⟩ : ∃ k₁, enqueue k₀ p d = .ok k₁ ∧ k₁.below = k.below := by
    unfold enqueue
    cases hq : (k₀.procs d).qSending with
    | none => exact ⟨_, rfl, rfl⟩
    | some x =>
      have hx : head k d = some x := by
        rw [← hhead]
        exact hq
      obtain ⟨z, hz⟩ := lastOf_queue h.queues hx
      rw [← hnext] at hz
      have hz' : lastOf (fun p => (k₀.procs p).nextSending) fuel x = some z := hz
      simp only [hz']
      exact ⟨_, rfl, rfl⟩
  have hsame : ipc k₁ = ipc k₀ := (enqueue_ok hpd hk₁).2.2 Proc.ipc fun _ _ _ => rfl
  have hipc : ipc k₁ = Function.update (ipc k) p
      ⟨.SENDING, m, .noTask, some d, (k.procs p).hasIntMsg, (k.procs p).ldtRw.base⟩ := by
    rw [hsame, hk₀, ipc_set, ipc_set, Function.update_idem]
    congr 1
    simp only [Kernel.set_same, Proc.ipc, hpf, hpr]
    rfl
  have hfin : ∀ k₂, ipc k₂ = ipc k₁ → (k₂.procs p).flags = .SENDING ∧ (k₂.procs p).msg = m ∧
      (k₂.procs p).recvFrom = .noTask ∧ (k₂.procs p).sendTo = some d := by
    intro k₂ hk₂
    have he : ipc k₂ p = _ := congrFun (hk₂.trans hipc) p
    rw [Function.update_self] at he
    exact ⟨congrArg IpcPart.flags he, congrArg IpcPart.msg he, congrArg IpcPart.recvFrom he,
      congrArg IpcPart.sendTo he⟩
  refine ⟨k₁, ?_, hipc, hbelow⟩
  unfold queueUp
  simp only
  rw [check_bind_pos (by rw [Kernel.set_same, hpf]; rfl), hk₁, ok_bind]
  unfold block
  have hne : (k₁.procs p).flags ≠ .zero := by
    rw [(hfin k₁ rfl).1]
    decide
  rw [check_bind_pos hne]
  cases hs : schedule k₁ with
  | error e => rfl
  | ok k₂ =>
    obtain ⟨h1, h2, h3, h4⟩ := hfin k₂ (schedule_ok hs).ipc
    rw [ok_bind, check_bind_pos h1, check_bind_pos (by rw [h2]; exact hm), check_bind_pos h3,
      check_bind_pos h4]

/-- **Taking an interrupt** never fails; the message says so. -/
theorem takeInt_sane (h : Sane k Q) (hp : flags k p = .zero) (hm : m ≠ 0) (hlt : m < 2 ^ 32) :
    ∃ k', takeInt k p m = .ok k' ∧ Becomes k k' p
      ⟨.zero, 0, .noTask, none, false, (k.procs p).ldtRw.base⟩ ∧
      k'.mem (((k.procs p).ldtRw.base + m) % 2 ^ 32) =
        { Msg.reset with source := .interrupt, type := HARD_INT } := by
  obtain ⟨hpf, hpm, hpr, hps⟩ := h.ready hp
  unfold takeInt
  rw [check_bind_pos hm, h.va2la p hlt, ok_bind]
  simp only [Kernel.set_same, hpf, hpm, hps]
  rw [check_bind_pos trivial, check_bind_pos trivial, check_bind_pos trivial]
  refine ⟨_, rfl, ⟨?_, rfl⟩, Function.update_self ..⟩
  rw [ipc_set]
  congr 1
  simp only [Proc.ipc, hpf, hpm, hpr, hps]

/-- the assertions about a receiver and a sender that waits for it -/
theorem checkPair_sane (h : Sane k Q) (hp : flags k p = .zero) (hs : waits k src = some p) :
    checkPair k p src = .ok () := by
  obtain ⟨hpf, hpm, hpr, hps⟩ := h.ready hp
  obtain ⟨hsf, hsm, hsr, hss⟩ := h.sending hs
  have hq : (k.procs p).qSending ≠ none := by
    intro hnone
    have hnil := h.queues.head_none.mp hnone
    have hmem := (h.queues.mem src p).mpr hs
    rw [hnil] at hmem
    cases hmem
  unfold checkPair
  rw [check_bind_pos hpf, check_bind_pos hpm, check_bind_pos hpr, check_bind_pos hps,
    check_bind_pos hq, check_bind_pos hsf, check_bind_pos hsm, check_bind_pos hsr]
  unfold check
  rw [if_pos hss]

/-- a member of a queue is found, behind the process before it -/
theorem find_queue (hQ : Queues (waits k) (head k) (next k) Q) (hmem : src ∈ Q p) :
    ∃ prev, findFrom (next k) src fuel none (head k p) = some (prev, some src) ∧
      if head k p = some src then prev = none else ∃ z, prev = some z := by
  obtain ⟨l₁, l₂, hl, hl₁, hfind⟩ := hQ.findFrom_mem hmem card_le_fuel
  have hc := hQ.chain p
  rw [hl] at hc
  refine ⟨_, hfind, ?_⟩
  cases l₁ with
  | nil =>
    rw [if_pos hc.1]
    rfl
  | cons x l =>
    have hx : head k p = some x := hc.1
    have hne : head k p ≠ some src := by
      rw [hx]
      intro he
      cases he
      exact hl₁ (List.mem_cons_self ..)
    rw [if_neg hne]
    exact ⟨_, List.getLast?_cons⟩

/-- **Choosing** never fails. -/
theorem choose_sane (h : Sane k Q) (hp : flags k p = .zero) {who : Who} (hw : who ≠ .noTask) :
    ∃ c, choose k p who = .ok c := by
  unfold choose
  cases who with
  | noTask => exact absurd rfl hw
  | interrupt =>
    simp only
    rw [if_neg (by rw [h.below]; exact fun hc => (nomatch hc.1))]
    exact ⟨_, rfl⟩
  | any =>
    cases hq : (k.procs p).qSending with
    | none => exact ⟨_, rfl⟩
    | some x =>
      obtain ⟨l, hl⟩ := h.queues.head_some hq
      have hx : waits k x = some p := (h.queues.mem x p).mp (by rw [hl]; exact List.mem_cons_self)
      simp only
      rw [checkPair_sane h hp hx, ok_bind]
      exact ⟨_, rfl⟩
  | proc src =>
    by_cases hs : (k.procs src).flags.sending = true ∧ (k.procs src).sendTo = some p
    · have hws : waits k src = some p := waits_some.mpr hs
      have hmem := (h.queues.mem src p).mpr hws
      have hq : (k.procs p).qSending ≠ none := by
        intro hnone
        have hnil := h.queues.head_none.mp hnone
        rw [hnil] at hmem
        cases hmem
      obtain ⟨prev, hfind, -⟩ := find_queue h.queues hmem
      have hfind' : findFrom (fun p => (k.procs p).nextSending) src fuel none
          (k.procs p).qSending = some (prev, some src) := hfind
      simp only [if_pos hs]
      rw [check_bind_pos hq, hfind']
      simp only
      rw [checkPair_sane h hp hws, ok_bind]
      exact ⟨_, rfl⟩
    · simp only [if_neg hs]
      exact ⟨_, rfl⟩

/-- what stands before the chosen sender -/
theorem Chosen.prev_eq (hQ : Queues (waits k) (head k) (next k) Q) {who : Who} {prev : Option Pid}
    (hc : Chosen k p who prev src) :
    if head k p = some src then prev = none else ∃ z, prev = some z := by
  cases hc with
  | any hh => rw [if_pos hh]
  | one hw hf =>
    obtain ⟨prev', hfind, hprev⟩ := find_queue hQ ((hQ.mem src p).mpr hw)
    rw [hf] at hfind
    cases hfind
    exact hprev

theorem dequeue_sane (hQ : Queues (waits k) (head k) (next k) Q) {who : Who} {prev : Option Pid}
    (hc : Chosen k p who prev src) :
    ∃ k', dequeue k p src prev = .ok k' ∧ k'.below = k.below := by
  have hprev := hc.prev_eq hQ
  unfold dequeue
  by_cases hh : head k p = some src
  · have hq : (k.procs p).qSending = some src := hh
    rw [if_pos hh] at hprev
    rw [if_pos hq, check_bind_pos hprev]
    exact ⟨_, rfl, rfl⟩
  · have hq : (k.procs p).qSending ≠ some src := hh
    rw [if_neg hh] at hprev
    obtain ⟨z, rfl⟩ := hprev
    rw [if_neg hq]
    exact ⟨_, rfl, rfl⟩

/-- **Taking a message** never fails. -/
theorem takeMsg_sane (h : Sane k Q) {who : Who} {prev : Option Pid}
    (hc : Chosen k p who prev src) (hm : m ≠ 0) (hlt : m < 2 ^ 32) :
    ∃ k', takeMsg k p src prev m = .ok k' ∧ Becomes k k' src
      ⟨.zero, 0, .noTask, none, (k.procs src).hasIntMsg, (k.procs src).ldtRw.base⟩ := by
  obtain ⟨hmem, -⟩ := hc.mem h.queues
  obtain ⟨hsf, hsm, hsr, hss⟩ := h.sending ((h.queues.mem src p).mp hmem)
  obtain ⟨k₁, hk₁, hbelow⟩ := dequeue_sane h.queues hc
  have hsame : ipc k₁ = ipc k := (dequeue_ok hk₁).2.2 Proc.ipc fun _ _ _ => rfl
  have hpart : ∀ q, (k₁.procs q).ipc = (k.procs q).ipc := fun q => congrFun hsame q
  have hf₁ : (k₁.procs src).flags = .SENDING := (congrArg IpcPart.flags (hpart src)).trans hsf
  have hm₁ : (k₁.procs src).msg = (k.procs src).msg := congrArg IpcPart.msg (hpart src)
  have hr₁ : (k₁.procs src).recvFrom = .noTask :=
    (congrArg IpcPart.recvFrom (hpart src)).trans hsr
  have hi₁ : (k₁.procs src).hasIntMsg = (k.procs src).hasIntMsg :=
    congrArg IpcPart.hasIntMsg (hpart src)
  have hb₁ : ∀ q, (k₁.procs q).ldtRw.base = (k.procs q).ldtRw.base :=
    fun q => congrArg IpcPart.base (hpart q)
  -- the segments are those of `k`
  have hva : ∀ q {va : Nat}, va < 2 ^ 32 →
      va2la k₁ q va = .ok (((k.procs q).ldtRw.base + va) % 2 ^ 32) := by
    intro q va hv
    rw [← h.va2la q hv]
    unfold Ipc.va2la
    simp only [hb₁]
  unfold takeMsg
  rw [hk₁, ok_bind, check_bind_pos hm, check_bind_pos (by rw [hm₁]; exact hsm),
    copyMsg_eq (hva p hlt) (hva src (by rw [hm₁]; exact h.msg_lt src)), ok_bind]
  simp only [unblock, Kernel.set_same, hf₁]
  rw [check_bind_pos (by decide)]
  refine ⟨_, rfl, ?_, hbelow⟩
  rw [ipc_set]
  show Function.update (ipc k₁) src _ = _
  rw [hsame]
  congr 1
  simp only [Proc.ipc, hf₁, hr₁, hi₁, hb₁]
  rfl

/-- **Blocking** fails where `schedule` does, or at the assertion that no interrupt is pending. -/
theorem waitFor_sane (h : Sane k Q) (hp : flags k p = .zero) {who : Who} (hw : who ≠ .noTask)
    (hm : m ≠ 0) : if (k.procs p).hasIntMsg then waitFor k p who m = .error .assert
      else ∃ k₁, waitFor k p who m = schedule k₁ ∧ Becomes k k₁ p
        ⟨.RECEIVING, m, who, none, false, (k.procs p).ldtRw.base⟩ := by
  obtain ⟨hpf, -, -, hps⟩ := h.ready hp
  unfold waitFor
  simp only [Kernel.set_same, hpf, hps]
  rw [check_bind_pos (by decide), check_bind_pos hm, check_bind_pos hw, check_bind_pos trivial]
  by_cases hi : (k.procs p).hasIntMsg = true
  · rw [if_pos hi, check_bind_neg (by rw [hi]; decide)]
  · rw [if_neg hi]
    have hif : (k.procs p).hasIntMsg = false := by simpa using hi
    rw [check_bind_pos hif]
    unfold block
    rw [check_bind_pos (by simp only [Kernel.set_same, hpf]; decide)]
    refine ⟨_, rfl, ?_, rfl⟩
    rw [ipc_set]
    congr 1
    simp only [Proc.ipc, hpf, hps, hif]
    rfl

/-- **`inform_int`** never fails: it answers the request of the task, or sets the bit. -/
theorem informInt_sane (h : Sane k Q) (t : Pid) : ∃ k', informInt k t = .ok k' ∧
    if (k.procs t).flags.receiving = true ∧ (k.procs t).recvFrom.takesInt then
      Becomes k k' t ⟨.zero, 0, .noTask, none, false, (k.procs t).ldtRw.base⟩ ∧
      k'.mem (k.procs t).msg =
        { k.mem (k.procs t).msg with source := .interrupt, type := HARD_INT }
    else Becomes k k' t { ipc k t with hasIntMsg := true } := by
  unfold informInt
  by_cases hw : (k.procs t).flags.receiving = true ∧ (k.procs t).recvFrom.takesInt
  · have hr := And.imp_right Or.symm hw
    obtain ⟨hf, -, hs, -⟩ := h.receiving hw.1
    rw [if_pos hr]
    simp only [unblock, Kernel.set_same, hf, hs]
    rw [check_bind_pos (by decide), check_bind_pos trivial, check_bind_pos trivial,
      check_bind_pos trivial]
    refine ⟨_, rfl, ?_⟩
    rw [if_pos ⟨rfl, hw.2⟩]
    refine ⟨⟨?_, rfl⟩, Function.update_self ..⟩
    rw [ipc_set]
    congr 1
    simp only [Proc.ipc, hf, hs]
    rfl
  · rw [if_neg fun hr => hw (And.imp_right Or.symm hr)]
    refine ⟨_, rfl, ?_⟩
    rw [if_neg hw]
    exact ⟨ipc_set .., rfl⟩

/-! ## what a call ends with -/

/-- the call does not fail at an assertion, and what it leaves meets `P` -/
def Fine (r : Except Fault Kernel) (P : Kernel → Prop) : Prop :=
  match r with
  | .ok k => P k
  | .error e => e ≠ .assert

theorem schedule_fine (k : Kernel) : Fine (schedule k) (SameButTicks k) := by
  cases hs : schedule k with
  | ok k' => exact schedule_ok hs
  | error e =>
    unfold schedule at hs
    cases hm : mostTicks k.procs with
    | some p =>
      rw [hm] at hs
      cases hs
    | none =>
      rw [hm] at hs
      cases hm' : mostTicks (recharge k.procs) with
      | some p =>
        simp only [hm'] at hs
        cases hs
      | none =>
        simp only [hm'] at hs
        cases hs
        exact fun hc => (nomatch hc)

theorem deadlockFrom_ne_assert (procs : Pid → Proc) (src : Pid) (n : Nat) (q : Pid) :
    deadlockFrom procs src n q ≠ .error .assert := by
  induction n generalizing q with
  | zero => exact fun hc => (nomatch hc)
  | succ n ih =>
    rw [deadlockFrom]
    by_cases hs : (procs q).flags.sending = true
    · rw [if_pos hs]
      cases (procs q).sendTo with
      | none => exact fun hc => (nomatch hc)
      | some x =>
        by_cases hx : x = src
        · simp only [if_pos hx]
          exact fun hc => (nomatch hc)
        · simp only [if_neg hx]
          exact ih x
    · rw [if_neg hs]
      exact fun hc => (nomatch hc)

/-- one record changed, the records are in order, and no interrupt came or went -/
def Keeps (k k' : Kernel) : Prop :=
  ∃ q x, Becomes k k' q x ∧ x.Ok ∧ x.base = (k.procs q).ldtRw.base ∧
    x.hasIntMsg = (k.procs q).hasIntMsg

theorem Becomes.ticks {k₁ : Kernel} {x : IpcPart} (h : Becomes k k₁ p x)
    (ht : SameButTicks k₁ k') : Becomes k k' p x :=
  ⟨ht.ipc.trans h.ipc, ht.below.trans h.below⟩

/-- a call whose last step is `schedule` -/
theorem Becomes.schedule_fine {k₁ : Kernel} {x : IpcPart} (h : Becomes k k₁ p x) :
    Fine (schedule k₁) fun k' => Becomes k k' p x := by
  have hf := Ipc.schedule_fine k₁
  cases hs : schedule k₁ with
  | error e =>
    rw [hs] at hf
    exact hf
  | ok k' =>
    rw [hs] at hf
    exact h.ticks hf

theorem Fine.mono {r : Except Fault Kernel} {P P' : Kernel → Prop} (h : Fine r P)
    (hP : ∀ k, P k → P' k) : Fine r P' := by
  cases r with
  | ok k => exact hP k h
  | error e => exact h

/-- the state in which `sys_sendrec` goes on: it has written the `source` of the message -/
theorem Sane.stamp (h : Sane k Q) (mem : Nat → Msg) : Sane { k with mem := mem } Q :=
  ⟨h.queues, h.part, h.flat, h.below⟩

/-- **A SEND** fails at no assertion. -/
theorem send_fine (h : Sane k Q) (hp : flags k p = .zero) (hpd : p ≠ d) (hm : m ≠ 0)
    (hlt : m < 2 ^ 32) : Fine (sysSendrec k .SEND (.proc d) m p) (Keeps k) := by
  unfold sysSendrec
  rw [check_bind_pos (by simp), h.va2la p hlt, ok_bind]
  simp only
  rw [check_bind_pos (by simpa using hpd.symm)]
  set k₁ : Kernel := { k with mem := _ } with hk₁
  have h₁ : Sane k₁ Q := h.stamp _
  unfold msgSend
  rw [check_bind_pos hpd]
  have hdl := deadlockFrom_ne_assert k₁.procs p fuel d
  cases hd : deadlock k₁ p d with
  | error e =>
    intro he
    rw [he] at hd
    exact hdl hd
  | ok b =>
    cases b with
    | true =>
      intro hc
      cases hc
    | false =>
      rw [ok_bind]
      simp only [Bool.false_eq_true, if_false]
      by_cases hw : wants k₁ d p
      · obtain ⟨k', hk', hb⟩ := handOver_sane h₁ hp hw hm hlt
        rw [if_pos hw, hk']
        exact ⟨d, _, ⟨hb.ipc, hb.below⟩, .ready .., rfl, rfl⟩
      · obtain ⟨k₂, hk₂, hb⟩ := queueUp_sane h₁ hp hpd hm
        rw [if_neg hw, hk₂]
        exact hb.schedule_fine.mono fun k' hb' =>
          ⟨p, _, ⟨hb'.ipc, hb'.below⟩, .sending d _ _ hm hlt, rfl, rfl⟩

/-- an interrupt is pending that a request for a message of one process does not take, and that
process is not sending -/
def Unexpected (k : Kernel) (p : Pid) (who : Who) : Prop :=
  (k.procs p).hasIntMsg = true ∧ ∃ src, who = .proc src ∧ waits k src ≠ some p

/-- **A RECEIVE that takes the pending interrupt.** -/
theorem receive_int (h : Sane k Q) (hp : flags k p = .zero) {who : Who} (hw : who.takesInt)
    (hi : (k.procs p).hasIntMsg = true) (hm : m ≠ 0) (hlt : m < 2 ^ 32) :
    ∃ k', sysSendrec k .RECEIVE who m p = .ok k' ∧
      Becomes k k' p ⟨.zero, 0, .noTask, none, false, (k.procs p).ldtRw.base⟩ ∧
      k'.mem (((k.procs p).ldtRw.base + m) % 2 ^ 32) =
        { Msg.reset with source := .interrupt, type := HARD_INT } := by
  have hwn : who ≠ .noTask := by rcases hw with rfl | rfl <;> simp
  have hwp : who ≠ .proc p := by rcases hw with rfl | rfl <;> simp
  unfold sysSendrec
  rw [check_bind_pos hwn, h.va2la p hlt, ok_bind]
  simp only
  rw [check_bind_pos hwp]
  set k₁ : Kernel := { k with mem := _ } with hk₁
  have hi₁ : (k₁.procs p).hasIntMsg = true ∧ (who = .any ∨ who = .interrupt) := ⟨hi, hw⟩
  unfold msgReceive
  rw [check_bind_pos hwp, if_pos hi₁]
  have h₁ : Sane k₁ Q := h.stamp _
  obtain ⟨k', hk', hb, hmem⟩ := takeInt_sane h₁ hp hm hlt
  exact ⟨k', hk', ⟨hb.ipc, hb.below⟩, hmem⟩

/-- **Any other RECEIVE** fails at the assertion about the pending interrupt, or at none. -/
theorem receive_fine (h : Sane k Q) (hp : flags k p = .zero) {who : Who} (hwn : who ≠ .noTask)
    (hwp : who ≠ .proc p) (hi : ¬ ((k.procs p).hasIntMsg = true ∧ who.takesInt)) (hm : m ≠ 0)
    (hlt : m < 2 ^ 32) :
    (Unexpected k p who → sysSendrec k .RECEIVE who m p = .error .assert) ∧
      (¬ Unexpected k p who → Fine (sysSendrec k .RECEIVE who m p) (Keeps k)) := by
  unfold sysSendrec
  rw [check_bind_pos hwn, h.va2la p hlt, ok_bind]
  simp only
  rw [check_bind_pos hwp]
  set k₁ : Kernel := { k with mem := _ } with hk₁
  have h₁ : Sane k₁ Q := h.stamp _
  have hi₁ : ¬ ((k₁.procs p).hasIntMsg = true ∧ (who = .any ∨ who = .interrupt)) := hi
  unfold msgReceive
  rw [check_bind_pos hwp, if_neg hi₁]
  obtain ⟨c, hc⟩ := choose_sane h₁ hp hwn
  rw [hc, ok_bind]
  cases c with
  | some x =>
    obtain ⟨prev, src⟩ := x
    have hch := choose_some hc
    constructor
    · rintro ⟨-, src', rfl, hne⟩
      cases hch with
      | one hws _ => exact absurd hws hne
    · intro _
      obtain ⟨k', hk', hb⟩ := takeMsg_sane h₁ hch hm hlt
      simp only
      rw [hk']
      exact ⟨src, _, ⟨hb.ipc, hb.below⟩, .ready .., rfl, rfl⟩
  | none =>
    obtain ⟨-, hno⟩ := choose_none hc
    have hwait := waitFor_sane h₁ hp hwn hm
    -- a pending interrupt is unexpected
    have hun : Unexpected k p who ↔ (k₁.procs p).hasIntMsg = true := by
      constructor
      · exact fun hu => hu.1
      · intro hint
        refine ⟨hint, ?_⟩
        cases who with
        | noTask => exact absurd rfl hwn
        | any => exact absurd ⟨hint, .inl rfl⟩ hi
        | interrupt => exact absurd ⟨hint, .inr rfl⟩ hi
        | proc src => exact ⟨src, rfl, hno src rfl⟩
    by_cases hint : (k₁.procs p).hasIntMsg = true
    · rw [if_pos hint] at hwait
      exact ⟨fun _ => hwait, fun hu => absurd (hun.mpr hint) hu⟩
    · rw [if_neg hint] at hwait
      obtain ⟨k₂, hk₂, hb⟩ := hwait
      have hif : (k.procs p).hasIntMsg = false := by simpa using hint
      refine ⟨fun hu => absurd (hun.mp hu) hint, fun _ => ?_⟩
      simp only
      rw [hk₂]
      exact hb.schedule_fine.mono fun k' hb' => ⟨p, _, ⟨hb'.ipc, hb'.below⟩,
        .receiving _ hm hlt hwn fun _ => rfl, rfl, hif.symm⟩

end

end Noxis.Ipc
