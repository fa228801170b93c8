import Noxis.Ipc.Asserts

/-!
# 25-osfs11: runs of SEND, RECEIVE and interrupts

An `Action` is a call of a runnable process that passes the checks of `sys_sendrec` itself, or an
interrupt.  The state is the result of the last one, so that a run stops at a fault.

* `Sane.act`             what one action does to a sane state;
* `noAssert_iff`         a run without NULL pointers fails at no assertion exactly if every RECEIVE
                         of it is `Expected`;
* `interrupt_not_lost`   what becomes of an interrupt.
-/

namespace Noxis.Ipc
open Run

/-! ## runs -/

/-- a call that passes the checks of `sys_sendrec` itself, or an interrupt -/
inductive Action where
  | send (p d : Pid) (m : Nat)
  | receive (p : Pid) (who : Who) (m : Nat)
  | inform (t : Pid)
  deriving DecidableEq, Repr

def Action.result (k : Kernel) : Action → Except Fault Kernel
  | .send p d m => sysSendrec k .SEND (.proc d) m p
  | .receive p who m => sysSendrec k .RECEIVE who m p
  | .inform t => informInt k t

/-- the caller is runnable, names another process (or ANY, INTERRUPT), and a pointer has 32 bits -/
def Action.possible (k : Kernel) : Action → Prop
  | .send p d m => flags k p = .zero ∧ p ≠ d ∧ m < 2 ^ 32
  | .receive p who m => flags k p = .zero ∧ who ≠ .noTask ∧ who ≠ .proc p ∧ m < 2 ^ 32
  | .inform _ => True

instance (k : Kernel) (a : Action) : Decidable (a.possible k) := by
  unfold Action.possible
  cases a <;> infer_instance

/-- the next action; none after a fault -/
def act : Except Fault Kernel → Action → Option (Except Fault Kernel)
  | .error _, _ => none
  | .ok k, a => if a.possible k then some (a.result k) else none

/-- the pointer to the message is not NULL -/
def Action.nonNull : Action → Prop
  | .send _ _ m => m ≠ 0
  | .receive _ _ m => m ≠ 0
  | .inform _ => True

instance (a : Action) : Decidable a.nonNull := by
  unfold Action.nonNull
  cases a <;> infer_instance

/-- who asks for a message of one process gets it at once, or has no interrupt pending -/
def Action.expected (k : Kernel) : Action → Prop
  | .receive p who _ => ¬ Unexpected k p who
  | _ => True

def NonNull (_ : Except Fault Kernel) (a : Action) (_ : Except Fault Kernel) : Prop := a.nonNull

instance (s r : Except Fault Kernel) (a : Action) : Decidable (NonNull s a r) :=
  inferInstanceAs (Decidable a.nonNull)

def Expected : Except Fault Kernel → Action → Except Fault Kernel → Prop
  | .ok k, a, _ => a.expected k
  | .error _, _, _ => True

/-- no assertion failed -/
def NoAssert (_ : Except Fault Kernel) (_ : Action) (r : Except Fault Kernel) : Prop :=
  r ≠ .error .assert

/-- the state before the first call: every record is free or ready to run -/
structure Fresh (k : Kernel) : Prop where
  record : ∀ p, (ipc k p).Ok ∧ (flags k p = .zero ∨ flags k p = .FREE_SLOT)
  head : ∀ p, head k p = none
  flat : ∀ p : Pid, p.val < nrTasks + nrNativeProcs → (ipc k p).base = 0
  below : k.below.1.sending = false

section
variable {k k' : Kernel} {Q : Pid → List Pid} {p d : Pid} {m : Nat}

theorem Fresh.sane (h : Fresh k) : Sane k fun _ => [] := by
  refine ⟨Queues.empty (fun p => ?_) h.head, fun p => (h.record p).1, h.flat, h.below⟩
  show (k.procs p).waits = none
  unfold Proc.waits
  rcases (h.record p).2 with hf | hf
  · have hz : (k.procs p).flags = .zero := hf
    rw [hz]
    rfl
  · have hz : (k.procs p).flags = .FREE_SLOT := hf
    rw [hz]
    rfl

/-- the records and the queues of the next state -/
theorem Sane.becomes {Q' : Pid → List Pid} {x : IpcPart} (h : Sane k Q) (hb : Becomes k k' p x)
    (hx : x.Ok) (hbase : x.base = (k.procs p).ldtRw.base)
    (hQ : Queues (waits k') (head k') (next k') Q') : Sane k' Q' := by
  refine ⟨hQ, fun q => ?_, fun q hq => ?_, by rw [hb.below]; exact h.below⟩
  · rw [hb.ipc]
    by_cases hqp : q = p
    · subst hqp
      rw [Function.update_self]
      exact hx
    · rw [Function.update_of_ne hqp]
      exact h.part q
  · rw [hb.ipc]
    by_cases hqp : q = p
    · subst hqp
      rw [Function.update_self, hbase]
      exact h.flat q hq
    · rw [Function.update_of_ne hqp]
      exact h.flat q hq

theorem Sane.keeps {Q' : Pid → List Pid} (h : Sane k Q) (hk : Keeps k k')
    (hQ : Queues (waits k') (head k') (next k') Q') : Sane k' Q' := by
  obtain ⟨q, x, hb, hx, hbase, -⟩ := hk
  exact h.becomes hb hx hbase hQ

/-- the queues after a SEND -/
theorem send_queues (hQ : Queues (waits k) (head k) (next k) Q) (hp : flags k p = .zero)
    (h : sysSendrec k .SEND (.proc d) m p = .ok k') :
    ∃ Q', Queues (waits k') (head k') (next k') Q' := by
  obtain ⟨-, -, he | ⟨-, he⟩⟩ := sysSendrec_send h
  · rw [he.waits, he.head, he.next]
    exact ⟨Q, hQ⟩
  · rw [he.waits]
    exact ⟨_, appended_queues hQ (waits_of_zero hp) he.links⟩

/-- the queues after a RECEIVE -/
theorem receive_queues (hQ : Queues (waits k) (head k) (next k) Q) {who : Who}
    (h : sysSendrec k .RECEIVE who m p = .ok k') :
    ∃ Q', Queues (waits k') (head k') (next k') Q' := by
  obtain ⟨-, ⟨-, -, he⟩ | ⟨prev, q, hc, he⟩ | ⟨-, -, he⟩⟩ := sysSendrec_receive h
  · rw [he.waits, he.head, he.next]
    exact ⟨Q, hQ⟩
  · obtain ⟨hmem, -, x, hx⟩ := hc.mem hQ
    rw [he.waits]
    exact ⟨_, removed_queues hQ hmem hx he.links⟩
  · rw [he.waits, he.head, he.next]
    exact ⟨Q, hQ⟩

/-- the queues after an interrupt -/
theorem inform_queues (hQ : Queues (waits k) (head k) (next k) Q) {t : Pid}
    (h : informInt k t = .ok k') : Queues (waits k') (head k') (next k') Q := by
  have he := informInt_ok h
  rw [he.waits, he.head, he.next]
  exact hQ

theorem IpcPart.Ok.setInt {x : IpcPart} (h : x.Ok)
    (hno : ¬ (x.flags.receiving = true ∧ x.recvFrom.takesInt)) :
    IpcPart.Ok { x with hasIntMsg := true } := by
  cases h with
  | ready i b => exact .ready true b
  | sending d i b hm hlt => exact .sending d true b hm hlt
  | receiving b hm hlt hw _ => exact .receiving b hm hlt hw fun ht => absurd ⟨rfl, ht⟩ hno
  | free w d i b hlt => exact .free w d true b hlt

/-- **Step rule.**  An action with a message fails at an assertion exactly if it is unexpected, and
leaves a sane state. -/
theorem Sane.act (h : Sane k Q) {a : Action} (ha : a.possible k) (hm : a.nonNull) :
    (a.result k ≠ .error .assert ↔ a.expected k) ∧
      ∀ k', a.result k = .ok k' → ∃ Q', Sane k' Q' := by
  cases a with
  | send p d m =>
    obtain ⟨hp, hpd, hlt⟩ := ha
    have hf := send_fine h hp hpd hm hlt
    simp only [Action.result, Action.expected, iff_true]
    cases hr : sysSendrec k .SEND (.proc d) m p with
    | error e =>
      rw [hr] at hf
      exact ⟨fun he => hf (by cases he; rfl), fun k' hk' => (nomatch hk')⟩
    | ok k' =>
      rw [hr] at hf
      obtain ⟨Q', hQ'⟩ := send_queues h.queues hp hr
      refine ⟨fun he => (nomatch he), fun k'' hk'' => ?_⟩
      cases hk''
      exact ⟨Q', h.keeps hf hQ'⟩
  | receive p who m =>
    obtain ⟨hp, hwn, hwp, hlt⟩ := ha
    have hq : ∀ k', sysSendrec k .RECEIVE who m p = .ok k' →
        ∃ Q', Queues (waits k') (head k') (next k') Q' := fun k' hk' => receive_queues h.queues hk'
    simp only [Action.result, Action.expected]
    by_cases hi : (k.procs p).hasIntMsg = true ∧ who.takesInt
    · obtain ⟨k', hk', hb, -⟩ := receive_int h hp hi.2 hi.1 hm hlt
      have hun : ¬ Unexpected k p who := by
        rintro ⟨-, src, rfl, -⟩
        rcases hi.2 with hc | hc <;> cases hc
      obtain ⟨Q', hQ'⟩ := hq k' hk'
      rw [hk']
      refine ⟨iff_of_true (fun he => (nomatch he)) hun, fun k'' hk'' => ?_⟩
      cases hk''
      exact ⟨Q', h.becomes hb (.ready ..) rfl hQ'⟩
    · obtain ⟨hbad, hgood⟩ := receive_fine h hp hwn hwp hi hm hlt
      by_cases hun : Unexpected k p who
      · rw [hbad hun]
        exact ⟨iff_of_false (fun he => he rfl) (fun hc => hc hun), fun k' hk' => (nomatch hk')⟩
      · have hf := hgood hun
        cases hr : sysSendrec k .RECEIVE who m p with
        | error e =>
          rw [hr] at hf
          exact ⟨iff_of_true (fun he => hf (by cases he; rfl)) hun, fun k' hk' => (nomatch hk')⟩
        | ok k' =>
          rw [hr] at hf
          obtain ⟨Q', hQ'⟩ := hq k' hr
          refine ⟨iff_of_true (fun he => (nomatch he)) hun, fun k'' hk'' => ?_⟩
          cases hk''
          exact ⟨Q', h.keeps hf hQ'⟩
  | inform t =>
    obtain ⟨k', hk', hcase⟩ := informInt_sane h t
    have hQ' := inform_queues h.queues hk'
    simp only [Action.result, Action.expected, iff_true]
    rw [hk']
    refine ⟨fun he => (nomatch he), fun k'' hk'' => ?_⟩
    cases hk''
    by_cases hw : (k.procs t).flags.receiving = true ∧ (k.procs t).recvFrom.takesInt
    · rw [if_pos hw] at hcase
      exact ⟨Q, h.becomes hcase.1 (.ready ..) rfl hQ'⟩
    · rw [if_neg hw] at hcase
      exact ⟨Q, h.becomes hcase ((h.part t).setInt hw) rfl hQ'⟩

/-! ## the assertions -/

theorem act_some {s r : Except Fault Kernel} {a : Action} (h : Ipc.act s a = some r) :
    ∃ k, s = .ok k ∧ a.possible k ∧ a.result k = r := by
  cases s with
  | error e => cases h
  | ok k =>
    have h' : (if a.possible k then some (a.result k) else none) = some r := h
    by_cases ha : a.possible k
    · rw [if_pos ha] at h'
      exact ⟨k, rfl, ha, Option.some.inj h'⟩
    · rw [if_neg ha] at h'
      cases h'

/-- a fault, or a sane state -/
def Safe (s : Except Fault Kernel) : Prop := ∀ k, s = .ok k → ∃ Q, Sane k Q

/-- **The assertions.**  In a run without NULL pointers no assertion fails exactly if no process
asks for a message that is not there while an interrupt is pending for it. -/
theorem noAssert_iff (h : Fresh k) (as : List Action)
    (hm : Always (stepOf act) NonNull (.ok k) as) :
    Always (stepOf act) NoAssert (.ok k) as ↔ Always (stepOf act) Expected (.ok k) as := by
  refine Always.congr_inv_of (I := Safe) (fun s a r hs hr hn => ?_) (fun s a r hs hr hn => ?_) as
    (.ok k) (fun k' hk' => ?_) hm
  · obtain ⟨k, rfl, ha, rfl⟩ := act_some hr
    obtain ⟨Q, hQ⟩ := hs k rfl
    exact (hQ.act ha hn).1
  · obtain ⟨k, rfl, ha, rfl⟩ := act_some hr
    obtain ⟨Q, hQ⟩ := hs k rfl
    exact (hQ.act ha hn).2
  · cases hk'
    exact ⟨_, h.sane⟩

end

theorem boot_fresh (n : Nat) : Fresh (boot n) := by
  have hcase : ∀ p : Pid, bootProc n p = { Proc.zero with flags := .FREE_SLOT } ∨
      ∃ seg pr name, seg.base = 0 ∧ bootProc n p = { Proc.zero with
        ldtC := seg, ldtRw := seg, ticks := pr, priority := pr, name := name, parent := none
        recvFrom := .noTask, sendTo := none } := by
    intro p
    unfold bootProc
    by_cases h : nrTasks + nrNativeProcs ≤ p.val
    · rw [if_pos h]
      exact .inl rfl
    · rw [if_neg h]
      refine .inr ⟨_, _, _, ?_, rfl⟩
      by_cases hi : p = init
      · rw [if_pos hi]
      · rw [if_neg hi]
  refine ⟨fun p => ?_, fun p => (bootProc_flags n p).2.2, fun p _ => ?_, rfl⟩
  · show (bootProc n p).ipc.Ok ∧ ((bootProc n p).flags = _ ∨ (bootProc n p).flags = _)
    rcases hcase p with hp | ⟨seg, pr, name, -, hp⟩
    · rw [hp]
      exact ⟨.free _ _ _ _ (Nat.two_pow_pos 32), .inr rfl⟩
    · rw [hp]
      exact ⟨.ready .., .inl rfl⟩
  · show (bootProc n p).ldtRw.base = 0
    rcases hcase p with hp | ⟨seg, pr, name, hseg, hp⟩
    · rw [hp]
      rfl
    · rw [hp]
      exact hseg

/-- FS opens the disk; the disk interrupts while HD, in `waitfor`, asks SYS for the time -/
def hdTimeout : List Action :=
  [.receive taskSys .any 0x1000, .receive taskHd .any 0x2000, .send taskFs taskHd 0x3000,
    .receive taskFs (.proc taskHd) 0x3000, .send taskHd taskSys 0x2100, .inform taskHd,
    .receive taskHd (.proc taskSys) 0x2100]

theorem noAssert_fails : ¬ Always (stepOf act) NoAssert (.ok (boot 0x80000)) hdTimeout := by
  refine Always.not_of_exec (hdTimeout.dropLast)
    (fun _ r => match r with | .error .assert => true | _ => false) (fun s r _ hr => ?_)
    (by decide +kernel)
  split at hr
  · exact fun h => h rfl
  · cases hr

theorem noAssert_iff_boot : Always (stepOf act) NoAssert (.ok (boot 0x80000)) hdTimeout ↔
    Always (stepOf act) Expected (.ok (boot 0x80000)) hdTimeout :=
  noAssert_iff (boot_fresh _) hdTimeout (by decide +kernel)

/-! ## no interrupt is lost -/

/-- a RECEIVE of `t` for which an interrupt is an answer -/
def Action.takesIntOf (t : Pid) : Action → Prop
  | .receive p who _ => p = t ∧ who.takesInt
  | _ => False

/-- the message in the buffer of `t` is HARD_INT from INTERRUPT -/
def HardInt (k : Kernel) (t : Pid) (m : Nat) : Prop :=
  ∃ la, va2la k t m = .ok la ∧ (k.mem la).source = .interrupt ∧ (k.mem la).type = HARD_INT

/-- `t` runs on with the message in its buffer, and has no interrupt pending until the next one -/
structure Notified (k : Kernel) (t : Pid) (m : Nat) : Prop where
  flags : flags k t = .zero
  message : HardInt k t m
  clear : ∀ as k', exec act (.ok k) as = some (.ok k') → Action.inform t ∉ as →
    (k'.procs t).hasIntMsg = false

/-- `t` is blocked in a RECEIVE for which an interrupt is an answer -/
def AsksInt (k : Kernel) (t : Pid) : Prop := asks k t = some .any ∨ asks k t = some .interrupt

instance (k : Kernel) (t : Pid) : Decidable (AsksInt k t) :=
  inferInstanceAs (Decidable (_ ∨ _))

section
variable {k k' : Kernel} {Q : Pid → List Pid} {t : Pid} {m : Nat} {a : Action}

theorem asksInt_iff : AsksInt k t ↔
    (k.procs t).flags.receiving = true ∧ (k.procs t).recvFrom.takesInt := by
  unfold AsksInt Who.takesInt
  show (k.procs t).asks = _ ∨ (k.procs t).asks = _ ↔ _
  unfold Proc.asks
  cases (k.procs t).flags.receiving with
  | true => simp
  | false => simp

/-- who is blocked so has no interrupt pending -/
theorem Sane.asksInt (h : Sane k Q) (ht : AsksInt k t) : (k.procs t).hasIntMsg = false := by
  obtain ⟨hr, hw⟩ := asksInt_iff.mp ht
  exact (h.receiving hr).2.2.2 hw

theorem Becomes.hasInt {p : Pid} {x : IpcPart} (h : Becomes k k' p x) (t : Pid) :
    (k'.procs t).hasIntMsg = if t = p then x.hasIntMsg else (k.procs t).hasIntMsg := by
  have he : Ipc.ipc k' t = Function.update (Ipc.ipc k) p x t := congrFun h.ipc t
  show (Ipc.ipc k' t).hasIntMsg = _
  rw [he]
  by_cases htp : t = p
  · subst htp
    rw [Function.update_self, if_pos rfl]
  · rw [Function.update_of_ne htp, if_neg htp]
    rfl

theorem Keeps.hasInt (h : Keeps k k') (t : Pid) :
    (k'.procs t).hasIntMsg = (k.procs t).hasIntMsg := by
  obtain ⟨q, x, hb, -, -, hx⟩ := h
  rw [hb.hasInt t]
  by_cases htq : t = q
  · subst htq
    rw [if_pos rfl, hx]
  · rw [if_neg htq]

theorem msgSend_nonNull {p d : Pid} (h : msgSend k p d m = .ok k') : m ≠ 0 := by
  obtain ⟨hpd, -, -⟩ := msgSend_effect h
  unfold msgSend at h
  rw [check_bind_ok] at h
  obtain ⟨dl, -, h⟩ := bind_ok.mp h.2
  cases dl with
  | true => cases h
  | false =>
    simp only [Bool.false_eq_true, if_false] at h
    by_cases hw : wants k d p
    · rw [if_pos hw] at h
      unfold handOver at h
      simp only [check_bind_ok] at h
      exact h.2.1
    · rw [if_neg hw] at h
      -- the pointer is in the sender's record at the end
      have hbuf : (k'.procs p).msg = m := by
        have hb := congrFun (queueUp_ok hpd h).buffer p
        rw [Function.update_self] at hb
        exact hb
      unfold queueUp at h
      obtain ⟨-, h⟩ := check_bind_ok.mp h
      obtain ⟨k₁, -, h⟩ := bind_ok.mp h
      obtain ⟨k₂, -, h⟩ := bind_ok.mp h
      simp only [check_bind_ok] at h
      obtain ⟨-, hm, -, -, h⟩ := h
      cases h
      rw [hbuf] at hm
      exact hm

theorem msgReceive_nonNull {p : Pid} {who : Who} (h : msgReceive k p who m = .ok k') : m ≠ 0 := by
  unfold msgReceive at h
  rw [check_bind_ok] at h
  replace h := h.2
  by_cases hi : (k.procs p).hasIntMsg = true ∧ (who = .any ∨ who = .interrupt)
  · rw [if_pos hi] at h
    unfold takeInt at h
    exact (check_bind_ok.mp h).1
  · rw [if_neg hi] at h
    obtain ⟨c, -, h⟩ := bind_ok.mp h
    cases c with
    | some x =>
      simp only at h
      unfold takeMsg at h
      obtain ⟨k₁, -, h⟩ := bind_ok.mp h
      exact (check_bind_ok.mp h).1
    | none =>
      simp only at h
      unfold waitFor at h
      simp only [check_bind_ok, Kernel.set_same] at h
      exact h.2.1

/-- a call with a NULL pointer leaves no state -/
theorem Action.nonNull_of_ok (h : a.result k = .ok k') : a.nonNull := by
  cases a with
  | inform t => trivial
  | send p d m =>
    have hs : sysSendrec k .SEND (.proc d) m p = .ok k' := h
    unfold sysSendrec at hs
    rw [check_bind_ok] at hs
    obtain ⟨la, -, hs⟩ := bind_ok.mp hs.2
    exact msgSend_nonNull (check_bind_ok.mp hs).2
  | receive p who m =>
    have hs : sysSendrec k .RECEIVE who m p = .ok k' := h
    unfold sysSendrec at hs
    rw [check_bind_ok] at hs
    obtain ⟨la, -, hs⟩ := bind_ok.mp hs.2
    exact msgReceive_nonNull (check_bind_ok.mp hs).2

/-- **What happens to the pending interrupt of `t`**: an interrupt sets it unless `t` asks for it, a
RECEIVE that takes it clears it, and nothing else touches it. -/
theorem Sane.hasInt (h : Sane k Q) (ha : a.possible k) (hr : a.result k = .ok k') (t : Pid) :
    (k'.procs t).hasIntMsg = true ↔ if a = .inform t then ¬ AsksInt k t
      else (k.procs t).hasIntMsg = true ∧ ¬ a.takesIntOf t := by
  have hm := Action.nonNull_of_ok hr
  cases a with
  | send p d m =>
    obtain ⟨hp, hpd, hlt⟩ := ha
    have hf := send_fine h hp hpd hm hlt
    have hr' : sysSendrec k .SEND (.proc d) m p = .ok k' := hr
    rw [hr'] at hf
    have hk : Keeps k k' := hf
    rw [if_neg (fun he => (nomatch he)), hk.hasInt t]
    exact ⟨fun hi => ⟨hi, id⟩, fun hi => hi.1⟩
  | receive p who m =>
    obtain ⟨hp, hwn, hwp, hlt⟩ := ha
    have hr' : sysSendrec k .RECEIVE who m p = .ok k' := hr
    rw [if_neg (fun he => (nomatch he))]
    by_cases hi : (k.procs p).hasIntMsg = true ∧ who.takesInt
    · obtain ⟨k₁, hk₁, hb, -⟩ := receive_int h hp hi.2 hi.1 hm hlt
      cases hr'.symm.trans hk₁
      rw [hb.hasInt t]
      by_cases htp : t = p
      · subst htp
        rw [if_pos rfl]
        exact ⟨fun hc => (nomatch hc), fun hc => absurd ⟨rfl, hi.2⟩ hc.2⟩
      · rw [if_neg htp]
        exact ⟨fun hc => ⟨hc, fun ht => htp ht.1.symm⟩, fun hc => hc.1⟩
    · obtain ⟨hbad, hgood⟩ := receive_fine h hp hwn hwp hi hm hlt
      have hun : ¬ Unexpected k p who := by
        intro hu
        cases hr'.symm.trans (hbad hu)
      have hf := hgood hun
      rw [hr'] at hf
      have hk : Keeps k k' := hf
      rw [hk.hasInt t]
      refine ⟨fun hc => ⟨hc, ?_⟩, fun hc => hc.1⟩
      rintro ⟨rfl, hw⟩
      exact hi ⟨hc, hw⟩
  | inform q =>
    obtain ⟨k₁, hk₁, hcase⟩ := informInt_sane h q
    have hr' : informInt k q = .ok k' := hr
    cases hr'.symm.trans hk₁
    by_cases hq : q = t
    · subst hq
      rw [if_pos rfl, asksInt_iff]
      by_cases hw : (k.procs q).flags.receiving = true ∧ (k.procs q).recvFrom.takesInt
      · rw [if_pos hw] at hcase
        rw [hcase.1.hasInt q, if_pos rfl]
        exact ⟨fun hc => (nomatch hc), fun hc => absurd hw hc⟩
      · rw [if_neg hw] at hcase
        rw [hcase.hasInt q, if_pos rfl]
        exact ⟨fun _ => hw, fun _ => rfl⟩
    · have htq : t ≠ q := fun he => hq he.symm
      rw [if_neg (fun he => hq (by cases he; rfl))]
      by_cases hw : (k.procs q).flags.receiving = true ∧ (k.procs q).recvFrom.takesInt
      · rw [if_pos hw] at hcase
        rw [hcase.1.hasInt t, if_neg htq]
        exact ⟨fun hi => ⟨hi, id⟩, fun hi => hi.1⟩
      · rw [if_neg hw] at hcase
        rw [hcase.hasInt t, if_neg htq]
        exact ⟨fun hi => ⟨hi, id⟩, fun hi => hi.1⟩

/-- an action that leaves a state leaves a sane one -/
theorem Safe.act {s r : Except Fault Kernel} (hs : Safe s) (h : act s a = some r) : Safe r := by
  obtain ⟨k, rfl, ha, rfl⟩ := act_some h
  obtain ⟨Q, hQ⟩ := hs k rfl
  exact fun k' hk' => (hQ.act ha (Action.nonNull_of_ok hk')).2 k' hk'

theorem Fresh.safe {k₀ : Kernel} (h : Fresh k₀) : Safe (.ok k₀) := by
  intro k hk
  cases hk
  exact ⟨_, h.sane⟩

/-- the pending interrupt of `t` along a run whose actions keep it as it is -/
theorem Sane.exec_hasInt (h : Sane k Q) (as : List Action) (b : Bool)
    (hb : (k.procs t).hasIntMsg = b) (hrun : exec Ipc.act (.ok k) as = some (.ok k'))
    (hkeep : ∀ k₁ Q₁ a k₂, a ∈ as → Sane k₁ Q₁ → a.possible k₁ → a.result k₁ = .ok k₂ →
      (k₁.procs t).hasIntMsg = b → (k₂.procs t).hasIntMsg = b) :
    (∃ Q', Sane k' Q') ∧ (k'.procs t).hasIntMsg = b := by
  have hI : ∀ k₁, (Except.ok k' : Except Fault Kernel) = .ok k₁ →
      (∃ Q', Sane k₁ Q') ∧ (k₁.procs t).hasIntMsg = b := by
    refine exec_inv (I := fun s : Except Fault Kernel => ∀ k₁, s = .ok k₁ →
      (∃ Q', Sane k₁ Q') ∧ (k₁.procs t).hasIntMsg = b) as ?_ ?_ hrun
    · intro s a r ha hs hr k₂ hk₂
      obtain ⟨k₁, rfl, hp, hres⟩ := act_some hr
      obtain ⟨⟨Q₁, hQ₁⟩, hb₁⟩ := hs k₁ rfl
      rw [hk₂] at hres
      exact ⟨(hQ₁.act hp (Action.nonNull_of_ok hres)).2 k₂ hres,
        hkeep k₁ Q₁ a k₂ ha hQ₁ hp hres hb₁⟩
    · intro k₁ hk₁
      cases hk₁
      exact ⟨⟨Q, h⟩, hb⟩
  exact hI k' rfl

/-- who has the message, and no interrupt pending, is notified -/
theorem Sane.notified (h : Sane k Q) (hf : Ipc.flags k t = .zero) (hm : HardInt k t m)
    (hi : (k.procs t).hasIntMsg = false) : Notified k t m := by
  refine ⟨hf, hm, fun as k' hrun hno => (h.exec_hasInt as false hi hrun ?_).2⟩
  intro k₁ Q₁ a k₂ ha h₁ hp hr hb
  have hne : a ≠ .inform t := fun he => hno (he ▸ ha)
  have hiff := h₁.hasInt hp hr t
  rw [if_neg hne, hb] at hiff
  cases hc : (k₂.procs t).hasIntMsg with
  | false => rfl
  | true => exact absurd (hiff.mp hc).1 (by decide)

/-- **`inform_int` to a task that asks for an interrupt** answers it. -/
theorem Sane.inform_asks (h : Sane k Q) (ht : t.val < nrTasks) (ha : AsksInt k t) :
    ∃ k₁, informInt k t = .ok k₁ ∧ Notified k₁ t (k.procs t).msg := by
  obtain ⟨k₁, hk₁, hcase⟩ := informInt_sane h t
  rw [if_pos (asksInt_iff.mp ha)] at hcase
  obtain ⟨hb, hmem⟩ := hcase
  obtain ⟨Q₁, h₁⟩ := (h.act (a := .inform t) trivial trivial).2 k₁ hk₁
  have hpart : ipc k₁ t = ⟨.zero, 0, .noTask, none, false, (k.procs t).ldtRw.base⟩ := by
    rw [hb.ipc, Function.update_self]
  have hbase : (k₁.procs t).ldtRw.base = 0 := h₁.flat t (by unfold nrNativeProcs; omega)
  refine ⟨k₁, hk₁, h₁.notified (congrArg IpcPart.flags hpart) ⟨(k.procs t).msg, ?_, ?_, ?_⟩
    (congrArg IpcPart.hasIntMsg hpart)⟩
  · rw [h₁.va2la t (h.msg_lt t), hbase, Nat.zero_add, Nat.mod_eq_of_lt (h.msg_lt t)]
  · rw [hmem]
  · rw [hmem]

/-- **A pending interrupt** is there until a RECEIVE takes it. -/
theorem Sane.pending_taken (h : Sane k Q) (hi : (k.procs t).hasIntMsg = true) (as : List Action)
    {who : Who} (hrun : exec Ipc.act (.ok k) as = some (.ok k'))
    (hno : ∀ a ∈ as, ¬ a.takesIntOf t) (hw : who.takesInt)
    (hp : (Action.receive t who m).possible k') (hm : m ≠ 0) :
    ∃ k₁, sysSendrec k' .RECEIVE who m t = .ok k₁ ∧ Notified k₁ t m := by
  obtain ⟨⟨Q', h'⟩, hi'⟩ := h.exec_hasInt as true hi hrun fun k₁ Q₁ a k₂ ha h₁ hpa hr hb => by
    rw [h₁.hasInt hpa hr t]
    by_cases he : a = .inform t
    · -- it does not ask for it: it has one pending
      rw [if_pos he]
      intro hask
      rw [h₁.asksInt hask] at hb
      cases hb
    · rw [if_neg he]
      exact ⟨hb, hno a ha⟩
  obtain ⟨hf, hwn, hwp, hlt⟩ := hp
  obtain ⟨k₁, hk₁, hb, hmem⟩ := receive_int h' hf hw hi' hm hlt
  obtain ⟨Q₁, h₁⟩ := (h'.act (a := .receive t who m) ⟨hf, hwn, hwp, hlt⟩ hm).2 k₁ hk₁
  have hpart : ipc k₁ t = ⟨.zero, 0, .noTask, none, false, (k'.procs t).ldtRw.base⟩ := by
    rw [hb.ipc, Function.update_self]
  have hbase : (k₁.procs t).ldtRw.base = (k'.procs t).ldtRw.base := congrArg IpcPart.base hpart
  refine ⟨k₁, hk₁, h₁.notified (congrArg IpcPart.flags hpart)
    ⟨((k'.procs t).ldtRw.base + m) % 2 ^ 32, ?_, ?_, ?_⟩ (congrArg IpcPart.hasIntMsg hpart)⟩
  · rw [h₁.va2la t hlt, hbase]
  · rw [hmem]
  · rw [hmem]

/-- **No interrupt is lost.**  In a reachable state no process that asks for an interrupt has one
pending.  After `inform_int` the task has its answer, if it asked for it, or its next RECEIVE that
can take an interrupt gets it. -/
theorem interrupt_not_lost {k₀ : Kernel} (h : Fresh k₀) (as : List Action)
    (hrun : exec act (.ok k₀) as = some (.ok k)) :
    (∀ t, AsksInt k t → (k.procs t).hasIntMsg = false) ∧
    ∀ t : Pid, t.val < nrTasks → ∃ k₁, informInt k t = .ok k₁ ∧
      if AsksInt k t then Notified k₁ t (k.procs t).msg
      else ∀ bs k₂ who m, exec act (.ok k₁) bs = some (.ok k₂) →
        (∀ b ∈ bs, ¬ b.takesIntOf t) → who.takesInt → (Action.receive t who m).possible k₂ →
        m ≠ 0 → ∃ k₃, sysSendrec k₂ .RECEIVE who m t = .ok k₃ ∧ Notified k₃ t m := by
  have hsafe : Safe (.ok k) :=
    exec_inv (I := Safe) as (fun s a r _ hs hr => hs.act hr) h.safe hrun
  obtain ⟨Q, hQ⟩ := hsafe k rfl
  refine ⟨fun t ht => hQ.asksInt ht, fun t ht => ?_⟩
  by_cases ha : AsksInt k t
  · simp only [if_pos ha]
    exact hQ.inform_asks ht ha
  · simp only [if_neg ha]
    obtain ⟨k₁, hk₁, -⟩ := informInt_sane hQ t
    obtain ⟨Q₁, h₁⟩ := (hQ.act (a := .inform t) trivial trivial).2 k₁ hk₁
    have hi : (k₁.procs t).hasIntMsg = true := by
      rw [hQ.hasInt (a := .inform t) trivial hk₁ t, if_pos rfl]
      exact ha
    exact ⟨k₁, hk₁, fun bs k₂ who m hbs hno hw hp hm => h₁.pending_taken hi bs hbs hno hw hp hm⟩

end

/-- HD waits for the disk -/
def hdWaits : List Action :=
  [.receive taskSys .any 0x1000, .receive taskHd .any 0x2000, .send taskFs taskHd 0x3000,
    .receive taskFs (.proc taskHd) 0x3000, .receive taskHd .interrupt 0x2100]

theorem interrupt_not_lost_hd : ∃ k, exec act (.ok (boot 0x80000)) hdWaits = some (.ok k) ∧
    AsksInt k taskHd ∧ ∃ k₁, informInt k taskHd = .ok k₁ ∧
      Notified k₁ taskHd (k.procs taskHd).msg := by
  have hrun : ((exec act (.ok (boot 0x80000)) hdWaits).any fun r =>
      r.toOption.any fun k => decide (AsksInt k taskHd)) = true := by
    decide +kernel
  obtain ⟨r, hr, hask⟩ := (Option.any_eq_true _ _).mp hrun
  cases r with
  | error e => cases hask
  | ok k =>
    have ha : AsksInt k taskHd := of_decide_eq_true hask
    obtain ⟨k₁, hk₁, hn⟩ :=
      (interrupt_not_lost (boot_fresh _) hdWaits hr).2 taskHd (by decide)
    rw [if_pos ha] at hn
    exact ⟨k, hr, ha, k₁, hk₁, hn⟩

end Noxis.Ipc
