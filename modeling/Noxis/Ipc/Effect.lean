import Noxis.Ipc.Sendrec
import Noxis.Lib.Queues

/-!
# 25-osfs11: what a system call does to the queues

Of the process table the queues need four things: for whom a process `waits` (it is SENDING to it),
what it `asks` for (it is RECEIVING from it), the `head` of its queue and its link `next`.

* `HandedOver`, `QueuedUp`   the two ends of `msg_send` (`msgSend_effect`);
* `Took`, `Blocked`          the two ends of `msg_receive` without an interrupt
                             (`msgReceive_effect`);
* `Woken`                    what `inform_int` does, and a `msg_receive` that takes an interrupt.
-/

namespace Noxis.Ipc

def Proc.waits (p : Proc) : Option Pid := if p.flags.sending then p.sendTo else none
def Proc.asks (p : Proc) : Option Who := if p.flags.receiving then some p.recvFrom else none

/-- the process for which `p` waits in a queue -/
def waits (k : Kernel) (p : Pid) : Option Pid := (k.procs p).waits
/-- what `p` is blocked receiving -/
def asks (k : Kernel) (p : Pid) : Option Who := (k.procs p).asks
def head (k : Kernel) (p : Pid) : Option Pid := (k.procs p).qSending
def next (k : Kernel) (p : Pid) : Option Pid := (k.procs p).nextSending
def buffer (k : Kernel) (p : Pid) : Nat := (k.procs p).msg
def flags (k : Kernel) (p : Pid) : Flags := (k.procs p).flags

section
variable {k k' : Kernel} {p d : Pid} {f : Proc → Proc}

theorem waits_set (k : Kernel) (p : Pid) (f : Proc → Proc) :
    waits (k.set p f) = Function.update (waits k) p (f (k.procs p)).waits := k.proj_set _ p f
theorem asks_set (k : Kernel) (p : Pid) (f : Proc → Proc) :
    asks (k.set p f) = Function.update (asks k) p (f (k.procs p)).asks := k.proj_set _ p f
theorem head_set (k : Kernel) (p : Pid) (f : Proc → Proc) :
    head (k.set p f) = Function.update (head k) p (f (k.procs p)).qSending := k.proj_set _ p f
theorem next_set (k : Kernel) (p : Pid) (f : Proc → Proc) :
    next (k.set p f) = Function.update (next k) p (f (k.procs p)).nextSending := k.proj_set _ p f
theorem buffer_set (k : Kernel) (p : Pid) (f : Proc → Proc) :
    buffer (k.set p f) = Function.update (buffer k) p (f (k.procs p)).msg := k.proj_set _ p f
theorem flags_set (k : Kernel) (p : Pid) (f : Proc → Proc) :
    flags (k.set p f) = Function.update (flags k) p (f (k.procs p)).flags := k.proj_set _ p f

theorem Proc.waits_of_zero {x : Proc} (h : x.flags = .zero) : x.waits = none := by
  unfold Proc.waits; rw [h]; rfl

theorem Proc.asks_of_zero {x : Proc} (h : x.flags = .zero) : x.asks = none := by
  unfold Proc.asks; rw [h]; rfl

theorem Proc.waits_of_sending {x : Proc} (h : x.flags = .SENDING) : x.waits = x.sendTo := by
  unfold Proc.waits; rw [h]; rfl

theorem Proc.asks_of_receiving {x : Proc} (h : x.flags = .RECEIVING) : x.asks = some x.recvFrom := by
  unfold Proc.asks; rw [h]; rfl

/-! ## schedule -/

/-- the tables agree in all but the ticks, and the rest of the kernel but the choice -/
structure SameButTicks (k k' : Kernel) : Prop where
  procs : ∀ p, ∃ t, k'.procs p = { k.procs p with ticks := t }
  mem : k'.mem = k.mem
  below : k'.below = k.below
  copies : k'.copies = k.copies

theorem schedule_ok (h : schedule k = .ok k') : SameButTicks k k' := by
  unfold schedule at h
  cases hm : mostTicks k.procs with
  | some p =>
    rw [hm] at h
    cases h
    exact ⟨fun p => ⟨(k.procs p).ticks, rfl⟩, rfl, rfl, rfl⟩
  | none =>
    rw [hm] at h
    cases hm' : mostTicks (recharge k.procs) with
    | some p =>
      simp only [hm'] at h
      cases h
      refine ⟨fun q => ?_, rfl, rfl, rfl⟩
      show ∃ t, recharge k.procs q = _
      unfold recharge
      by_cases hz : (k.procs q).flags = .zero
      · rw [if_pos hz]
        exact ⟨_, rfl⟩
      · rw [if_neg hz]
        exact ⟨(k.procs q).ticks, rfl⟩
    | none =>
      simp only [hm'] at h
      cases h

/-- nothing but the ticks matters to a part `g` of the records -/
theorem SameButTicks.proj {β : Type} (h : SameButTicks k k') (g : Proc → β)
    (hg : ∀ (x : Proc) (t : Nat), g { x with ticks := t } = g x) (p : Pid) :
    g (k'.procs p) = g (k.procs p) := by
  obtain ⟨t, ht⟩ := h.procs p
  rw [ht, hg]

theorem SameButTicks.waits (h : SameButTicks k k') : Ipc.waits k' = Ipc.waits k :=
  funext fun p => h.proj Proc.waits (fun _ _ => rfl) p
theorem SameButTicks.asks (h : SameButTicks k k') : Ipc.asks k' = Ipc.asks k :=
  funext fun p => h.proj Proc.asks (fun _ _ => rfl) p
theorem SameButTicks.head (h : SameButTicks k k') : Ipc.head k' = Ipc.head k :=
  funext fun p => h.proj Proc.qSending (fun _ _ => rfl) p
theorem SameButTicks.next (h : SameButTicks k k') : Ipc.next k' = Ipc.next k :=
  funext fun p => h.proj Proc.nextSending (fun _ _ => rfl) p
theorem SameButTicks.buffer (h : SameButTicks k k') : Ipc.buffer k' = Ipc.buffer k :=
  funext fun p => h.proj Proc.msg (fun _ _ => rfl) p
theorem SameButTicks.flags (h : SameButTicks k k') : Ipc.flags k' = Ipc.flags k :=
  funext fun p => h.proj Proc.flags (fun _ _ => rfl) p

theorem block_ok (h : block k p = .ok k') : (k.procs p).flags ≠ .zero ∧ SameButTicks k k' := by
  unfold block at h
  rw [check_bind_ok] at h
  exact ⟨h.1, schedule_ok h.2⟩

theorem copyMsg_ok {receiver sender : Pid} {dst src : Nat}
    (h : copyMsg k receiver dst sender src = .ok k') :
    ∃ mem, k' = { k with mem := mem, copies := k.copies ++ [⟨sender, src, receiver, dst⟩] } := by
  unfold copyMsg at h
  obtain ⟨la, -, h⟩ := bind_ok.mp h
  obtain ⟨la', -, h⟩ := bind_ok.mp h
  cases h
  exact ⟨_, rfl⟩

/-- the queue of `d` -/
def IsQueue (k : Kernel) (d : Pid) (l : List Pid) : Prop := Chain (next k) (head k d) l

/-! ## msg_send -/

/-- the message went straight to `d`, which was waiting for it -/
structure HandedOver (k k' : Kernel) (p d : Pid) (m : Nat) : Prop where
  wants : wants k d p
  waits : waits k' = waits k
  asks : asks k' = Function.update (asks k) d none
  head : head k' = head k
  next : next k' = next k
  buffer : buffer k' = Function.update (buffer k) d 0
  flags : flags k' = Function.update (flags k) d .zero
  copies : k'.copies = k.copies ++ [⟨p, m, d, Ipc.buffer k d⟩]

/-- the heads and the links after `p` was appended to the queue of `d` -/
def Appended (head next head' next' : Pid → Option Pid) (p d : Pid) : Prop :=
  (head d = none ∧ head' = Function.update head d (some p) ∧
    next' = Function.update next p none) ∨
  (∃ h z, head d = some h ∧ lastOf next fuel h = some z ∧ head' = head ∧
    next' = Function.update (Function.update next z (some p)) p none)

/-- `p` blocked in the queue of `d` -/
structure QueuedUp (k k' : Kernel) (p d : Pid) (m : Nat) : Prop where
  waits : waits k' = Function.update (waits k) p (some d)
  asks : asks k' = asks k
  links : Appended (head k) (next k) (head k') (next k') p d
  buffer : buffer k' = Function.update (buffer k) p m
  flags : flags k' = Function.update (flags k) p .SENDING
  copies : k'.copies = k.copies

theorem handOver_ok {m : Nat} (hw : wants k d p) (h : handOver k p d m = .ok k') :
    HandedOver k k' p d m := by
  unfold handOver at h
  simp only [check_bind_ok] at h
  obtain ⟨-, -, h⟩ := h
  obtain ⟨k₁, hc, h⟩ := bind_ok.mp h
  obtain ⟨mem, rfl⟩ := copyMsg_ok hc
  simp only [unblock, check_bind_ok, Kernel.set_same] at h
  obtain ⟨hz, -, -, -, -, -, h⟩ := h
  cases h
  have hwd : (k.procs d).waits = none := by
    have hsend : (k.procs d).flags.sending = false := congrArg Flags.sending hz
    unfold Proc.waits
    rw [hsend]
    rfl
  refine ⟨hw, ?_, ?_, ?_, ?_, ?_, ?_, rfl⟩
  · exact Kernel.proj_set_eq Proc.waits _ _ _ ((Proc.waits_of_zero hz).trans hwd.symm)
  · rw [asks_set, Proc.asks_of_zero hz]
    rfl
  · exact Kernel.proj_set_eq Proc.qSending _ _ _ rfl
  · exact Kernel.proj_set_eq Proc.nextSending _ _ _ rfl
  · rw [buffer_set]
    rfl
  · rw [flags_set]
    show Function.update _ d _ = _
    rw [hz]
    rfl

theorem enqueue_ok (hpd : p ≠ d) (h : enqueue k p d = .ok k') :
    Appended (head k) (next k) (head k') (next k') p d ∧ k'.copies = k.copies ∧
      ∀ {β : Type} (g : Proc → β),
        (∀ x q n, g { x with qSending := q, nextSending := n } = g x) →
        (fun q => g (k'.procs q)) = fun q => g (k.procs q) := by
  unfold enqueue at h
  cases hq : (k.procs d).qSending with
  | none =>
    rw [hq] at h
    cases h
    refine ⟨.inl ⟨hq, ?_, ?_⟩, rfl, fun g hg => ?_⟩
    · rw [head_set, Kernel.set_ne _ _ hpd, head_set]
      refine Function.update_eq_self_iff.mpr ?_
      rw [Function.update_of_ne hpd]
      rfl
    · rw [next_set]
      congr 1
      exact Kernel.proj_set_eq Proc.nextSending _ _ _ rfl
    · refine (Kernel.proj_set_eq g _ _ _ ?_).trans (Kernel.proj_set_eq g _ _ _ ?_)
      · exact hg _ (Proc.qSending _) none
      · exact hg _ (some p) (Proc.nextSending _)
  | some x =>
    rw [hq] at h
    simp only at h
    cases hl : lastOf (fun q => (k.procs q).nextSending) fuel x with
    | none =>
      rw [hl] at h
      cases h
    | some z =>
      rw [hl] at h
      cases h
      refine ⟨.inr ⟨x, z, hq, hl, ?_, ?_⟩, rfl, fun g hg => ?_⟩
      · exact (Kernel.proj_set_eq Proc.qSending _ _ _ rfl).trans
          (Kernel.proj_set_eq Proc.qSending _ _ _ rfl)
      · rw [next_set, next_set]
      · refine (Kernel.proj_set_eq g _ _ _ ?_).trans (Kernel.proj_set_eq g _ _ _ ?_)
        · exact hg _ (Proc.qSending _) none
        · exact hg _ (Proc.qSending _) (some p)

theorem queueUp_ok {m : Nat} (hpd : p ≠ d) (h : queueUp k p d m = .ok k') :
    QueuedUp k k' p d m := by
  unfold queueUp at h
  simp only [check_bind_ok, Kernel.set_same] at h
  obtain ⟨hs, h⟩ := h
  obtain ⟨k₁, he, h⟩ := bind_ok.mp h
  obtain ⟨k₂, hb, h⟩ := bind_ok.mp h
  simp only [check_bind_ok] at h
  obtain ⟨-, -, -, -, h⟩ := h
  cases h
  obtain ⟨hlinks, hcopies, hsame⟩ := enqueue_ok hpd he
  obtain ⟨-, hticks⟩ := block_ok hb
  -- the two changes of the sender's record, before the queue is touched
  set k₀ := (k.set p fun x => { x with flags := { x.flags with sending := true } }).set p
    fun x => { x with sendTo := some d, msg := m } with hk₀
  have hp₀ : k₀.procs p = { k.procs p with
      flags := { (k.procs p).flags with sending := true }, sendTo := some d, msg := m } := by
    rw [hk₀, Kernel.set_same, Kernel.set_same]
  have hq₀ : ∀ q, q ≠ p → k₀.procs q = k.procs q := fun q hq => by
    rw [hk₀, Kernel.set_ne _ _ hq, Kernel.set_ne _ _ hq]
  have hproj : ∀ {β : Type} (g : Proc → β),
      (fun q => g (k₀.procs q)) = Function.update (fun q => g (k.procs q)) p (g (k₀.procs p)) := by
    intro β g
    funext q
    by_cases hq : q = p
    · subst hq
      rw [Function.update_self]
    · rw [Function.update_of_ne hq, hq₀ q hq]
  have hflags : (k₀.procs p).flags = .SENDING := by rw [hp₀]; exact hs
  have hhead : head k₀ = head k :=
    (hproj Proc.qSending).trans (Function.update_eq_self_iff.mpr (by rw [hp₀]))
  have hnext : next k₀ = next k :=
    (hproj Proc.nextSending).trans (Function.update_eq_self_iff.mpr (by rw [hp₀]))
  refine ⟨?_, ?_, ?_, ?_, ?_, ?_⟩
  · rw [hticks.waits, show waits k₁ = waits k₀ from hsame Proc.waits fun _ _ _ => rfl]
    refine (hproj Proc.waits).trans ?_
    rw [Proc.waits_of_sending hflags, hp₀]
    rfl
  · rw [hticks.asks, show asks k₁ = asks k₀ from hsame Proc.asks fun _ _ _ => rfl]
    refine (hproj Proc.asks).trans (Function.update_eq_self_iff.mpr ?_)
    rw [hp₀]
    rfl
  · rw [hticks.head, hticks.next, ← hhead, ← hnext]
    exact hlinks
  · rw [hticks.buffer, show buffer k₁ = buffer k₀ from hsame Proc.msg fun _ _ _ => rfl]
    refine (hproj Proc.msg).trans ?_
    rw [hp₀]
    rfl
  · rw [hticks.flags, show flags k₁ = flags k₀ from hsame Proc.flags fun _ _ _ => rfl]
    refine (hproj Proc.flags).trans ?_
    rw [hflags]
    rfl
  · rw [hticks.copies, hcopies]
    rfl

/-- **The two ends of a SEND.** -/
theorem msgSend_effect {m : Nat} (h : msgSend k p d m = .ok k') :
    p ≠ d ∧ deadlock k p d = .ok false ∧
      (HandedOver k k' p d m ∨ ¬ wants k d p ∧ QueuedUp k k' p d m) := by
  unfold msgSend at h
  rw [check_bind_ok] at h
  obtain ⟨hpd, h⟩ := h
  obtain ⟨dl, hdl, h⟩ := bind_ok.mp h
  cases dl with
  | true => cases h
  | false =>
    simp only [Bool.false_eq_true, if_false] at h
    by_cases hw : wants k d p
    · rw [if_pos hw] at h
      exact ⟨hpd, hdl, .inl (handOver_ok hw h)⟩
    · rw [if_neg hw] at h
      exact ⟨hpd, hdl, .inr ⟨hw, queueUp_ok hpd h⟩⟩

/-! ## msg_receive -/

/-- the heads and the links after `src` has left the queue of `p`; `prev` stood before it -/
def Removed (head next head' next' : Pid → Option Pid) (p src : Pid) (prev : Option Pid) : Prop :=
  (head p = some src ∧ head' = Function.update head p (next src) ∧
    next' = Function.update next src none) ∨
  (∃ z, prev = some z ∧ head p ≠ some src ∧ head' = head ∧
    next' = Function.update (Function.update next z (next src)) src none)

/-- `p` took the message of `src`, which waited in its queue -/
structure Took (k k' : Kernel) (p src : Pid) (prev : Option Pid) (m : Nat) : Prop where
  waits : waits k' = Function.update (waits k) src none
  asks : asks k' = asks k
  links : Removed (head k) (next k) (head k') (next k') p src prev
  buffer : buffer k' = Function.update (buffer k) src 0
  flags : flags k' = Function.update (flags k) src .zero
  copies : k'.copies = k.copies ++ [⟨src, Ipc.buffer k src, p, m⟩]
  idle : Ipc.asks k src = none

/-- `p` is blocked until it gets what it asks for -/
structure Blocked (k k' : Kernel) (p : Pid) (src : Who) (m : Nat) : Prop where
  waits : waits k' = waits k
  asks : asks k' = Function.update (asks k) p (some src)
  head : head k' = head k
  next : next k' = next k
  buffer : buffer k' = Function.update (buffer k) p m
  flags : flags k' = Function.update (flags k) p .RECEIVING
  copies : k'.copies = k.copies

/-- `p` is not blocked, or not any longer, and no queue changed -/
structure Woken (k k' : Kernel) (p : Pid) : Prop where
  waits : waits k' = waits k
  head : head k' = head k
  next : next k' = next k
  copies : k'.copies = k.copies
  rest : (asks k' = asks k ∧ buffer k' = buffer k ∧ flags k' = flags k) ∨
    (asks k' = Function.update (asks k) p none ∧ buffer k' = Function.update (buffer k) p 0 ∧
      flags k' = Function.update (flags k) p .zero ∧
      (Ipc.asks k p = some .interrupt ∨ Ipc.asks k p = some .any))

theorem dequeue_ok {src : Pid} {prev : Option Pid} (h : dequeue k p src prev = .ok k') :
    Removed (head k) (next k) (head k') (next k') p src prev ∧ k'.copies = k.copies ∧
      ∀ {β : Type} (g : Proc → β),
        (∀ x q n, g { x with qSending := q, nextSending := n } = g x) →
        (fun q => g (k'.procs q)) = fun q => g (k.procs q) := by
  unfold dequeue at h
  by_cases hh : (k.procs p).qSending = some src
  · rw [if_pos hh, check_bind_ok] at h
    cases h.2
    refine ⟨.inl ⟨hh, ?_, ?_⟩, rfl, fun g hg => ?_⟩
    · refine (Kernel.proj_set_eq Proc.qSending _ _ _ rfl).trans ?_
      exact head_set ..
    · rw [next_set]
      congr 1
      exact Kernel.proj_set_eq Proc.nextSending _ _ _ rfl
    · refine (Kernel.proj_set_eq g _ _ _ ?_).trans (Kernel.proj_set_eq g _ _ _ ?_)
      · exact hg _ (Proc.qSending _) none
      · exact hg _ _ (Proc.nextSending _)
  · rw [if_neg hh] at h
    cases prev with
    | none => cases h
    | some z =>
      cases h
      refine ⟨.inr ⟨z, rfl, hh, ?_, ?_⟩, rfl, fun g hg => ?_⟩
      · exact (Kernel.proj_set_eq Proc.qSending _ _ _ rfl).trans
          (Kernel.proj_set_eq Proc.qSending _ _ _ rfl)
      · rw [next_set, next_set]
        rfl
      · refine (Kernel.proj_set_eq g _ _ _ ?_).trans (Kernel.proj_set_eq g _ _ _ ?_)
        · exact hg _ (Proc.qSending _) none
        · exact hg _ (Proc.qSending _) _

theorem takeMsg_ok {src : Pid} {prev : Option Pid} {m : Nat} (h : takeMsg k p src prev m = .ok k') :
    Took k k' p src prev m := by
  unfold takeMsg at h
  obtain ⟨k₁, hd, h⟩ := bind_ok.mp h
  simp only [check_bind_ok] at h
  obtain ⟨-, -, h⟩ := h
  obtain ⟨k₂, hc, h⟩ := bind_ok.mp h
  obtain ⟨mem, rfl⟩ := copyMsg_ok hc
  simp only [unblock, check_bind_ok, Kernel.set_same] at h
  obtain ⟨hz, h⟩ := h
  cases h
  obtain ⟨hlinks, hcopies, hsame⟩ := dequeue_ok hd
  refine ⟨?_, ?_, ?_, ?_, ?_, ?_, ?_⟩
  · rw [waits_set, Proc.waits_of_zero hz]
    exact congrArg (Function.update · src none) (hsame Proc.waits fun _ _ _ => rfl)
  · refine (Kernel.proj_set_eq Proc.asks _ _ _ rfl).trans ?_
    exact hsame Proc.asks fun _ _ _ => rfl
  · rw [head_set, next_set]
    convert hlinks using 1
    · exact Function.update_eq_self ..
    · exact Function.update_eq_self ..
  · rw [buffer_set]
    exact congrArg (Function.update · src 0) (hsame Proc.msg fun _ _ _ => rfl)
  · rw [flags_set]
    show Function.update (flags k₁) src ({ (k₁.procs src).flags with sending := false } : Flags) = _
    rw [hz]
    exact congrArg (Function.update · src Flags.zero) (hsame Proc.flags fun _ _ _ => rfl)
  · show k₁.copies ++ _ = _
    rw [hcopies, show (k₁.procs src).msg = Ipc.buffer k src from
      congrFun (hsame Proc.msg fun _ _ _ => rfl) src]
  · have hrecv : (k₁.procs src).flags.receiving = false := congrArg Flags.receiving hz
    have ha : (k₁.procs src).asks = none := by
      unfold Proc.asks
      rw [hrecv]
      rfl
    exact (congrFun (hsame Proc.asks fun _ _ _ => rfl) src).symm.trans ha

theorem waitFor_ok {src : Who} {m : Nat} (h : waitFor k p src m = .ok k') :
    Blocked k k' p src m := by
  unfold waitFor at h
  simp only [check_bind_ok, Kernel.set_same] at h
  obtain ⟨hr, -, -, hs, -, h⟩ := h
  obtain ⟨-, hticks⟩ := block_ok h
  have hwp : (k.procs p).waits = none := by
    have hsend : (k.procs p).flags.sending = false := congrArg Flags.sending hr
    unfold Proc.waits
    rw [hsend]
    rfl
  refine ⟨?_, ?_, ?_, ?_, ?_, ?_, hticks.copies⟩
  · rw [hticks.waits]
    refine Kernel.proj_set_eq Proc.waits _ _ _ ?_
    rw [hwp]
    unfold Proc.waits
    rw [hr]
    rfl
  · rw [hticks.asks, asks_set, Proc.asks_of_receiving hr]
  · rw [hticks.head]
    exact Kernel.proj_set_eq Proc.qSending _ _ _ rfl
  · rw [hticks.next]
    exact Kernel.proj_set_eq Proc.nextSending _ _ _ rfl
  · rw [hticks.buffer, buffer_set]
  · rw [hticks.flags, flags_set]
    show Function.update _ p _ = _
    rw [hr]

theorem takeInt_ok {m : Nat} (h : takeInt k p m = .ok k') : Woken k k' p := by
  unfold takeInt at h
  rw [check_bind_ok] at h
  obtain ⟨la, -, h⟩ := bind_ok.mp h.2
  simp only [check_bind_ok] at h
  obtain ⟨-, -, -, h⟩ := h
  cases h
  exact ⟨Kernel.proj_set_eq Proc.waits _ _ _ rfl, Kernel.proj_set_eq Proc.qSending _ _ _ rfl,
    Kernel.proj_set_eq Proc.nextSending _ _ _ rfl, rfl, .inl ⟨Kernel.proj_set_eq Proc.asks _ _ _ rfl,
    Kernel.proj_set_eq Proc.msg _ _ _ rfl, Kernel.proj_set_eq Proc.flags _ _ _ rfl⟩⟩

/-- the process that `msg_receive` takes the message from -/
inductive Chosen (k : Kernel) (p : Pid) : Who → Option Pid → Pid → Prop
  /-- ANY: the first one in the queue -/
  | any {h : Pid} : head k p = some h → Chosen k p .any none h
  /-- a process that is SENDING to `p`, found behind `prev` -/
  | one {src : Pid} {prev : Option Pid} {x : Option Pid} : waits k src = some p →
    findFrom (next k) src fuel none (head k p) = some (prev, x) → Chosen k p (.proc src) prev src

theorem choose_some {src : Who} {prev : Option Pid} {q : Pid}
    (h : choose k p src = .ok (some (prev, q))) : Chosen k p src prev q := by
  unfold choose at h
  cases src with
  | noTask => cases h
  | interrupt =>
    simp only at h
    split at h <;> cases h
  | any =>
    cases hq : (k.procs p).qSending with
    | none =>
      simp only [hq] at h
      cases h
    | some x =>
      simp only [hq] at h
      obtain ⟨-, -, h⟩ := bind_ok.mp h
      cases h
      exact .any hq
  | proc src =>
    by_cases hs : (k.procs src).flags.sending = true ∧ (k.procs src).sendTo = some p
    · simp only [if_pos hs, check_bind_ok] at h
      cases hf : findFrom (fun p => (k.procs p).nextSending) src fuel none
          (k.procs p).qSending with
      | none =>
        rw [hf] at h
        cases h.2
      | some x =>
        obtain ⟨prev', y⟩ := x
        rw [hf] at h
        obtain ⟨-, -, h⟩ := bind_ok.mp h.2
        cases h
        refine .one ?_ hf
        show (k.procs _).waits = some p
        unfold Proc.waits
        rw [hs.1, hs.2]
        rfl
    · simp only [if_neg hs] at h
      cases h

theorem choose_none {src : Who} (h : choose k p src = .ok none) :
    (src = .any → head k p = none) ∧ (∀ q, src = .proc q → waits k q ≠ some p) := by
  unfold choose at h
  cases src with
  | noTask => cases h
  | interrupt => exact ⟨fun he => (nomatch he), fun _ he => (nomatch he)⟩
  | any =>
    refine ⟨fun _ => ?_, fun _ he => (nomatch he)⟩
    cases hq : (k.procs p).qSending with
    | none => exact hq
    | some x =>
      simp only [hq] at h
      obtain ⟨-, -, h⟩ := bind_ok.mp h
      cases h
  | proc src =>
    refine ⟨fun he => (nomatch he), fun q he hw => ?_⟩
    cases he
    by_cases hs : (k.procs src).flags.sending = true ∧ (k.procs src).sendTo = some p
    · simp only [if_pos hs, check_bind_ok] at h
      cases hf : findFrom (fun p => (k.procs p).nextSending) src fuel none
          (k.procs p).qSending with
      | none =>
        rw [hf] at h
        cases h.2
      | some x =>
        obtain ⟨prev', y⟩ := x
        rw [hf] at h
        obtain ⟨-, -, h⟩ := bind_ok.mp h.2
        cases h
    · apply hs
      have hw' : (k.procs src).waits = some p := hw
      unfold Proc.waits at hw'
      cases hb : (k.procs src).flags.sending with
      | false => rw [hb] at hw'; cases hw'
      | true => rw [hb] at hw'; exact ⟨rfl, hw'⟩

/-- **The three ends of a RECEIVE.** -/
theorem msgReceive_effect {src : Who} {m : Nat} (h : msgReceive k p src m = .ok k') :
    src ≠ .proc p ∧
      (((k.procs p).hasIntMsg = true ∧ (src = .any ∨ src = .interrupt) ∧ Woken k k' p) ∨
       (∃ prev q, Chosen k p src prev q ∧ Took k k' p q prev m) ∨
       ((src = .any → head k p = none) ∧ (∀ q, src = .proc q → waits k q ≠ some p) ∧
         Blocked k k' p src m)) := by
  unfold msgReceive at h
  rw [check_bind_ok] at h
  obtain ⟨hsp, h⟩ := h
  refine ⟨hsp, ?_⟩
  by_cases hi : (k.procs p).hasIntMsg = true ∧ (src = .any ∨ src = .interrupt)
  · rw [if_pos hi] at h
    exact .inl ⟨hi.1, hi.2, takeInt_ok h⟩
  · rw [if_neg hi] at h
    obtain ⟨c, hc, h⟩ := bind_ok.mp h
    cases c with
    | some x =>
      obtain ⟨prev, q⟩ := x
      exact .inr (.inl ⟨prev, q, choose_some hc, takeMsg_ok h⟩)
    | none =>
      obtain ⟨h1, h2⟩ := choose_none hc
      exact .inr (.inr ⟨h1, h2, waitFor_ok h⟩)

/-! ## sys_sendrec, inform_int -/

/-- **A SEND**: `sys_sendrec` writes the `source` of the message and goes on with `msg_send`. -/
theorem sysSendrec_send {m : Nat} (h : sysSendrec k .SEND (.proc d) m p = .ok k') :
    p ≠ d ∧ deadlock k p d = .ok false ∧
      (HandedOver k k' p d m ∨ ¬ wants k d p ∧ QueuedUp k k' p d m) := by
  unfold sysSendrec at h
  rw [check_bind_ok] at h
  obtain ⟨la, -, h⟩ := bind_ok.mp h.2
  simp only [check_bind_ok] at h
  obtain ⟨hpd, hdl, he⟩ := msgSend_effect h.2
  refine ⟨hpd, hdl, he.imp (fun he => ?_) (fun he => ⟨he.1, ?_⟩)⟩
  · exact ⟨he.wants, he.waits, he.asks, he.head, he.next, he.buffer, he.flags, he.copies⟩
  · exact ⟨he.2.waits, he.2.asks, he.2.links, he.2.buffer, he.2.flags, he.2.copies⟩

/-- **A RECEIVE**: `sys_sendrec` writes the `source` of the buffer and goes on with `msg_receive`. -/
theorem sysSendrec_receive {who : Who} {m : Nat} (h : sysSendrec k .RECEIVE who m p = .ok k') :
    who ≠ .proc p ∧
      (((k.procs p).hasIntMsg = true ∧ (who = .any ∨ who = .interrupt) ∧ Woken k k' p) ∨
       (∃ prev q, Chosen k p who prev q ∧ Took k k' p q prev m) ∨
       ((who = .any → head k p = none) ∧ (∀ q, who = .proc q → waits k q ≠ some p) ∧
         Blocked k k' p who m)) := by
  unfold sysSendrec at h
  rw [check_bind_ok] at h
  obtain ⟨la, -, h⟩ := bind_ok.mp h.2
  simp only [check_bind_ok] at h
  obtain ⟨hwp, he⟩ := msgReceive_effect h.2
  refine ⟨hwp, ?_⟩
  rcases he with ⟨h1, h2, he⟩ | ⟨prev, q, hc, he⟩ | ⟨h1, h2, he⟩
  · exact .inl ⟨h1, h2, he.waits, he.head, he.next, he.copies, he.rest⟩
  · refine .inr (.inl ⟨prev, q, ?_, he.waits, he.asks, he.links, he.buffer, he.flags, he.copies,
      he.idle⟩)
    cases hc with
    | any hh => exact .any hh
    | one hw hf => exact .one hw hf
  · exact .inr (.inr ⟨h1, h2, he.waits, he.asks, he.head, he.next, he.buffer, he.flags, he.copies⟩)

theorem informInt_ok (h : informInt k p = .ok k') : Woken k k' p := by
  unfold informInt at h
  by_cases hr : (k.procs p).flags.receiving = true ∧
      ((k.procs p).recvFrom = .interrupt ∨ (k.procs p).recvFrom = .any)
  · rw [if_pos hr] at h
    simp only [unblock, check_bind_ok, Kernel.set_same] at h
    obtain ⟨hz, -, -, -, h⟩ := h
    cases h
    have hwp : (k.procs p).waits = none := by
      have hsend : (k.procs p).flags.sending = false := congrArg Flags.sending hz
      unfold Proc.waits
      rw [hsend]
      rfl
    refine ⟨?_, Kernel.proj_set_eq Proc.qSending _ _ _ rfl,
      Kernel.proj_set_eq Proc.nextSending _ _ _ rfl, rfl, .inr ⟨?_, ?_, ?_, ?_⟩⟩
    · exact Kernel.proj_set_eq Proc.waits _ _ _ ((Proc.waits_of_zero hz).trans hwp.symm)
    · rw [asks_set, Proc.asks_of_zero hz]
      rfl
    · rw [buffer_set]
      rfl
    · rw [flags_set]
      show Function.update _ p _ = _
      rw [hz]
      rfl
    · have ha : Ipc.asks k p = some (k.procs p).recvFrom := by
        show (k.procs p).asks = _
        unfold Proc.asks
        rw [hr.1]
        rfl
      rw [ha]
      exact hr.2.imp (congrArg some) (congrArg some)
  · rw [if_neg hr] at h
    cases h
    exact ⟨Kernel.proj_set_eq Proc.waits _ _ _ rfl, Kernel.proj_set_eq Proc.qSending _ _ _ rfl,
      Kernel.proj_set_eq Proc.nextSending _ _ _ rfl, rfl,
      .inl ⟨Kernel.proj_set_eq Proc.asks _ _ _ rfl, Kernel.proj_set_eq Proc.msg _ _ _ rfl,
        Kernel.proj_set_eq Proc.flags _ _ _ rfl⟩⟩

end

end Noxis.Ipc
