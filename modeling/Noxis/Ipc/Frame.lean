import Noxis.Ipc.Effect

/-!
# 25-osfs11: what a system call leaves alone

* `Stays k k'`         the parts of the records that IPC never writes (`Proc.Fixed`) are the same;
* `Picks k k'`         `p_proc_ready` is the same, or a runnable process;
* `sysSendrec_stays`, `sysSendrec_picks`, and the same for `inform_int`.
-/

namespace Noxis.Ipc

/-- what IPC never writes in a record -/
structure Proc.Fixed (x y : Proc) : Prop where
  regs : y.regs = x.regs
  ldtSel : y.ldtSel = x.ldtSel
  ldtC : y.ldtC = x.ldtC
  ldtRw : y.ldtRw = x.ldtRw
  priority : y.priority = x.priority
  name : y.name = x.name
  parent : y.parent = x.parent
  exitStatus : y.exitStatus = x.exitStatus

def Stays (k k' : Kernel) : Prop := ∀ q, (k.procs q).Fixed (k'.procs q)

def Picks (k k' : Kernel) : Prop := k'.ready = k.ready ∨ flags k' k'.ready = .zero

section
variable {k k' k'' : Kernel} {p d src : Pid} {m : Nat}

theorem Proc.Fixed.rfl' {x : Proc} : x.Fixed x := ⟨rfl, rfl, rfl, rfl, rfl, rfl, rfl, rfl⟩

theorem Proc.Fixed.trans {x y z : Proc} (h : x.Fixed y) (h' : y.Fixed z) : x.Fixed z :=
  ⟨h'.1.trans h.1, h'.2.trans h.2, h'.3.trans h.3, h'.4.trans h.4, h'.5.trans h.5, h'.6.trans h.6,
    h'.7.trans h.7, h'.8.trans h.8⟩

theorem Stays.rfl' : Stays k k := fun _ => Proc.Fixed.rfl'

theorem Stays.of_procs (h : k'.procs = k.procs) : Stays k k' := fun q => by
  rw [h]
  exact Proc.Fixed.rfl'

theorem Stays.trans (h : Stays k k') (h' : Stays k' k'') : Stays k k'' := fun q => (h q).trans (h' q)

theorem Stays.set (h : Stays k k') (p : Pid) (f : Proc → Proc) (hf : ∀ x : Proc, x.Fixed (f x)) :
    Stays k (k'.set p f) := by
  intro q
  by_cases hq : q = p
  · subst hq
    rw [Kernel.set_same]
    exact (h q).trans (hf _)
  · rw [Kernel.set_ne _ _ hq]
    exact h q

/-! ## schedule -/

theorem schedule_stays (h : schedule k = .ok k') : Stays k k' := by
  intro q
  obtain ⟨t, ht⟩ := (schedule_ok h).procs q
  rw [ht]
  exact ⟨rfl, rfl, rfl, rfl, rfl, rfl, rfl, rfl⟩

/-- the scan picks a runnable process -/
theorem mostTicks_zero {procs : Pid → Proc} (h : mostTicks procs = some p) :
    (procs p).flags = .zero := by
  have key : ∀ (l : List Pid) (b : Nat × Option Pid),
      (∀ q, b.2 = some q → (procs q).flags = .zero) → ∀ q,
      (l.foldl (fun best p => if (procs p).flags = .zero ∧ best.1 < (procs p).ticks then
        ((procs p).ticks, some p) else best) b).2 = some q → (procs q).flags = .zero := by
    intro l
    induction l with
    | nil => exact fun b hb q hq => hb q hq
    | cons x l ih =>
      intro b hb q hq
      rw [List.foldl_cons] at hq
      refine ih _ (fun q' hq' => ?_) q hq
      by_cases hx : (procs x).flags = .zero ∧ b.1 < (procs x).ticks
      · rw [if_pos hx] at hq'
        cases hq'
        exact hx.1
      · rw [if_neg hx] at hq'
        exact hb q' hq'
  exact key _ _ (fun q hq => by cases hq) p h

theorem schedule_picks (h : schedule k = .ok k') : flags k' k'.ready = .zero := by
  have hf : ∀ q, flags k' q = flags k q := fun q => by rw [(schedule_ok h).flags]
  unfold schedule at h
  cases hm : mostTicks k.procs with
  | some p =>
    rw [hm] at h
    cases h
    exact mostTicks_zero hm
  | none =>
    rw [hm] at h
    cases hm' : mostTicks (recharge k.procs) with
    | some p =>
      simp only [hm'] at h
      cases h
      exact mostTicks_zero hm'
    | none =>
      simp only [hm'] at h
      cases h

theorem block_frame (h : block k p = .ok k') : Stays k k' ∧ Picks k k' := by
  unfold block at h
  rw [check_bind_ok] at h
  exact ⟨schedule_stays h.2, .inr (schedule_picks h.2)⟩

/-! ## the system calls -/

theorem copyMsg_frame {receiver sender : Pid} {dst src : Nat}
    (h : copyMsg k receiver dst sender src = .ok k') : Stays k k' ∧ k'.ready = k.ready := by
  obtain ⟨mem, rfl⟩ := copyMsg_ok h
  exact ⟨fun _ => Proc.Fixed.rfl', rfl⟩

theorem handOver_frame (h : handOver k p d m = .ok k') : Stays k k' ∧ k'.ready = k.ready := by
  unfold handOver at h
  simp only [check_bind_ok] at h
  obtain ⟨-, -, h⟩ := h
  obtain ⟨k₁, hc, h⟩ := bind_ok.mp h
  obtain ⟨hs, hr⟩ := copyMsg_frame hc
  simp only [unblock, check_bind_ok] at h
  obtain ⟨-, -, -, -, -, -, h⟩ := h
  cases h
  exact ⟨hs.set _ _ fun _ => ⟨rfl, rfl, rfl, rfl, rfl, rfl, rfl, rfl⟩, hr⟩

theorem enqueue_frame (h : enqueue k p d = .ok k') : Stays k k' ∧ k'.ready = k.ready := by
  have hfix : ∀ (x : Proc) (q n : Option Pid),
      x.Fixed { x with qSending := q, nextSending := n } := fun _ _ _ =>
    ⟨rfl, rfl, rfl, rfl, rfl, rfl, rfl, rfl⟩
  unfold enqueue at h
  cases hq : (k.procs d).qSending with
  | none =>
    rw [hq] at h
    cases h
    exact ⟨(Stays.rfl'.set _ _ fun x => hfix x _ _).set _ _ fun x => hfix x _ _, rfl⟩
  | some a =>
    rw [hq] at h
    simp only at h
    cases hl : lastOf (fun q => (k.procs q).nextSending) fuel a with
    | none => rw [hl] at h; cases h
    | some z =>
      rw [hl] at h
      cases h
      exact ⟨(Stays.rfl'.set _ _ fun x => hfix x _ _).set _ _ fun x => hfix x _ _, rfl⟩

theorem queueUp_frame (h : queueUp k p d m = .ok k') : Stays k k' ∧ Picks k k' := by
  unfold queueUp at h
  simp only [check_bind_ok] at h
  obtain ⟨-, h⟩ := h
  obtain ⟨k₁, he, h⟩ := bind_ok.mp h
  obtain ⟨k₂, hb, h⟩ := bind_ok.mp h
  simp only [check_bind_ok] at h
  obtain ⟨-, -, -, -, h⟩ := h
  cases h
  obtain ⟨he1, he2⟩ := enqueue_frame he
  obtain ⟨hb1, hb2⟩ := block_frame hb
  have h0 := (Stays.rfl' (k := k)).set p (fun x => { x with flags := { x.flags with sending := true } })
    fun _ => ⟨rfl, rfl, rfl, rfl, rfl, rfl, rfl, rfl⟩
  have h1 := h0.set p (fun x => { x with sendTo := some d, msg := m })
    fun _ => ⟨rfl, rfl, rfl, rfl, rfl, rfl, rfl, rfl⟩
  exact ⟨(h1.trans he1).trans hb1, hb2.imp (fun e => e.trans he2) id⟩

theorem msgSend_frame (h : msgSend k p d m = .ok k') : Stays k k' ∧ Picks k k' := by
  unfold msgSend at h
  rw [check_bind_ok] at h
  obtain ⟨dl, -, h⟩ := bind_ok.mp h.2
  cases dl with
  | true => cases h
  | false =>
    simp only [Bool.false_eq_true, if_false] at h
    by_cases hw : wants k d p
    · rw [if_pos hw] at h
      exact (handOver_frame h).imp id .inl
    · rw [if_neg hw] at h
      exact queueUp_frame h

theorem takeInt_frame (h : takeInt k p m = .ok k') : Stays k k' ∧ k'.ready = k.ready := by
  unfold takeInt at h
  rw [check_bind_ok] at h
  obtain ⟨la, -, h⟩ := bind_ok.mp h.2
  simp only [check_bind_ok] at h
  obtain ⟨-, -, -, h⟩ := h
  cases h
  exact ⟨(Stays.of_procs rfl).set p (fun x => { x with hasIntMsg := false })
    fun _ => ⟨rfl, rfl, rfl, rfl, rfl, rfl, rfl, rfl⟩, rfl⟩

theorem dequeue_frame {prev : Option Pid} (h : dequeue k p src prev = .ok k') :
    Stays k k' ∧ k'.ready = k.ready := by
  have hfix : ∀ (x : Proc) (q n : Option Pid),
      x.Fixed { x with qSending := q, nextSending := n } := fun _ _ _ =>
    ⟨rfl, rfl, rfl, rfl, rfl, rfl, rfl, rfl⟩
  unfold dequeue at h
  by_cases hh : (k.procs p).qSending = some src
  · rw [if_pos hh, check_bind_ok] at h
    cases h.2
    exact ⟨(Stays.rfl'.set _ _ fun x => hfix x _ _).set _ _ fun x => hfix x _ _, rfl⟩
  · rw [if_neg hh] at h
    cases prev with
    | none => cases h
    | some z =>
      cases h
      exact ⟨(Stays.rfl'.set _ _ fun x => hfix x _ _).set _ _ fun x => hfix x _ _, rfl⟩

theorem takeMsg_frame {prev : Option Pid} (h : takeMsg k p src prev m = .ok k') :
    Stays k k' ∧ k'.ready = k.ready := by
  unfold takeMsg at h
  obtain ⟨k₁, hd, h⟩ := bind_ok.mp h
  simp only [check_bind_ok] at h
  obtain ⟨-, -, h⟩ := h
  obtain ⟨k₂, hc, h⟩ := bind_ok.mp h
  simp only [unblock, check_bind_ok] at h
  obtain ⟨-, h⟩ := h
  cases h
  obtain ⟨hd1, hd2⟩ := dequeue_frame hd
  obtain ⟨hc1, hc2⟩ := copyMsg_frame hc
  refine ⟨(hd1.trans hc1).set _ _ fun _ => ?_, hc2.trans hd2⟩
  exact ⟨rfl, rfl, rfl, rfl, rfl, rfl, rfl, rfl⟩

theorem waitFor_frame {who : Who} (h : waitFor k p who m = .ok k') : Stays k k' ∧ Picks k k' := by
  unfold waitFor at h
  simp only [check_bind_ok] at h
  obtain ⟨-, -, -, -, -, h⟩ := h
  obtain ⟨hb1, hb2⟩ := block_frame h
  have h0 := (Stays.rfl' (k := k)).set p (fun x =>
    { x with flags := { x.flags with receiving := true }, msg := m, recvFrom := who })
    fun _ => ⟨rfl, rfl, rfl, rfl, rfl, rfl, rfl, rfl⟩
  exact ⟨h0.trans hb1, hb2⟩

theorem msgReceive_frame {who : Who} (h : msgReceive k p who m = .ok k') :
    Stays k k' ∧ Picks k k' := by
  unfold msgReceive at h
  rw [check_bind_ok] at h
  obtain ⟨-, h⟩ := h
  by_cases hi : (k.procs p).hasIntMsg = true ∧ (who = .any ∨ who = .interrupt)
  · rw [if_pos hi] at h
    exact (takeInt_frame h).imp id .inl
  · rw [if_neg hi] at h
    obtain ⟨c, -, h⟩ := bind_ok.mp h
    cases c with
    | some x => exact (takeMsg_frame h).imp id .inl
    | none => exact waitFor_frame h

/-- **The frame of a system call.** -/
theorem sysSendrec_frame {fn : IpcFunction} {who : Who} (h : sysSendrec k fn who m p = .ok k') :
    Stays k k' ∧ Picks k k' := by
  unfold sysSendrec at h
  rw [check_bind_ok] at h
  obtain ⟨la, -, h⟩ := bind_ok.mp h.2
  simp only [check_bind_ok] at h
  set k₁ : Kernel :=
    { k with mem := Function.update k.mem la { k.mem la with source := .proc p } } with hk
  have hfix : Stays k k₁ := Stays.of_procs (by rw [hk])
  have hready : k₁.ready = k.ready := by rw [hk]
  have hgo : Stays k₁ k' ∧ Picks k₁ k' → Stays k k' ∧ Picks k k' := fun hf =>
    ⟨hfix.trans hf.1, hf.2.imp (fun e => e.trans hready) id⟩
  cases fn with
  | RECEIVE => exact hgo (msgReceive_frame h.2)
  | SEND =>
    cases who with
    | proc d => exact hgo (msgSend_frame h.2)
    | noTask => cases h.2
    | any => cases h.2
    | interrupt => cases h.2

theorem informInt_frame (h : informInt k p = .ok k') : Stays k k' ∧ k'.ready = k.ready := by
  unfold informInt at h
  by_cases hr : (k.procs p).flags.receiving = true ∧
      ((k.procs p).recvFrom = .interrupt ∨ (k.procs p).recvFrom = .any)
  · rw [if_pos hr] at h
    simp only [unblock, check_bind_ok] at h
    obtain ⟨-, -, -, -, h⟩ := h
    cases h
    exact ⟨(Stays.of_procs rfl).set p (fun x =>
      { x with
        msg := 0, hasIntMsg := false, flags := { x.flags with receiving := false }
        recvFrom := .noTask }) fun _ => ⟨rfl, rfl, rfl, rfl, rfl, rfl, rfl, rfl⟩, rfl⟩
  · rw [if_neg hr] at h
    cases h
    refine ⟨Stays.rfl'.set _ _ fun _ => ?_, rfl⟩
    exact ⟨rfl, rfl, rfl, rfl, rfl, rfl, rfl, rfl⟩

end

end Noxis.Ipc
