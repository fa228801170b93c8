import Noxis.Ipc.Action
import Noxis.Lib.Follow

/-!
# 25-osfs11/kernel/proc.c: deadlock

Who is SENDING waits for one process, so that `waits` is a partial function.  `deadlock` follows it
without a bound; that it ends rests on what it found when it was called before.

* `waits_acyclic`    no process waits for itself, over any number of others
* `deadlock_exact`   in a reachable state `deadlock` ends, and returns 1 exactly if the new edge would
                     close a cycle
-/

namespace Noxis.Ipc
open Run

/-- the chain that `deadlock` prints before it returns 1, behind the name of `dest` -/
def printChain (procs : Pid → Proc) (src : Pid) : Nat → Pid → Except Fault (List (List Char))
  | 0, _ => .error .diverge
  | n + 1, p => do
    check ((procs p).msg ≠ 0)
    match (procs p).sendTo with
    | none => .error .badIndex
    | some q =>
      if q = src then .ok [(procs q).name]
      else do
        let names ← printChain procs src n q
        .ok ((procs q).name :: names)

section
variable {k k' : Kernel} {Q : Pid → List Pid} {p src dest : Pid} {a : Action}

/-- in a sane state who is SENDING waits for somebody -/
theorem Sane.sendTo (h : Sane k Q) (hs : (k.procs p).flags.sending = true) :
    ∃ d, waits k p = some d ∧ (k.procs p).sendTo = some d := by
  have hpart := h.part p
  have hsend : (ipc k p).flags.sending = true := hs
  cases he : ipc k p with
  | mk f m w s i b =>
    rw [he] at hpart hsend
    have hto : (k.procs p).sendTo = s := congrArg IpcPart.sendTo he
    cases hpart with
    | ready => cases hsend
    | sending d => exact ⟨d, waits_some.mpr ⟨hs, hto⟩, hto⟩
    | receiving => cases hsend
    | free => cases hsend

theorem waits_none (hs : ¬ (k.procs p).flags.sending = true) : waits k p = none := by
  show (k.procs p).waits = none
  unfold Proc.waits
  rw [if_neg hs]

/-- the walk of `deadlock` is the loop along `waits` -/
theorem deadlockFrom_meets (h : Sane k Q) (n : Nat) (q : Pid) :
    deadlockFrom k.procs src n q =
      match meets (waits k) src n q with
      | none => .error .diverge
      | some r => .ok r := by
  induction n generalizing q with
  | zero => rfl
  | succ n ih =>
    rw [deadlockFrom, meets]
    by_cases hs : (k.procs q).flags.sending = true
    · obtain ⟨d, hd, hto⟩ := h.sendTo hs
      rw [if_pos hs, hd, hto]
      simp only
      by_cases hds : d = src
      · rw [if_pos hds, if_pos hds]
      · rw [if_neg hds, if_neg hds, ih]
    · rw [if_neg hs, waits_none hs]

/-- **`deadlock` ends**, and says whether `dest` waits for `src`. -/
theorem Sane.deadlock (h : Sane k Q) (hac : Acyclic (waits k)) (src dest : Pid) :
    ∃ r, deadlock k src dest = .ok r ∧ meets (waits k) src fuel dest = some r ∧
      (r = true ↔ Leads (waits k) dest src) := by
  have hcard : Fintype.card Pid < fuel := by
    rw [Fintype.card_fin]
    exact Nat.lt_succ_self _
  obtain ⟨r, hr, hiff⟩ := hac.meets_iff (a := dest) (t := src) hcard
  refine ⟨r, ?_, hr, hiff⟩
  unfold Ipc.deadlock
  rw [deadlockFrom_meets h, hr]

/-- the chain is printed up to `src` -/
theorem Sane.printChain (h : Sane k Q) (n : Nat) (q : Pid) (hm : meets (waits k) src n q = some true) :
    ∃ names, printChain k.procs src n q = .ok names := by
  induction n generalizing q with
  | zero => cases hm
  | succ n ih =>
    rw [meets] at hm
    cases hd : waits k q with
    | none =>
      rw [hd] at hm
      cases hm
    | some d =>
      rw [hd] at hm
      obtain ⟨-, hmsg, -, hto⟩ := h.sending hd
      rw [Ipc.printChain, check_bind_pos hmsg, hto]
      simp only at hm ⊢
      by_cases hds : d = src
      · rw [if_pos hds]
        exact ⟨_, rfl⟩
      · rw [if_neg hds] at hm ⊢
        obtain ⟨names, hnames⟩ := ih d hm
        rw [hnames]
        exact ⟨_, rfl⟩

/-! ## no cycle -/

/-- a call or an interrupt closes no cycle -/
theorem act_acyclic (hac : Acyclic (waits k)) (h : Sane k Q) (hr : a.result k = .ok k') :
    Acyclic (waits k') := by
  cases a with
  | send p d m =>
    obtain ⟨hpd, hdl, he | ⟨-, he⟩⟩ := sysSendrec_send hr
    · rw [he.waits]
      exact hac
    · obtain ⟨r, hr', -, hiff⟩ := h.deadlock hac p d
      rw [hdl] at hr'
      cases hr'
      rw [he.waits, hac.update_iff hpd, ← hiff]
      exact Bool.false_ne_true
  | receive p who m =>
    obtain ⟨-, ⟨-, -, he⟩ | ⟨prev, q, -, he⟩ | ⟨-, -, he⟩⟩ := sysSendrec_receive hr
    · rw [he.waits]
      exact hac
    · rw [he.waits]
      exact hac.remove q
    · rw [he.waits]
      exact hac
  | inform t =>
    rw [(informInt_ok hr).waits]
    exact hac

/-- a fault, or a sane state in which nobody waits for itself -/
def SafeAcyclic (s : Except Fault Kernel) : Prop :=
  ∀ k, s = .ok k → (∃ Q, Sane k Q) ∧ Acyclic (waits k)

theorem SafeAcyclic.act {s r : Except Fault Kernel} (h : SafeAcyclic s) (hr : Ipc.act s a = some r) :
    SafeAcyclic r := by
  intro k' hk'
  obtain ⟨k, rfl, hp, hres⟩ := act_some hr
  obtain ⟨⟨Q, hQ⟩, hac⟩ := h k rfl
  rw [hk'] at hres
  exact ⟨(hQ.act hp (Action.nonNull_of_ok hres)).2 k' hres, act_acyclic hac hQ hres⟩

theorem Fresh.safeAcyclic (h : Fresh k) : SafeAcyclic (.ok k) := by
  intro k' hk'
  cases hk'
  refine ⟨⟨_, h.sane⟩, ?_⟩
  have hnone : waits k = fun _ => none := by
    funext p
    have hw := h.sane.queues.mem p
    cases hp : waits k p with
    | none => rfl
    | some d => exact absurd ((hw d).mpr hp) List.not_mem_nil
  rw [hnone]
  exact Acyclic.none

theorem Fresh.reach (h : Fresh k) (as : List Action) (hrun : exec act (.ok k) as = some (.ok k')) :
    (∃ Q, Sane k' Q) ∧ Acyclic (waits k') :=
  exec_inv (I := SafeAcyclic) as (fun _ _ _ _ hs hr => hs.act hr) h.safeAcyclic hrun k' rfl

end

/-- **Deadlock detection is exact.**  In a reachable state nobody waits for itself, and for two
processes `deadlock` ends, as the chain does that it prints; it returns 1 exactly if `dest` waits for
`src`, that is if a cycle would be closed. -/
theorem deadlock_exact {k₀ k : Kernel} (h : Fresh k₀) (as : List Action)
    (hrun : exec act (.ok k₀) as = some (.ok k)) :
    Acyclic (waits k) ∧ ∀ src dest, ∃ r, deadlock k src dest = .ok r ∧
      (r = true ↔ Leads (waits k) dest src) ∧
      (r = true → ∃ names, printChain k.procs src fuel dest = .ok names) ∧
      (src ≠ dest → (r = true ↔ ¬ Acyclic (Function.update (waits k) src (some dest)))) := by
  obtain ⟨⟨Q, hQ⟩, hac⟩ := h.reach as hrun
  refine ⟨hac, fun src dest => ?_⟩
  obtain ⟨r, hr, hmeets, hiff⟩ := hQ.deadlock hac src dest
  refine ⟨r, hr, hiff, fun hr1 => ?_, fun hne => ?_⟩
  · rw [hr1] at hmeets
    exact hQ.printChain fuel dest hmeets
  · rw [hac.update_iff hne, hiff, not_not]

/-- HD waits for SYS and FS for HD: SYS must not wait for FS -/
def sysBusy : List Action :=
  [.send taskHd taskSys 0x2000, .send taskFs taskHd 0x3000]

theorem deadlock_exact_sysBusy :
    ∃ k, exec act (.ok (boot 0x80000)) sysBusy = some (.ok k) ∧ Acyclic (waits k) ∧
      ∀ src dest, ∃ r, deadlock k src dest = .ok r ∧ (r = true ↔ Leads (waits k) dest src) ∧
        (r = true → ∃ names, printChain k.procs src fuel dest = .ok names) ∧
        (src ≠ dest → (r = true ↔ ¬ Acyclic (Function.update (waits k) src (some dest)))) := by
  have hrun : ((exec act (.ok (boot 0x80000)) sysBusy).any fun r => r.toOption.isSome) = true := by
    decide +kernel
  obtain ⟨r, hr, hok⟩ := (Option.any_eq_true _ _).mp hrun
  cases r with
  | error e => cases hok
  | ok k => exact ⟨k, hr, deadlock_exact (boot_fresh _) sysBusy hr⟩

end Noxis.Ipc
