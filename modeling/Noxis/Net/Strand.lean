import Noxis.Net.Poll

/-!
# 23-fixes/net/ne2000.c: frames that stay in the card

`ne2000_irq` drains the card's ring and then acknowledges what it has read from ISR at its start.  The
card raises its interrupt again only for a bit of ISR that is set.

* `Watched`        the system of `Net/Poll`, with what was found and accepted when the handler looked;
* `Unstranded`     the ring is empty, or PRX is set;
* `InTime`         when the handler acknowledges, no frame has come since it read CURR for the last
                   time, and it has had at most 32 frames to drain;
* `unstranded_iff` a run strands no frame exactly if every acknowledgement of it is in time.
-/

namespace Noxis.Net.Rx
open Prog Relation Run

/-! ## the system, and what the handler has seen -/

/-- `looked`, `found` and `base` are records of the past, which nothing reads: how many frames were
accepted when the handler last read CURR, and how many were in the ring and accepted at its start -/
structure Watched where
  m : Sys
  looked : Nat
  found : Nat
  base : Nat

inductive CardEvent where
  | accept (e : Entry)
  /-- the card sets bits of ISR -/
  | raise (v : Byte)
  | irq
  | recv
  | step

def Watched.step (w : Watched) : CardEvent → Option Watched
  | .accept e => (Rx.step .fixes w.m (.accept e)).map fun m => { w with m := m }
  | .raise v => (Rx.step .fixes w.m (.isr (w.m.s.card.isr ||| v))).map fun m => { w with m := m }
  | .irq => (Rx.step .fixes w.m .irq).map fun m =>
      { m := m, looked := 0, found := w.m.s.card.waiting, base := w.m.s.accepted.length }
  | .recv => (Rx.step .fixes w.m .recv).map fun m => { w with m := m }
  | .step => (Rx.step .fixes w.m .step).map fun m =>
      { w with m := m, looked := if w.m.irq.isSome then look w.m.s m.s w.looked else w.looked }

def watchedBoot (s : State) : Watched := { m := boot s, looked := 0, found := 0, base := 0 }

/-! ## what the claim is about -/

def Card.prx (c : Card) : Prop := c.isr.toNat % 2 = 1

/-- the ring is empty, or the interrupt is pending -/
def Unstranded (s : State) : Prop := nextPage s.card.bnry = s.card.curr ∨ s.card.prx

/-- when the handler has returned, and until it runs again -/
def Reported (_ : Watched) (_ : CardEvent) (t : Watched) : Prop := t.m.irq = none → Unstranded t.m.s

/-- a handler that has drained returns: nothing was accepted since it last read CURR, and there were at
most 32 frames, those at its start and those that came -/
def InTime (w : Watched) (_ : CardEvent) (t : Watched) : Prop :=
  ∀ p, w.m.irq = some (true, p) → t.m.irq = none →
    w.looked = w.m.s.accepted.length ∧ w.found + w.m.s.accepted.length ≤ w.base + 32

variable {w t : Watched} {m m' : Sys} {s u : State} {e : CardEvent} {r x : Nat} {l : List Entry}
  {limit : Int} {g v : Nat} {p : Io Unit}

/-! ## ISR -/

theorem testBit_isr (b : Byte) : b.toNat % 2 = 1 ↔ b.getLsbD 0 = true := by
  rw [← BitVec.testBit_toNat, Nat.testBit_zero, decide_eq_true_iff]

theorem Card.prx_or {c : Card} (h : c.prx) (b : Byte) : (c.isr ||| b).toNat % 2 = 1 := by
  rw [testBit_isr, BitVec.getLsbD_or, (testBit_isr _).mp h, Bool.true_or]

/-- the acknowledgement of PRX -/
theorem ack_odd (b : Byte) (hv : v % 2 = 1) :
    ¬ (b &&& ~~~ BitVec.ofNat 8 (v % 128)).toNat % 2 = 1 := by
  rw [testBit_isr, BitVec.getLsbD_and, BitVec.getLsbD_not, BitVec.getLsbD_ofNat,
    Nat.testBit_zero, decide_eq_true (show v % 128 % 2 = 1 by omega)]
  simp

/-- PRX is not acknowledged -/
theorem ack_even {b : Byte} (hv : v % 2 = 0) (hb : b.toNat % 2 = 1) :
    (b &&& ~~~ BitVec.ofNat 8 (v % 128)).toNat % 2 = 1 := by
  rw [testBit_isr] at hb ⊢
  rw [BitVec.getLsbD_and, hb, BitVec.getLsbD_not, BitVec.getLsbD_ofNat, Nat.testBit_zero,
    decide_eq_false (show ¬ v % 128 % 2 = 1 by omega)]
  decide

/-! ## the end of a drain -/

theorem Counted0.empty_iff {d : Int} (h : Counted0 d g s) :
    nextPage s.card.bnry = s.card.curr ↔ s.card.waiting = 0 := by
  obtain ⟨r, l, w, hh⟩ := h.2.holds
  rw [hh.bnry, hh.curr, hh.waiting, hh.nil_iff, List.length_eq_zero_iff]

/-- **The ring is empty exactly if the drain has looked in time and has had no more than `limit`.** -/
theorem Drained.empty_iff (h : Drained limit (s, g)) :
    nextPage s.card.bnry = s.card.curr ↔ g = s.accepted.length ∧ (s.accepted.length : Int) ≤ limit := by
  obtain ⟨d, hc, hdg, hdl, hlast⟩ : ∃ d, Counted0 d g s ∧ d ≤ g ∧ d ≤ limit ∧ (d = limit ∨ d = g) := h
  rw [hc.empty_iff]
  have hcount := hc.2.count
  have hbefore := hc.2.before
  constructor
  · intro h0
    omega
  · rintro ⟨rfl, hle⟩
    omega

/-! ## the task -/

theorem copyOut_keeps (P : State → Prop) (slot n i : Nat) : (copyOut slot n i).Keeps P := by
  induction n generalizing i with
  | zero => exact Keeps.pure _ _
  | succ n ih => exact (Keeps.get _ _).bind fun b => (ih (i + 1)).bind fun bytes => Keeps.pure _ _

/-- `ne2000_recv` does not touch the card -/
theorem recv_keeps (c : Card) : ne2000Recv.Keeps fun s => s.card = c := by
  refine (Keeps.get _ _).bind fun tail => (Keeps.get _ _).bind fun head => ?_
  split
  · exact Keeps.pure _ _
  · refine (Keeps.get _ _).bind fun slot => (Keeps.get _ _).bind fun len => ?_
    refine (Keeps.get _ _).bind fun slot => (copyOut_keeps _ slot len 0).bind fun bytes => ?_
    refine (Keeps.get _ _).bind fun tail => ?_
    exact (Keeps.modify fun s h => h).bind fun _ => Keeps.pure _ _

/-! ## the invariant -/

/-- the handler: without PRX it goes on to acknowledge; with PRX it is within the drain, or behind it -/
inductive Handler (w : Watched) : Bool → Io Unit → Prop
  | quiet (v : Nat) (hv : v % 2 = 0) (page0 : w.m.s.card.page1 = false)
      (unstranded : Unstranded w.m.s) : Handler w false (regOut REG_ISR (v % 128))
  | drains (p : Io Unit) (v : Nat) (hv : v % 2 = 1)
      (drain : (p.watch look).Wp (Beside Env) (fun _ => True)
        (fun _ x => Drained ((w.base : Int) - w.found + 32) x) (w.m.s, w.looked)) :
      Handler w true (p >>= fun _ => regOut REG_ISR (v % 128))

/-- what holds at any time -/
structure Watched.Sane (w : Watched) : Prop where
  sys : SysOk .fixes w.m
  task : ∀ p, w.m.task = .recv p → ∀ c, p.Keeps fun s => s.card = c
  noPoll : w.m.task.NoPoll
  handler : ∀ drains p, w.m.irq = some (drains, p) → Handler w drains p

structure Watched.Inv (w : Watched) : Prop extends w.Sane where
  idle : w.m.irq = none → Unstranded w.m.s

theorem Unstranded.accept (s : State) (e : Entry) : Unstranded (s.accept e) := by
  refine .inr ?_
  show (s.card.isr ||| ISR_PRX).toNat % 2 = 1
  rw [testBit_isr, BitVec.getLsbD_or]
  exact Bool.or_true _

theorem Unstranded.raise (h : Unstranded s) (b : Byte) : Unstranded (s.setIsr (s.card.isr ||| b)) :=
  h.imp id fun h => Card.prx_or h b

/-- the card goes on: `u` is the state behind `s` -/
theorem Handler.env {drains : Bool} (h : Handler w drains p) (henv : Env w.m.s u)
    (hun : Unstranded w.m.s → Unstranded u) :
    Handler { w with m := { w.m with s := u } } drains p := by
  cases h with
  | quiet v hv page0 unstranded =>
    exact .quiet v hv (page1_stable false _ _ henv page0) (hun unstranded)
  | drains p v hv drain => exact .drains p v hv (drain.env ⟨henv, rfl⟩)

/-- what the task has while no handler runs -/
theorem Watched.Sane.good (h : w.Sane) (hirq : w.m.irq = none) : Good w.m.returned w.m.s := by
  have hsys := h.sys
  unfold SysOk at hsys
  rw [hirq] at hsys
  exact TaskOk.good hsys h.noPoll.not_begun

/-- **The handler starts.** -/
theorem Watched.Inv.start (h : w.Inv) (hirq : w.m.irq = none) :
    Handler
      { m := { w.m with irq := some (decide (w.m.s.card.read REG_ISR % 2 = 1),
          irqRest .fixes (w.m.s.card.read REG_ISR)) }
        looked := 0, found := w.m.s.card.waiting, base := w.m.s.accepted.length }
      (decide (w.m.s.card.read REG_ISR % 2 = 1)) (irqRest .fixes (w.m.s.card.read REG_ISR)) := by
  obtain ⟨hp, r, l, w', a, -, -, hi⟩ := h.good hirq
  by_cases hv : w.m.s.card.read REG_ISR % 2 = 1
  · have hrest : irqRest .fixes (w.m.s.card.read REG_ISR) = drain .fixes >>= fun _ =>
        regOut REG_ISR (w.m.s.card.read REG_ISR % 128) := by
      unfold irqRest drainIf
      rw [if_pos hv]
    rw [hrest, decide_eq_true hv]
    refine .drains (drain .fixes) _ hv ?_
    have hcount : Counted0 (w.m.s.accepted.length - w.m.s.card.waiting) 0 w.m.s :=
      ⟨hp, ⟨r, l, w', hi.card⟩, by omega, Nat.zero_le _⟩
    exact Wp.mono (drain_watch (by decide) (fun _ _ _ _ _ _ => trivial) hi.during hcount)
      fun _ x hx => hx.2
  · rw [irqRest_even (by omega), decide_eq_false hv]
    exact .quiet _ (by omega) hp (h.idle hirq)

/-- an action of the handler: it goes on, or it has acknowledged -/
theorem Handler.step {drains : Bool} (h : Handler w drains p) {t : Watched}
    (ht : t = { w with
      m := w.m.runIrq drains p, looked := look w.m.s (w.m.runIrq drains p).s w.looked }) :
    (∀ d q, t.m.irq = some (d, q) → Handler t d q) ∧
      (t.m.irq = none → (Unstranded t.m.s ↔ (drains = true →
        w.looked = w.m.s.accepted.length ∧ w.found + w.m.s.accepted.length ≤ w.base + 32))) := by
  subst ht
  cases h with
  | quiet v hv page0 unstranded =>
    refine ⟨fun d q hq => (by cases hq), fun _ => iff_of_true ?_ fun hd => (by cases hd)⟩
    show Unstranded { w.m.s with card := w.m.s.card.write REG_ISR (v % 128) }
    rw [(write_page0 page0 _).2.1]
    exact unstranded.imp id fun h => ack_even hv h
  | drains p v hv drain =>
    cases p with
    | ret a =>
      refine ⟨fun d q hq => (by cases hq), fun _ => ?_⟩
      have hdrained := drain.result
      have hempty := Drained.empty_iff hdrained
      obtain ⟨d, hc, -⟩ := hdrained
      have hpage : w.m.s.card.page1 = false := hc.1
      show Unstranded { w.m.s with card := w.m.s.card.write REG_ISR (v % 128) } ↔ _
      rw [(write_page0 hpage _).2.1]
      have hring : Unstranded
          { w.m.s with card := { w.m.s.card with
              isr := w.m.s.card.isr &&& ~~~ BitVec.ofNat 8 (v % 128) } } ↔
            nextPage w.m.s.card.bnry = w.m.s.card.curr := or_iff_left (ack_odd _ hv)
      rw [hring, hempty]
      constructor
      · rintro ⟨hlooked, hle⟩ _
        exact ⟨hlooked, by omega⟩
      · intro hin
        obtain ⟨hlooked, hle⟩ := hin rfl
        exact ⟨hlooked, by omega⟩
    | act f k =>
      have hrun : (w.m.runIrq true (Prog.act f k >>= fun _ => regOut REG_ISR (v % 128))) =
          { w.m with
            s := f w.m.s
            irq := some (true, k w.m.s >>= fun _ => regOut REG_ISR (v % 128)) } := by
        have hnext : (Prog.act f k >>= fun _ => regOut REG_ISR (v % 128)).next w.m.s =
            (f w.m.s, k w.m.s >>= fun _ => regOut REG_ISR (v % 128)) := rfl
        unfold Sys.runIrq
        rw [hnext]
        cases k w.m.s with
        | ret a => rfl
        | act f' k' => rfl
      rw [hrun]
      refine ⟨fun d q hq => ?_, fun hnone => by cases hnone⟩
      cases hq
      exact .drains (k w.m.s) v hv drain.next

/-! ## runs -/

theorem Watched.Sane.next {e : Event} (h : w.Sane) (hm : Rx.step .fixes w.m e = some m) :
    SysOk .fixes m ∧ m.task.NoPoll :=
  ⟨h.sys.step (by decide) (NoPoll.calm h.noPoll e) hm, NoPoll.step h.noPoll hm⟩

/-- nothing returns where no handler runs -/
theorem InTime.of_none {e : CardEvent} (h : w.m.irq = none) : InTime w e t := by
  intro p hp
  rw [h] at hp
  cases hp

/-- only the card moves -/
theorem Watched.Inv.env {e : CardEvent} (h : w.Inv) (henv : Env w.m.s u)
    (hun : Unstranded w.m.s → Unstranded u) (hsys : SysOk .fixes { w.m with s := u })
    (ht : { w with m := { w.m with s := u } } = t) : t.Sane ∧ (Reported w e t ↔ InTime w e t) := by
  subst ht
  refine ⟨⟨hsys, h.task, h.noPoll, fun d q hq => (h.handler d q hq).env henv hun⟩, ?_⟩
  refine iff_of_true (fun hirq => hun (h.idle hirq)) fun p hp hirq => ?_
  exact InTime.of_none (e := e) hirq p hp hirq

/-- an action of `ne2000_recv` -/
theorem Watched.Inv.runRecv {e : CardEvent} {p : Io (Option (List Byte))} (h : w.Inv)
    (hirq : w.m.irq = none) (hp : w.m.task = .recv p) (hsys : SysOk .fixes (w.m.runRecv p))
    (hn : (w.m.runRecv p).task.NoPoll) (ht : { w with m := w.m.runRecv p } = t) :
    t.Sane ∧ (Reported w e t ↔ InTime w e t) := by
  subst ht
  have hnext := fun c => (h.task p hp c).next w.m.s
  have hcard : (p.next w.m.s).1.card = w.m.s.card := (hnext w.m.s.card).1 rfl
  have hun : Unstranded (p.next w.m.s).1 := by
    unfold Unstranded
    rw [hcard]
    exact h.idle hirq
  cases hpn : (p.next w.m.s).2 with
  | ret res =>
    have hrun : w.m.runRecv p = { w.m with
        s := (p.next w.m.s).1, task := .idle, returned := w.m.returned ++ [res] } := by
      unfold Sys.runRecv
      rw [hpn]
    rw [hrun] at hsys hn ⊢
    refine ⟨⟨hsys, fun q hq => (by cases hq), hn, fun d q hq => ?_⟩, ?_⟩
    · cases hirq.symm.trans hq
    · exact iff_of_true (fun _ => hun) (InTime.of_none hirq)
  | act f k =>
    have hrun : w.m.runRecv p = { w.m with s := (p.next w.m.s).1, task := .recv (.act f k) } := by
      unfold Sys.runRecv
      rw [hpn]
    rw [hrun] at hsys hn ⊢
    refine ⟨⟨hsys, fun q hq c => ?_, hn, fun d q hq => ?_⟩, ?_⟩
    · cases hq
      have hkeeps := (hnext c).2
      rw [hpn] at hkeeps
      exact hkeeps
    · cases hirq.symm.trans hq
    · exact iff_of_true (fun _ => hun) (InTime.of_none hirq)

/-- **One event.** -/
theorem Watched.Inv.step {e : CardEvent} (h : w.Inv) (hs : w.step e = some t) :
    t.Sane ∧ (Reported w e t ↔ InTime w e t) := by
  cases e with
  | accept e =>
    obtain ⟨m, hm, ht⟩ := Option.map_eq_some_iff.mp hs
    obtain ⟨hsys, -⟩ := h.next hm
    obtain ⟨hf, hm⟩ := Option.ite_none_right_eq_some.mp hm
    obtain rfl := Option.some.inj hm
    exact h.env (.accept e hf) (fun _ => Unstranded.accept _ _) hsys ht
  | raise v =>
    obtain ⟨hsys, -⟩ := h.next (e := .isr (w.m.s.card.isr ||| v)) rfl
    exact h.env (.isr _) (fun hun => hun.raise v) hsys (Option.some.inj hs)
  | irq =>
    obtain ⟨m, hm, ht⟩ := Option.map_eq_some_iff.mp hs
    obtain ⟨hsys, hn⟩ := h.next hm
    obtain ⟨hirq, hm⟩ := Option.ite_none_left_eq_some.mp hm
    have hnone : w.m.irq = none := Option.not_isSome_iff_eq_none.mp hirq
    obtain rfl := Option.some.inj hm
    obtain rfl := ht
    refine ⟨⟨hsys, h.toSane.task, hn, fun d q hq => ?_⟩, ?_⟩
    · cases hq
      exact h.start hnone
    · exact iff_of_true (fun hno => (by cases hno)) (InTime.of_none hnone)
  | recv =>
    obtain ⟨m, hm, ht⟩ := Option.map_eq_some_iff.mp hs
    obtain ⟨hsys, hn⟩ := h.next hm
    obtain ⟨hguard, hm⟩ := Option.ite_none_left_eq_some.mp hm
    have hnone : w.m.irq = none := by
      apply Option.not_isSome_iff_eq_none.mp
      exact fun hsome => hguard (.inl hsome)
    obtain rfl := Option.some.inj hm
    obtain rfl := ht
    refine ⟨⟨hsys, fun p hp c => ?_, hn, fun d q hq => ?_⟩, ?_⟩
    · cases hp
      exact recv_keeps c
    · have hq' : w.m.irq = some (d, q) := hq
      rw [hnone] at hq'
      cases hq'
    · exact iff_of_true (fun _ => h.idle hnone) (InTime.of_none hnone)
  | step =>
    obtain ⟨m, hm, ht⟩ := Option.map_eq_some_iff.mp hs
    obtain ⟨hsys, hn⟩ := h.next hm
    cases hirq : w.m.irq with
    | none =>
      cases htask : w.m.task with
      | idle =>
        have hstuck : Rx.step .fixes w.m .step = none := by
          unfold Rx.step
          rw [hirq, htask]
        rw [hstuck] at hm
        cases hm
      | recv p =>
        have hrun : Rx.step .fixes w.m .step = some (w.m.runRecv p) := by
          unfold Rx.step
          rw [hirq, htask]
        rw [hrun] at hm
        obtain rfl := Option.some.inj hm
        rw [hirq] at ht
        exact h.runRecv hirq htask hsys hn ht
      | poll b p => exact (htask ▸ h.noPoll : (Task.poll b p).NoPoll).elim
    | some x =>
      obtain ⟨drains, p⟩ := x
      have hrun : Rx.step .fixes w.m .step = some (w.m.runIrq drains p) := by
        unfold Rx.step
        rw [hirq]
      rw [hrun] at hm
      obtain rfl := Option.some.inj hm
      rw [hirq] at ht
      obtain ⟨hgo, hend⟩ := (h.handler drains p hirq).step ht.symm
      subst ht
      refine ⟨⟨hsys, h.toSane.task, hn, hgo⟩, ?_⟩
      constructor
      · intro hrep q hq hret
        cases hirq.symm.trans hq
        exact (hend hret).mp (hrep hret) rfl
      · intro hin hret
        refine (hend hret).mpr fun hd => ?_
        subst hd
        exact hin p hirq hret

theorem watchedBoot_inv (s : State) : (watchedBoot s).Inv where
  sys := boot_ok .fixes s
  task := fun p hp => by cases hp
  noPoll := trivial
  handler := fun d p hp => by cases hp
  idle := fun _ => .inl rfl

/-- **No frame is stranded exactly if every handler that has drained acknowledges in time.** -/
theorem unstranded_iff (s : State) (es : List CardEvent) :
    Always (stepOf Watched.step) Reported (watchedBoot s) es ↔
      Always (stepOf Watched.step) InTime (watchedBoot s) es := by
  refine Always.iff_of_inv (I := Watched.Inv) ?_ ?_ es _ (watchedBoot_inv s)
  · intro w e t hw ht
    exact (hw.step ht).2
  · intro w e t hw ht hin
    obtain ⟨hsane, hiff⟩ := hw.step ht
    exact ⟨hsane, hiff.mpr hin⟩

/-- the handler drains a frame; another one comes just before it acknowledges -/
def lateFrame : List CardEvent :=
  [CardEvent.accept short, CardEvent.irq] ++ List.replicate 62 CardEvent.step ++
    [CardEvent.accept short]

/-- no handler runs, a frame is in the ring, and PRX is not set -/
def Sys.strands (m : Sys) : Bool :=
  m.irq.isNone && decide (nextPage m.s.card.bnry ≠ m.s.card.curr) && decide (m.s.card.isr.toNat % 2 = 0)

/-- **The late frame stays in the card.** -/
theorem unstranded_fails :
    ¬ Always (stepOf Watched.step) Reported (watchedBoot blank) (lateFrame ++ [.step]) := by
  refine Always.not_of_exec lateFrame (fun _ t => t.m.strands) ?_ (by decide +kernel)
  intro w t _ hstrands hrep
  unfold Sys.strands at hstrands
  rw [Bool.and_eq_true, Bool.and_eq_true, Option.isNone_iff_eq_none, decide_eq_true_iff,
    decide_eq_true_iff] at hstrands
  obtain ⟨⟨hirq, hring⟩, hprx⟩ := hstrands
  rcases hrep hirq with hempty | hset
  · exact hring hempty
  · have hodd : t.m.s.card.isr.toNat % 2 = 1 := hset
    omega

end Noxis.Net.Rx
