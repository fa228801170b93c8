import Noxis.Lib.Run
import Noxis.Net.Receive

/-!
# net/ne2000.c: the task and the interrupt handler

The task calls `ne2000_recv`, in 25-osfs11 also `ne2000_poll`.  Between any two of its actions
`ne2000_irq` may run, to its end; the card accepts frames all the time.

* `Sys`, `Event`, `step`   the system; an `.irq` is the handler's first action, the read of ISR;
* `Shown`                  what is observed is a queue: what is returned is what was accepted;
* `fifo`                   so it is in 23-fixes, always
* `Calm`                   no drain is under way when `ne2000_irq` drains
* `Unread`                 no drain finds a frame
* `polled`                 in 25-osfs11 it is so as long as no drain finds a frame; if `port_read`
                           moved whole frames, as long as every event is calm
* `polled_fails`           a frame that is received without its bytes, and one that is received twice
-/

namespace Noxis.Net.Rx
open Prog Relation Run

/-! ## the system -/

/-- what the task is doing; `begun` is set when `ne2000_poll` has read BNRY -/
inductive Task where
  | idle
  | recv (p : Io (Option (List Byte)))
  | poll (begun : Bool) (p : Io Unit)

/-- `irq` is the handler while it runs, and whether it drains -/
structure Sys where
  s : State
  task : Task
  irq : Option (Bool × Io Unit)
  returned : List (Option (List Byte))

inductive Event where
  | accept (e : Entry)
  | isr (v : Byte)
  | irq
  | recv
  | poll
  | step

/-- an action of the handler -/
def Sys.runIrq (m : Sys) (drains : Bool) (p : Io Unit) : Sys :=
  { m with
    s := (p.next m.s).1
    irq := match (p.next m.s).2 with
      | .ret _ => none
      | .act f k => some (drains, .act f k) }

def Sys.runRecv (m : Sys) (p : Io (Option (List Byte))) : Sys :=
  match (p.next m.s).2 with
  | .ret res => { m with s := (p.next m.s).1, task := .idle, returned := m.returned ++ [res] }
  | .act f k => { m with s := (p.next m.s).1, task := .recv (.act f k) }

def Sys.runPoll (m : Sys) (p : Io Unit) : Sys :=
  { m with
    s := (p.next m.s).1
    task := match (p.next m.s).2 with
      | .ret _ => .idle
      | .act f k => .poll true (.act f k) }

def Task.isIdle : Task → Bool
  | .idle => true
  | _ => false

def step (port : Port) (m : Sys) : Event → Option Sys
  | .accept e => if m.s.card.Fits e then some { m with s := m.s.accept e } else none
  | .isr v => some { m with s := m.s.setIsr v }
  | .irq =>
    if m.irq.isSome then none
    else some { m with
      irq := some (decide (m.s.card.read REG_ISR % 2 = 1), ((ne2000Irq port).next m.s).2) }
  | .recv =>
    if m.irq.isSome ∨ m.task.isIdle = false then none else some { m with task := .recv ne2000Recv }
  | .poll =>
    if port = .fixes ∨ m.irq.isSome ∨ m.task.isIdle = false then none
    else some { m with task := .poll false (drain port) }
  | .step =>
    match m.irq with
    | some (drains, p) => some (m.runIrq drains p)
    | none =>
      match m.task with
      | .idle => none
      | .recv p => some (m.runRecv p)
      | .poll _ p => some (m.runPoll p)

/-- the card and the driver after `ne2000_init` -/
def State.init (s : State) : State :=
  { s with
    card := { s.card with page1 := false, bnry := RX_START - 1, curr := RX_START }
    swHead := 0
    swTail := 0
    accepted := [] }

def boot (s : State) : Sys := ⟨s.init, .idle, none, []⟩

/-! ## what is observed -/

/-- the task is within `ne2000_poll` -/
def Task.begun : Task → Bool
  | .poll b _ => b
  | _ => false

/-- **A queue**: the card's ring has the frames that were accepted and not drained yet, from the
page behind BNRY to CURR.  The software ring has those that were drained and not returned yet, less
those that came while it was full; while a drain is under way it may have the first frame of the
card's ring too. -/
def Shown (m : Sys) : Prop :=
  ∃ r l w q a, Steps Fifo.empty a ∧ a.returned = m.returned ∧ Inv r l w q a m.s ∧
    Ahead a.queue l q ∧ (m.irq = none → m.task.begun = false → q = a.queue)

/-- the handler drains only while the task is not within `ne2000_poll`, or there is nothing to drain
and nothing comes until its end -/
def Calm (m : Sys) : Event → Prop
  | .irq => m.task.begun = true → m.s.card.read REG_ISR % 2 = 0 ∨
      (m.s.card.page1 = false ∧ nextPage m.s.card.bnry = m.s.card.curr)
  | .accept _ => m.task.begun = true → ∀ drains ∈ m.irq.map Prod.fst,
      drains = false ∧ m.s.card.page1 = false
  | _ => True

instance Calm.decidable (m : Sys) : ∀ e, Decidable (Calm m e)
  | .irq => inferInstanceAs (Decidable (_ → _ ∨ _))
  | .accept _ => inferInstanceAs (Decidable (_ → ∀ drains ∈ m.irq.map Prod.fst, _))
  | .isr _ | .recv | .poll | .step => isTrue trivial

/-! ## the handler within ne2000_poll -/

variable {port : Port} {ret : List (Option (List Byte))} {s t : State} {v : Nat} {I : State → Prop}

/-- the card only raises interrupts -/
def OnlyIsr (s t : State) : Prop := ∃ v, t = s.setIsr v

theorem OnlyIsr.env (h : OnlyIsr s t) : Env s t := by
  obtain ⟨v, rfl⟩ := h
  exact .isr v

/-- the handler does not drain -/
theorem irqRest_even (hv : v % 2 = 0) : irqRest port v = regOut REG_ISR (v % 128) := by
  have hodd : ¬ v % 2 = 1 := by omega
  unfold irqRest drainIf
  rw [if_neg hodd]
  rfl

theorem OnlyIsr.envs (h : ReflTransGen OnlyIsr s t) : ReflTransGen Env s t :=
  ReflTransGen.mono (fun _ _ h => h.env) _ _ h

/-- on page 0 it acknowledges, whatever the card does -/
theorem quiet_wp {E : State → State → Prop} (hE : ∀ s t, E s t → Env s t)
    (hisr : ∀ s v, E s (State.setIsr s v)) (hv : v % 2 = 0) (hp : s.card.page1 = false)
    (hs : Seen ret s) :
    (irqRest port v).Wp E (Seen ret) (fun _ t => ReflTransGen E s t) s := by
  have hfrom : Stable E fun t => Seen ret t ∧ ReflTransGen E s t ∧ t.card.page1 = false := by
    rintro t u htu ⟨h1, h2, h3⟩
    exact ⟨Seen.stable t u (hE t u htu) h1, h2.tail htu, page1_stable false t u (hE t u htu) h3⟩
  rw [irqRest_even hv]
  refine Wp.act hfrom (fun t ht => ⟨ht.1, ?_⟩) ⟨hs, .refl, hp⟩
  rw [(write_page0 ht.2.2 _).2.1]
  exact fun u hu => (ht.2.1.tail (hisr t _)).trans hu

theorem write_page1 {c : Card} (h : c.page1 = true) (v : Nat) :
    c.write REG_ISR v = { c with curr := v } := by
  unfold Card.write
  rw [h]
  rfl

/-- on page 1 it writes back the CURR that it has read -/
theorem quiet_page1_wp (hv : s.card.read REG_ISR % 2 = 0) (hp : s.card.page1 = true)
    (hs : Seen ret s) :
    (irqRest port (s.card.read REG_ISR)).Wp OnlyIsr
      (fun t => Seen ret t ∧ t.card.page1 = true) (fun _ t => ReflTransGen OnlyIsr s t) s := by
  have hread : s.card.read REG_ISR = s.card.curr := by
    unfold Card.read
    rw [hp]
    rfl
  have hcurr : s.card.curr % 128 = s.card.curr := by
    obtain ⟨r, l, w, q, a, -, -, -, hi⟩ := hs
    have hlt := (page_lt w).2
    unfold RX_STOP at hlt
    rw [hi.card.curr, Nat.mod_eq_of_lt hlt]
  have hfrom : Stable OnlyIsr fun t => ∃ v, t = s.setIsr v := by
    rintro _ _ ⟨v, rfl⟩ ⟨u, rfl⟩
    exact ⟨v, rfl⟩
  rw [irqRest_even hv]
  refine Wp.act hfrom ?_ ⟨s.card.isr, rfl⟩
  rintro _ ⟨u, rfl⟩
  refine ⟨⟨hs.card rfl rfl rfl, hp⟩, fun t hst => ?_⟩
  rw [write_page1 (c := (s.setIsr u).card) hp, hread, hcurr] at hst
  exact .head ⟨u, rfl⟩ hst

/-- `s`, the register page and ISR apart -/
def SameBut (s : State) (b : Bool) (t : State) : Prop :=
  ∃ u, t = { s with card := { s.card with page1 := b, isr := u } }

theorem SameBut.stable {b : Bool} : Stable OnlyIsr (SameBut s b) := by
  rintro _ _ ⟨v, rfl⟩ ⟨u, rfl⟩
  exact ⟨v, rfl⟩

theorem SameBut.seen {b : Bool} (h : SameBut s b t) (hs : Seen ret s) : Seen ret t := by
  obtain ⟨u, rfl⟩ := h
  exact hs.card rfl rfl rfl

/-- an action of a drain that finds nothing -/
theorem SameBut.out {b b' : Bool} {reg x : Nat} {α : Type} {Q : α → State → Prop} {k : Unit → Io α}
    (hs : Seen ret s) (hout : ∀ t, SameBut s b t →
      SameBut s b' { t with card := t.card.write reg x })
    (hk : ∀ t, SameBut s b' t → (k ()).Wp OnlyIsr (Seen ret) Q t) (h : SameBut s b t) :
    (regOut reg x >>= k).Wp OnlyIsr (Seen ret) Q t :=
  Wp.modify_bind SameBut.stable (fun u hu => ⟨hu.seen hs, hk _ (hout u hu)⟩) h

/-- with an empty ring nothing is drained, as long as nothing comes -/
theorem empty_drain_wp (hs : Seen ret s) (hp : s.card.page1 = false)
    (hempty : nextPage s.card.bnry = s.card.curr) :
    (drain port).Wp OnlyIsr (Seen ret) (fun _ t => SameBut s false t) s := by
  have h0 : SameBut s false s := ⟨s.card.isr, by rw [← hp]⟩
  have hcr : ∀ b t, SameBut s b t → SameBut s true
      { t with card := t.card.write REG_CR (CR_START ||| CR_NODMA ||| CR_PAGE1) } := by
    rintro b t ⟨u, rfl⟩
    exact ⟨u, rfl⟩
  have hcr0 : ∀ b t, SameBut s b t → SameBut s false
      { t with card := t.card.write REG_CR (CR_START ||| CR_NODMA ||| CR_PAGE0) } := by
    rintro b t ⟨u, rfl⟩
    exact ⟨u, rfl⟩
  refine Wp.get_bind SameBut.stable (fun t ht => ⟨ht.seen hs, ?_⟩) h0
  have hbnry : t.card.read REG_BNRY = s.card.bnry := by
    obtain ⟨u, rfl⟩ := ht
    rfl
  rw [hbnry]
  refine SameBut.out hs (hcr false) (fun t ht => ?_) ht
  refine Wp.get_bind SameBut.stable (fun t ht => ⟨ht.seen hs, ?_⟩) ht
  have hcurr : t.card.read REG_CURR = s.card.curr := by
    obtain ⟨u, rfl⟩ := ht
    rfl
  rw [hcurr]
  refine SameBut.out hs (hcr0 true) (fun t ht => ?_) ht
  rw [if_pos hempty]
  exact Wp.ret SameBut.stable (fun t ht => ht) ht

/-- nor by the handler -/
theorem empty_wp (hs : Seen ret s) (hp : s.card.page1 = false)
    (hempty : nextPage s.card.bnry = s.card.curr) :
    (irqRest port v).Wp OnlyIsr (Seen ret) (fun _ t => ReflTransGen OnlyIsr s t) s := by
  by_cases hv : v % 2 = 1
  · have hisr : ∀ t, SameBut s false t → SameBut s false
        { t with card := t.card.write REG_ISR (v % 128) } := by
      rintro t ⟨u, rfl⟩
      exact ⟨_, rfl⟩
    have hend : ∀ t, SameBut s false t → ReflTransGen OnlyIsr s t := by
      rintro t ⟨u, rfl⟩
      rw [← hp]
      exact .single ⟨u, rfl⟩
    unfold irqRest drainIf
    rw [if_pos hv]
    refine Wp.bind (Wp.mono (empty_drain_wp hs hp hempty) fun _ t ht => ?_)
    refine Wp.act SameBut.stable (fun t ht => ⟨ht.seen hs, ?_⟩) ht
    exact Wp.ret SameBut.stable hend (hisr t ht)
  · exact quiet_wp (fun _ _ h => h.env) (fun _ v => ⟨v, rfl⟩) (by omega) hp hs

/-! ## the invariant -/

/-- there is something left to do -/
def Pending {α : Type} (p : Io α) : Prop := ∃ f k, p = .act f k

theorem Pending.now {α : Type} {p : Io α} {E : State → State → Prop} {Q : α → State → Prop}
    (hp : Pending p) (h : p.Wp E I Q s) : I s := by
  obtain ⟨f, k, rfl⟩ := hp
  exact h.now

/-- what the task needs -/
def TaskOk (port : Port) (ret : List (Option (List Byte))) : Task → State → Prop
  | .idle, s => Good ret s
  | .recv p, s => Pending p ∧ p.Wp Later (Good ret) (fun res t => Good (ret ++ [res]) t) s
  | .poll false p, s => p = drain port ∧ Good ret s
  | .poll true p, s => Pending p ∧ p.Wp Env (Seen ret) (fun _ t => Good ret t) s

/-- what the handler does to the task that it has interrupted in the state `s₀` -/
def IrqOk (ret : List (Option (List Byte))) (begun drains : Bool) (p : Io Unit) (s₀ s : State) :
    Prop :=
  match begun with
  | false => p.Wp Env (Seen ret) (fun _ t => Later s₀ t) s
  | true => p.Wp Env (Seen ret) (fun _ t => ReflTransGen Env s₀ t) s ∨
      p.Wp OnlyIsr (fun t => Seen ret t ∧ (drains = true ∨ t.card.page1 = true))
        (fun _ t => ReflTransGen Env s₀ t) s

def SysOk (port : Port) (m : Sys) : Prop :=
  match m.irq with
  | none => TaskOk port m.returned m.task m.s
  | some (drains, p) => Pending p ∧ ∃ s₀, TaskOk port m.returned m.task s₀ ∧
      IrqOk m.returned m.task.begun drains p s₀ m.s

variable {task : Task} {m m' : Sys} {drains : Bool} {p : Io Unit}

theorem TaskOk.env (h : TaskOk port ret task s) (hst : Env s t) : TaskOk port ret task t := by
  match task, h with
  | .idle, h => exact Good.stable s t hst.later h
  | .recv p, h => exact ⟨h.1, h.2.env hst.later⟩
  | .poll false p, h => exact ⟨h.1, Good.stable s t hst.later h.2⟩
  | .poll true p, h => exact ⟨h.1, h.2.env hst⟩

theorem TaskOk.envs (h : TaskOk port ret task s) (hst : ReflTransGen Env s t) :
    TaskOk port ret task t := by
  induction hst with
  | refl => exact h
  | tail _ hbc ih => exact ih.env hbc

theorem TaskOk.later (h : TaskOk port ret task s) (hb : task.begun = false) (hst : Later s t) :
    TaskOk port ret task t := by
  match task, h with
  | .idle, h => exact Good.stable s t hst h
  | .recv p, h => exact ⟨h.1, h.2.env hst⟩
  | .poll false p, h => exact ⟨h.1, Good.stable s t hst h.2⟩
  | .poll true p, h => exact nomatch hb

theorem TaskOk.good (h : TaskOk port ret task s) (hb : task.begun = false) : Good ret s := by
  match task, h with
  | .idle, h => exact h
  | .recv p, h => exact h.1.now h.2
  | .poll false p, h => exact h.2
  | .poll true p, h => exact nomatch hb

theorem TaskOk.seen (h : TaskOk port ret task s) : Seen ret s := by
  match task, h with
  | .idle, h => exact Good.seen h
  | .recv p, h => exact (h.1.now h.2).seen
  | .poll false p, h => exact h.2.seen
  | .poll true p, h => exact h.1.now h.2

/-- a handler has something left to do at its start -/
theorem irqRest_pending (port : Port) (v : Nat) : Pending (irqRest port v) := by
  unfold irqRest drainIf
  split
  · exact ⟨_, _, rfl⟩
  · exact ⟨_, _, rfl⟩

/-- **The handler starts.** -/
theorem SysOk.irq (hport : port ≠ .osfs11) (h : TaskOk port ret task s)
    (hc : task.begun = true → s.card.read REG_ISR % 2 = 0 ∨
      (s.card.page1 = false ∧ nextPage s.card.bnry = s.card.curr)) :
    IrqOk ret task.begun (decide (s.card.read REG_ISR % 2 = 1))
      (irqRest port (s.card.read REG_ISR)) s s := by
  cases hb : task.begun with
  | false => exact irq_later hport (h.good hb)
  | true =>
    have hs := h.seen
    by_cases hv : s.card.read REG_ISR % 2 = 0
    · cases hp : s.card.page1 with
      | false => exact .inl (quiet_wp (fun _ _ h => h) (fun _ => Env.isr) hv hp hs)
      | true =>
        refine .inr (Wp.mono (Wp.weaken (quiet_page1_wp hv hp hs) fun t ht => ?_)
          fun _ _ => OnlyIsr.envs)
        exact ⟨ht.1, .inr ht.2⟩
    · obtain ⟨hp, hempty⟩ := (hc hb).resolve_left hv
      have hodd : s.card.read REG_ISR % 2 = 1 := by omega
      refine .inr (Wp.mono (Wp.weaken (empty_wp hs hp hempty) fun t ht => ?_) fun _ _ => OnlyIsr.envs)
      exact ⟨ht, .inl (decide_eq_true hodd)⟩

/-- the card accepts a frame -/
theorem IrqOk.accept {begun : Bool} {s₀ : State} (h : IrqOk ret begun drains p s₀ s) (hp : Pending p)
    (hc : begun = true → drains = false ∧ s.card.page1 = false) (hst : Env s t) :
    IrqOk ret begun drains p s₀ t := by
  cases begun with
  | false => exact Wp.env h hst
  | true =>
    rcases h with h | h
    · exact .inl (h.env hst)
    · exfalso
      obtain ⟨hd, hp1⟩ := hc rfl
      rcases (hp.now h).2 with hd' | hp1'
      · rw [hd] at hd'
        exact Bool.false_ne_true hd'
      · rw [hp1] at hp1'
        exact Bool.false_ne_true hp1'

theorem IrqOk.isr {begun : Bool} {s₀ : State} {v : Byte} (h : IrqOk ret begun drains p s₀ s) :
    IrqOk ret begun drains p s₀ (s.setIsr v) := by
  cases begun with
  | false => exact Wp.env h (.isr v)
  | true => exact h.imp (fun h => h.env (.isr v)) fun h => h.env ⟨v, rfl⟩

/-- an action of the handler -/
theorem IrqOk.next {begun : Bool} {s₀ : State} (h : IrqOk ret begun drains p s₀ s) :
    IrqOk ret begun drains (p.next s).2 s₀ (p.next s).1 := by
  cases begun with
  | false => exact Wp.next h
  | true => exact h.imp Wp.next Wp.next

/-- it is done, and the task goes on -/
theorem IrqOk.done {s₀ : State} (ht : TaskOk port ret task s₀)
    (h : IrqOk ret task.begun drains (.ret ()) s₀ s) : TaskOk port ret task s := by
  cases hb : task.begun with
  | false =>
    rw [hb] at h
    have hw : (Prog.ret ()).Wp Env (Seen ret) (fun _ t => Later s₀ t) s := h
    exact ht.later hb hw.result
  | true =>
    rw [hb] at h
    refine ht.envs ?_
    rcases h with h | h
    · exact h.result
    · exact h.result

/-! ## runs -/

/-- an action of `ne2000_recv` -/
theorem SysOk.runRecv {p : Io (Option (List Byte))} (hi : m.irq = none)
    (h : p.Wp Later (Good m.returned) (fun res t => Good (m.returned ++ [res]) t) m.s) :
    SysOk port (m.runRecv p) := by
  have hn := h.next
  unfold Sys.runRecv
  cases hp : (p.next m.s).2 with
  | ret res =>
    rw [hp] at hn
    unfold SysOk
    rw [hi]
    exact hn.result
  | act f k =>
    rw [hp] at hn
    unfold SysOk
    rw [hi]
    exact ⟨⟨f, k, rfl⟩, hn⟩

/-- an action of `ne2000_poll` -/
theorem SysOk.runPoll (hi : m.irq = none)
    (h : p.Wp Env (Seen m.returned) (fun _ t => Good m.returned t) m.s) :
    SysOk port (m.runPoll p) := by
  have hn := h.next
  unfold SysOk Sys.runPoll
  rw [hi]
  cases hp : (p.next m.s).2 with
  | ret _ =>
    rw [hp] at hn
    exact hn.result
  | act f k =>
    rw [hp] at hn
    exact ⟨⟨f, k, rfl⟩, hn⟩

/-- an action of the handler -/
theorem SysOk.runIrq {s₀ : State} (ht : TaskOk port m.returned m.task s₀)
    (h : IrqOk m.returned m.task.begun drains p s₀ m.s) : SysOk port (m.runIrq drains p) := by
  have hn := h.next
  unfold SysOk Sys.runIrq
  cases hp : (p.next m.s).2 with
  | ret _ =>
    rw [hp] at hn
    exact hn.done ht
  | act f k =>
    rw [hp] at hn
    exact ⟨⟨f, k, rfl⟩, s₀, ht, hn⟩

/-- **One event**, if it is calm. -/
theorem SysOk.step (hport : port ≠ .osfs11) {e : Event} (h : SysOk port m) (hc : Calm m e)
    (hm : step port m e = some m') : SysOk port m' := by
  obtain ⟨s, task, irq, ret⟩ := m
  cases irq with
  | none =>
    have ht : TaskOk port ret task s := h
    cases e with
    | accept e =>
      obtain ⟨hf, hm⟩ := Option.ite_none_right_eq_some.mp hm
      rw [← Option.some.inj hm]
      exact ht.env (.accept e hf)
    | isr v =>
      rw [← Option.some.inj hm]
      exact ht.env (.isr v)
    | irq =>
      rw [← Option.some.inj hm]
      exact ⟨irqRest_pending port _, s, ht, SysOk.irq hport ht hc⟩
    | recv =>
      obtain ⟨hn, hm⟩ := Option.ite_none_left_eq_some.mp hm
      rw [← Option.some.inj hm]
      cases task with
      | idle => exact ⟨⟨_, _, rfl⟩, recv_wp (fun _ h => h) ht⟩
      | recv p => exact absurd (.inr rfl) hn
      | poll b p => exact absurd (.inr rfl) hn
    | poll =>
      obtain ⟨hn, hm⟩ := Option.ite_none_left_eq_some.mp hm
      rw [← Option.some.inj hm]
      cases task with
      | idle => exact ⟨rfl, ht⟩
      | recv p => exact absurd (.inr (.inr rfl)) hn
      | poll b p => exact absurd (.inr (.inr rfl)) hn
    | step =>
      cases task with
      | idle => exact nomatch hm
      | recv p =>
        rw [← Option.some.inj hm]
        exact SysOk.runRecv rfl ht.2
      | poll b p =>
        rw [← Option.some.inj hm]
        cases b with
        | false =>
          obtain ⟨rfl, hg⟩ := ht
          exact SysOk.runPoll rfl (poll_wp hport hg)
        | true => exact SysOk.runPoll rfl ht.2
  | some x =>
    obtain ⟨drains, p⟩ := x
    obtain ⟨hp, s₀, ht, hk⟩ := h
    cases e with
    | accept e =>
      obtain ⟨hf, hm⟩ := Option.ite_none_right_eq_some.mp hm
      rw [← Option.some.inj hm]
      exact ⟨hp, s₀, ht, hk.accept hp (fun hb => hc hb drains rfl) (.accept e hf)⟩
    | isr v =>
      rw [← Option.some.inj hm]
      exact ⟨hp, s₀, ht, hk.isr⟩
    | irq => exact nomatch hm
    | recv => exact nomatch hm
    | poll =>
      obtain ⟨hn, -⟩ := Option.ite_none_left_eq_some.mp hm
      exact absurd (.inr (.inl rfl)) hn
    | step =>
      rw [← Option.some.inj hm]
      exact SysOk.runIrq ht hk

/-- **The queue is what is observed.** -/
theorem SysOk.shown (h : SysOk port m) : Shown m := by
  obtain ⟨s, task, irq, ret⟩ := m
  cases irq with
  | none =>
    have ht : TaskOk port ret task s := h
    cases hb : task.begun with
    | false =>
      obtain ⟨-, r, l, w, a, ha, hret, hi⟩ := ht.good hb
      exact ⟨r, l, w, a.queue, a, ha, hret, hi, .inl rfl, fun _ _ => rfl⟩
    | true =>
      obtain ⟨r, l, w, q, a, ha, hret, hq, hi⟩ := ht.seen
      exact ⟨r, l, w, q, a, ha, hret, hi, hq, fun _ hf => nomatch hb.symm.trans hf⟩
  | some x =>
    obtain ⟨hp, s₀, -, hk⟩ := h
    have hs : Seen ret s := by
      cases hb : task.begun with
      | false =>
        have hk' : IrqOk ret false x.1 x.2 s₀ s := hb ▸ hk
        exact hp.now hk'
      | true =>
        have hk' : IrqOk ret true x.1 x.2 s₀ s := hb ▸ hk
        exact hk'.elim (fun h => hp.now h) fun h => (hp.now h).1
    obtain ⟨r, l, w, q, a, ha, hret, hq, hi⟩ := hs
    exact ⟨r, l, w, q, a, ha, hret, hi, hq, nofun⟩

theorem boot_ok (port : Port) (s : State) : SysOk port (boot s) := by
  refine ⟨rfl, 0, [], 0, Fifo.empty, .refl, rfl, ?_⟩
  exact
    { card := ⟨rfl, rfl, rfl, by decide⟩
      pending := rfl
      accepted := rfl
      ring := Ring.Holds.nil _ _ _
      head := rfl
      tail := Nat.succ_pos 7
      room := by decide }

/-- a run of calm events -/
theorem shown_of_calm (hport : port ≠ .osfs11) (s : State) (es : List Event)
    (h : Always (stepOf (step port)) (fun m e _ => Calm m e) (boot s) es) :
    Always (stepOf (step port)) (fun _ _ m => Shown m) (boot s) es :=
  Always.of_inv_if (I := SysOk port)
    (fun _ _ _ hs hm hc => ⟨(hs.step hport hc hm).shown, hs.step hport hc hm⟩) es _ (boot_ok port s) h

/-! ## 23-fixes -/

/-- the frames that were returned are among those that were accepted, in their order -/
theorem Shown.sublist (h : Shown m) : (m.returned.filterMap id).Sublist m.s.accepted := by
  obtain ⟨r, l, w, q, a, ha, hret, hi, -⟩ := h
  obtain ⟨drained, hacc, hsub⟩ := Fifo.order ha
  have hall : (a.returned.filterMap id).Sublist drained :=
    (List.sublist_append_left _ _).trans hsub
  rw [hi.accepted, hacc, ← hret]
  exact hall.trans (List.sublist_append_left _ _)

/-- the task is not in `ne2000_poll`, which only 25-osfs11 has -/
def Task.NoPoll : Task → Prop
  | .poll _ _ => False
  | _ => True

theorem Task.NoPoll.not_begun (h : task.NoPoll) : task.begun = false := by
  match task, h with
  | .idle, _ => rfl
  | .recv _, _ => rfl

theorem NoPoll.calm (h : m.task.NoPoll) (e : Event) : Calm m e := by
  have hb : ¬ m.task.begun = true := by
    rw [h.not_begun]
    exact Bool.false_ne_true
  cases e with
  | accept _ => exact fun hc => absurd hc hb
  | irq => exact fun hc => absurd hc hb
  | isr _ => trivial
  | recv => trivial
  | poll => trivial
  | step => trivial

theorem NoPoll.step {e : Event} (h : m.task.NoPoll) (hm : step .fixes m e = some m') :
    m'.task.NoPoll := by
  cases e with
  | accept e =>
    obtain ⟨-, hm⟩ := Option.ite_none_right_eq_some.mp hm
    rw [← Option.some.inj hm]
    exact h
  | isr v =>
    rw [← Option.some.inj hm]
    exact h
  | irq =>
    obtain ⟨-, hm⟩ := Option.ite_none_left_eq_some.mp hm
    rw [← Option.some.inj hm]
    exact h
  | recv =>
    obtain ⟨-, hm⟩ := Option.ite_none_left_eq_some.mp hm
    rw [← Option.some.inj hm]
    trivial
  | poll => exact nomatch hm
  | step =>
    obtain ⟨s, task, irq, ret⟩ := m
    cases irq with
    | some x =>
      rw [← Option.some.inj hm]
      exact h
    | none =>
      match task, h with
      | .idle, _ => exact nomatch hm
      | .recv p, _ =>
        rw [← Option.some.inj hm]
        unfold Sys.runRecv
        split
        · trivial
        · trivial

def Task.polls : Task → Bool
  | .poll _ _ => true
  | _ => false

/-- no drain finds a frame: the card's ring is empty when one starts, and nothing comes until its
end -/
def Unread (m : Sys) : Event → Prop
  | .irq => m.s.card.read REG_ISR % 2 = 1 →
      m.s.card.page1 = false ∧ nextPage m.s.card.bnry = m.s.card.curr
  | .poll => nextPage m.s.card.bnry = m.s.card.curr
  | .accept _ => m.task.polls = false ∧ ∀ drains ∈ m.irq.map Prod.fst, drains = false
  | _ => True

instance Unread.decidable (m : Sys) : ∀ e, Decidable (Unread m e)
  | .irq => inferInstanceAs (Decidable (_ → _ ∧ _))
  | .poll => inferInstanceAs (Decidable (nextPage m.s.card.bnry = m.s.card.curr))
  | .accept _ => inferInstanceAs (Decidable (_ ∧ ∀ drains ∈ m.irq.map Prod.fst, drains = false))
  | .isr _ | .recv | .step => isTrue trivial

/-- what the task needs -/
def IdleTask (port : Port) (ret : List (Option (List Byte))) : Task → State → Prop
  | .idle, s => Good ret s
  | .recv p, s => Pending p ∧ p.Wp Later (Good ret) (fun res t => Good (ret ++ [res]) t) s
  | .poll false p, s => p = drain port ∧ Good ret s ∧ nextPage s.card.bnry = s.card.curr
  | .poll true p, s => Pending p ∧ p.Wp OnlyIsr (Seen ret) (fun _ t => Good ret t) s

/-- what the handler does to it; while a drain is under way only `OnlyIsr` disturbs it -/
def IdleIrq (ret : List (Option (List Byte))) (busy : Bool) (p : Io Unit) (s₀ s : State) : Prop :=
  match busy with
  | false => p.Wp Env (Seen ret) (fun _ t => ReflTransGen Env s₀ t) s
  | true => p.Wp OnlyIsr (Seen ret) (fun _ t => ReflTransGen OnlyIsr s₀ t) s

def IdleOk (port : Port) (m : Sys) : Prop :=
  match m.irq with
  | none => IdleTask port m.returned m.task m.s
  | some (drains, p) => Pending p ∧ ∃ s₀, IdleTask port m.returned m.task s₀ ∧
      IdleIrq m.returned (drains || m.task.polls) p s₀ m.s

theorem IdleTask.isr (h : IdleTask port ret task s) (hst : OnlyIsr s t) : IdleTask port ret task t := by
  match task, h with
  | .idle, h => exact Good.stable s t hst.env.later h
  | .recv p, h => exact ⟨h.1, h.2.env hst.env.later⟩
  | .poll false p, h =>
    obtain ⟨v, rfl⟩ := hst
    exact ⟨h.1, Good.stable s _ (Env.isr v).later h.2.1, h.2.2⟩
  | .poll true p, h => exact ⟨h.1, h.2.env hst⟩

theorem IdleTask.env (h : IdleTask port ret task s) (hp : task.polls = false) (hst : Env s t) :
    IdleTask port ret task t := by
  match task, h with
  | .idle, h => exact Good.stable s t hst.later h
  | .recv p, h => exact ⟨h.1, h.2.env hst.later⟩
  | .poll b p, h => exact absurd hp.symm Bool.false_ne_true

theorem IdleTask.isrs (h : IdleTask port ret task s) (hst : ReflTransGen OnlyIsr s t) :
    IdleTask port ret task t := by
  induction hst with
  | refl => exact h
  | tail _ hbc ih => exact ih.isr hbc

theorem IdleTask.envs (h : IdleTask port ret task s) (hp : task.polls = false)
    (hst : ReflTransGen Env s t) : IdleTask port ret task t := by
  induction hst with
  | refl => exact h
  | tail _ hbc ih => exact ih.env hp hbc

theorem IdleTask.seen (h : IdleTask port ret task s) : Seen ret s := by
  match task, h with
  | .idle, h => exact Good.seen h
  | .recv p, h => exact (h.1.now h.2).seen
  | .poll false p, h => exact h.2.1.seen
  | .poll true p, h => exact h.1.now h.2

theorem IdleTask.good (h : IdleTask port ret task s) (hb : task.begun = false) : Good ret s := by
  match task, h with
  | .idle, h => exact h
  | .recv p, h => exact h.1.now h.2
  | .poll false p, h => exact h.2.1
  | .poll true p, h => exact absurd hb.symm Bool.false_ne_true

theorem not_begun (h : task.polls = false) : task.begun = false := by
  match task, h with
  | .idle, _ => rfl
  | .recv _, _ => rfl
  | .poll b p, h => exact absurd h.symm Bool.false_ne_true

/-- the handler starts -/
theorem IdleTask.irq (h : IdleTask port ret task s)
    (hc : s.card.read REG_ISR % 2 = 1 → s.card.page1 = false ∧ nextPage s.card.bnry = s.card.curr) :
    IdleIrq ret (decide (s.card.read REG_ISR % 2 = 1) || task.polls)
      (irqRest port (s.card.read REG_ISR)) s s := by
  have hs := h.seen
  by_cases hv : s.card.read REG_ISR % 2 = 1
  · obtain ⟨hp, hempty⟩ := hc hv
    rw [decide_eq_true hv, Bool.true_or]
    exact empty_wp hs hp hempty
  · have heven : s.card.read REG_ISR % 2 = 0 := by omega
    rw [decide_eq_false hv, Bool.false_or]
    cases hpolls : task.polls with
    | false => exact quiet_wp (fun _ _ h => h) (fun _ => Env.isr) heven (h.good (not_begun hpolls)).1 hs
    | true =>
      cases hp : s.card.page1 with
      | false => exact quiet_wp (fun _ _ h => h.env) (fun _ v => ⟨v, rfl⟩) heven hp hs
      | true => exact Wp.weaken (quiet_page1_wp heven hp hs) fun t ht => ht.1

theorem IdleIrq.seen {busy : Bool} {s₀ : State} (hp : Pending p) (h : IdleIrq ret busy p s₀ s) :
    Seen ret s := by
  cases busy with
  | false => exact hp.now (E := Env) h
  | true => exact hp.now (E := OnlyIsr) h

theorem IdleIrq.isr {busy : Bool} {s₀ : State} (h : IdleIrq ret busy p s₀ s) (v : Byte) :
    IdleIrq ret busy p s₀ (s.setIsr v) := by
  cases busy with
  | false => exact Wp.env h (.isr v)
  | true => exact Wp.env h ⟨v, rfl⟩

theorem IdleIrq.next {busy : Bool} {s₀ : State} (h : IdleIrq ret busy p s₀ s) :
    IdleIrq ret busy (p.next s).2 s₀ (p.next s).1 := by
  cases busy with
  | false => exact Wp.next h
  | true => exact Wp.next h

/-- the handler is done -/
theorem IdleIrq.done {s₀ : State} (ht : IdleTask port ret task s₀)
    (h : IdleIrq ret (drains || task.polls) (.ret ()) s₀ s) : IdleTask port ret task s := by
  cases hb : drains || task.polls with
  | false =>
    rw [hb] at h
    have hw : (Prog.ret ()).Wp Env (Seen ret) (fun _ t => ReflTransGen Env s₀ t) s := h
    exact ht.envs (Bool.or_eq_false_iff.mp hb).2 hw.result
  | true =>
    rw [hb] at h
    have hw : (Prog.ret ()).Wp OnlyIsr (Seen ret) (fun _ t => ReflTransGen OnlyIsr s₀ t) s := h
    exact ht.isrs hw.result

/-- **One event.** -/
theorem IdleOk.step {e : Event} (h : IdleOk port m) (hc : Unread m e) (hm : step port m e = some m') :
    IdleOk port m' := by
  obtain ⟨s, task, irq, ret⟩ := m
  cases irq with
  | none =>
    have ht : IdleTask port ret task s := h
    cases e with
    | accept e =>
      obtain ⟨hf, hm⟩ := Option.ite_none_right_eq_some.mp hm
      rw [← Option.some.inj hm]
      exact ht.env hc.1 (.accept e hf)
    | isr v =>
      rw [← Option.some.inj hm]
      exact ht.isr ⟨v, rfl⟩
    | irq =>
      rw [← Option.some.inj hm]
      exact ⟨irqRest_pending port _, s, ht, ht.irq hc⟩
    | recv =>
      obtain ⟨hn, hm⟩ := Option.ite_none_left_eq_some.mp hm
      rw [← Option.some.inj hm]
      cases task with
      | idle => exact ⟨⟨_, _, rfl⟩, recv_wp (fun _ h => h) ht⟩
      | recv p => exact absurd (.inr rfl) hn
      | poll b p => exact absurd (.inr rfl) hn
    | poll =>
      obtain ⟨hn, hm⟩ := Option.ite_none_left_eq_some.mp hm
      rw [← Option.some.inj hm]
      cases task with
      | idle => exact ⟨rfl, ht, hc⟩
      | recv p => exact absurd (.inr (.inr rfl)) hn
      | poll b p => exact absurd (.inr (.inr rfl)) hn
    | step =>
      cases task with
      | idle => exact absurd hm (by simp [Rx.step])
      | recv p =>
        rw [← Option.some.inj hm]
        have hn := ht.2.next
        show IdleOk port (Sys.runRecv ⟨s, .recv p, none, ret⟩ p)
        unfold Sys.runRecv
        cases hp : (p.next s).2 with
        | ret res =>
          rw [hp] at hn
          exact hn.result
        | act f k =>
          rw [hp] at hn
          exact ⟨⟨f, k, rfl⟩, hn⟩
      | poll b p =>
        rw [← Option.some.inj hm]
        have hwp : p.Wp OnlyIsr (Seen ret) (fun _ t => Good ret t) s := by
          cases b with
          | true => exact ht.2
          | false =>
            obtain ⟨rfl, hg, hempty⟩ := ht
            refine Wp.mono (empty_drain_wp hg.seen hg.1 hempty) ?_
            rintro _ _ ⟨u, rfl⟩
            obtain ⟨hp, r, l, w, a, ha, hret, hi⟩ := hg
            exact ⟨rfl, r, l, w, a, ha, hret, { hi with card := hi.card.congr rfl rfl rfl }⟩
        have hn := hwp.next
        show IdleOk port (Sys.runPoll ⟨s, .poll b p, none, ret⟩ p)
        unfold IdleOk Sys.runPoll
        cases hp : (p.next s).2 with
        | ret _ =>
          rw [hp] at hn
          exact hn.result
        | act f k =>
          rw [hp] at hn
          exact ⟨⟨f, k, rfl⟩, hn⟩
  | some x =>
    obtain ⟨drains, p⟩ := x
    obtain ⟨hp, s₀, ht, hk⟩ := h
    cases e with
    | accept e =>
      obtain ⟨hf, hm⟩ := Option.ite_none_right_eq_some.mp hm
      rw [← Option.some.inj hm]
      refine ⟨hp, s₀, ht, ?_⟩
      obtain ⟨hpolls, hdrains⟩ := hc
      have hbusy : (drains || task.polls) = false := by
        rw [hdrains drains rfl]
        exact hpolls
      rw [hbusy] at hk ⊢
      exact Wp.env hk (.accept e hf)
    | isr v =>
      rw [← Option.some.inj hm]
      exact ⟨hp, s₀, ht, hk.isr v⟩
    | irq => exact absurd hm (by simp [Rx.step])
    | recv => exact absurd hm (by simp [Rx.step])
    | poll => exact absurd hm (by simp [Rx.step])
    | step =>
      rw [← Option.some.inj hm]
      have hn := hk.next
      show IdleOk port (Sys.runIrq ⟨s, task, some (drains, p), ret⟩ drains p)
      unfold IdleOk Sys.runIrq
      cases hpn : (p.next s).2 with
      | ret _ =>
        rw [hpn] at hn
        exact IdleIrq.done ht hn
      | act f k =>
        rw [hpn] at hn
        exact ⟨⟨f, k, rfl⟩, s₀, ht, hn⟩

theorem IdleOk.shown (h : IdleOk port m) : Shown m := by
  obtain ⟨s, task, irq, ret⟩ := m
  cases irq with
  | none =>
    have ht : IdleTask port ret task s := h
    cases hb : task.begun with
    | false =>
      obtain ⟨-, r, l, w, a, ha, hret, hi⟩ := ht.good hb
      exact ⟨r, l, w, a.queue, a, ha, hret, hi, .inl rfl, fun _ _ => rfl⟩
    | true =>
      obtain ⟨r, l, w, q, a, ha, hret, hq, hi⟩ := ht.seen
      exact ⟨r, l, w, q, a, ha, hret, hi, hq,
        fun _ hf => absurd (hf.symm.trans hb) Bool.false_ne_true⟩
  | some x =>
    obtain ⟨hp, s₀, -, hk⟩ := h
    obtain ⟨r, l, w, q, a, ha, hret, hq, hi⟩ := hk.seen hp
    exact ⟨r, l, w, q, a, ha, hret, hi, hq, fun hn => absurd hn (by simp)⟩

theorem boot_idle (port : Port) (s : State) : IdleOk port (boot s) := boot_ok port s

/-- a run whose drains find no frame -/
theorem shown_of_unread (port : Port) (s : State) (es : List Event)
    (h : Always (stepOf (step port)) (fun m e _ => Unread m e) (boot s) es) :
    Always (stepOf (step port)) (fun _ _ m => Shown m) (boot s) es :=
  Always.of_inv_if (I := IdleOk port)
    (fun _ _ _ hs hm hc => ⟨(hs.step hc hm).shown, hs.step hc hm⟩) es _ (boot_idle port s) h

/-! ## 25-osfs11 -/

/-- **In 25-osfs11 it is one as long as no drain finds a frame**, since `port_read` moves half of it;
with one that moves all of it, as long as every event is calm. -/
theorem polled (s : State) (es : List Event) :
    (Always (stepOf (step .osfs11)) (fun m e _ => Unread m e) (boot s) es →
      Always (stepOf (step .osfs11)) (fun _ _ m => Shown m) (boot s) es) ∧
    (Always (stepOf (step .counted)) (fun m e _ => Calm m e) (boot s) es →
      Always (stepOf (step .counted)) (fun _ _ m => Shown m) (boot s) es) :=
  ⟨shown_of_unread .osfs11 s es, shown_of_calm (by decide) s es⟩

/-- what was returned and what is in `sw_ring`, while nothing is under way -/
theorem Shown.count (h : Shown m) (hirq : m.irq = none) (hb : m.task.begun = false) :
    ∃ n < SW_RING, m.s.swHead = (m.s.swTail + n) % SW_RING ∧ n ≤ m.s.accepted.length := by
  obtain ⟨r, l, w, q, a, ha, -, hi, -, hq⟩ := h
  obtain ⟨drained, hacc, hsub⟩ := Fifo.order ha
  refine ⟨q.length, hi.room, hi.head, ?_⟩
  rw [hi.accepted, hacc, hq hirq hb]
  have hle := hsub.length_le
  rw [List.length_append] at hle ⊢
  omega

/-- the first frame in `sw_ring` was accepted -/
theorem Shown.first (h : Shown m) (hirq : m.irq = none) (hb : m.task.begun = false)
    (hne : m.s.swHead ≠ m.s.swTail) : m.s.slot m.s.swTail ∈ m.s.accepted := by
  obtain ⟨r, l, w, q, a, ha, -, hi, -, hq⟩ := h
  obtain ⟨drained, hacc, hsub⟩ := Fifo.order ha
  have hring := hi.ring
  have hhead := hi.head
  rw [hq hirq hb] at hring hhead
  cases hqueue : a.queue with
  | nil =>
    rw [hqueue, List.length_nil, Nat.add_zero, Nat.mod_eq_of_lt hi.tail] at hhead
    exact absurd hhead hne
  | cons f rest =>
    rw [hqueue] at hring hsub
    rw [hring.head hi.tail, hi.accepted, hacc]
    exact List.mem_append_left _ (hsub.subset (List.mem_append_right _ List.mem_cons_self))

/-- a card and a driver with nothing in them -/
def blank : State where
  card := ⟨fun _ => 0, false, 0, 0, 0, 0, 0, fun _ => 0⟩
  swRing := fun _ _ => 0
  swLen := fun _ => 0
  swHead := 0
  swTail := 0
  stack := fun _ => 0
  accepted := []

/-- a frame of 60 bytes, which takes one page -/
def short : Entry := ⟨1, List.replicate 60 0, 1⟩

/-- a poll drains a frame, and the handler another one; within the next poll it has nothing to drain -/
def apart : List Event :=
  [Event.accept short, Event.poll] ++ List.replicate 62 Event.step ++
    [Event.accept short, Event.irq] ++ List.replicate 63 Event.step ++
    [Event.poll, Event.step, Event.isr 1, Event.irq] ++ List.replicate 8 Event.step ++
    [Event.recv, Event.step]

/-- a poll and the handler within it find nothing; a frame comes when they are done -/
def nothing : List Event :=
  [Event.poll, Event.step, Event.step, Event.step, Event.step, Event.isr 1, Event.poll, Event.step,
    Event.irq] ++ List.replicate 8 Event.step ++ [Event.recv, Event.step, Event.accept short]

theorem polled_nothing :
    Always (stepOf (step .osfs11)) (fun _ _ m => Shown m) (boot blank) nothing ∧
      Always (stepOf (step .counted)) (fun _ _ m => Shown m) (boot blank) apart :=
  ⟨(polled blank nothing).1 (by decide +kernel), (polled blank apart).2 (by decide +kernel)⟩

/-- a poll of 25-osfs11 reads the header of a frame, then the frame; the card sets RDC twice -/
def header : List Event :=
  [Event.accept short, Event.poll] ++ List.replicate 11 Event.step ++ [Event.isr 0x41] ++
    List.replicate 11 Event.step ++ [Event.isr 0x41] ++ List.replicate 8 Event.step

/-- a frame of no bytes is in `sw_ring`, but none was accepted -/
def Sys.hollow (m : Sys) : Bool :=
  m.irq.isNone && m.task.isIdle &&
    decide (m.s.swHead ≠ m.s.swTail ∧ m.s.swLen m.s.swTail = 0 ∧ ∀ f ∈ m.s.accepted, f.length ≠ 0)

/-- the handler drains a frame within a poll that has read BNRY already -/
def within : List Event :=
  [Event.accept short, Event.poll, Event.step, Event.irq] ++ List.replicate 123 Event.step

/-- two frames are in `sw_ring`, but one was accepted -/
def Sys.twice (m : Sys) : Bool :=
  m.irq.isNone && m.task.isIdle &&
    decide (m.s.swHead = 2 ∧ m.s.swTail = 0 ∧ m.s.accepted.length = 1)

theorem rest_of_idle (h : m.task.isIdle = true) : m.task.begun = false := by
  cases hm : m.task with
  | idle => rfl
  | recv p => rfl
  | poll b p =>
    rw [hm] at h
    exact absurd h Bool.false_ne_true

/-- **The frame is received with a length off the stack; and the poll reads the frame again** which the
handler has drained. -/
theorem polled_fails :
    (¬ Always (stepOf (step .osfs11)) (fun _ _ m => Shown m) (boot blank) (header ++ [.step])) ∧
      ¬ Always (stepOf (step .counted)) (fun _ _ m => Shown m) (boot blank) (within ++ [.step]) := by
  constructor
  · refine Always.not_of_exec header (fun _ m => m.hollow) ?_ (by decide +kernel)
    intro _ m _ hhollow hs
    unfold Sys.hollow at hhollow
    rw [Bool.and_eq_true, Bool.and_eq_true, Option.isNone_iff_eq_none, decide_eq_true_iff] at hhollow
    obtain ⟨⟨hirq, hidle⟩, hne, hlen, hnot⟩ := hhollow
    refine hnot [] ?_ rfl
    have hslot : m.s.slot m.s.swTail = [] := by
      unfold State.slot
      rw [hlen, List.range_zero, List.map_nil]
    rw [← hslot]
    exact hs.first hirq (rest_of_idle hidle) hne
  · refine Always.not_of_exec within (fun _ m => m.twice) ?_ (by decide +kernel)
    intro _ m _ htwice hs
    unfold Sys.twice at htwice
    rw [Bool.and_eq_true, Bool.and_eq_true, Option.isNone_iff_eq_none, decide_eq_true_iff] at htwice
    obtain ⟨⟨hirq, hidle⟩, hhead, htail, hone⟩ := htwice
    obtain ⟨n, hn, hnhead, hle⟩ := hs.count hirq (rest_of_idle hidle)
    rw [hhead, htail, Nat.zero_add, Nat.mod_eq_of_lt hn] at hnhead
    omega

end Noxis.Net.Rx
