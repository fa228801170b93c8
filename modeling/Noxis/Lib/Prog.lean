import Mathlib.Logic.Relation
import Mathlib.Tactic.Common

/-!
# Programs of atomic actions, and what disturbs them

A program on states `σ` is a tree: an action changes the state at once, and the rest of the program
may depend on the state that it found.  Between two actions the surroundings take any number of
steps `E : σ → σ → Prop`.

* `Prog σ α`          a program with a result in `α`; it is a monad;
* `Prog.Wp E I Q p s` from `s`, however `E` disturbs `p`, `I` holds at each action, `Q` at the end;
* `Stable E P`        the surroundings keep `P`;
* `Prog.alone p s`    the result and the state at the end when nothing disturbs `p`;
* `Prog.Keeps P p`    every action of `p` keeps `P`, from any state;
* `Prog.watch rule p` `p` with a ghost beside the state, which sees what each action does.

The rules are `Wp.ret`, `Wp.act` and `Wp.bind` for the program, `Wp.env`, `Wp.next` and
`Wp.result` for who runs it.  `Wp.watched` and `Wp.unwatched` put a ghost beside a program and take it
away again.
-/

namespace Noxis

/-- a program of atomic actions -/
inductive Prog (σ α : Type) where
  | ret (a : α)
  /-- `f` changes the state; `k` has the state that was found -/
  | act (f : σ → σ) (k : σ → Prog σ α)

namespace Prog
open Relation

variable {σ α β : Type}

def bind : Prog σ α → (α → Prog σ β) → Prog σ β
  | .ret a, g => g a
  | .act f k, g => .act f fun s => (k s).bind g

instance monad : Monad (Prog σ) where
  pure := .ret
  bind := bind

/-- an action that reads -/
def get (g : σ → β) : Prog σ β := .act id fun s => .ret (g s)

/-- an action that writes -/
def modify (f : σ → σ) : Prog σ Unit := .act f fun _ => .ret ()

/-- one action -/
def next : Prog σ α → σ → σ × Prog σ α
  | .ret a, s => (s, .ret a)
  | .act f k, s => (f s, k s)

/-- the whole program, when nothing disturbs it -/
def alone : Prog σ α → σ → α × σ
  | .ret a, s => (a, s)
  | .act f k, s => (k s).alone (f s)

/-- what the surroundings keep -/
def Stable (E : σ → σ → Prop) (P : σ → Prop) : Prop := ∀ s t, E s t → P s → P t

/-- `I` holds at each action, and `Q` at the end -/
def Wp (E : σ → σ → Prop) (I : σ → Prop) (Q : α → σ → Prop) : Prog σ α → σ → Prop
  | .ret a, s => ∀ t, ReflTransGen E s t → Q a t
  | .act f k, s => ∀ t, ReflTransGen E s t → I t ∧ (k t).Wp E I Q (f t)

variable {E : σ → σ → Prop} {I P : σ → Prop} {Q Q' : α → σ → Prop} {p : Prog σ α} {s t : σ}

theorem Stable.many (h : Stable E P) (hst : ReflTransGen E s t) (hs : P s) : P t := by
  induction hst with
  | refl => exact hs
  | tail _ hbc ih => exact h _ _ hbc ih

theorem Stable.and {P' : σ → Prop} (h : Stable E P) (h' : Stable E P') :
    Stable E fun s => P s ∧ P' s :=
  fun s t hst hs => ⟨h s t hst hs.1, h' s t hst hs.2⟩

theorem alone_bind (p : Prog σ α) (g : α → Prog σ β) (s : σ) :
    (p >>= g).alone s = (g (p.alone s).1).alone (p.alone s).2 := by
  show (Prog.bind p g).alone s = _
  induction p generalizing s with
  | ret a => rfl
  | act f k ih => exact ih s (f s)

/-! ## the rules for a program -/

theorem Wp.ret {a : α} (hP : Stable E P) (h : ∀ t, P t → Q a t) (hs : P s) :
    (Prog.ret a).Wp E I Q s :=
  fun t hst => h t (hP.many hst hs)

/-- an action from a state where `P` holds, which the surroundings keep -/
theorem Wp.act {f : σ → σ} {k : σ → Prog σ α} (hP : Stable E P)
    (h : ∀ t, P t → I t ∧ (k t).Wp E I Q (f t)) (hs : P s) : (Prog.act f k).Wp E I Q s :=
  fun t hst => h t (hP.many hst hs)

theorem Wp.bind {g : α → Prog σ β} {Q : β → σ → Prop}
    (h : p.Wp E I (fun a t => (g a).Wp E I Q t) s) : (p >>= g).Wp E I Q s := by
  show (Prog.bind p g).Wp E I Q s
  induction p generalizing s with
  | ret a => exact h s .refl
  | act f k ih =>
    intro t hst
    exact ⟨(h t hst).1, ih t (h t hst).2⟩

theorem Wp.mono (h : p.Wp E I Q s) (hQ : ∀ a t, Q a t → Q' a t) : p.Wp E I Q' s := by
  induction p generalizing s with
  | ret a => exact fun t hst => hQ a t (h t hst)
  | act f k ih => exact fun t hst => ⟨(h t hst).1, ih t (h t hst).2⟩

theorem Wp.weaken {J : σ → Prop} (h : p.Wp E I Q s) (hI : ∀ t, I t → J t) : p.Wp E J Q s := by
  induction p generalizing s with
  | ret a => exact h
  | act f k ih => exact fun t hst => ⟨hI t (h t hst).1, ih t (h t hst).2⟩

/-- what is said for each `x` holds for all of them -/
theorem Wp.all {ι : Type} {R : ι → α → σ → Prop} (h : p.Wp E I Q s)
    (hx : ∀ x, p.Wp E (fun _ => True) (R x) s) : p.Wp E I (fun a t => Q a t ∧ ∀ x, R x a t) s := by
  induction p generalizing s with
  | ret a => exact fun t hst => ⟨h t hst, fun x => hx x t hst⟩
  | act f k ih => exact fun t hst => ⟨(h t hst).1, ih t (h t hst).2 fun x => (hx x t hst).2⟩

/-! ## one action -/

theorem Wp.get_bind {g : σ → β} {k : β → Prog σ α} (hP : Stable E P)
    (h : ∀ t, P t → I t ∧ (k (g t)).Wp E I Q t) (hs : P s) : (Prog.get g >>= k).Wp E I Q s :=
  Wp.act hP h hs

theorem Wp.modify_bind {f : σ → σ} {k : Unit → Prog σ α} (hP : Stable E P)
    (h : ∀ t, P t → I t ∧ (k ()).Wp E I Q (f t)) (hs : P s) : (Prog.modify f >>= k).Wp E I Q s :=
  Wp.act hP h hs

/-! ## the rules for who runs it -/

/-- before an action -/
theorem Wp.now {f : σ → σ} {k : σ → Prog σ α} (h : (Prog.act f k).Wp E I Q s) : I s := (h s .refl).1

/-- a disturbance -/
theorem Wp.env (h : p.Wp E I Q s) (hst : E s t) : p.Wp E I Q t := by
  cases p with
  | ret a => exact fun u htu => h u (.head hst htu)
  | act f k => exact fun u htu => h u (.head hst htu)

/-- an action of the program -/
theorem Wp.next (h : p.Wp E I Q s) : (p.next s).2.Wp E I Q (p.next s).1 := by
  cases p with
  | ret a => exact h
  | act f k => exact (h s .refl).2

theorem Wp.result {a : α} (h : (Prog.ret a).Wp E I Q s) : Q a s := h s .refl

/-! ## what every action keeps -/

/-- every action keeps `P`, from any state -/
def Keeps (P : σ → Prop) : Prog σ α → Prop
  | .ret _ => True
  | .act f k => (∀ s, P s → P (f s)) ∧ ∀ s, (k s).Keeps P

theorem Keeps.bind {g : α → Prog σ β} (h : p.Keeps P) (hg : ∀ a, (g a).Keeps P) :
    (p >>= g).Keeps P := by
  show (Prog.bind p g).Keeps P
  induction p with
  | ret a => exact hg a
  | act f k ih => exact ⟨h.1, fun s => ih s (h.2 s)⟩

theorem Keeps.pure (P : σ → Prop) (a : α) : (pure a : Prog σ α).Keeps P := trivial

theorem Keeps.get (P : σ → Prop) (g : σ → β) : (Prog.get g).Keeps P :=
  ⟨fun _ h => h, fun _ => trivial⟩

theorem Keeps.modify {f : σ → σ} (h : ∀ s, P s → P (f s)) : (Prog.modify f).Keeps P :=
  ⟨h, fun _ => trivial⟩

theorem Keeps.next (h : p.Keeps P) (s : σ) : (P s → P (p.next s).1) ∧ (p.next s).2.Keeps P := by
  cases p with
  | ret a => exact ⟨id, h⟩
  | act f k => exact ⟨h.1 s, h.2 s⟩

/-- then it holds at every action, and at the end -/
theorem Keeps.wp (hP : Stable E P) (h : p.Keeps P) (hs : P s) : p.Wp E P (fun _ t => P t) s := by
  induction p generalizing s with
  | ret a => exact fun t hst => hP.many hst hs
  | act f k ih =>
    intro t hst
    have ht := hP.many hst hs
    exact ⟨ht, ih t (h.2 t) (h.1 t ht)⟩

/-- two conditions on the same program -/
theorem Wp.and {I' : σ → Prop} (h : p.Wp E I Q s) (h' : p.Wp E I' Q' s) :
    p.Wp E (fun t => I t ∧ I' t) (fun a t => Q a t ∧ Q' a t) s := by
  induction p generalizing s with
  | ret a => exact fun t hst => ⟨h t hst, h' t hst⟩
  | act f k ih =>
    intro t hst
    exact ⟨⟨(h t hst).1, (h' t hst).1⟩, ih t (h t hst).2 (h' t hst).2⟩

/-! ## a ghost beside the state -/

variable {γ : Type} {rule : σ → σ → γ → γ} {g : γ}

/-- the ghost sees the states before and after each action -/
def watch (rule : σ → σ → γ → γ) : Prog σ α → Prog (σ × γ) α
  | .ret a => .ret a
  | .act f k => .act (fun x => (f x.1, rule x.1 (f x.1) x.2)) fun x => (k x.1).watch rule

/-- the surroundings do not touch the ghost -/
def Beside (E : σ → σ → Prop) (x y : σ × γ) : Prop := E x.1 y.1 ∧ y.2 = x.2

theorem watch_bind (p : Prog σ α) (k : α → Prog σ β) :
    (p >>= k).watch rule = p.watch rule >>= fun a => (k a).watch rule := by
  show (Prog.bind p k).watch rule = Prog.bind (p.watch rule) fun a => (k a).watch rule
  induction p with
  | ret a => rfl
  | act f j ih => exact congrArg (Prog.act _) (funext fun x => ih x.1)

theorem Beside.many {x y : σ × γ} (h : ReflTransGen (Beside E) x y) :
    ReflTransGen E x.1 y.1 ∧ y.2 = x.2 := by
  induction h with
  | refl => exact ⟨.refl, rfl⟩
  | tail _ hbc ih => exact ⟨ih.1.tail hbc.1, hbc.2.trans ih.2⟩

theorem Beside.of_many (g : γ) (h : ReflTransGen E s t) :
    ReflTransGen (Beside E) (s, g) (t, g) := by
  induction h with
  | refl => exact .refl
  | tail _ hbc ih => exact ih.tail ⟨hbc, rfl⟩

theorem Stable.beside {P : σ × γ → Prop} (h : ∀ g, Stable E fun s => P (s, g)) :
    Stable (Beside E) P := by
  rintro ⟨s, g⟩ ⟨t, g'⟩ ⟨hst, hg⟩ hs
  have hg' : g' = g := hg
  subst hg'
  exact h g' s t hst hs

/-- a program whose actions the ghost does not react to -/
theorem Wp.watched (hrule : ∀ s t g, I s → rule s t g = g) (h : p.Wp E I Q s) :
    (p.watch rule).Wp (Beside E) (fun x => I x.1) (fun a x => Q a x.1 ∧ x.2 = g) (s, g) := by
  induction p generalizing s with
  | ret a =>
    intro x hx
    obtain ⟨hst, hg⟩ := Beside.many hx
    exact ⟨h x.1 hst, hg⟩
  | act f k ih =>
    rintro ⟨t, g'⟩ hx
    obtain ⟨hst, hg⟩ := Beside.many hx
    have hg' : g' = g := hg
    subst hg'
    obtain ⟨hI, hk⟩ := h t hst
    refine ⟨hI, ?_⟩
    show ((k t).watch rule).Wp (Beside E) _ _ (f t, rule t (f t) g')
    rw [hrule t (f t) g' hI]
    exact ih t hk

/-- the ghost does not matter -/
theorem Wp.unwatched
    (h : (p.watch rule).Wp (Beside E) (fun x => I x.1) (fun a x => Q a x.1) (s, g)) :
    p.Wp E I Q s := by
  induction p generalizing s g with
  | ret a => exact fun t hst => h (t, g) (Beside.of_many g hst)
  | act f k ih =>
    intro t hst
    obtain ⟨hI, hk⟩ := h (t, g) (Beside.of_many g hst)
    exact ⟨hI, ih t hk⟩

end Prog

end Noxis
