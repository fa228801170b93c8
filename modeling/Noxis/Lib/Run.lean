import Mathlib.Logic.Function.Basic
import Mathlib.Tactic.Common

/-!
# Runs of a labelled transition system

A system is a step relation `step : σ → ε → σ → Prop` on states `σ` with events `ε`.

* `Always step P s es`    along the run `es` from `s`, every step meets `P`;
* `Through step P s es`   the run is possible, and every step of it meets `P`;
* `Before step Q s es`    along the run, the state before every event meets `Q`;
* `exec f s es`           the run of a step FUNCTION `f : σ → ε → Option σ`.

`Always.of_inv` is the rule with an invariant, `Always.of_inv_if` the one with an invariant that only
survives steps which meet a condition; the `congr` and `iff` rules compare two properties that agree
wherever an invariant holds.  `exec_inv` is the invariant rule for a run that was executed.
-/

namespace Noxis.Run

variable {σ ε : Type*} {step : σ → ε → σ → Prop}

/-- along the run `es` from `s` every step meets `P`; the run stops at an event that is not
possible -/
def Always (step : σ → ε → σ → Prop) (P : σ → ε → σ → Prop) : σ → List ε → Prop
  | _, [] => True
  | s, e :: es => ∀ t, step s e t → P s e t ∧ Always step P t es

/-- an invariant that survives every step, and gives `P` there -/
theorem Always.of_inv {I : σ → Prop} {P : σ → ε → σ → Prop}
    (h : ∀ s e t, I s → step s e t → P s e t ∧ I t) (es : List ε) :
    ∀ s, I s → Always step P s es := by
  induction es with
  | nil => intro s _; trivial
  | cons e es ih =>
    intro s hs t ht
    obtain ⟨hp, hI⟩ := h s e t hs ht
    exact ⟨hp, ih t hI⟩

/-- an invariant that survives the steps which meet `Q`, and gives `P` there -/
theorem Always.of_inv_if {I : σ → Prop} {P Q : σ → ε → σ → Prop}
    (h : ∀ s e t, I s → step s e t → Q s e t → P s e t ∧ I t) (es : List ε) :
    ∀ s, I s → Always step Q s es → Always step P s es := by
  induction es with
  | nil => intro s _ _; trivial
  | cons e es ih =>
    intro s hs hq t ht
    obtain ⟨hq0, hqr⟩ := hq t ht
    obtain ⟨hp, hI⟩ := h s e t hs ht hq0
    exact ⟨hp, ih t hI hqr⟩

/-- two step properties that agree wherever the invariant holds, when the invariant survives the
steps that meet them -/
theorem Always.iff_of_inv {I : σ → Prop} {P Q : σ → ε → σ → Prop}
    (hPQ : ∀ s e t, I s → step s e t → (P s e t ↔ Q s e t))
    (hI : ∀ s e t, I s → step s e t → Q s e t → I t) (es : List ε) :
    ∀ s, I s → (Always step P s es ↔ Always step Q s es) := by
  induction es with
  | nil => intro s _; exact Iff.rfl
  | cons e es ih =>
    intro s hs
    constructor
    · intro h t ht
      obtain ⟨hp, hr⟩ := h t ht
      have hq := (hPQ s e t hs ht).mp hp
      exact ⟨hq, (ih t (hI s e t hs ht hq)).mp hr⟩
    · intro h t ht
      obtain ⟨hq, hr⟩ := h t ht
      exact ⟨(hPQ s e t hs ht).mpr hq, (ih t (hI s e t hs ht hq)).mpr hr⟩

/-- two step properties along a run whose steps keep an invariant because they meet `R` -/
theorem Always.congr_inv_of {I : σ → Prop} {P Q R : σ → ε → σ → Prop}
    (hPQ : ∀ s e t, I s → step s e t → R s e t → (P s e t ↔ Q s e t))
    (hI : ∀ s e t, I s → step s e t → R s e t → I t) (es : List ε) :
    ∀ s, I s → Always step R s es → (Always step P s es ↔ Always step Q s es) := by
  induction es with
  | nil => intro s _ _; exact Iff.rfl
  | cons e es ih =>
    intro s hs hr
    constructor
    · intro h t ht
      have hi := hI s e t hs ht (hr t ht).1
      exact ⟨(hPQ s e t hs ht (hr t ht).1).mp (h t ht).1, (ih t hi (hr t ht).2).mp (h t ht).2⟩
    · intro h t ht
      have hi := hI s e t hs ht (hr t ht).1
      exact ⟨(hPQ s e t hs ht (hr t ht).1).mpr (h t ht).1, (ih t hi (hr t ht).2).mpr (h t ht).2⟩

/-- what holds of every event of the run holds at every step -/
theorem Always.with_events {E : ε → Prop} {P : σ → ε → σ → Prop} (es : List ε) (hE : ∀ e ∈ es, E e) :
    ∀ s, Always step P s es → Always step (fun s e t => E e ∧ P s e t) s es := by
  induction es with
  | nil => intro s _; trivial
  | cons e es ih =>
    intro s h t ht
    obtain ⟨hp, hr⟩ := h t ht
    exact ⟨⟨hE e List.mem_cons_self, hp⟩, ih (fun x hx => hE x (List.mem_cons_of_mem _ hx)) t hr⟩

/-! ## runs whose steps have to be possible -/

/-- the whole run `es` is possible from `s`, and every step meets `P` -/
def Through (step : σ → ε → σ → Prop) (P : σ → ε → σ → Prop) : σ → List ε → Prop
  | _, [] => True
  | s, e :: es => ∃ t, step s e t ∧ P s e t ∧ Through step P t es

/-- before every event of the run the state meets `Q` -/
def Before (step : σ → ε → σ → Prop) (Q : σ → ε → Prop) : σ → List ε → Prop
  | _, [] => True
  | s, e :: es => Q s e ∧ ∀ t, step s e t → Before step Q t es

/-- where the invariant holds, an event is possible and meets `P` exactly if the state meets `Q` -/
theorem Through.iff_of_inv {I : σ → Prop} {P : σ → ε → σ → Prop} {Q : σ → ε → Prop}
    (hdet : ∀ s e t u, step s e t → step s e u → t = u)
    (hPQ : ∀ s e, I s → ((∃ t, step s e t ∧ P s e t) ↔ Q s e))
    (hI : ∀ s e t, I s → step s e t → P s e t → I t) (es : List ε) :
    ∀ s, I s → (Through step P s es ↔ Before step Q s es) := by
  induction es with
  | nil => intro s _; exact Iff.rfl
  | cons e es ih =>
    intro s hs
    constructor
    · rintro ⟨t, ht, hp, hr⟩
      refine ⟨(hPQ s e hs).mp ⟨t, ht, hp⟩, fun u hu => ?_⟩
      obtain rfl := hdet s e t u ht hu
      exact (ih t (hI s e t hs ht hp)).mp hr
    · rintro ⟨hq, hr⟩
      obtain ⟨t, ht, hp⟩ := (hPQ s e hs).mpr hq
      exact ⟨t, ht, hp, (ih t (hI s e t hs ht hp)).mpr (hr t ht)⟩

/-- where the invariant holds and the state meets `Q`, the event is possible, meets `P` and keeps the
invariant -/
theorem Through.of_before {I : σ → Prop} {P : σ → ε → σ → Prop} {Q : σ → ε → Prop}
    (h : ∀ s e, I s → Q s e → ∃ t, step s e t ∧ P s e t ∧ I t) (es : List ε) :
    ∀ s, I s → Before step Q s es → Through step P s es := by
  induction es with
  | nil => intro s _ _; trivial
  | cons e es ih =>
    rintro s hs ⟨hq, hr⟩
    obtain ⟨t, ht, hp, hI⟩ := h s e hs hq
    exact ⟨t, ht, hp, ih t hI (hr t ht)⟩

/-! ## systems given by a step function -/

/-- the state after the events `es`, `none` if one of them is not possible -/
def exec (f : σ → ε → Option σ) : σ → List ε → Option σ
  | s, [] => some s
  | s, e :: es => (f s e).bind fun t => exec f t es

/-- the step relation of a step function -/
def stepOf (f : σ → ε → Option σ) (s : σ) (e : ε) (t : σ) : Prop := f s e = some t

instance Always.decidable (f : σ → ε → Option σ) (P : σ → ε → σ → Prop)
    [∀ s e t, Decidable (P s e t)] : ∀ s es, Decidable (Always (stepOf f) P s es)
  | _, [] => isTrue trivial
  | s, e :: es =>
    match h : f s e with
    | none => isTrue fun t ht => by cases h.symm.trans ht
    | some t =>
      have := Always.decidable f P t es
      decidable_of_iff (P s e t ∧ Always (stepOf f) P t es)
        ⟨fun hp u hu => by cases h.symm.trans hu; exact hp, fun hp => hp t h⟩

theorem exec_cons {f : σ → ε → Option σ} {s t : σ} {e : ε} {es : List ε}
    (h : exec f s (e :: es) = some t) : ∃ u, f s e = some u ∧ exec f u es = some t := by
  simpa [exec, Option.bind_eq_some_iff] using h

theorem exec_append {f : σ → ε → Option σ} (es es' : List ε) (s : σ) :
    exec f s (es ++ es') = (exec f s es).bind fun t => exec f t es' := by
  induction es generalizing s with
  | nil => rfl
  | cons e es ih =>
    show ((f s e).bind fun t => exec f t (es ++ es')) = ((f s e).bind fun t => exec f t es).bind _
    rw [Option.bind_assoc]
    exact Option.bind_congr fun t _ => ih t

/-- an invariant that survives the events of a run -/
theorem exec_inv {f : σ → ε → Option σ} {I : σ → Prop} (es : List ε) {s t : σ}
    (hstep : ∀ s e t, e ∈ es → I s → f s e = some t → I t) (hs : I s)
    (h : exec f s es = some t) : I t := by
  induction es generalizing s with
  | nil =>
    cases h
    exact hs
  | cons e es ih =>
    obtain ⟨u, hu, hr⟩ := exec_cons h
    exact ih (fun s x t hx => hstep s x t (List.mem_cons_of_mem _ hx))
      (hstep s e u (List.mem_cons_self ..) hs hu) hr

/-- a step property that fails at the end of an executed run fails along the run; `bad` is a test
that shows the failure -/
theorem Always.not_of_exec {f : σ → ε → Option σ} {P : σ → ε → σ → Prop} (es : List ε) {s : σ}
    {e : ε} (bad : σ → σ → Bool) (hbad : ∀ t u, f t e = some u → bad t u = true → ¬ P t e u)
    (h : ((exec f s es).any fun t => (f t e).any (bad t)) = true) :
    ¬ Always (stepOf f) P s (es ++ [e]) := by
  induction es generalizing s with
  | nil =>
    have h' : ((f s e).any (bad s)) = true := h
    obtain ⟨u, hu, hb⟩ := (Option.any_eq_true _ _).mp h'
    exact fun ha => hbad s u hu hb (ha u hu).1
  | cons x es ih =>
    show ¬ ∀ t, f s x = some t → P s x t ∧ Always (stepOf f) P t (es ++ [e])
    cases hx : f s x with
    | none => simp [exec, hx] at h
    | some t =>
      simp only [exec, hx, Option.bind_some] at h
      exact fun ha => ih h (ha t rfl).2

end Noxis.Run
