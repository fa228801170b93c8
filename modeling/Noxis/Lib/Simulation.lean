import Mathlib.Tactic.Common

/-!
# Simulation of labelled transition systems

A step relation `step : σ → ε → σ → Prop` on states `σ` with events `ε`.

* `Runs step s es t`      the events `es` lead from `s` to `t`;
* `Simulates st₁ st₂ R`   every step of the first system from a state related by `R` is a step of the
  second one with the same event, and the states are related again.

`Simulates.run` is the rule for whole runs.
-/

namespace Noxis.Sim

variable {σ τ ε : Type*} {step : σ → ε → σ → Prop} {step' : τ → ε → τ → Prop}

/-- the events `es` lead from one state to the other -/
def Runs (step : σ → ε → σ → Prop) : σ → List ε → σ → Prop
  | s, [], t => s = t
  | s, e :: es, t => ∃ u, step s e u ∧ Runs step u es t

/-- the second system can do what the first one does -/
def Simulates (step : σ → ε → σ → Prop) (step' : τ → ε → τ → Prop) (R : σ → τ → Prop) : Prop :=
  ∀ s e s' t, R s t → step s e s' → ∃ t', step' t e t' ∧ R s' t'

/-- **A simulation carries whole runs over.** -/
theorem Simulates.run {R : σ → τ → Prop} (h : Simulates step step' R) {es : List ε} {s s' : σ} {t : τ}
    (hR : R s t) (hr : Runs step s es s') : ∃ t', Runs step' t es t' ∧ R s' t' := by
  induction es generalizing s t with
  | nil =>
    obtain rfl : s = s' := hr
    exact ⟨t, rfl, hR⟩
  | cons e es ih =>
    obtain ⟨u, hu, hr⟩ := hr
    obtain ⟨w, hw, hRw⟩ := h s e u t hR hu
    obtain ⟨t', ht, hRt⟩ := ih hRw hr
    exact ⟨t', ⟨w, hw, ht⟩, hRt⟩

end Noxis.Sim
