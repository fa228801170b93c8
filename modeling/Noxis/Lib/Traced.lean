import Mathlib.Tactic.Common

/-!
# Computations that leave a trace

A computation fails with an `ε` or has a result, and leaves what it touched, an `ι` each time.

* `Traced ι ε β`   a computation; it is a monad;
* `touch i`        leaves `i`;
* `lift x`         does `x`, and leaves nothing;
* `All P x`        everything that `x` leaves meets `P`.

`bind_result` forgets the trace; `all_bind` says what is left by one computation and the next.
-/

namespace Noxis

structure Traced (ι ε β : Type) where
  trace : List ι
  result : Except ε β

namespace Traced

variable {ι ε β γ : Type}

def bind (x : Traced ι ε β) (f : β → Traced ι ε γ) : Traced ι ε γ :=
  match x.result with
  | .ok b => ⟨x.trace ++ (f b).trace, (f b).result⟩
  | .error e => ⟨x.trace, .error e⟩

instance monad : Monad (Traced ι ε) where
  pure b := ⟨[], .ok b⟩
  bind := bind

def touch (i : ι) : Traced ι ε Unit := ⟨[i], .ok ()⟩

def lift (x : Except ε β) : Traced ι ε β := ⟨[], x⟩

def All (P : ι → Prop) (x : Traced ι ε β) : Prop := ∀ i ∈ x.trace, P i

instance decidableAll (P : ι → Prop) [DecidablePred P] (x : Traced ι ε β) : Decidable (x.All P) :=
  inferInstanceAs (Decidable (∀ i ∈ x.trace, P i))

variable {x : Traced ι ε β} {f : β → Traced ι ε γ} {P : ι → Prop}

theorem bind_result : (x >>= f).result = x.result >>= fun b => (f b).result := by
  show (x.bind f).result = _
  unfold bind
  cases x.result with
  | ok b => rfl
  | error e => rfl

theorem touch_result (i : ι) : (touch i : Traced ι ε Unit).result = .ok () := rfl

theorem lift_result (y : Except ε β) : (lift y : Traced ι ε β).result = y := rfl

/-- **What two computations leave**: the second one only if the first one has a result. -/
theorem all_bind : (x >>= f).All P ↔ x.All P ∧ ∀ b, x.result = .ok b → (f b).All P := by
  show (x.bind f).All P ↔ _
  unfold bind All
  cases x.result with
  | ok b =>
    rw [List.forall_mem_append]
    refine and_congr_right fun _ => ⟨fun h c hc => ?_, fun h => h b rfl⟩
    cases hc
    exact h
  | error e => exact ⟨fun h => ⟨h, fun b hb => nomatch hb⟩, And.left⟩

/-- the first one has the result `b`, and then the second one is `y` -/
theorem bind_result_ok {b : β} {y : Traced ι ε γ} (h : x.result = .ok b) (hf : f b = y) :
    (x >>= f).result = y.result := by
  rw [bind_result, h, ← hf]
  rfl

theorem all_bind_ok {b : β} (h : x.result = .ok b) :
    (x >>= f).All P ↔ x.All P ∧ (f b).All P := by
  rw [all_bind, h]
  refine and_congr_right fun _ => ⟨fun hf => hf b rfl, fun hf c hc => ?_⟩
  cases hc
  exact hf

theorem all_touch (i : ι) : (touch i : Traced ι ε Unit).All P ↔ P i := List.forall_mem_singleton

theorem all_lift (y : Except ε β) : (lift y : Traced ι ε β).All P := List.forall_mem_nil _

theorem all_pure (b : β) : (pure b : Traced ι ε β).All P := List.forall_mem_nil _

/-- `i` is touched first -/
theorem all_touch_bind {i : ι} {g : Unit → Traced ι ε γ} :
    (touch i >>= g).All P ↔ P i ∧ (g ()).All P := by
  rw [all_bind, all_touch]
  exact and_congr_right fun _ => ⟨fun h => h () rfl, fun h _ _ => h⟩

theorem all_lift_bind {y : Except ε β} : (lift y >>= f).All P ↔ ∀ b, y = .ok b → (f b).All P := by
  rw [all_bind]
  exact and_iff_right (all_lift y)

end Traced

end Noxis
