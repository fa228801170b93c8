import Mathlib.Logic.Function.Basic
import Mathlib.Tactic.Common

/-!
# A stack that grows down in memory

Memory is a function from byte addresses to words; a push stores a word four bytes below the stack
pointer.

* `pushes mem sp ws`   memory after the words `ws` were pushed, the first one first;
* `pushes_get`         word `k` of them is found at `sp - 4 * (k + 1)`;
* `pushes_above`       nothing at or above `sp` changes, `pushes_below` nothing below the last word.
-/

namespace Noxis.PushDown

variable {ω : Type*}

def pushes (mem : Nat → ω) (sp : Nat) : List ω → Nat → ω
  | [] => mem
  | w :: ws => pushes (Function.update mem (sp - 4) w) (sp - 4) ws

theorem pushes_append (mem : Nat → ω) (sp : Nat) (us ws : List ω) :
    pushes mem sp (us ++ ws) = pushes (pushes mem sp us) (sp - 4 * us.length) ws := by
  induction us generalizing mem sp with
  | nil => rfl
  | cons u us ih =>
    show pushes (Function.update mem (sp - 4) u) (sp - 4) (us ++ ws) = _
    rw [ih, List.length_cons]
    have hsp : sp - 4 - 4 * us.length = sp - 4 * (us.length + 1) := by omega
    rw [hsp]
    rfl

theorem pushes_above (mem : Nat → ω) {sp a : Nat} (ws : List ω) (h : 4 * ws.length ≤ sp)
    (ha : sp ≤ a) : pushes mem sp ws a = mem a := by
  induction ws generalizing mem sp with
  | nil => rfl
  | cons w ws ih =>
    rw [List.length_cons] at h
    show pushes (Function.update mem (sp - 4) w) (sp - 4) ws a = mem a
    rw [ih _ (by omega) (by omega)]
    exact Function.update_of_ne (by omega) _ _

theorem pushes_below (mem : Nat → ω) {sp a : Nat} (ws : List ω) (h : a < sp - 4 * ws.length) :
    pushes mem sp ws a = mem a := by
  induction ws generalizing mem sp with
  | nil => rfl
  | cons w ws ih =>
    rw [List.length_cons] at h
    show pushes (Function.update mem (sp - 4) w) (sp - 4) ws a = mem a
    rw [ih _ (by omega)]
    exact Function.update_of_ne (by omega) _ _

/-- an address outside `[sp - 4 * ws.length, sp)` -/
theorem pushes_outside (mem : Nat → ω) {sp a : Nat} (ws : List ω) (h : 4 * ws.length ≤ sp)
    (ha : a < sp - 4 * ws.length ∨ sp ≤ a) : pushes mem sp ws a = mem a := by
  rcases ha with ha | ha
  · exact pushes_below mem ws ha
  · exact pushes_above mem ws h ha

theorem pushes_get (mem : Nat → ω) {sp : Nat} (ws : List ω) (h : 4 * ws.length ≤ sp) (k : Nat)
    (w : ω) (hk : ws[k]? = some w) : pushes mem sp ws (sp - 4 * (k + 1)) = w := by
  induction ws generalizing mem sp k with
  | nil => simp at hk
  | cons u ws ih =>
    rw [List.length_cons] at h
    cases k with
    | zero =>
      obtain rfl : u = w := by simpa using hk
      show pushes (Function.update mem (sp - 4) u) (sp - 4) ws (sp - 4 * (0 + 1)) = u
      rw [pushes_above _ ws (by omega) (by omega)]
      simp
    | succ k =>
      have hk' : ws[k]? = some w := by simpa using hk
      have hsp : sp - 4 * (k + 1 + 1) = sp - 4 - 4 * (k + 1) := by omega
      rw [hsp]
      exact ih _ (by omega) k hk'

end Noxis.PushDown
