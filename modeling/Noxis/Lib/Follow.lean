import Mathlib.Logic.Relation
import Mathlib.Logic.Function.Basic
import Mathlib.Data.Fintype.Card
import Mathlib.Tactic.Common

/-!
# Following a partial function

`next : α → Option α` is a graph in which no element has more than one edge.

* `Leads next a b`       from `a` the edges lead to `b`, over one or more;
* `Acyclic next`         no element leads to itself;
* `meets next t`         the loop that follows the edges until it meets `t` or comes to an end;
* `Acyclic.meets_iff`    without a cycle the loop ends, and says whether it led to `t`;
* `Acyclic.update_iff`   a new edge closes a cycle exactly if its end leads to its start.

The loop has fuel; as many turns as there are elements are enough.
-/

namespace Noxis
open Relation

variable {α : Type*}

def Leads (next : α → Option α) : α → α → Prop := TransGen fun a b => next a = some b

def Acyclic (next : α → Option α) : Prop := ∀ a, ¬ Leads next a a

section
variable {next next' : α → Option α} {a b t : α}

/-- the first edge -/
theorem leads_iff : Leads next a t ↔ ∃ b, next a = some b ∧ (b = t ∨ Leads next b t) := by
  unfold Leads
  rw [TransGen.head'_iff]
  refine exists_congr fun b => and_congr_right fun _ => ?_
  rw [reflTransGen_iff_eq_or_transGen, eq_comm]

theorem leads_none (h : next a = none) : ¬ Leads next a t := by
  intro hl
  obtain ⟨b, hb, -⟩ := leads_iff.mp hl
  rw [h] at hb
  cases hb

theorem leads_some (h : next a = some b) : Leads next a t ↔ b = t ∨ Leads next b t := by
  rw [leads_iff]
  constructor
  · rintro ⟨c, hc, hl⟩
    rw [h, Option.some.injEq] at hc
    rwa [hc]
  · intro hl
    exact ⟨b, h, hl⟩

theorem Acyclic.none : Acyclic fun _ : α => Option.none := fun _ h => leads_none rfl h

/-- edges that are taken away -/
theorem Acyclic.mono (h : Acyclic next) (hn : ∀ a b, next' a = some b → next a = some b) :
    Acyclic next' := fun a ha => h a (TransGen.mono hn a a ha)

variable [DecidableEq α]

theorem Acyclic.remove (h : Acyclic next) (a : α) : Acyclic (Function.update next a Option.none) := by
  refine h.mono fun x y hxy => ?_
  by_cases hx : x = a
  · rw [hx, Function.update_self] at hxy
    cases hxy
  · rwa [Function.update_of_ne hx] at hxy

/-! ## a new edge -/

/-- a way to `a` does without the edge of `a` -/
theorem leads_update (o : Option α) (hl : Leads next b a) (hb : b ≠ a) :
    Leads (Function.update next a o) b a := by
  induction hl using TransGen.head_induction_on with
  | single h =>
    refine TransGen.single ?_
    rwa [Function.update_of_ne hb]
  | head h _ ih =>
    rename_i x y _
    have hxy : Function.update next a o x = some y := by rwa [Function.update_of_ne hb]
    by_cases hy : y = a
    · rw [hy] at hxy
      exact TransGen.single hxy
    · exact TransGen.head hxy (ih hy)

/-- a way after the edge from `a` to `b` was added: it was there before, or it uses the edge -/
theorem leads_of_update {x y : α} (hl : Leads (Function.update next a (some b)) x y) :
    Leads next x y ∨ ReflTransGen (fun c d => next c = some d) x a ∧
      ReflTransGen (fun c d => next c = some d) b y := by
  induction hl with
  | single h =>
    by_cases hx : x = a
    · rw [hx, Function.update_self, Option.some.injEq] at h
      rw [hx, h]
      exact .inr ⟨.refl, .refl⟩
    · rw [Function.update_of_ne hx] at h
      exact .inl (TransGen.single h)
  | tail _ h ih =>
    rename_i y z _
    by_cases hy : y = a
    · rw [hy, Function.update_self, Option.some.injEq] at h
      rw [hy] at ih
      rw [← h]
      exact .inr ⟨ih.elim TransGen.to_reflTransGen And.left, .refl⟩
    · rw [Function.update_of_ne hy] at h
      rcases ih with hxy | ⟨hxa, hby⟩
      · exact .inl (TransGen.tail hxy h)
      · exact .inr ⟨hxa, hby.tail h⟩

/-- **A new edge.** -/
theorem Acyclic.update_iff (h : Acyclic next) (hab : a ≠ b) :
    Acyclic (Function.update next a (some b)) ↔ ¬ Leads next b a := by
  constructor
  · intro hac hl
    have hedge : Leads (Function.update next a (some b)) a b :=
      TransGen.single (Function.update_self ..)
    exact hac a (hedge.trans (leads_update (some b) hl hab.symm))
  · intro hno x hx
    rcases leads_of_update hx with hold | ⟨hxa, hbx⟩
    · exact h x hold
    · rcases reflTransGen_iff_eq_or_transGen.mp (hbx.trans hxa) with heq | hl
      · exact hab heq
      · exact hno hl

/-! ## the loop -/

/-- follow the edges until one leads to `t`; `none` when the fuel is used up -/
def meets (next : α → Option α) (t : α) : Nat → α → Option Bool
  | 0, _ => none
  | n + 1, a =>
    match next a with
    | none => some false
    | some b => if b = t then some true else meets next t n b

/-- the loop after some turns: the elements it came along are all different -/
theorem meets_from [Fintype α] (h : Acyclic next) (n : Nat) (seen : List α)
    (hseen : seen.Nodup) (hlead : ∀ x ∈ seen, Leads next x a)
    (hn : Fintype.card α < n + seen.length) :
    ∃ r, meets next t n a = some r ∧ (r = true ↔ Leads next a t) := by
  induction n generalizing a seen with
  | zero => exact absurd hseen.length_le_card (by omega)
  | succ n ih =>
    rw [meets]
    cases hb : next a with
    | none => exact ⟨false, rfl, iff_of_false Bool.false_ne_true (leads_none hb)⟩
    | some b =>
      simp only
      rw [leads_some hb]
      by_cases hbt : b = t
      · rw [if_pos hbt]
        exact ⟨true, rfl, iff_of_true rfl (.inl hbt)⟩
      · rw [if_neg hbt, or_iff_right hbt]
        have hedge : Leads next a b := TransGen.single hb
        refine ih (a :: seen) (List.nodup_cons.mpr ⟨fun ha => h a (hlead a ha), hseen⟩) ?_ ?_
        · intro x hx
          rcases List.mem_cons.mp hx with rfl | hx
          · exact hedge
          · exact (hlead x hx).trans hedge
        · rw [List.length_cons]
          omega

/-- **The loop ends**, and says whether it led to `t`. -/
theorem Acyclic.meets_iff [Fintype α] (h : Acyclic next) {n : Nat} (hn : Fintype.card α < n) :
    ∃ r, meets next t n a = some r ∧ (r = true ↔ Leads next a t) :=
  meets_from h n [] List.nodup_nil (fun _ hx => nomatch hx) hn

end

end Noxis
