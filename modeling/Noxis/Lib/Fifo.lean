import Mathlib.Logic.Relation
import Mathlib.Tactic.Common

/-!
# A queue of bounded length that drops

What is accepted waits until it is drained into a queue of at most `cap` elements; what is drained
while the queue is full is dropped.

* `Fifo.Drain`   something is accepted, or the first that waits is drained;
* `Fifo.Step`    or the first element of the queue is returned, or `none` from an empty queue;
* `Fifo.order`   **what is returned is what was accepted, in its order, less what was dropped**.
-/

namespace Noxis
open Relation

/-- a queue with its past: what was accepted and what was returned -/
structure Fifo (α : Type) where
  accepted : List α
  returned : List (Option α)
  queue : List α
  pending : List α

namespace Fifo

variable {α : Type} {cap : Nat} {a b : Fifo α}

def empty : Fifo α := ⟨[], [], [], []⟩

inductive Drain (cap : Nat) (a : Fifo α) : Fifo α → Prop
  | accept (x : α) :
      Drain cap a { a with accepted := a.accepted ++ [x], pending := a.pending ++ [x] }
  | keep {x : α} {l : List α} (first : a.pending = x :: l) (room : a.queue.length < cap) :
      Drain cap a { a with queue := a.queue ++ [x], pending := l }
  | drop {x : α} {l : List α} (first : a.pending = x :: l) (full : a.queue.length = cap) :
      Drain cap a { a with pending := l }

inductive Step (cap : Nat) (a : Fifo α) : Fifo α → Prop
  | drain {b : Fifo α} (h : Drain cap a b) : Step cap a b
  | recv {x : α} {l : List α} (first : a.queue = x :: l) :
      Step cap a { a with queue := l, returned := a.returned ++ [some x] }
  | none (empty : a.queue = []) : Step cap a { a with returned := a.returned ++ [Option.none] }

/-- draining leaves the front of the queue and what was returned -/
theorem Drain.keeps (h : ReflTransGen (Drain cap) a b) :
    a.queue <+: b.queue ∧ b.returned = a.returned := by
  induction h with
  | refl => exact ⟨List.prefix_refl _, rfl⟩
  | tail _ h ih =>
    obtain ⟨hq, hr⟩ := ih
    cases h with
    | accept x => exact ⟨hq, hr⟩
    | keep _ _ => exact ⟨hq.trans (List.prefix_append _ _), hr⟩
    | drop _ _ => exact ⟨hq, hr⟩

theorem Drain.steps (h : ReflTransGen (Drain cap) a b) : ReflTransGen (Step cap) a b :=
  ReflTransGen.mono (fun _ _ h => .drain h) _ _ h

/-- **In order**: the elements that are returned or in the queue are among those that were drained. -/
theorem order (h : ReflTransGen (Step cap) empty a) :
    ∃ drained, a.accepted = drained ++ a.pending ∧
      (a.returned.filterMap id ++ a.queue).Sublist drained := by
  induction h with
  | refl => exact ⟨[], rfl, List.Sublist.refl _⟩
  | @tail b c _ h ih =>
    obtain ⟨drained, hacc, hsub⟩ := ih
    cases h with
    | drain h =>
      cases h with
      | accept x =>
        refine ⟨drained, ?_, hsub⟩
        show b.accepted ++ [x] = drained ++ (b.pending ++ [x])
        rw [hacc, List.append_assoc]
      | @keep x l first room =>
        refine ⟨drained ++ [x], ?_, ?_⟩
        · show b.accepted = drained ++ [x] ++ l
          rw [hacc, first, List.append_assoc]
          rfl
        · show (b.returned.filterMap id ++ (b.queue ++ [x])).Sublist (drained ++ [x])
          rw [← List.append_assoc]
          exact hsub.append (List.Sublist.refl _)
      | @drop x l first full =>
        refine ⟨drained ++ [x], ?_, hsub.trans (List.sublist_append_left _ _)⟩
        show b.accepted = drained ++ [x] ++ l
        rw [hacc, first, List.append_assoc]
        rfl
    | @recv x l first =>
      refine ⟨drained, hacc, ?_⟩
      show ((b.returned ++ [some x]).filterMap id ++ l).Sublist drained
      rw [first] at hsub
      rw [List.filterMap_append, List.append_assoc]
      exact hsub
    | none empty =>
      refine ⟨drained, hacc, ?_⟩
      show ((b.returned ++ [none]).filterMap id ++ b.queue).Sublist drained
      rw [List.filterMap_append]
      show ((b.returned.filterMap id ++ []) ++ b.queue).Sublist drained
      rw [List.append_nil]
      exact hsub

end Fifo

end Noxis
