import Mathlib.Logic.Function.Basic
import Mathlib.Data.List.Basic
import Mathlib.Data.List.Nodup
import Mathlib.Tactic.Common

/-!
# Singly linked queues

A queue is a head and a link from each of its elements to the one behind it, `next : α → Option α`.

* `Chain next h l`     from the head `h` the links lead through exactly the elements of `l`;
* `lastOf`             the loop that walks to the last element;
* `findFrom`           the loop that looks for an element and remembers the one before it;
* `Chain.push`, `Chain.pop`, `Chain.unlink`   adding behind the last element, taking the first one,
                       taking one from the middle.

The loops have fuel; `lastOf_chain` and `findFrom_chain` say how much is enough.
-/

namespace Noxis

variable {α : Type*}

/-- from `h`, the links lead through exactly the elements of `l` -/
def Chain (next : α → Option α) : Option α → List α → Prop
  | h, [] => h = none
  | h, a :: l => h = some a ∧ Chain next (next a) l

section
variable {next next' : α → Option α} {h : Option α} {a b : α} {l l' : List α}

theorem Chain.congr (hn : ∀ x ∈ l, next' x = next x) (hc : Chain next h l) : Chain next' h l := by
  induction l generalizing h with
  | nil => exact hc
  | cons x l ih =>
    refine ⟨hc.1, ?_⟩
    rw [hn x (List.mem_cons_self ..)]
    exact ih (fun y hy => hn y (List.mem_cons_of_mem _ hy)) hc.2

theorem Chain.unique (hc : Chain next h l) (hc' : Chain next h l') : l = l' := by
  induction l generalizing h l' with
  | nil =>
    cases l' with
    | nil => rfl
    | cons b l' =>
      have h1 : h = none := hc
      have h2 := hc'.1
      rw [h1] at h2
      cases h2
  | cons a l ih =>
    cases l' with
    | nil =>
      have h1 : h = none := hc'
      have h2 := hc.1
      rw [h1] at h2
      cases h2
    | cons b l' =>
      have h1 := hc.1.symm.trans hc'.1
      cases h1
      rw [ih hc.2 hc'.2]

theorem Chain.nil_iff : Chain next none l ↔ l = [] := by
  cases l with
  | nil => exact ⟨fun _ => rfl, fun _ => rfl⟩
  | cons a l => exact ⟨fun hc => (nomatch hc.1), fun hc => (nomatch hc)⟩

theorem Chain.cons_of_some (hc : Chain next (some a) l) :
    ∃ l', l = a :: l' ∧ Chain next (next a) l' := by
  cases l with
  | nil => cases hc
  | cons b l' =>
    have hb := hc.1
    cases hb
    exact ⟨l', rfl, hc.2⟩

/-- the links after an element in the middle -/
theorem Chain.tail_append {l₁ : List α} (hc : Chain next h (l₁ ++ a :: l)) :
    Chain next (next a) l := by
  induction l₁ generalizing h with
  | nil => exact hc.2
  | cons x l₁ ih => exact ih hc.2

/-- two elements with the same link are the same -/
theorem Chain.next_inj (hc : Chain next h l) (ha : a ∈ l) (hb : b ∈ l) (hn : next a = next b) :
    a = b := by
  obtain ⟨l₁, l₂, hl⟩ := List.append_of_mem ha
  obtain ⟨m₁, m₂, hm⟩ := List.append_of_mem hb
  have h1 : Chain next (next a) l₂ := (hl ▸ hc).tail_append
  have h2 : Chain next (next b) m₂ := (hm ▸ hc).tail_append
  rw [hn] at h1
  have h12 := h1.unique h2
  subst h12
  obtain ⟨-, he⟩ := List.append_inj' (hl.symm.trans hm) rfl
  cases he
  rfl

/-! ## the loops -/

/-- `while (p->next) p = p->next;` -/
def lastOf (next : α → Option α) : Nat → α → Option α
  | 0, _ => none
  | n + 1, a =>
    match next a with
    | none => some a
    | some b => lastOf next n b

theorem lastOf_chain (n : Nat) (hc : Chain next (some a) (l ++ [b])) (hn : l.length < n) :
    lastOf next n a = some b := by
  induction n generalizing a l with
  | zero => omega
  | succ n ih =>
    rw [lastOf]
    cases l with
    | nil =>
      have ha := hc.1
      cases ha
      have hb : next b = none := hc.2
      rw [hb]
    | cons x l =>
      have ha := hc.1
      cases ha
      have hrest : Chain next (next a) (l ++ [b]) := hc.2
      cases hx : next a with
      | none =>
        rw [hx, Chain.nil_iff] at hrest
        simp at hrest
      | some y =>
        rw [hx] at hrest
        exact ih hrest (by simpa using hn)

variable [DecidableEq α]

/-- `while (p) { if (p == t) break; prev = p; p = p->next; }`: `prev` and `p` at the end -/
def findFrom (next : α → Option α) (t : α) :
    Nat → Option α → Option α → Option (Option α × Option α)
  | 0, _, _ => none
  | _ + 1, prev, none => some (prev, none)
  | n + 1, prev, some p => if p = t then some (prev, some p) else findFrom next t n (some p) (next p)

theorem findFrom_chain {t : α} {l₁ l₂ : List α} (n : Nat) (prev : Option α)
    (hc : Chain next h (l₁ ++ t :: l₂)) (ht : t ∉ l₁) (hn : l₁.length < n) :
    findFrom next t n prev h = some ((l₁.getLast?).or prev, some t) := by
  induction n generalizing l₁ h prev with
  | zero => omega
  | succ n ih =>
    cases l₁ with
    | nil =>
      have hh := hc.1
      subst hh
      simp [findFrom]
    | cons x l₁ =>
      have hh := hc.1
      subst hh
      have hx : x ≠ t := fun e => ht (e ▸ List.mem_cons_self ..)
      rw [findFrom, if_neg hx, ih (some x) hc.2 (fun hm => ht (List.mem_cons_of_mem _ hm))
        (by simpa using hn)]
      cases l₁ with
      | nil => rfl
      | cons y l₁ => simp [List.getLast?_cons]

/-! ## changing a queue -/

/-- a new element behind the last one -/
theorem Chain.push (hc : Chain next h (l ++ [b])) (hd : (l ++ [b]).Nodup) (ha : a ∉ l ++ [b]) :
    Chain (Function.update (Function.update next b (some a)) a none) h (l ++ [b] ++ [a]) := by
  induction l generalizing h with
  | nil =>
    have hab : b ≠ a := fun e => ha (by simp [e])
    refine ⟨hc.1, ?_, ?_⟩
    · rw [Function.update_of_ne hab, Function.update_self]
    · rw [Function.update_self]
      rfl
  | cons x l ih =>
    have hxa : x ≠ a := fun e => ha (by simp [e])
    have hxb : x ≠ b := by
      rintro rfl
      simp at hd
    refine ⟨hc.1, ?_⟩
    rw [Function.update_of_ne hxa, Function.update_of_ne hxb]
    exact ih hc.2 (List.nodup_cons.mp hd).2 fun hm => ha (List.mem_cons_of_mem _ hm)

/-- the first element of an empty queue -/
theorem Chain.single : Chain (Function.update next a none) (some a) [a] :=
  ⟨rfl, Function.update_self ..⟩

/-- the first element leaves -/
theorem Chain.pop (hc : Chain next h (a :: l)) (hd : (a :: l).Nodup) :
    Chain (Function.update next a none) (next a) l :=
  hc.2.congr fun x hx =>
    Function.update_of_ne (fun e : x = a => (List.nodup_cons.mp hd).1 (e ▸ hx)) ..

/-- an element in the middle leaves -/
theorem Chain.unlink {l₁ l₂ : List α} (hc : Chain next h (l₁ ++ b :: a :: l₂))
    (hd : (l₁ ++ b :: a :: l₂).Nodup) :
    Chain (Function.update (Function.update next b (next a)) a none) h (l₁ ++ b :: l₂) := by
  induction l₁ generalizing h with
  | nil =>
    have hba : b ≠ a := by
      rintro rfl
      simp at hd
    have hd2 := (List.nodup_cons.mp (List.nodup_cons.mp hd).2)
    have hb2 : b ∉ l₂ := fun hm => (List.nodup_cons.mp hd).1 (List.mem_cons_of_mem _ hm)
    refine ⟨hc.1, ?_⟩
    rw [Function.update_of_ne hba, Function.update_self]
    refine hc.2.2.congr fun x hx => ?_
    have hxa : x ≠ a := fun e => hd2.1 (e ▸ hx)
    have hxb : x ≠ b := fun e => hb2 (e ▸ hx)
    rw [Function.update_of_ne hxa, Function.update_of_ne hxb]
  | cons x l₁ ih =>
    have hx := (List.nodup_cons.mp hd).1
    have hxa : x ≠ a := fun e => hx (by simp [e])
    have hxb : x ≠ b := fun e => hx (by simp [e])
    refine ⟨hc.1, ?_⟩
    rw [Function.update_of_ne hxa, Function.update_of_ne hxb]
    exact ih hc.2 (List.nodup_cons.mp hd).2

end

end Noxis
