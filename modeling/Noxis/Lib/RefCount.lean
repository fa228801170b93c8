import Mathlib.Algebra.BigOperators.Group.Finset.Piecewise
import Mathlib.Logic.Function.Basic
import Mathlib.Data.Fintype.Basic
import Mathlib.Tactic.Common

/-!
# Reference counts on two levels

Slots point to descriptors, and a descriptor points to an object.  A descriptor counts the slots
that point to it; an object counts those of all its descriptors, and the references that are held
without a descriptor.

* `Table.Exact t held`   all counts are exact, `held o` references to `o` being held
* `Exact.hold`           a reference is taken
* `Exact.attach`         a held reference goes into a fresh descriptor
* `Exact.share`          one more slot for a descriptor
* `Exact.drop`           one slot less; a descriptor without slots is free
-/

namespace Noxis.RefCount

structure Table (S D O : Type) where
  slot : S → Option D
  cnt : D → Nat
  target : D → Option O
  refs : O → Nat

variable {S D O : Type} [Fintype S] [Fintype D] [DecidableEq S] [DecidableEq D] [DecidableEq O]

/-- the slots that point to a descriptor -/
def users (slot : S → Option D) (d : D) : Nat := (Finset.univ.filter fun s => slot s = some d).card

/-- what the descriptors of an object count -/
def shares (cnt : D → Nat) (target : D → Option O) (o : O) : Nat :=
  ∑ d, if target d = some o then cnt d else 0

/-- **all counts are exact**, and a descriptor is in use exactly when it points to an object -/
structure Table.Exact (t : Table S D O) (held : O → Nat) : Prop where
  cnt : ∀ d, t.cnt d = users t.slot d
  refs : ∀ o, t.refs o = shares t.cnt t.target o + held o
  free : ∀ d, t.target d = none ↔ t.cnt d = 0

/-! ## sums -/

/-- a sum after one of its terms has changed -/
theorem sum_update {ι α : Type} [Fintype ι] [DecidableEq ι] (g : ι → α) (f : ι → α → Nat) (i : ι)
    (v : α) : (∑ j, f j (Function.update g i v j)) + f i (g i) = (∑ j, f j (g j)) + f i v := by
  rw [← Finset.add_sum_erase Finset.univ _ (Finset.mem_univ i),
    ← Finset.add_sum_erase Finset.univ (fun j => f j (g j)) (Finset.mem_univ i)]
  have hrest : ∑ j ∈ Finset.univ.erase i, f j (Function.update g i v j) =
      ∑ j ∈ Finset.univ.erase i, f j (g j) := by
    refine Finset.sum_congr rfl fun j hj => ?_
    rw [Function.update_of_ne (Finset.ne_of_mem_erase hj)]
  rw [hrest, Function.update_self]
  omega

omit [Fintype D] in
theorem users_update (slot : S → Option D) (s : S) (v : Option D) (d : D) :
    users (Function.update slot s v) d + (if slot s = some d then 1 else 0) =
      users slot d + if v = some d then 1 else 0 := by
  unfold users
  rw [Finset.card_filter, Finset.card_filter]
  exact sum_update slot (fun _ w => if w = some d then 1 else 0) s v

theorem shares_update (cnt : D → Nat) (target : D → Option O) (d : D) (n : Nat) (v : Option O)
    (o : O) : shares (Function.update cnt d n) (Function.update target d v) o +
      (if target d = some o then cnt d else 0) =
        shares cnt target o + if v = some o then n else 0 := by
  have h := sum_update (fun d => (target d, cnt d)) (fun _ w => if w.1 = some o then w.2 else 0) d
    (v, n)
  have hpair : ∀ e, (Function.update target d v e, Function.update cnt d n e) =
      Function.update (fun d => (target d, cnt d)) d (v, n) e := by
    intro e
    by_cases he : e = d
    · rw [he, Function.update_self, Function.update_self, Function.update_self]
    · rw [Function.update_of_ne he, Function.update_of_ne he, Function.update_of_ne he]
  unfold shares
  simp only [← hpair] at h
  exact h

theorem shares_cnt_update (cnt : D → Nat) (target : D → Option O) (d : D) (n : Nat) (o : O) :
    shares (Function.update cnt d n) target o + (if target d = some o then cnt d else 0) =
      shares cnt target o + if target d = some o then n else 0 := by
  have h := shares_update cnt target d n (target d) o
  rwa [Function.update_eq_self] at h

/-! ## operations -/

variable {slot : S → Option D} {cnt : D → Nat} {target : D → Option O} {refs held : O → Nat}
  {s : S} {d : D} {o : O}

omit [DecidableEq S] in
theorem Table.Exact.hold (h : Table.Exact ⟨slot, cnt, target, refs⟩ held) (o : O) :
    Table.Exact ⟨slot, cnt, target, Function.update refs o (refs o + 1)⟩
      (Function.update held o (held o + 1)) := by
  refine ⟨h.cnt, fun p => ?_, h.free⟩
  have hp := h.refs p
  by_cases he : p = o
  · subst he
    simp only [Function.update_self] at hp ⊢
    omega
  · simp only [Function.update_of_ne he] at hp ⊢
    exact hp

theorem Table.Exact.attach (h : Table.Exact ⟨slot, cnt, target, refs⟩ held) (hs : slot s = none)
    (hd : target d = none) (ho : 0 < held o) :
    Table.Exact ⟨Function.update slot s (some d), Function.update cnt d 1,
      Function.update target d (some o), refs⟩ (Function.update held o (held o - 1)) := by
  have hcnt : cnt d = 0 := (h.free d).mp hd
  refine ⟨fun e => ?_, fun p => ?_, fun e => ?_⟩
  · have hu := users_update slot s (some d) e
    have he := h.cnt e
    rw [hs, if_neg nofun] at hu
    by_cases hed : e = d
    · subst hed
      rw [if_pos rfl] at hu
      simp only [Function.update_self] at he ⊢
      omega
    · rw [if_neg fun heq => hed (Option.some.inj heq).symm] at hu
      simp only [Function.update_of_ne hed] at he ⊢
      omega
  · have hsh := shares_update cnt target d 1 (some o) p
    have hp := h.refs p
    rw [hd, if_neg nofun] at hsh
    simp only at hp ⊢
    by_cases hpo : p = o
    · subst hpo
      rw [if_pos rfl] at hsh
      rw [Function.update_self]
      omega
    · rw [if_neg fun heq => hpo (Option.some.inj heq).symm] at hsh
      rw [Function.update_of_ne hpo]
      omega
  · by_cases hed : e = d
    · subst hed
      simp only [Function.update_self]
      exact iff_of_false nofun (by omega)
    · simp only [Function.update_of_ne hed]
      exact h.free e

theorem Table.Exact.share (h : Table.Exact ⟨slot, cnt, target, refs⟩ held) (hs : slot s = none)
    (hd : target d = some o) :
    Table.Exact ⟨Function.update slot s (some d), Function.update cnt d (cnt d + 1), target,
      Function.update refs o (refs o + 1)⟩ held := by
  refine ⟨fun e => ?_, fun p => ?_, fun e => ?_⟩
  · have hu := users_update slot s (some d) e
    have he := h.cnt e
    rw [hs, if_neg nofun] at hu
    by_cases hed : e = d
    · subst hed
      rw [if_pos rfl] at hu
      simp only [Function.update_self] at he ⊢
      omega
    · rw [if_neg fun heq => hed (Option.some.inj heq).symm] at hu
      simp only [Function.update_of_ne hed] at he ⊢
      omega
  · have hsh := shares_cnt_update cnt target d (cnt d + 1) p
    have hp := h.refs p
    rw [hd] at hsh
    simp only at hp ⊢
    by_cases hpo : p = o
    · subst hpo
      rw [if_pos rfl, if_pos rfl] at hsh
      rw [Function.update_self]
      omega
    · have hne : ¬ some o = some p := fun heq => hpo (Option.some.inj heq).symm
      rw [if_neg hne, if_neg hne] at hsh
      rw [Function.update_of_ne hpo]
      omega
  · have hfree := h.free e
    simp only at hfree ⊢
    by_cases hed : e = d
    · subst hed
      rw [hd, Function.update_self]
      exact iff_of_false nofun (by omega)
    · rw [Function.update_of_ne hed]
      exact hfree

theorem Table.Exact.drop (h : Table.Exact ⟨slot, cnt, target, refs⟩ held) (hs : slot s = some d)
    (hd : target d = some o) :
    Table.Exact ⟨Function.update slot s none, Function.update cnt d (cnt d - 1),
      Function.update target d (if cnt d - 1 = 0 then none else some o),
      Function.update refs o (refs o - 1)⟩ held := by
  have hcnt : 0 < cnt d := by
    rw [Nat.pos_iff_ne_zero]
    intro h0
    have hnone : target d = none := (h.free d).mpr h0
    rw [hd] at hnone
    cases hnone
  refine ⟨fun e => ?_, fun p => ?_, fun e => ?_⟩
  · have hu := users_update slot s none e
    have he := h.cnt e
    rw [hs, if_neg (c := none = some e) nofun] at hu
    by_cases hed : e = d
    · subst hed
      rw [if_pos rfl] at hu
      simp only [Function.update_self] at he ⊢
      omega
    · rw [if_neg fun heq => hed (Option.some.inj heq).symm] at hu
      simp only [Function.update_of_ne hed] at he ⊢
      omega
  · have hsh := shares_update cnt target d (cnt d - 1) (if cnt d - 1 = 0 then none else some o) p
    have hp := h.refs p
    rw [hd] at hsh
    simp only at hp ⊢
    by_cases hpo : p = o
    · subst hpo
      rw [if_pos rfl] at hsh
      rw [Function.update_self]
      by_cases h0 : cnt d - 1 = 0
      · rw [if_pos h0, if_neg nofun] at hsh
        rw [if_pos h0]
        omega
      · rw [if_neg h0, if_pos rfl] at hsh
        rw [if_neg h0]
        omega
    · have hne : ¬ some o = some p := fun heq => hpo (Option.some.inj heq).symm
      have hne' : ¬ (if cnt d - 1 = 0 then none else some o) = some p := by
        by_cases h0 : cnt d - 1 = 0
        · rw [if_pos h0]
          exact nofun
        · rwa [if_neg h0]
      rw [if_neg hne, if_neg hne'] at hsh
      rw [Function.update_of_ne hpo]
      omega
  · by_cases hed : e = d
    · subst hed
      simp only [Function.update_self]
      by_cases h0 : cnt e - 1 = 0
      · rw [if_pos h0]
        exact iff_of_true rfl h0
      · rw [if_neg h0]
        exact iff_of_false nofun h0
    · simp only [Function.update_of_ne hed]
      exact h.free e

end Noxis.RefCount
