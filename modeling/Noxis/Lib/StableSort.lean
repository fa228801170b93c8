import Mathlib.Data.List.Sort

/-!
# Sorting by insertion from the end

An element goes behind the last one that is not above it, and the elements come one after the other.
This is `List.insertionSort`, seen in a mirror.

* `stableSort r l`       the list that comes out;
* `stableSort_concat`    one element more;
* `stableSort_perm`, `stableSort_pairwise`   it is sorted;
* `stableSort_filter`    elements that are alike stay in their order.
-/

namespace Noxis

section
variable {α : Type*} (r : α → α → Prop) [DecidableRel r] {l : List α}

def stableSort (l : List α) : List α := (l.reverse.insertionSort fun a b => r b a).reverse

theorem stableSort_concat (l : List α) (x : α) : stableSort r (l ++ [x]) =
    (List.orderedInsert (fun a b => r b a) x (stableSort r l).reverse).reverse := by
  unfold stableSort
  rw [List.reverse_append, List.reverse_reverse]
  rfl

theorem stableSort_perm (l : List α) : (stableSort r l).Perm l :=
  (List.reverse_perm _).trans ((List.perm_insertionSort _ _).trans (List.reverse_perm l))

theorem stableSort_pairwise [Std.Total r] [IsTrans α r] (l : List α) : (stableSort r l).Pairwise r := by
  have htotal : Std.Total fun a b => r b a := ⟨fun a b => Std.Total.total b a⟩
  have htrans : IsTrans α fun a b => r b a := ⟨fun a b c hab hbc => IsTrans.trans c b a hbc hab⟩
  exact List.pairwise_reverse.mpr (List.pairwise_insertionSort (fun a b => r b a) _)

/-- **The sort is stable.** -/
theorem stableSort_filter {p : α → Bool} (hp : ∀ a ∈ l, ∀ b ∈ l, p a → p b → r a b) :
    (stableSort r l).filter p = l.filter p := by
  have hlen : ((stableSort r l).filter p).length = (l.filter p).length :=
    ((stableSort_perm r l).filter p).length_eq
  have hpair : (l.filter p).Pairwise r := by
    refine List.pairwise_of_forall_mem_list fun a ha b hb => ?_
    obtain ⟨ha', hpa⟩ := List.mem_filter.mp ha
    obtain ⟨hb', hpb⟩ := List.mem_filter.mp hb
    exact hp a ha' b hb' hpa hpb
  -- they stand in the mirrored list in this order
  have hsub : (l.filter p).Sublist (stableSort r l) := by
    refine List.reverse_sublist.mp ?_
    unfold stableSort
    rw [List.reverse_reverse]
    exact List.sublist_insertionSort (List.pairwise_reverse.mpr hpair)
      (List.reverse_sublist.mpr List.filter_sublist)
  have hfilter := hsub.filter p
  rw [List.filter_filter] at hfilter
  simp only [Bool.and_self] at hfilter
  exact (hfilter.eq_of_length hlen.symm).symm

end

end Noxis
