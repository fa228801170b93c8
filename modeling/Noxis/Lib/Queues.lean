import Noxis.Lib.Chain
import Mathlib.Data.Fintype.Card

/-!
# A family of queues threaded through one link field

Each `d : α` has a queue, with the head `head d`; all queues share the links `next`; `waits p` is the
owner of the queue in which `p` stands.  `Queues waits head next Q` says that `Q d` is the queue of
`d`: finite, without duplicates, of exactly the `p` that wait for `d`.

* `Queues.push`     a new element stands behind the last one;
* `Queues.pop`      the first element leaves;
* `Queues.unlink`   an element from the middle leaves;
* `Queues.lastOf_some`, `Queues.findFrom_mem`   what the loops over a queue find;
* `Queues.duplicate_iff`, `Queues.forget_iff`   what happens to the queues when an element becomes a
                    copy of another one, or stops waiting without leaving its queue.
-/

namespace Noxis

variable {α : Type*}

structure Queues (waits head next : α → Option α) (Q : α → List α) : Prop where
  chain : ∀ d, Chain next (head d) (Q d)
  nodup : ∀ d, (Q d).Nodup
  mem : ∀ p d, p ∈ Q d ↔ waits p = some d

section
variable {waits head next : α → Option α} {Q : α → List α} {a b d p s : α} {l l₁ l₂ : List α}

theorem Queues.empty (hw : ∀ p, waits p = none) (hh : ∀ d, head d = none) :
    Queues waits head next fun _ => [] :=
  ⟨fun d => hh d, fun _ => List.nodup_nil,
    fun p d => ⟨fun h => (nomatch h), fun h => by rw [hw p] at h; cases h⟩⟩

theorem Queues.head_none (h : Queues waits head next Q) : head d = none ↔ Q d = [] := by
  have hc := h.chain d
  constructor
  · intro hd
    rw [hd, Chain.nil_iff] at hc
    exact hc
  · intro hd
    rw [hd] at hc
    exact hc

theorem Queues.head_some (h : Queues waits head next Q) (hd : head d = some a) :
    ∃ l, Q d = a :: l := by
  have hc := h.chain d
  rw [hd] at hc
  obtain ⟨l, hl, -⟩ := hc.cons_of_some
  exact ⟨l, hl⟩

/-- an element stands in one queue only -/
theorem Queues.not_mem (h : Queues waits head next Q) {d' : α} (hp : p ∈ Q d) (hd : d' ≠ d) :
    p ∉ Q d' := by
  intro hp'
  rw [h.mem] at hp hp'
  rw [hp] at hp'
  cases hp'
  exact hd rfl

/-- nobody waits for `d` -/
theorem Queues.nil_iff (h : Queues waits head next Q) : Q d = [] ↔ ∀ q, waits q ≠ some d := by
  rw [List.eq_nil_iff_forall_not_mem]
  exact forall_congr' fun q => not_congr (h.mem q d)

/-- no queue is longer than the type, and its last element is found -/
theorem Queues.lastOf_some [Fintype α] (h : Queues waits head next Q) (hd : head d = some a)
    {n : Nat} (hn : Fintype.card α ≤ n) : ∃ l b, Q d = l ++ [b] ∧ lastOf next n a = some b := by
  obtain ⟨l₀, hl₀⟩ := h.head_some hd
  have hne : Q d ≠ [] := by
    rw [hl₀]
    exact List.cons_ne_nil _ _
  have hlb : Q d = (Q d).dropLast ++ [(Q d).getLast hne] :=
    (List.dropLast_append_getLast hne).symm
  have hc := h.chain d
  have hle := (h.nodup d).length_le_card
  rw [hlb, hd] at hc
  rw [hlb, List.length_append, List.length_singleton] at hle
  exact ⟨_, _, hlb, lastOf_chain n hc (by omega)⟩

/-- an element is found, behind the one before it -/
theorem Queues.findFrom_mem [Fintype α] [DecidableEq α] (h : Queues waits head next Q)
    (hp : p ∈ Q d) {n : Nat} (hn : Fintype.card α ≤ n) :
    ∃ l₁ l₂, Q d = l₁ ++ p :: l₂ ∧ p ∉ l₁ ∧
      findFrom next p n none (head d) = some (l₁.getLast?, some p) := by
  obtain ⟨l₁, l₂, hl⟩ := List.append_of_mem hp
  have hc := h.chain d
  have hnd := h.nodup d
  have hle := hnd.length_le_card
  rw [hl] at hc hnd
  rw [hl, List.length_append, List.length_cons] at hle
  have hl₁ : p ∉ l₁ := fun hm =>
    (List.nodup_append.mp hnd).2.2 p hm p (List.mem_cons_self ..) rfl
  have hfind := findFrom_chain n none hc hl₁ (by omega)
  rw [Option.or_none] at hfind
  exact ⟨l₁, l₂, hl, hl₁, hfind⟩

variable [DecidableEq α]

/-- the first element of an empty queue -/
theorem Queues.pushFirst (h : Queues waits head next Q) (hs : waits s = none) (hd : Q d = []) :
    Queues (Function.update waits s (some d)) (Function.update head d (some s))
      (Function.update next s none) (Function.update Q d [s]) := by
  have hno : ∀ d, s ∉ Q d := fun d hm => by
    rw [h.mem, hs] at hm
    cases hm
  refine ⟨fun d' => ?_, fun d' => ?_, fun p d' => ?_⟩
  · by_cases hd' : d' = d
    · subst hd'
      rw [Function.update_self, Function.update_self]
      exact Chain.single
    · rw [Function.update_of_ne hd', Function.update_of_ne hd']
      exact (h.chain d').congr fun x hx => Function.update_of_ne (fun e : x = s => hno d' (e ▸ hx)) ..
  · by_cases hd' : d' = d
    · subst hd'
      rw [Function.update_self]
      exact List.nodup_singleton s
    · rw [Function.update_of_ne hd']
      exact h.nodup d'
  · by_cases hps : p = s
    · subst hps
      rw [Function.update_self]
      by_cases hd' : d' = d
      · subst hd'
        rw [Function.update_self]
        exact ⟨fun _ => rfl, fun _ => List.mem_singleton_self p⟩
      · rw [Function.update_of_ne hd']
        exact ⟨fun hm => absurd hm (hno d'), fun hm => by cases hm; exact absurd rfl hd'⟩
    · rw [Function.update_of_ne hps, ← h.mem]
      by_cases hd' : d' = d
      · subst hd'
        rw [Function.update_self, hd]
        simp [hps]
      · rw [Function.update_of_ne hd']

/-- a new element stands behind the last one, `b` -/
theorem Queues.push (h : Queues waits head next Q) (hs : waits s = none) (hd : Q d = l ++ [b]) :
    Queues (Function.update waits s (some d)) head
      (Function.update (Function.update next b (some s)) s none)
      (Function.update Q d (Q d ++ [s])) := by
  have hno : ∀ d, s ∉ Q d := fun d hm => by
    rw [h.mem, hs] at hm
    cases hm
  have hb : b ∈ Q d := by rw [hd]; simp
  refine ⟨fun d' => ?_, fun d' => ?_, fun p d' => ?_⟩
  · by_cases hd' : d' = d
    · subst hd'
      rw [Function.update_self, hd]
      have hc := h.chain d'
      have hn := h.nodup d'
      have hs' := hno d'
      rw [hd] at hc hn hs'
      exact hc.push hn hs'
    · rw [Function.update_of_ne hd']
      refine (h.chain d').congr fun x hx => ?_
      have hxs : x ≠ s := fun e => hno d' (e ▸ hx)
      have hxb : x ≠ b := fun e => h.not_mem hb hd' (e ▸ hx)
      rw [Function.update_of_ne hxs, Function.update_of_ne hxb]
  · by_cases hd' : d' = d
    · subst hd'
      rw [Function.update_self]
      refine List.nodup_append.mpr ⟨h.nodup d', List.nodup_singleton s, ?_⟩
      intro x hx y hy e
      rw [List.mem_singleton.mp hy] at e
      exact hno d' (e ▸ hx)
    · rw [Function.update_of_ne hd']
      exact h.nodup d'
  · by_cases hps : p = s
    · subst hps
      rw [Function.update_self]
      by_cases hd' : d' = d
      · subst hd'
        rw [Function.update_self]
        exact ⟨fun _ => rfl, fun _ => by simp⟩
      · rw [Function.update_of_ne hd']
        exact ⟨fun hm => absurd hm (hno d'), fun hm => by cases hm; exact absurd rfl hd'⟩
    · rw [Function.update_of_ne hps, ← h.mem]
      by_cases hd' : d' = d
      · subst hd'
        rw [Function.update_self]
        simp [hps]
      · rw [Function.update_of_ne hd']

/-- what remains after `a` has left the queue of `d`: the members, whatever the links are -/
theorem Queues.leave (h : Queues waits head next Q) (ha : a ∈ Q d) {head' next' : α → Option α}
    (hc : Chain next' (head' d) ((Q d).erase a))
    (hh : ∀ d', d' ≠ d → head' d' = head d')
    (hn : ∀ x, x ≠ a → x ∉ Q d → next' x = next x) :
    Queues (Function.update waits a none) head' next' (Function.update Q d ((Q d).erase a)) := by
  refine ⟨fun d' => ?_, fun d' => ?_, fun p d' => ?_⟩
  · by_cases hd' : d' = d
    · subst hd'
      rw [Function.update_self]
      exact hc
    · rw [Function.update_of_ne hd', hh d' hd']
      refine (h.chain d').congr fun x hx => hn x ?_ ?_
      · rintro rfl
        exact h.not_mem ha hd' hx
      · intro hx'
        exact h.not_mem hx' hd' hx
  · by_cases hd' : d' = d
    · subst hd'
      rw [Function.update_self]
      exact (h.nodup d').erase a
    · rw [Function.update_of_ne hd']
      exact h.nodup d'
  · by_cases hpa : p = a
    · subst hpa
      rw [Function.update_self]
      constructor
      · intro hm
        by_cases hd' : d' = d
        · subst hd'
          rw [Function.update_self] at hm
          exact absurd hm (h.nodup d').not_mem_erase
        · rw [Function.update_of_ne hd'] at hm
          exact absurd hm (h.not_mem ha hd')
      · exact fun hm => (nomatch hm)
    · rw [Function.update_of_ne hpa, ← h.mem]
      by_cases hd' : d' = d
      · subst hd'
        rw [Function.update_self]
        exact List.mem_erase_of_ne hpa
      · rw [Function.update_of_ne hd']

/-- the first element leaves -/
theorem Queues.pop (h : Queues waits head next Q) (hd : Q d = a :: l) :
    Queues (Function.update waits a none) (Function.update head d (next a))
      (Function.update next a none) (Function.update Q d ((Q d).erase a)) := by
  have hc := h.chain d
  have hn := h.nodup d
  rw [hd] at hc hn
  refine h.leave (by rw [hd]; exact List.mem_cons_self ..) ?_
    (fun d' hd' => Function.update_of_ne hd' ..) (fun x hx _ => Function.update_of_ne hx ..)
  rw [Function.update_self, hd, List.erase_cons_head]
  exact hc.pop hn

/-- `a` leaves, `b` stands before it -/
theorem Queues.unlink (h : Queues waits head next Q) (hd : Q d = l₁ ++ b :: a :: l₂) :
    Queues (Function.update waits a none) head
      (Function.update (Function.update next b (next a)) a none)
      (Function.update Q d ((Q d).erase a)) := by
  have hc := h.chain d
  have hn := h.nodup d
  rw [hd] at hc hn
  have hb : b ∈ Q d := by rw [hd]; simp
  have he : (Q d).erase a = l₁ ++ b :: l₂ := by
    have hna : a ∉ l₁ ++ [b] := by
      intro hm
      rw [show l₁ ++ b :: a :: l₂ = (l₁ ++ [b]) ++ a :: l₂ by simp] at hn
      exact (List.nodup_append.mp hn).2.2 a hm a (List.mem_cons_self ..) rfl
    rw [hd, show l₁ ++ b :: a :: l₂ = (l₁ ++ [b]) ++ a :: l₂ by simp,
      List.erase_append_right _ hna, List.erase_cons_head]
    simp
  refine h.leave (by rw [hd]; simp) ?_ (fun _ _ => rfl) (fun x hx hxd => ?_)
  · rw [he]
    exact hc.unlink hn
  · have hxb : x ≠ b := fun e => hxd (e ▸ hb)
    rw [Function.update_of_ne hx, Function.update_of_ne hxb]

/-- **Duplicating a record.**  `c` waits for nobody and becomes a copy of `p`. -/
theorem Queues.duplicate_iff {c : α} (h : Queues waits head next Q) (hpc : p ≠ c)
    (hc : waits c = none) :
    (∃ Q', Queues (Function.update waits c (waits p)) (Function.update head c (head p))
      (Function.update next c (next p)) Q') ↔
    waits p = none ∧ ∀ q, waits q ≠ some p ∧ waits q ≠ some c := by
  constructor
  · rintro ⟨Q', h'⟩
    -- the two queues have the same head, so they have the same members
    have hQ : Q' p = Q' c := by
      have h1 := h'.chain p
      have h2 := h'.chain c
      rw [Function.update_of_ne hpc] at h1
      rw [Function.update_self] at h2
      exact h1.unique h2
    have hno : ∀ q, q ∉ Q' p := fun q hq => by
      have h1 := (h'.mem q p).mp hq
      have h2 := (h'.mem q c).mp (hQ ▸ hq)
      rw [h1] at h2
      cases h2
      exact hpc rfl
    refine ⟨?_, fun q => ⟨fun hq => hno q ?_, fun hq => hno q ?_⟩⟩
    · cases hd : waits p with
      | none => rfl
      | some d =>
        have h1 : p ∈ Q' d := (h'.mem p d).mpr ((Function.update_of_ne hpc ..).trans hd)
        have h2 : c ∈ Q' d := (h'.mem c d).mpr ((Function.update_self ..).trans hd)
        refine absurd ((h'.chain d).next_inj h1 h2 ?_) hpc
        rw [Function.update_of_ne hpc, Function.update_self]
    · have hqc : q ≠ c := by
        rintro rfl
        rw [hc] at hq
        cases hq
      exact (h'.mem q p).mpr ((Function.update_of_ne hqc ..).trans hq)
    · have hqc : q ≠ c := by
        rintro rfl
        rw [hc] at hq
        cases hq
      rw [hQ]
      exact (h'.mem q c).mpr ((Function.update_of_ne hqc ..).trans hq)
  · rintro ⟨hp, hq⟩
    have hhp : head p = none := h.head_none.mpr (h.nil_iff.mpr fun q => (hq q).1)
    have hhc : head c = none := h.head_none.mpr (h.nil_iff.mpr fun q => (hq q).2)
    refine ⟨Q, ?_⟩
    rw [hp, hhp, Function.update_eq_self_iff.mpr hc.symm, Function.update_eq_self_iff.mpr hhc.symm]
    refine ⟨fun d => (h.chain d).congr fun x hx => Function.update_of_ne ?_ .., h.nodup, h.mem⟩
    rintro rfl
    rw [h.mem, hc] at hx
    cases hx

/-- **Forgetting a record.**  `p` stops waiting, the links stay. -/
theorem Queues.forget_iff (h : Queues waits head next Q) :
    (∃ Q', Queues (Function.update waits p none) head next Q') ↔ waits p = none := by
  constructor
  · rintro ⟨Q', h'⟩
    cases hd : waits p with
    | none => rfl
    | some d =>
      have hp : p ∈ Q' d := by
        rw [(h'.chain d).unique (h.chain d)]
        exact (h.mem p d).mpr hd
      rw [h'.mem, Function.update_self] at hp
      cases hp
  · intro hp
    refine ⟨Q, ?_⟩
    rw [Function.update_eq_self_iff.mpr hp.symm]
    exact h

end

end Noxis
