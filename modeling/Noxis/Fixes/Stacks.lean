import Noxis.Fixes.Stub
import Mathlib.Data.Fintype.Card
import Mathlib.Data.Finset.Card

/-!
# 23-fixes: the task stacks

A slot gets its stack from the bump allocator the first time it is used and keeps it for ever.
`Stacks L H s` says so of a state: the stacks handed out follow one another from `H` on.  There are
at most 31 of them, so they stay clear of the kernel stack (`Stacks.apart`).
-/

namespace Noxis.Fixes

/-- the next page boundary -/
def pageUp (a : Nat) : Nat := if a % 0x1000 ≠ 0 then a - a % 0x1000 + 0x1000 else a

theorem pageUp_mod (a : Nat) : pageUp a % 0x1000 = 0 := by
  unfold pageUp; split <;> omega

theorem pageUp_self {a : Nat} (h : a % 0x1000 = 0) : pageUp a = a := by
  unfold pageUp; rw [if_neg (by omega)]

theorem kmalloc_page (a : Nat) (h : pageUp a + taskStackSize < 2 ^ 32) :
    kmalloc a taskStackSize true = (pageUp a, pageUp a + taskStackSize) := by
  have hp := h
  unfold pageUp taskStackSize at hp
  unfold kmalloc pageUp taskStackSize
  by_cases h0 : a % 0x1000 = 0
  · simp only [h0, bne_self_eq_false, Bool.and_false, Bool.false_eq_true, if_false, ne_eq,
      not_true_eq_false] at hp ⊢
    rw [Nat.mod_eq_of_lt hp]
  · have hb : (a % 0x1000 != 0) = true := by simpa using h0
    rw [if_pos h0] at hp ⊢
    simp only [hb, Bool.and_self, if_true]
    rw [Nat.mod_eq_of_lt (show a - a % 0x1000 + 0x1000 < 2 ^ 32 by omega), Nat.mod_eq_of_lt hp]

/-- the slots that own an allocated stack -/
def stackSlots (s : Sys) : Finset Slot :=
  Finset.univ.filter fun i => i ≠ 0 ∧ (s.tasks i).stackBase ≠ 0

theorem mem_stackSlots {s : Sys} {i : Slot} :
    i ∈ stackSlots s ↔ i ≠ 0 ∧ (s.tasks i).stackBase ≠ 0 := by simp [stackSlots]

theorem stackSlots_card_lt {s : Sys} {i : Slot} (h0 : i ≠ 0) (hi : i ∉ stackSlots s) :
    (stackSlots s).card < 31 := by
  have h : insert i (stackSlots s) ⊆ Finset.univ.erase 0 := by
    intro j hj
    rcases Finset.mem_insert.mp hj with rfl | hj
    · exact Finset.mem_erase.mpr ⟨h0, Finset.mem_univ _⟩
    · exact Finset.mem_erase.mpr ⟨(mem_stackSlots.mp hj).1, Finset.mem_univ _⟩
  have hc := Finset.card_le_card h
  rw [Finset.card_insert_of_notMem hi, Finset.card_erase_of_mem (Finset.mem_univ _)] at hc
  simp at hc
  omega

/-- the stacks `kmalloc` handed out follow one another from `H`, away from the kernel stack -/
structure Stacks (L : Layout) (H : Nat) (s : Sys) : Prop where
  next : pageUp s.freeMemAddr = H + taskStackSize * (stackSlots s).card
  range : ∀ i, i ∈ stackSlots s → H ≤ (s.tasks i).stackBase ∧
    (s.tasks i).stackBase + taskStackSize ≤ pageUp s.freeMemAddr
  disj : ∀ i j, i ≠ j → i ∈ stackSlots s → j ∈ stackSlots s →
    (s.tasks i).stackBase + taskStackSize ≤ (s.tasks j).stackBase ∨
    (s.tasks j).stackBase + taskStackSize ≤ (s.tasks i).stackBase
  pos : 0 < H
  bound : H + 31 * taskStackSize < 2 ^ 32
  kernel : L.kernelHi ≤ H ∨ H + 31 * taskStackSize ≤ L.kernelLo

section
variable {L : Layout} {H : Nat} {s s' : Sys}

theorem Stacks.congr (h : Stacks L H s)
    (hb : ∀ i, (s'.tasks i).stackBase = (s.tasks i).stackBase)
    (hf : s'.freeMemAddr = s.freeMemAddr) : Stacks L H s' := by
  have hs : stackSlots s' = stackSlots s := by
    ext i; rw [mem_stackSlots, mem_stackSlots, hb i]
  refine ⟨by rw [hf, hs, h.next], fun i hi => ?_, fun i j hij hi hj => ?_, h.pos, h.bound, h.kernel⟩
  · rw [hb i, hf]; exact h.range i (hs ▸ hi)
  · rw [hb i, hb j]; exact h.disj i j hij (hs ▸ hi) (hs ▸ hj)

theorem stackSlots_card_le (s : Sys) : (stackSlots s).card ≤ 31 := by
  have h : stackSlots s ⊆ Finset.univ.erase 0 := fun j hj =>
    Finset.mem_erase.mpr ⟨(mem_stackSlots.mp hj).1, Finset.mem_univ _⟩
  have hc := Finset.card_le_card h
  rw [Finset.card_erase_of_mem (Finset.mem_univ _)] at hc
  simpa using hc

/-- two stacks in use do not overlap -/
theorem Stacks.apart (h : Stacks L H s) {i j : Slot} (hij : i ≠ j)
    (hi : i ≠ 0 → (s.tasks i).stackBase ≠ 0) (hj : j ≠ 0 → (s.tasks j).stackBase ≠ 0) :
    stackHi L s i ≤ stackLo L s j ∨ stackHi L s j ≤ stackLo L s i := by
  have hcard := stackSlots_card_le s
  have hn := h.next
  have hk := h.kernel
  unfold stackHi stackLo taskStackSize at *
  by_cases h0 : i = 0
  · have hj0 : j ≠ 0 := fun e => hij (h0.trans e.symm)
    have hr := h.range j (mem_stackSlots.mpr ⟨hj0, hj hj0⟩)
    unfold taskStackSize at hr
    rw [if_pos h0, if_neg hj0, if_neg hj0, if_pos h0]
    omega
  · have hi' := mem_stackSlots.mpr ⟨h0, hi h0⟩
    by_cases h0' : j = 0
    · have hr := h.range i hi'
      unfold taskStackSize at hr
      rw [if_neg h0, if_pos h0', if_pos h0', if_neg h0]
      omega
    · rw [if_neg h0, if_neg h0', if_neg h0', if_neg h0]
      exact h.disj i j hij hi' (mem_stackSlots.mpr ⟨h0', hj h0'⟩)

/-- what `slotStack` does to a slot that may have no stack yet -/
structure SlotStackSpec (L : Layout) (H : Nat) (s : Sys) (slot : Slot) (stack : Nat) (s' : Sys) :
    Prop where
  stk : Stacks L H s'
  nonzero : stack ≠ 0
  base : (s'.tasks slot).stackBase = stack
  other : ∀ i, i ≠ slot → s'.tasks i = s.tasks i
  same : (s.tasks slot).stackBase ≠ 0 → stack = (s.tasks slot).stackBase
  cur : s'.currentTask = s.currentTask
  mem : s'.mem = s.mem

theorem slotStack_spec (h : Stacks L H s) {slot : Slot} (h0 : slot ≠ 0) :
    SlotStackSpec L H s slot (slotStack s slot).1 (slotStack s slot).2 := by
  unfold slotStack
  by_cases hb : (s.tasks slot).stackBase = 0
  · have hnew : slot ∉ stackSlots s := fun hm => (mem_stackSlots.mp hm).2 hb
    have hcard := stackSlots_card_lt h0 hnew
    have hn := h.next
    have hbd := h.bound
    have hp := h.pos
    have hfit : pageUp s.freeMemAddr + taskStackSize < 2 ^ 32 := by
      unfold taskStackSize at *; omega
    have hne : pageUp s.freeMemAddr ≠ 0 := by omega
    simp only [hb, ne_eq, not_true_eq_false, if_false, kmalloc_page _ hfit, hne]
    set s1 : Sys := { s with freeMemAddr := pageUp s.freeMemAddr + taskStackSize } with hs1
    set f : Task → Task := fun t => { t with stackBase := pageUp s.freeMemAddr } with hf
    have hup : pageUp (pageUp s.freeMemAddr + taskStackSize) = pageUp s.freeMemAddr + taskStackSize :=
      pageUp_self (by have := pageUp_mod s.freeMemAddr; unfold taskStackSize; omega)
    have hself : (s1.setTask slot f).tasks slot = f (s.tasks slot) := Sys.setTask_same ..
    have hoth : ∀ i, i ≠ slot → (s1.setTask slot f).tasks i = s.tasks i := fun i hi =>
      Sys.setTask_ne _ _ hi
    have hslots : stackSlots (s1.setTask slot f) = insert slot (stackSlots s) := by
      ext i
      rw [mem_stackSlots, Finset.mem_insert, mem_stackSlots]
      by_cases hi : i = slot
      · subst hi
        rw [hself]
        simp [hf, h0, hne]
      · rw [hoth i hi]
        simp [hi]
    have hbase : ((s1.setTask slot f).tasks slot).stackBase = pageUp s.freeMemAddr := by
      rw [hself]
    refine ⟨⟨?_, ?_, ?_, hp, hbd, h.kernel⟩, hne, hbase, hoth, fun hc => absurd hb hc, rfl, rfl⟩
    · rw [hslots, Finset.card_insert_of_notMem hnew]
      show pageUp (pageUp s.freeMemAddr + taskStackSize) = _
      rw [hup, hn, Nat.mul_succ]
      omega
    · intro i hi
      show _ ∧ _ ≤ pageUp (pageUp s.freeMemAddr + taskStackSize)
      rw [hup]
      by_cases hie : i = slot
      · subst hie
        rw [hbase]
        omega
      · rw [hoth i hie]
        rw [hslots] at hi
        have hr := h.range i ((Finset.mem_insert.mp hi).resolve_left hie)
        omega
    · have key : ∀ i, i ≠ slot → i ∈ stackSlots (s1.setTask slot f) →
          (s.tasks i).stackBase + taskStackSize ≤ pageUp s.freeMemAddr := by
        intro i hie hi
        rw [hslots] at hi
        exact (h.range i ((Finset.mem_insert.mp hi).resolve_left hie)).2
      intro i j hij hi hj
      by_cases hie : i = slot
      · have hje : j ≠ slot := fun e => hij (hie.trans e.symm)
        rw [hie, hbase, hoth j hje]
        exact .inr (key j hje hj)
      · by_cases hje : j = slot
        · rw [hje, hbase, hoth i hie]
          exact .inl (key i hie hi)
        · rw [hoth i hie, hoth j hje]
          rw [hslots] at hi hj
          exact h.disj i j hij ((Finset.mem_insert.mp hi).resolve_left hie)
            ((Finset.mem_insert.mp hj).resolve_left hje)
  · rw [if_pos hb]
    exact ⟨h, hb, rfl, fun i _ => rfl, fun _ => rfl, rfl, rfl⟩

end

end Noxis.Fixes
