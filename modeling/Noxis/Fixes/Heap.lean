import Noxis.Lib.Run
import Noxis.Fixes.Stacks

/-!
# 23-fixes/libc/mem.c: the heap over any sequence of kmalloc calls

`Heap` is the bump pointer with the blocks that calls have handed out so far, `Heap.call` one call
of `kmalloc`.

* `Sound`            what a call owes: a non-zero result is a new block inside the heap, zero
                     leaves the allocator alone, and `cmd_mem` has not counted past `HEAP_SIZE`;
* `sound_iff_fits`   **it holds along a run exactly when every call of the run fits below the heap
                     end**, which `kmalloc` never looks at.
-/

namespace Noxis.Fixes

open Noxis.Run

def heapStart : Nat := 0x10000
def heapSize : Nat := 0x100000 - heapStart

/-- the arguments of a call; `align` is set when it is 1, the value the code compares it with -/
structure Request where
  size : Fin (2 ^ 32)
  align : Int

structure Block where
  addr : Nat
  size : Nat
  deriving DecidableEq, Repr

/-- no byte is in both -/
def Block.Disjoint (b c : Block) : Prop := b.addr + b.size ≤ c.addr ∨ c.addr + c.size ≤ b.addr

instance (b c : Block) : Decidable (b.Disjoint c) := inferInstanceAs (Decidable (_ ∨ _))

structure Heap where
  freeMemAddr : Nat
  /-- the non-zero results so far, the last one first -/
  blocks : List Block
  deriving DecidableEq, Repr

/-- before the first call -/
def Heap.boot : Heap := ⟨heapStart, []⟩

/-- what the call returns -/
def Heap.result (h : Heap) (q : Request) : Nat := (kmalloc h.freeMemAddr q.size (q.align == 1)).1

/-- `kmalloc (size, align, phys_addr)` -/
def Heap.call (h : Heap) (q : Request) : Option Heap :=
  let r := kmalloc h.freeMemAddr q.size (q.align == 1)
  some ⟨r.2, if r.1 = 0 then h.blocks else ⟨r.1, q.size⟩ :: h.blocks⟩

/-- `allocated` of `cmd_mem`, an unsigned difference -/
def Heap.allocated (h : Heap) : Nat := (h.freeMemAddr + 2 ^ 32 - heapStart) % 2 ^ 32

/-! ## what a call owes, and when it fits -/

/-- a block of the heap that no earlier block touches -/
structure NewBlock (h : Heap) (q : Request) (b : Block) : Prop where
  inside : heapStart ≤ b.addr ∧ b.addr + b.size ≤ heapStart + heapSize
  apart : ∀ c ∈ h.blocks, b.Disjoint c
  aligned : q.align = 1 → b.addr % 4096 = 0

/-- the call `q` that took `h` to `h'` -/
structure Sound (h : Heap) (q : Request) (h' : Heap) : Prop where
  block : h.result q ≠ 0 → NewBlock h q ⟨h.result q, q.size⟩
  refused : h.result q = 0 → h' = h
  counted : h'.allocated ≤ heapSize

/-- where the block would start -/
def Heap.top (h : Heap) (q : Request) : Nat :=
  if q.align = 1 then pageUp h.freeMemAddr else h.freeMemAddr

/-- the block ends at or below the heap end -/
def Fits (h : Heap) (q : Request) : Prop := h.top q + q.size ≤ heapStart + heapSize

/-! ## one call -/

/-- the pointer is in the heap and every block is below it -/
structure Heap.Inv (h : Heap) : Prop where
  low : heapStart ≤ h.freeMemAddr
  high : h.freeMemAddr ≤ heapStart + heapSize
  below : ∀ b ∈ h.blocks, b.addr + b.size ≤ h.freeMemAddr

theorem Heap.boot_inv : Heap.boot.Inv :=
  ⟨le_refl _, Nat.le_add_right _ _, fun _ hb => absurd hb List.not_mem_nil⟩

theorem le_pageUp (a : Nat) : a ≤ pageUp a := by unfold pageUp; split <;> omega

section
variable {h h' : Heap} {q : Request}

theorem Heap.top_low (h : Heap) (q : Request) : h.freeMemAddr ≤ h.top q := by
  unfold Heap.top
  split
  · exact le_pageUp _
  · exact le_refl _

/-- in the heap the alignment does not wrap -/
theorem Heap.Inv.kmalloc (hi : h.Inv) (q : Request) :
    kmalloc h.freeMemAddr q.size (q.align == 1) = (h.top q, (h.top q + q.size) % 2 ^ 32) := by
  have hh := hi.high
  unfold heapStart heapSize heapStart at hh
  unfold Fixes.kmalloc Heap.top pageUp
  by_cases ha : q.align = 1
  · by_cases h0 : h.freeMemAddr % 0x1000 = 0
    · simp [ha, h0]
    · simp only [ha, beq_self_eq_true, Bool.true_and, bne_iff_ne, ne_eq, h0, not_false_eq_true,
        if_true]
      rw [Nat.mod_eq_of_lt (a := _ - _ + _) (by omega)]
  · simp [ha]

theorem Heap.Inv.result (hi : h.Inv) (q : Request) : h.result q = h.top q := by
  unfold Heap.result
  rw [hi.kmalloc]

theorem Heap.Inv.result_ne (hi : h.Inv) (q : Request) : h.result q ≠ 0 := by
  have h1 := hi.low
  have h2 := h.top_low q
  rw [hi.result]
  unfold heapStart at h1
  omega

theorem Heap.Inv.call (hi : h.Inv) (hc : h.call q = some h') :
    h' = ⟨(h.top q + q.size) % 2 ^ 32, ⟨h.top q, q.size⟩ :: h.blocks⟩ := by
  have hne := hi.result_ne q
  rw [hi.result] at hne
  unfold Heap.call at hc
  rw [hi.kmalloc] at hc
  simp only [hne, if_false, Option.some.injEq] at hc
  exact hc.symm

/-- a call that fits moves the pointer to the end of its block -/
theorem Heap.Inv.free_of_fits (hi : h.Inv) (hc : h.call q = some h') (hf : Fits h q) :
    h'.freeMemAddr = h.top q + q.size := by
  unfold Fits heapStart heapSize heapStart at hf
  rw [hi.call hc]
  exact Nat.mod_eq_of_lt (by omega)

/-- and keeps the invariant -/
theorem Heap.Inv.of_fits (hi : h.Inv) (hc : h.call q = some h') (hf : Fits h q) : h'.Inv := by
  have hfree := hi.free_of_fits hc hf
  have htop := h.top_low q
  refine ⟨?_, ?_, ?_⟩
  · exact le_trans hi.low (by omega)
  · rw [hfree]
    exact hf
  · intro b hb
    rw [hfree]
    rw [hi.call hc] at hb
    rcases List.mem_cons.mp hb with rfl | hb
    · exact le_refl _
    · exact le_trans (hi.below b hb) (by omega)

theorem Heap.Inv.newBlock (hi : h.Inv) (hf : Fits h q) : NewBlock h q ⟨h.top q, q.size⟩ := by
  refine ⟨⟨?_, hf⟩, ?_, ?_⟩
  · exact le_trans hi.low (h.top_low q)
  · intro c hc
    exact .inr (le_trans (hi.below c hc) (h.top_low q))
  · intro ha
    show h.top q % 4096 = 0
    rw [Heap.top, if_pos ha]
    exact pageUp_mod _

theorem Heap.Inv.counted (hi : h.Inv) : h.allocated ≤ heapSize := by
  have h1 := hi.low
  have h2 := hi.high
  unfold Heap.allocated heapStart heapSize heapStart at *
  omega

/-- **one call is sound exactly when it fits**: the result is never zero here -/
theorem sound_call (hi : h.Inv) (hc : h.call q = some h') : Sound h q h' ↔ Fits h q := by
  constructor
  · intro hs
    have hb := hs.block (hi.result_ne q)
    rw [hi.result] at hb
    exact hb.inside.2
  · intro hf
    refine ⟨?_, ?_, (hi.of_fits hc hf).counted⟩
    · intro _
      rw [hi.result]
      exact hi.newBlock hf
    · intro h0
      exact absurd h0 (hi.result_ne q)

end

/-! ## the run -/

/-- **along every run of calls kmalloc hands out disjoint blocks inside the heap exactly when every
call fits below the heap end** -/
theorem sound_iff_fits (qs : List Request) :
    Always (stepOf Heap.call) Sound Heap.boot qs ↔
      Always (stepOf Heap.call) (fun h q _ => Fits h q) Heap.boot qs :=
  Always.iff_of_inv (I := Heap.Inv) (fun _ _ _ hi hc => sound_call hi hc)
    (fun _ _ _ hi hc hf => hi.of_fits hc hf) qs Heap.boot Heap.boot_inv

/-- one byte more than the heap has: **kmalloc returns the heap start, not 0** -/
theorem kmalloc_past_end : ¬ ∀ qs : List Request,
    Always (stepOf Heap.call) Sound Heap.boot qs := by
  intro h
  have hc : Heap.boot.call ⟨0xF0001, 0⟩ = some ⟨0x100001, [⟨0x10000, 0xF0001⟩]⟩ := by decide
  have hs := (h [⟨0xF0001, 0⟩] _ hc).1
  have hb := (hs.block (by decide)).inside.2
  exact absurd hb (by decide)

end Noxis.Fixes
