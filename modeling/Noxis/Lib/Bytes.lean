import Mathlib.Data.Nat.Bitwise
import Mathlib.Tactic.Common

/-!
# Buffers of bytes

A buffer is a function from offsets to bytes.

* `physCopy dst d src s n`   `n` bytes of `src` from offset `s` on go to `dst` at offset `d`;
* `get32`, `put32`           a little-endian word at an offset.
-/

namespace Noxis

abbrev Byte := BitVec 8

abbrev Buffer := Nat → Byte

def physCopy (dst : Buffer) (d : Nat) (src : Buffer) (s n : Nat) : Buffer := fun a =>
  if d ≤ a ∧ a < d + n then src (s + (a - d)) else dst a

/-- the word at offset `o` -/
def get32 (b : Buffer) (o : Nat) : Nat :=
  (b o).toNat + 256 * ((b (o + 1)).toNat + 256 * ((b (o + 2)).toNat + 256 * (b (o + 3)).toNat))

/-- the word `v` at offset `o` -/
def put32 (b : Buffer) (o v : Nat) : Buffer := fun a =>
  if o ≤ a ∧ a < o + 4 then BitVec.ofNat 8 (v / 256 ^ (a - o)) else b a

section
variable {b b' dst src : Buffer} {o o' a d s n v : Nat}

theorem physCopy_mem (h : a < n) : physCopy dst d src s n (d + a) = src (s + a) := by
  unfold physCopy
  rw [if_pos ⟨Nat.le_add_right .., Nat.add_lt_add_left h d⟩, Nat.add_sub_cancel_left]

theorem physCopy_not_mem (h : ¬ (d ≤ a ∧ a < d + n)) : physCopy dst d src s n a = dst a :=
  if_neg h

theorem put32_not_mem (h : ¬ (o ≤ a ∧ a < o + 4)) : put32 b o v a = b a := if_neg h

theorem put32_mem (h : a < 4) : put32 b o v (o + a) = BitVec.ofNat 8 (v / 256 ^ a) := by
  unfold put32
  rw [if_pos ⟨Nat.le_add_right .., Nat.add_lt_add_left h o⟩, Nat.add_sub_cancel_left]

theorem get32_lt (b : Buffer) (o : Nat) : get32 b o < 2 ^ 32 := by
  have h0 := (b o).isLt
  have h1 := (b (o + 1)).isLt
  have h2 := (b (o + 2)).isLt
  have h3 := (b (o + 3)).isLt
  unfold get32
  omega

/-- a word of the memory from `d` on -/
theorem get32_shift (b : Buffer) (d o : Nat) : get32 b (d + o) = get32 (fun a => b (d + a)) o := by
  unfold get32
  simp only [Nat.add_assoc]

/-- the same word at two places -/
theorem get32_eq {o' : Nat} (h : ∀ i < 4, b (o + i) = b' (o' + i)) : get32 b o = get32 b' o' := by
  unfold get32
  rw [show b o = b' o' from h 0 (by omega), h 1 (by omega), h 2 (by omega), h 3 (by omega)]

theorem get32_congr (h : ∀ i < 4, b (o + i) = b' (o + i)) : get32 b o = get32 b' o := get32_eq h

/-- **Round trip of a word.** -/
theorem get32_put32 (b : Buffer) (o v : Nat) : get32 (put32 b o v) o = v % 2 ^ 32 := by
  have h0 : put32 b o v o = BitVec.ofNat 8 (v / 256 ^ 0) := put32_mem (a := 0) (by omega)
  unfold get32
  rw [h0, put32_mem (a := 1) (by omega), put32_mem (a := 2) (by omega),
    put32_mem (a := 3) (by omega)]
  simp only [BitVec.toNat_ofNat]
  omega

theorem get32_put32_of_lt (h : v < 2 ^ 32) : get32 (put32 b o v) o = v := by
  rw [get32_put32, Nat.mod_eq_of_lt h]

/-- words that do not overlap -/
theorem get32_put32_ne (h : o' + 4 ≤ o ∨ o + 4 ≤ o') :
    get32 (put32 b o v) o' = get32 b o' := by
  refine get32_congr fun i hi => put32_not_mem ?_
  omega

end

end Noxis
