import Noxis.Lib.Bytes

/-!
# Slices of a list, and the numbers in them

* `slice l o n`    the `n` items from offset `o` on;
* `splice l o d`   the list with `d` in the place of as many items from `o` on;
* `le k v`, `ofLe` a number as `k` bytes, the least one first.
-/

namespace Noxis.Slice

/-! ## slices -/

section
variable {α : Type} {l d : List α} {o p n i : Nat}

def slice (l : List α) (o n : Nat) : List α := (l.drop o).take n

def splice (l : List α) (o : Nat) (d : List α) : List α := l.take o ++ d ++ l.drop (o + d.length)

theorem length_slice (h : o + n ≤ l.length) : (slice l o n).length = n := by
  rw [slice, List.length_take, List.length_drop]
  omega

theorem getElem?_slice : (slice l o n)[i]? = if i < n then l[o + i]? else none := by
  rw [slice, List.getElem?_take]
  split
  · rw [List.getElem?_drop]
  · rfl

theorem length_splice (h : o + d.length ≤ l.length) : (splice l o d).length = l.length := by
  rw [splice, List.length_append, List.length_append, List.length_take, List.length_drop]
  omega

theorem getElem?_splice (h : o + d.length ≤ l.length) :
    (splice l o d)[i]? = if o ≤ i ∧ i < o + d.length then d[i - o]? else l[i]? := by
  have hlen : (l.take o).length = o := by
    rw [List.length_take]
    omega
  rw [splice, List.append_assoc]
  by_cases hlt : i < o
  · rw [if_neg (by omega), List.getElem?_append_left (by omega), List.getElem?_take, if_pos hlt]
  · rw [List.getElem?_append_right (by omega), hlen]
    by_cases hin : i < o + d.length
    · rw [if_pos (by omega), List.getElem?_append_left (by omega)]
    · rw [if_neg (by omega), List.getElem?_append_right (by omega), List.getElem?_drop]
      congr 1
      omega

/-- the items that were put there -/
theorem slice_splice_self (h : o + d.length ≤ l.length) : slice (splice l o d) o d.length = d := by
  refine List.ext_getElem? fun i => ?_
  rw [getElem?_slice]
  split
  · rename_i hi
    rw [getElem?_splice h, if_pos (by omega), Nat.add_sub_cancel_left]
  · rename_i hi
    exact (List.getElem?_eq_none (by omega)).symm

/-- items in another place -/
theorem slice_splice_ne (h : o + d.length ≤ l.length) (hp : p + n ≤ o ∨ o + d.length ≤ p) :
    slice (splice l o d) p n = slice l p n := by
  refine List.ext_getElem? fun i => ?_
  rw [getElem?_slice, getElem?_slice]
  split
  · rw [getElem?_splice h, if_neg (by omega)]
  · rfl

/-- a slice within a slice that is the same in both lists -/
theorem slice_congr {l' : List α} (h : slice l o n = slice l' o n) (hp : o ≤ p) {k : Nat}
    (hk : p + k ≤ o + n) : slice l p k = slice l' p k := by
  refine List.ext_getElem? fun i => ?_
  rw [getElem?_slice, getElem?_slice]
  split
  · rename_i hi
    have hget := congrArg (fun m => m[p - o + i]?) h
    simp only [getElem?_slice] at hget
    rw [if_pos (by omega), if_pos (by omega)] at hget
    rwa [show o + (p - o + i) = p + i by omega] at hget
  · rfl

theorem slice_append (m : Nat) : slice l o n ++ slice l (o + n) m = slice l o (n + m) := by
  rw [slice, slice, slice, List.take_add, List.drop_drop]

theorem take_slice {k : Nat} (h : k ≤ n) : (slice l o n).take k = slice l o k := by
  rw [slice, slice, List.take_take, Nat.min_eq_left h]

/-- a slice of a slice -/
theorem slice_slice {k : Nat} (h : p + k ≤ n) : slice (slice l o n) p k = slice l (o + p) k := by
  refine List.ext_getElem? fun i => ?_
  by_cases hi : i < k
  · rw [getElem?_slice, if_pos hi, getElem?_slice, if_pos (by omega), getElem?_slice, if_pos hi,
      Nat.add_assoc]
  · rw [getElem?_slice, if_neg hi, getElem?_slice, if_neg hi]

end

/-! ## numbers -/

/-- the low `k` bytes of `v` -/
def le : Nat → Nat → List Byte
  | 0, _ => []
  | k + 1, v => BitVec.ofNat 8 v :: le k (v / 256)

def ofLe : List Byte → Nat
  | [] => 0
  | b :: l => b.toNat + 256 * ofLe l

theorem length_le (k v : Nat) : (le k v).length = k := by
  induction k generalizing v with
  | zero => rfl
  | succ k ih => rw [le, List.length_cons, ih]

/-- **Round trip of a number.** -/
theorem ofLe_le (k v : Nat) : ofLe (le k v) = v % 256 ^ k := by
  induction k generalizing v with
  | zero => rw [Nat.pow_zero, Nat.mod_one, le, ofLe]
  | succ k ih =>
    have hmul : 256 ^ (k + 1) = 256 * 256 ^ k := Nat.pow_succ'
    have hbyte : (BitVec.ofNat 8 v).toNat = v % 256 := BitVec.toNat_ofNat ..
    rw [le, ofLe, ih, hbyte, hmul, Nat.mod_mul]

theorem ofLe_le_of_lt {k v : Nat} (h : v < 256 ^ k) : ofLe (le k v) = v := by
  rw [ofLe_le, Nat.mod_eq_of_lt h]

theorem ofLe_lt (l : List Byte) : ofLe l < 256 ^ l.length := by
  induction l with
  | nil => exact Nat.one_pos
  | cons b l ih =>
    have hb := b.isLt
    rw [ofLe, List.length_cons, Nat.pow_succ]
    omega

end Noxis.Slice
