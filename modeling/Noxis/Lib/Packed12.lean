import Noxis.Lib.Slice

/-!
# Numbers of 12 bits, two in three bytes

Entry `i` starts at byte `i * 3 / 2`; it is the low part of the word there if `i` is even, and the
high part if `i` is odd, so that two entries share a byte.

* `get l i`     entry `i`
* `set l i v`   the bytes with `v` for entry `i`
-/

namespace Noxis.Packed12

open Slice

variable {l : List Byte} {i j v : Nat}

def get (l : List Byte) (i : Nat) : Nat :=
  let pair := ofLe (slice l (i * 3 / 2) 2)
  if i % 2 = 1 then pair / 16 else pair % 4096

def set (l : List Byte) (i v : Nat) : List Byte :=
  let pair := ofLe (slice l (i * 3 / 2) 2)
  splice l (i * 3 / 2) (le 2 (if i % 2 = 1 then pair % 16 + 16 * v else pair / 4096 * 4096 + v))

theorem length_set (h : i * 3 / 2 + 2 ≤ l.length) : (set l i v).length = l.length := by
  unfold set
  exact length_splice (by rwa [length_le])

/-- the byte at an offset, 0 behind the end -/
def byte (l : List Byte) (k : Nat) : Nat := (l.getD k 0).toNat

theorem byte_lt (l : List Byte) (k : Nat) : byte l k < 256 := (l.getD k 0).isLt

theorem ofLe_pair (h : i + 2 ≤ l.length) : ofLe (slice l i 2) = byte l i + 256 * byte l (i + 1) := by
  have hpair : slice l i 2 = [l.getD i 0, l.getD (i + 1) 0] := by
    refine List.ext_getElem? fun k => ?_
    rw [getElem?_slice]
    rcases k with _ | _ | k
    · simp [show i < l.length by omega]
    · simp [show i + 1 < l.length by omega]
    · rfl
  rw [hpair]
  show (l.getD i 0).toNat + 256 * ((l.getD (i + 1) 0).toNat + 256 * 0) = _
  rfl

theorem byte_splice_pair {w : Nat} (h : i + 2 ≤ l.length) (k : Nat) :
    byte (splice l i (le 2 w)) k =
      if k = i then w % 256 else if k = i + 1 then w / 256 % 256 else byte l k := by
  unfold byte
  rw [List.getD_eq_getElem?_getD, getElem?_splice (by rwa [length_le]), length_le,
    List.getD_eq_getElem?_getD]
  by_cases h0 : k = i
  · subst h0
    rw [if_pos (by omega), if_pos rfl, Nat.sub_self]
    exact BitVec.toNat_ofNat ..
  · rw [if_neg h0]
    by_cases h1 : k = i + 1
    · subst h1
      rw [if_pos (by omega), if_pos rfl, Nat.add_sub_cancel_left]
      exact BitVec.toNat_ofNat ..
    · rw [if_neg h1, if_neg (by omega)]

theorem byte_fst {w : Nat} (h : i + 2 ≤ l.length) : byte (splice l i (le 2 w)) i = w % 256 := by
  rw [byte_splice_pair h, if_pos rfl]

theorem byte_snd {w : Nat} (h : i + 2 ≤ l.length) :
    byte (splice l i (le 2 w)) (i + 1) = w / 256 % 256 := by
  rw [byte_splice_pair h, if_neg (by omega), if_pos rfl]

theorem byte_other {w k : Nat} (h : i + 2 ≤ l.length) (h0 : k ≠ i) (h1 : k ≠ i + 1) :
    byte (splice l i (le 2 w)) k = byte l k := by
  rw [byte_splice_pair h, if_neg h0, if_neg h1]

/-- **What is set is got.** -/
theorem get_set_self (h : i * 3 / 2 + 2 ≤ l.length) (hv : v < 4096) : get (set l i v) i = v := by
  have hlen : i * 3 / 2 + 2 ≤ (set l i v).length := by rwa [length_set h]
  have h0 := byte_lt l (i * 3 / 2)
  have h1 := byte_lt l (i * 3 / 2 + 1)
  unfold get
  rw [ofLe_pair hlen]
  unfold set
  rw [byte_fst h, byte_snd h, ofLe_pair h]
  dsimp only
  split <;> omega

/-- **The other entries stay.** -/
theorem get_set_ne (h : i * 3 / 2 + 2 ≤ l.length) (hj : j * 3 / 2 + 2 ≤ l.length) (hv : v < 4096)
    (hne : j ≠ i) : get (set l i v) j = get l j := by
  have hlen : j * 3 / 2 + 2 ≤ (set l i v).length := by rwa [length_set h]
  have h0 := byte_lt l (i * 3 / 2)
  have h1 := byte_lt l (i * 3 / 2 + 1)
  unfold get
  rw [ofLe_pair hlen, ofLe_pair hj]
  unfold set
  -- only the two entries of the same three bytes share one
  by_cases hup : j * 3 / 2 + 1 = i * 3 / 2
  · have hj0 := byte_lt l (j * 3 / 2)
    rw [byte_other h (by omega) (by omega), hup, byte_fst h, ofLe_pair h]
    dsimp only
    rw [if_neg (by omega : ¬ j % 2 = 1), if_neg (by omega : ¬ j % 2 = 1),
      if_pos (by omega : i % 2 = 1)]
    omega
  · by_cases hdown : j * 3 / 2 = i * 3 / 2 + 1
    · have hj1 := byte_lt l (j * 3 / 2 + 1)
      rw [hdown, byte_snd h, byte_other h (by omega) (by omega), ofLe_pair h]
      dsimp only
      rw [if_pos (by omega : j % 2 = 1), if_pos (by omega : j % 2 = 1),
        if_neg (by omega : ¬ i % 2 = 1)]
      omega
    · rw [byte_other h (by omega) hdown, byte_other h hup (by omega)]

end Noxis.Packed12
