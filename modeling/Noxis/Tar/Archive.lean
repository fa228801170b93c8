import Noxis.Fs.Entries

/-!
# USTAR archives

What `untar` reads of a header are the strings at the offsets 0 and 124, the name and the size.

* `Archive c o ms`   the bytes `c` have, from `o` on, the members `ms` and a block of zeros
* `cstr_eq`          the string at an offset of the buffer
* `octal_digits`     the size that the digits stand for
-/

namespace Noxis.Tar
open Fs

/-- `sizeof(buf)` in `untar` -/
def CHUNK : Nat := SECTOR_SIZE * 16

/-- an `int` -/
def int (n : Int) : Int := n.bmod (2 ^ 32)

/-- the string at offset `o` of `buf`; one that does not end there is cut -/
def cstr (buf : Buffer) (o : Nat) : List Byte :=
  cString ((List.range (CHUNK - o)).map fun i => buf (o + i))

/-- `f_len = (f_len * 8) + (*p++ - '0')`, for all characters -/
def octal (p : List Byte) : Int := p.foldl (fun fLen c => int (fLen * 8 + (c.toInt - 48))) 0

/-! ## archives -/

/-- a regular file of an archive; the name has room for its 0 in a directory entry -/
structure Member where
  name : Name
  data : List Byte
  short : name.bytes.length ≤ 11
  fits : data.length ≤ 2048 * SECTOR_SIZE

/-- 11 octal digits -/
def digits (n : Nat) : List Byte :=
  (List.range 11).map fun i => BitVec.ofNat 8 (48 + n / 8 ^ (10 - i) % 8)

/-- the block `b` is a header of the member -/
structure Header (m : Member) (b : Buffer) : Prop where
  name : ∀ i < 100, b i = m.name.bytes.getD i 0
  size : ∀ i < 12, b (124 + i) = (digits m.data.length).getD i 0

/-- what a file takes in whole blocks -/
def blocks (n : Nat) : Nat := (n + 511) / 512 * 512

/-- **an archive** from `o` on, up to a block of zeros -/
def Archive (c : Nat → Byte) : Nat → List Member → Prop
  | o, [] => ∀ i < SECTOR_SIZE, c (o + i) = 0
  | o, m :: ms => Header m (fun i => c (o + i)) ∧
      (∀ i < m.data.length, c (o + SECTOR_SIZE + i) = m.data.getD i 0) ∧
      Archive c (o + SECTOR_SIZE + blocks m.data.length) ms

/-- where the block of zeros is, for an archive from `o` on -/
def endOf : Nat → List Member → Nat
  | o, [] => o
  | o, m :: ms => endOf (o + SECTOR_SIZE + blocks m.data.length) ms

theorem le_endOf (o : Nat) (ms : List Member) : o ≤ endOf o ms := by
  induction ms generalizing o with
  | nil => exact le_rfl
  | cons m ms ih => exact (by omega : o ≤ o + SECTOR_SIZE + blocks m.data.length).trans (ih _)

/-! ## strings -/

section
variable {buf : Buffer} {o n k : Nat} {l : List Byte}

/-- **A string of the buffer.** -/
theorem cstr_eq (h0 : 0 ∉ l) (hl : o + l.length < CHUNK)
    (hb : ∀ i ≤ l.length, buf (o + i) = l.getD i 0) :
    cstr buf o = l := by
  have hsplit : CHUNK - o = l.length + (CHUNK - o - l.length - 1 + 1) := by omega
  have hfront : ((List.range l.length).map fun i => buf (o + i)) = l := by
    apply List.ext_getElem
    · rw [List.length_map, List.length_range]
    · intro i h1 h2
      rw [List.getElem_map, List.getElem_range, hb i h2.le, List.getD_eq_getElem _ _ h2]
  have hend : buf (o + l.length) = 0 := by
    rw [hb _ le_rfl, List.getD_eq_default _ _ le_rfl]
  have hne : ∀ c ∈ l, decide (c ≠ 0) = true := by
    intro c hc
    exact decide_eq_true fun he => h0 (he ▸ hc)
  unfold cstr cString
  rw [hsplit, List.range_add, List.map_append, hfront, List.takeWhile_append_of_pos hne,
    List.range_succ_eq_map, List.map_cons, List.map_cons, Nat.add_zero, hend,
    List.takeWhile_cons_of_neg (by decide), List.append_nil]

theorem Header.cstr_name {m : Member} {b : Buffer} (h : Header m b)
    (hb : ∀ i < SECTOR_SIZE, buf i = b i) :
    cstr buf 0 = m.name.bytes := by
  have hshort := m.short
  refine cstr_eq m.name.noNul ?_ fun i hi => ?_
  · unfold CHUNK SECTOR_SIZE
    omega
  · rw [Nat.zero_add, hb i (by unfold SECTOR_SIZE; omega), h.name i (by omega)]

/-- a name has a first character -/
theorem Header.first {m : Member} {b : Buffer} (h : Header m b) (hb : ∀ i < SECTOR_SIZE, buf i = b i) :
    buf 0 ≠ 0 := by
  rw [hb 0 (by decide), h.name 0 (by decide)]
  exact m.name.pad_ne_zero

/-! ## sizes -/

theorem length_digits (n : Nat) : (digits n).length = 11 := by
  rw [digits, List.length_map, List.length_range]

theorem digit_toInt {d : Nat} (h : d < 8) : (BitVec.ofNat 8 (48 + d)).toInt = 48 + d := by
  rw [BitVec.toInt_ofNat']
  exact Int.bmod_eq_of_le (by omega) (by omega)

theorem digits_ne (n : Nat) : 0 ∉ digits n := by
  intro h
  obtain ⟨i, -, hi⟩ := List.mem_map.mp h
  have hd := digit_toInt (Nat.mod_lt (n / 8 ^ (10 - i)) (by decide : 0 < 8))
  rw [hi, show (0 : Byte).toInt = 0 from rfl] at hd
  omega

/-- the first `k` digits -/
theorem octal_take (hn : n < 2 ^ 31) (hk : k ≤ 11) :
    octal ((List.range k).map fun i => BitVec.ofNat 8 (48 + n / 8 ^ (10 - i) % 8)) =
      (n / 8 ^ (11 - k) : Nat) := by
  induction k with
  | zero =>
    have hzero : n / 8 ^ (11 - 0) = 0 := Nat.div_eq_of_lt (hn.trans (by decide))
    rw [hzero]
    rfl
  | succ k ih =>
    have hprev := ih (by omega)
    unfold octal at hprev ⊢
    rw [List.range_succ, List.map_append, List.foldl_append, hprev, List.map_singleton,
      List.foldl_cons, List.foldl_nil, digit_toInt (Nat.mod_lt _ (by decide))]
    have hpow : 11 - k = 10 - k + 1 := by omega
    have hdiv : n / 8 ^ (11 - k) = n / 8 ^ (10 - k) / 8 := by
      rw [hpow, Nat.pow_succ, Nat.div_div_eq_div_mul]
    have hle : n / 8 ^ (10 - k) ≤ n := Nat.div_le_self _ _
    have hnext : 11 - (k + 1) = 10 - k := by omega
    rw [hdiv, hnext]
    generalize n / 8 ^ (10 - k) = e at hle ⊢
    unfold int
    rw [Int.bmod_eq_of_le (by omega) (by omega)]
    omega

/-- **The digits of a size.** -/
theorem octal_digits (hn : n < 2 ^ 31) : octal (digits n) = n := by
  have h := octal_take hn (le_refl 11)
  rw [Nat.sub_self, Nat.pow_zero, Nat.div_one] at h
  exact h

theorem Header.octal_size {m : Member} {b : Buffer} (h : Header m b)
    (hb : ∀ i < SECTOR_SIZE, buf i = b i) : octal (cstr buf 124) = m.data.length := by
  have hfits := m.fits
  have hlen := length_digits m.data.length
  unfold SECTOR_SIZE at hfits
  have hstr : cstr buf 124 = digits m.data.length := by
    refine cstr_eq (digits_ne _) ?_ fun i hi => ?_
    · unfold CHUNK SECTOR_SIZE
      omega
    · rw [hb _ (by unfold SECTOR_SIZE; omega), h.size i (by omega)]
  rw [hstr, octal_digits (by omega)]

end

end Noxis.Tar
