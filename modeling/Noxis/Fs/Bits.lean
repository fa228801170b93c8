import Noxis.Fs.Map

/-!
# Bit maps on the disk

A map is a row of sectors with 4096 bits each.

* `mapBit d base k`         bit `k` of the map that starts at sector `base`
* `putBit d base v k`       the disk with this bit set or cleared
* `putBits d base v k n`    the disk with the `n` bits from `k` on set or cleared

`alloc_imap_bit` is one `putBit` (`allocImapBit_bit`).
-/

namespace Noxis.Fs

def mapBit (d : Disk) (base k : Nat) : Bool := (d (base + k / 4096) (k % 4096 / 8)).getLsbD (k % 8)

def putBit (d : Disk) (base : Nat) (v : Bool) (k : Nat) : Disk := fun t o =>
  if t = base + k / 4096 ∧ o = k % 4096 / 8 then
    if v then setBit (d t o) (k % 8) else clearBit (d t o) (k % 8)
  else d t o

def putBits (d : Disk) (base : Nat) (v : Bool) : Nat → Nat → Disk
  | _, 0 => d
  | k, n + 1 => putBits (putBit d base v k) base v (k + 1) n

section
variable {d : Disk} {base i j k n t : Nat} {b : Byte} {v : Bool}

/-! ## bits of a byte -/

/-- a bit that is set or cleared -/
theorem bit_getLsbD (hi : i < 8) : (if v then setBit b k else clearBit b k).getLsbD i =
    if i = k then v else b.getLsbD i := by
  have hpow : (BitVec.ofNat 8 (2 ^ k)).getLsbD i = decide (k = i) := by
    rw [BitVec.getLsbD_ofNat, Nat.testBit_two_pow, decide_eq_true hi, Bool.true_and]
  cases v with
  | true =>
    rw [if_pos rfl, setBit, BitVec.getLsbD_or, hpow]
    by_cases hik : i = k
    · rw [if_pos hik, decide_eq_true hik.symm, Bool.or_true]
    · rw [if_neg hik, decide_eq_false (Ne.symm hik), Bool.or_false]
  | false =>
    rw [if_neg (by decide), clearBit, BitVec.getLsbD_and, BitVec.getLsbD_not, hpow,
      decide_eq_true hi, Bool.true_and]
    by_cases hik : i = k
    · rw [if_pos hik, decide_eq_true hik.symm, Bool.not_true, Bool.and_false]
    · rw [if_neg hik, decide_eq_false (Ne.symm hik), Bool.not_false, Bool.and_true]

theorem firstZero_spec (h : b ≠ 0xFF) : firstZero b < 8 ∧ b.getLsbD (firstZero b) = false ∧
    ∀ i < firstZero b, b.getLsbD i = true := by
  unfold firstZero
  cases hf : (List.range 8).find? fun k => !b.getLsbD k with
  | none =>
    refine absurd ?_ h
    have hall := List.find?_range_eq_none.mp hf
    have hones : ∀ i < 8, (0xFF : Byte).getLsbD i = true := by decide
    apply BitVec.eq_of_getLsbD_eq
    intro i hi
    have hbit := hall i hi
    rw [Bool.not_not] at hbit
    rw [hbit, hones i hi]
  | some k =>
    obtain ⟨hbit, hk, hbefore⟩ := List.find?_range_eq_some.mp hf
    refine ⟨List.mem_range.mp hk, (Bool.not_eq_true' _).mp hbit, fun i hi => ?_⟩
    have hset := hbefore i hi
    rw [Bool.not_not] at hset
    exact hset

/-! ## bits of a map -/

theorem mapBit_putBit : mapBit (putBit d base v k) base i = if i = k then v else mapBit d base i := by
  unfold mapBit putBit
  have hi : i % 8 < 8 := Nat.mod_lt i (by decide)
  by_cases hbyte : base + i / 4096 = base + k / 4096 ∧ i % 4096 / 8 = k % 4096 / 8
  · rw [if_pos hbyte, bit_getLsbD hi]
    by_cases hik : i = k
    · rw [if_pos hik, if_pos (by rw [hik])]
    · rw [if_neg hik, if_neg (by omega)]
  · rw [if_neg hbyte, if_neg (by omega)]

theorem putBit_other (h : t ≠ base + k / 4096) : putBit d base v k t = d t := by
  funext o
  exact if_neg fun hc => h hc.1

theorem mapBit_putBits : mapBit (putBits d base v k n) base i =
    if k ≤ i ∧ i < k + n then v else mapBit d base i := by
  induction n generalizing d k with
  | zero => exact (if_neg (by omega)).symm
  | succ n ih =>
    rw [putBits, ih, mapBit_putBit]
    by_cases hik : i = k
    · rw [if_pos hik, if_neg (by omega), if_pos (by omega)]
    · rw [if_neg hik]
      by_cases hin : k + 1 ≤ i ∧ i < k + 1 + n
      · rw [if_pos hin, if_pos (by omega)]
      · rw [if_neg hin, if_neg (by omega)]

theorem putBits_other (h : ∀ i, k ≤ i → i < k + n → t ≠ base + i / 4096) :
    putBits d base v k n t = d t := by
  induction n generalizing d k with
  | zero => rfl
  | succ n ih =>
    rw [putBits, ih (fun i h1 h2 => h i (by omega) (by omega)),
      putBit_other (h k le_rfl (by omega))]

theorem putBits_add {m : Nat} : putBits d base v k (n + m) =
    putBits (putBits d base v k n) base v (k + n) m := by
  induction n generalizing d k with
  | zero => rw [Nat.zero_add]; rfl
  | succ n ih =>
    have hleft : n + 1 + m = n + m + 1 := by omega
    have hnext : k + (n + 1) = k + 1 + n := by omega
    rw [hleft, putBits, ih, putBits, hnext]

/-! ## sectors that are read, changed and written -/

/-- a sector that is read and written back -/
theorem wrSect_rdSect (d : Disk) (i : Nat) : wrSect d i (rdSect d i) = d := by
  funext t o
  by_cases ht : t = sectOf i
  · by_cases ho : o < 512
    · rw [ht, wrSect_lt ho, rdSect_lt ho]
    · exact wrSect_ge (by omega)
  · rw [wrSect_other ht]

/-- one byte of it is changed -/
theorem wrSect_update (hi : i < 2 ^ 22) (hj : j < 512) (fsbuf : Buffer) (b : Byte) :
    wrSect d i (Function.update fsbuf j b) =
      Function.update (wrSect d i fsbuf) i (Function.update (wrSect d i fsbuf i) j b) := by
  funext t o
  have hs : sectOf i = i := sectOf_of_lt hi
  by_cases ht : t = i
  · subst ht
    rw [Function.update_self]
    by_cases ho : o < 512
    · have hw : ∀ f : Buffer, wrSect d t f t o = f o := by
        intro f
        have := wrSect_lt (d := d) (i := t) (b := f) ho
        rwa [hs] at this
      rw [hw]
      by_cases hoj : o = j
      · subst hoj
        rw [Function.update_self, Function.update_self]
      · rw [Function.update_of_ne hoj, Function.update_of_ne hoj, hw]
    · rw [wrSect_ge (by omega), Function.update_of_ne (by omega), wrSect_ge (by omega)]
  · rw [Function.update_of_ne ht, wrSect_other (by rw [hs]; exact ht),
      wrSect_other (by rw [hs]; exact ht)]

/-- bit `k` of byte `j` of a sector of a map is set or cleared in the buffer -/
theorem wrSect_bit (d : Disk) (base m : Nat) (v : Bool) (fsbuf : Buffer) (hi : base + m < 2 ^ 22)
    (hj : j < 512) (hk : k < 8) :
    wrSect d (base + m) (Function.update fsbuf j
      (if v then setBit (fsbuf j) k else clearBit (fsbuf j) k)) =
        putBit (wrSect d (base + m) fsbuf) base v (m * 4096 + j * 8 + k) := by
  have hread : fsbuf j = wrSect d (base + m) fsbuf (base + m) j := by
    have hw : wrSect d (base + m) fsbuf (sectOf (base + m)) j = fsbuf j := wrSect_lt hj
    rw [← hw, sectOf_of_lt hi]
  rw [wrSect_update hi hj, hread]
  funext t o
  have h1 : (m * 4096 + j * 8 + k) / 4096 = m := by omega
  have h2 : (m * 4096 + j * 8 + k) % 4096 / 8 = j := by omega
  have h3 : (m * 4096 + j * 8 + k) % 8 = k := by omega
  unfold putBit
  rw [h1, h2, h3]
  by_cases ht : t = base + m
  · rw [ht, Function.update_self]
    by_cases ho : o = j
    · rw [ho, Function.update_self]
      exact (if_pos ⟨rfl, rfl⟩).symm
    · rw [Function.update_of_ne ho, if_neg fun hc => ho hc.2]
  · rw [Function.update_of_ne ht, if_neg fun hc => ht hc.1]

/-- a bit of the buffer is the bit of the map once it is written -/
theorem wrSect_mapBit (d : Disk) (base m : Nat) (fsbuf : Buffer) (hi : base + m < 2 ^ 22)
    (hj : j < 512) (hk : k < 8) : (fsbuf j).getLsbD k =
      mapBit (wrSect d (base + m) fsbuf) base (m * 4096 + j * 8 + k) := by
  have hw : wrSect d (base + m) fsbuf (sectOf (base + m)) j = fsbuf j := wrSect_lt hj
  rw [sectOf_of_lt hi] at hw
  unfold mapBit
  have h1 : (m * 4096 + j * 8 + k) / 4096 = m := by omega
  have h2 : (m * 4096 + j * 8 + k) % 4096 / 8 = j := by omega
  have h3 : (m * 4096 + j * 8 + k) % 8 = k := by omega
  rw [h1, h2, h3, hw]

end

/-! ## the inode map -/

section
variable {s : FsState}

/-- **An inode is allocated**: a number of the map whose bit was clear. -/
theorem allocImapBit_bit {v : Nat} (h0 : s.sb.nrImapSects ≠ 0) (hv : v < 4096)
    (hc : mapBit s.disk 2 v = false) : ∃ num < 4096, mapBit s.disk 2 num = false ∧
      allocImapBit s = some (num, { s with disk := putBit s.disk 2 true num }) := by
  have hsome : ∃ j, notFull (rdSect s.disk 2) = some j := by
    refine Option.ne_none_iff_exists'.mp fun hnone => ?_
    have hfull := List.find?_range_eq_none.mp hnone (v / 8) (by unfold SECTOR_SIZE; omega)
    have hbyte : rdSect s.disk 2 (v / 8) = 0xFF := by simpa using hfull
    have hread := wrSect_mapBit s.disk 2 0 (rdSect s.disk 2) (by decide)
      (show v / 8 < 512 by omega) (Nat.mod_lt v (by decide : 0 < 8))
    have hones : ∀ k < 8, (0xFF : Byte).getLsbD k = true := by decide
    rw [Nat.add_zero, wrSect_rdSect, hbyte, hones _ (Nat.mod_lt v (by decide)),
      show 0 * 4096 + v / 8 * 8 + v % 8 = v by omega, hc] at hread
    cases hread
  obtain ⟨j, hf⟩ := hsome
  obtain ⟨hfree, hj, -⟩ := List.find?_range_eq_some.mp hf
  have hj512 : j < 512 := List.mem_range.mp hj
  obtain ⟨hk, hbit, -⟩ := firstZero_spec (of_decide_eq_true hfree)
  have hread := wrSect_mapBit s.disk 2 0 (rdSect s.disk 2) (by decide) hj512 hk
  have hwrite := wrSect_bit s.disk 2 0 true (rdSect s.disk 2) (by decide) hj512 hk
  rw [Nat.add_zero, wrSect_rdSect, Nat.zero_mul, Nat.zero_add] at hread hwrite
  refine ⟨j * 8 + firstZero (rdSect s.disk 2 j), by omega, ?_, ?_⟩
  · rw [← hread]
    exact hbit
  · unfold allocImapBit freeInodeNr
    rw [if_neg h0]
    simp only [hf]
    rw [← hwrite]
    rfl

end

end Noxis.Fs
