import Noxis.Fs.SectMap

/-!
# 25-osfs11/fs/link.c: what do_unlink does to the maps

* `freeImapBit_bit`     the bit of an inode is cleared
* `freeSmapBits_bits`   the bits of a run of sectors are cleared: those of its first byte, the whole
                        bytes, and those of the last one

For a run that is marked no assertion fails, wherever it starts and ends.
-/

namespace Noxis.Fs

section
variable {d d₀ : Disk} {base i j k m n f c left : Nat} {b e : Byte} {v : Bool} {fsbuf : Buffer}

/-! ## bits of a byte -/

theorem putBits_zero : putBits d base v k 0 = d := rfl

/-- some bits of one byte of a sector are set or cleared in the buffer -/
theorem wrSect_bits (hi : base + i < 2 ^ 22) (hj : j < 512) (hk : k + m ≤ 8)
    (hb : ∀ x < 8, e.getLsbD x = if k ≤ x ∧ x < k + m then v else (fsbuf j).getLsbD x) :
    wrSect d (base + i) (Function.update fsbuf j e) =
      putBits (wrSect d (base + i) fsbuf) base v (i * 4096 + j * 8 + k) m := by
  induction m generalizing k fsbuf with
  | zero =>
    have hsame : e = fsbuf j := by
      apply BitVec.eq_of_getLsbD_eq
      intro x hx
      rw [hb x hx, if_neg (by omega)]
    rw [hsame, Function.update_eq_self, putBits_zero]
  | succ m ih =>
    set b₁ := if v then setBit (fsbuf j) k else clearBit (fsbuf j) k with hb₁
    have hbit := wrSect_bit d base i v fsbuf hi hj (show k < 8 by omega)
    rw [← hb₁] at hbit
    have hnext : ∀ x < 8, e.getLsbD x =
        if k + 1 ≤ x ∧ x < k + 1 + m then v else (Function.update fsbuf j b₁ j).getLsbD x := by
      intro x hx
      rw [Function.update_self, hb x hx, hb₁, bit_getLsbD hx]
      by_cases hxk : x = k
      · rw [if_pos hxk, if_pos (by omega), if_neg (by omega)]
      · rw [if_neg hxk]
        by_cases hin : k + 1 ≤ x ∧ x < k + 1 + m
        · rw [if_pos hin, if_pos (by omega)]
        · rw [if_neg hin, if_neg (by omega)]
    have hrest := ih (by omega) hnext
    rw [Function.update_idem, hbit] at hrest
    rw [hrest, putBits, Nat.add_assoc _ k 1]

/-- the bits of the first byte -/
theorem giveBits_some (m : Nat) (hk : k + m ≤ 8)
    (hset : ∀ x, k ≤ x → x < k + min m left → b.getLsbD x = true) :
    ∃ e, giveBits m k b left = some (e, left - min m left) ∧
      ∀ x < 8, e.getLsbD x = if k ≤ x ∧ x < k + min m left then false else b.getLsbD x := by
  induction m generalizing k b left with
  | zero =>
    refine ⟨b, by rw [Nat.zero_min]; rfl, fun x _ => ?_⟩
    rw [Nat.zero_min, if_neg (by omega)]
  | succ m ih =>
    rw [giveBits]
    by_cases hl : left = 0
    · rw [if_pos hl, hl, Nat.min_zero]
      refine ⟨b, rfl, fun x _ => ?_⟩
      rw [if_neg (by omega)]
    · have hk0 : b.getLsbD k = true := hset k le_rfl (by omega)
      have hclear : ∀ x < 8, (clearBit b k).getLsbD x = if x = k then false else b.getLsbD x :=
        fun x hx => bit_getLsbD (v := false) hx
      rw [if_neg hl, if_pos hk0]
      obtain ⟨e, hgive, hbits⟩ := ih (k := k + 1) (b := clearBit b k) (by omega)
        fun x h1 (h2 : x < k + 1 + min m (left - 1)) => by
          rw [hclear x (by omega), if_neg (by omega)]
          exact hset x (by omega) (by omega)
      refine ⟨e, by rw [hgive, show left - 1 - min m (left - 1) = left - min (m + 1) left by omega],
        fun x hx => ?_⟩
      rw [hbits x hx, hclear x hx]
      by_cases hxk : x = k
      · rw [if_neg (by omega), if_pos hxk, if_pos (by omega)]
      · rw [if_neg hxk]
        by_cases hin : k + 1 ≤ x ∧ x < k + 1 + min m (left - 1)
        · rw [if_pos hin, if_pos (by omega)]
        · rw [if_neg hin, if_neg (by omega)]

/-- the mask of the last byte -/
theorem mask_getLsbD (hi : i < 8) :
    (BitVec.ofNat 8 (2 ^ n - 1)).getLsbD i = decide (i < n) := by
  rw [BitVec.getLsbD_ofNat, Nat.testBit_two_pow_sub_one, decide_eq_true hi, Bool.true_and]

/-! ## the inode map -/

/-- **The bit of an inode is cleared**, when it is set. -/
theorem freeImapBit_bit {s : FsState} {num : Nat} (hnum : num < 4096)
    (hset : mapBit s.disk 2 num = true) :
    freeImapBit s num = some { s with disk := putBit s.disk 2 false num } := by
  have hread := wrSect_mapBit s.disk 2 0 (rdSect s.disk 2) (by decide)
    (show num / 8 < 512 by omega) (Nat.mod_lt num (by decide : 0 < 8))
  have hwrite := wrSect_bit s.disk 2 0 false (rdSect s.disk 2) (by decide)
    (show num / 8 < 512 by omega) (Nat.mod_lt num (by decide : 0 < 8))
  rw [Nat.add_zero, wrSect_rdSect, show 0 * 4096 + num / 8 * 8 + num % 8 = num by omega] at hread hwrite
  unfold freeImapBit
  rw [if_pos (show num / 8 < SECTOR_SIZE from (show num / 8 < 512 by omega))]
  simp only
  rw [hread, if_pos hset]
  exact congrArg (fun d => some { s with disk := d }) hwrite

/-! ## the sector map -/

/-- `c` bits from `f` on are cleared, once the buffer is written -/
structure Given (d₀ : Disk) (base f c : Nat) (x : Free) : Prop where
  sect : base ≤ x.s
  byte : x.i ≤ 512
  disk : wrSect x.disk x.s x.fsbuf = putBits d₀ base false f c

/-- the first bit of the next byte -/
def Free.pos (x : Free) (base : Nat) : Nat := (x.s - base) * 4096 + x.i * 8

/-- at the end of a sector -/
theorem Given.turn {x : Free} (h : Given d₀ base f c x) :
    Given d₀ base f c x.turn ∧ x.turn.i < 512 ∧ x.turn.pos base = x.pos base := by
  have hs := h.sect
  have hi := h.byte
  unfold Free.turn Free.pos
  by_cases hend : x.i = SECTOR_SIZE
  · have hend' : x.i = 512 := hend
    rw [if_pos hend]
    simp only
    refine ⟨⟨?_, Nat.zero_le _, ?_⟩, Nat.zero_lt_succ _, ?_⟩
    · show base ≤ x.s + 1
      omega
    · simp only
      rw [wrSect_rdSect]
      exact h.disk
    · show (x.s + 1 - base) * 4096 + 0 * 8 = _
      omega
  · have hend' : x.i ≠ 512 := hend
    rw [if_neg hend]
    exact ⟨h, by omega, rfl⟩

/-- a bit of the buffer that is not cleared yet -/
theorem Given.bit {x : Free} (h : Given d₀ base f c x) (hi : x.i < 512) (hsect : x.s < 2 ^ 22)
    (hk : k < 8) (hpos : f + c ≤ x.pos base + k) :
    (x.fsbuf x.i).getLsbD k = mapBit d₀ base (x.pos base + k) := by
  have hs := h.sect
  have hbase : base + (x.s - base) = x.s := by omega
  have hread := wrSect_mapBit x.disk base (x.s - base) x.fsbuf (by omega) hi hk
  rw [hbase, h.disk] at hread
  rw [hread]
  show mapBit (putBits d₀ base false f c) base (x.pos base + k) = _
  rw [mapBit_putBits, if_neg (by omega)]

/-- some bits of the next byte, from its first one on -/
theorem Given.put {x : Free} (h : Given d₀ base f c x) (hi : x.i < 512) (hsect : x.s < 2 ^ 22)
    (hm : m ≤ 8) (hpos : m ≠ 0 → f + c = x.pos base)
    (hb : ∀ y < 8, e.getLsbD y = if y < m then false else (x.fsbuf x.i).getLsbD y) :
    wrSect x.disk x.s (Function.update x.fsbuf x.i e) = putBits d₀ base false f (c + m) := by
  have hs := h.sect
  have hbase : base + (x.s - base) = x.s := by omega
  have hbits : ∀ y < 8, e.getLsbD y =
      if 0 ≤ y ∧ y < 0 + m then false else (x.fsbuf x.i).getLsbD y := by
      intro y hy
      rw [hb y hy]
      by_cases hym : y < m
      · rw [if_pos hym, if_pos (by omega)]
      · rw [if_neg hym, if_neg (by omega)]
  have hput : wrSect x.disk (base + (x.s - base)) (Function.update x.fsbuf x.i e) = putBits
      (wrSect x.disk (base + (x.s - base)) x.fsbuf) base false ((x.s - base) * 4096 + x.i * 8 + 0) m :=
    wrSect_bits (by omega) hi (by omega) hbits
  rw [hbase, h.disk] at hput
  rw [hput, putBits_add]
  by_cases hm0 : m = 0
  · rw [hm0, putBits_zero, putBits_zero]
  · rw [hpos hm0, Nat.add_zero, Free.pos]

/-- **The whole bytes.** -/
theorem giveBytes_some {x : Free} (n : Nat) (h : Given d₀ base f c x)
    (hpos : n ≠ 0 → f + c = x.pos base)
    (hend : base * 4096 + x.pos base + n * 8 ≤ 2 ^ 34)
    (hset : ∀ y, f + c ≤ y → y < f + c + n * 8 → mapBit d₀ base y = true) :
    ∃ x', giveBytes n x = some x' ∧ Given d₀ base f (c + n * 8) x' ∧
      x'.pos base = x.pos base + n * 8 := by
  induction n generalizing c x with
  | zero =>
    rw [Nat.zero_mul, Nat.add_zero, Nat.add_zero]
    exact ⟨x, rfl, h, rfl⟩
  | succ n ih =>
    obtain ⟨ht, hi, hsame⟩ := h.turn
    have hat : f + c = x.turn.pos base := by
      rw [hsame]
      exact hpos n.succ_ne_zero
    have hs := ht.sect
    have hsect : x.turn.s < 2 ^ 22 := by
      rw [← hsame] at hend
      unfold Free.pos at hend
      omega
    have hff : x.turn.fsbuf x.turn.i = 0xFF := by
      have hones : ∀ k < 8, (0xFF : Byte).getLsbD k = true := by decide
      apply BitVec.eq_of_getLsbD_eq
      intro k hk
      rw [ht.bit hi hsect hk (by omega), hones k hk]
      exact hset _ (by omega) (by omega)
    have hput := ht.put (m := 8) (e := 0) hi hsect le_rfl (fun _ => hat) fun y hy => by
      rw [if_pos hy]
      exact BitVec.getLsbD_zero
    have hnext : Given d₀ base f (c + 8) ⟨x.turn.disk, Function.update x.turn.fsbuf x.turn.i 0,
        x.turn.s, x.turn.i + 1⟩ := ⟨hs, hi, hput⟩
    have hpos8 : Free.pos ⟨x.turn.disk, Function.update x.turn.fsbuf x.turn.i 0, x.turn.s,
        x.turn.i + 1⟩ base = x.pos base + 8 := by
      rw [← hsame]
      show (x.turn.s - base) * 4096 + (x.turn.i + 1) * 8 = (x.turn.s - base) * 4096 + x.turn.i * 8 + 8
      omega
    obtain ⟨x', hgive, hx', hp'⟩ := ih hnext (fun _ => by rw [hpos8]; omega)
      (by rw [hpos8]; omega) fun y h1 h2 => hset y (by omega) (by omega)
    refine ⟨x', ?_, ?_, by rw [hp', hpos8]; omega⟩
    · show (if x.turn.fsbuf x.turn.i = 0xFF then _ else none) = some x'
      rw [if_pos hff]
      exact hgive
    · rw [show c + (n + 1) * 8 = c + 8 + n * 8 by omega]
      exact hx'

/-- the last byte -/
theorem giveLast_some {x : Free} (h : Given d₀ base f c x) (hm : m < 8)
    (hpos : m ≠ 0 → f + c = x.pos base)
    (hend : base * 4096 + x.pos base < 2 ^ 34)
    (hset : ∀ y, f + c ≤ y → y < f + c + m → mapBit d₀ base y = true) :
    giveLast x m = some (putBits d₀ base false f (c + m)) := by
  obtain ⟨ht, hi, hsame⟩ := h.turn
  have hs := ht.sect
  have hsect : x.turn.s < 2 ^ 22 := by
    rw [← hsame] at hend
    unfold Free.pos at hend
    omega
  have hmask : x.turn.fsbuf x.turn.i &&& BitVec.ofNat 8 (2 ^ m - 1) = BitVec.ofNat 8 (2 ^ m - 1) := by
    apply BitVec.eq_of_getLsbD_eq
    intro y hy
    rw [BitVec.getLsbD_and, mask_getLsbD hy]
    by_cases hym : y < m
    · have hat : f + c = x.turn.pos base := by
        rw [hsame]
        exact hpos (by omega)
      rw [decide_eq_true hym, Bool.and_true, ht.bit hi hsect hy (by omega)]
      exact hset _ (by omega) (by omega)
    · rw [decide_eq_false hym, Bool.and_false]
  unfold giveLast
  simp only
  rw [if_pos hmask]
  refine congrArg some (ht.put hi hsect hm.le (fun h0 => ?_) fun y hy => ?_)
  · rw [hsame]
    exact hpos h0
  · rw [BitVec.getLsbD_and, BitVec.getLsbD_not, mask_getLsbD hy, decide_eq_true hy, Bool.true_and]
    by_cases hym : y < m
    · rw [decide_eq_true hym, if_pos hym, Bool.not_true, Bool.and_false]
    · rw [decide_eq_false hym, if_neg hym, Bool.not_false, Bool.and_true]

end

theorem next_byte (f : Nat) : f / 4096 * 4096 + (f % 4096 / 8 + 1) * 8 = f / 8 * 8 + 8 := by omega

/-- **The bits of a run are cleared**, when they are set. -/
theorem freeSmapBits_bits {s : FsState} {n f : Nat} (hn1 : 1 ≤ s.sb.n1stSect)
    (hm : s.sb.smapBase + s.sb.nrSmapSects < 2 ^ 22) (hf : f + n ≤ s.sb.nrSmapSects * 4096)
    (hn : 1 ≤ n) (hset : ∀ i, f ≤ i → i < f + n → mapBit s.disk s.sb.smapBase i = true) :
    freeSmapBits s (f + s.sb.n1stSect - 1) n =
      some { s with disk := putBits s.disk s.sb.smapBase false f n } := by
  set base := s.sb.smapBase with hbase
  have hidx : f + s.sb.n1stSect - 1 + 1 - s.sb.n1stSect = f := by omega
  have hsect : 2 + s.sb.nrImapSects + f / 8 / SECTOR_SIZE = base + f / 4096 := by
    have hdiv : f / 8 / 512 = f / 4096 := Nat.div_div_eq_div_mul ..
    rw [show SECTOR_SIZE = 512 from rfl, hdiv, hbase]
    unfold Super.smapBase
    omega
  have hbyte : f / 8 % SECTOR_SIZE = f % 4096 / 8 := by
    show f / 8 % 512 = _
    omega
  have hlt : base + f / 4096 < 2 ^ 22 := by omega
  have hj : f % 4096 / 8 < 512 := by omega
  have hwhere : f / 4096 * 4096 + f % 4096 / 8 * 8 + f % 8 = f := by omega
  -- the first byte
  set fsbuf := rdSect s.disk (base + f / 4096) with hbuf
  have hread : ∀ k < 8, (fsbuf (f % 4096 / 8)).getLsbD k =
      mapBit s.disk base (f / 4096 * 4096 + f % 4096 / 8 * 8 + k) := by
    intro k hk
    have hbit := wrSect_mapBit s.disk base (f / 4096) fsbuf hlt hj hk
    rwa [hbuf, wrSect_rdSect] at hbit
  obtain ⟨e, hgive, hbits⟩ := giveBits_some (k := f % 8) (b := fsbuf (f % 4096 / 8))
    (8 - f % 8) (by omega) fun x h1 (h2 : x < f % 8 + min (8 - f % 8) n) => by
      rw [hread x (by omega)]
      exact hset _ (by omega) (by omega)
  have hput := wrSect_bits (d := s.disk) (v := false) hlt hj
    (show f % 8 + min (8 - f % 8) n ≤ 8 by omega) hbits
  rw [hwhere, hbuf, wrSect_rdSect, ← hbuf] at hput
  have hgiven : Given s.disk base f (min (8 - f % 8) n) ⟨s.disk, Function.update fsbuf (f % 4096 / 8) e,
      base + f / 4096, f % 4096 / 8 + 1⟩ := ⟨Nat.le_add_right .., hj, hput⟩
  have hpos : Free.pos ⟨s.disk, Function.update fsbuf (f % 4096 / 8) e,
      base + f / 4096, f % 4096 / 8 + 1⟩ base = f / 8 * 8 + 8 := by
    show (base + f / 4096 - base) * 4096 + (f % 4096 / 8 + 1) * 8 = _
    rw [Nat.add_sub_cancel_left, next_byte]
  -- the bytes behind it
  have hcnt : (((n : Int) - (8 - (f % 8 : Nat))).tdiv 8).toNat = (n - (8 - f % 8)) / 8 := by
    by_cases hle : 8 - f % 8 ≤ n
    · rw [show (n : Int) - (8 - (f % 8 : Nat)) = ((n - (8 - f % 8) : Nat) : Int) by omega]
      rfl
    · have hneg : (n : Int) - (8 - (f % 8 : Nat)) = -((8 - f % 8 - n : Nat) : Int) := by omega
      rw [hneg, Int.neg_tdiv, Int.tdiv_eq_zero_of_lt (by omega) (by omega)]
      omega
  obtain ⟨x, hbytes, hx, hp⟩ := giveBytes_some ((n - (8 - f % 8)) / 8) hgiven
    (fun h0 => by rw [hpos]; omega) (by rw [hpos]; omega) fun y h1 h2 => hset y (by omega) (by omega)
  rw [hpos] at hp
  have hlast := giveLast_some (m := n - min (8 - f % 8) n - 8 * ((n - (8 - f % 8)) / 8)) hx (by omega)
    (fun h0 => by rw [hp]; omega) (by rw [hp]; omega) fun y h1 h2 => hset y (by omega) (by omega)
  unfold freeSmapBits
  rw [if_neg (by omega)]
  simp only
  rw [hidx, hsect, hbyte, ← hbuf, hgive, Option.bind_some]
  simp only
  rw [show ((f : Int) % 8) = ((f % 8 : Nat) : Int) by omega] at *
  rw [hcnt, hbytes, Option.bind_some, hlast, Option.map_some]
  have hsum : min (8 - f % 8) n + (n - (8 - f % 8)) / 8 * 8 +
      (n - min (8 - f % 8) n - 8 * ((n - (8 - f % 8)) / 8)) = n := by omega
  rw [hsum]

end Noxis.Fs
