import Noxis.Fs.Bits

/-!
# 25-osfs11/fs/open.c: what the loops do to the sector map

* `FreeRun`             the first clear bit of a map, and the bits behind it
* `allocSmapBit_bits`   `alloc_smap_bit` sets the bits of such a run
-/

namespace Noxis.Fs

/-- the sector that the map starts at -/
def Super.smapBase (sb : Super) : Nat := 1 + 1 + sb.nrImapSects

/-! ## taking bits -/

/-- the loop has passed the bits below `pos`: it still looks for a clear bit, or it has found bit `f`
and set as many bits as are not left -/
inductive Taken (d₀ : Disk) (base n1stSect n pos : Nat) : Disk → Nat → Nat → Prop where
  | searching : (∀ i < pos, mapBit d₀ base i = true) → Taken d₀ base n1stSect n pos d₀ n 0
  | taking {left : Nat} (f : Nat) : left < n → (left ≠ 0 → f + (n - left) = pos) →
      f + (n - left) ≤ pos → (∀ i < f, mapBit d₀ base i = true) →
      (∀ i, f ≤ i → i < f + (n - left) → mapBit d₀ base i = false) →
      Taken d₀ base n1stSect n pos (putBits d₀ base true f (n - left)) left (f + n1stSect - 1)

section
variable {d d₀ : Disk} {base n1stSect n pos i j k left free : Nat}

/-- the bits of one byte -/
theorem takeBits_spec {fsbuf : Buffer} {b : Byte} {left' : Nat} (hi : base + i < 2 ^ 22)
    (hj : j < 512) (m : Nat) (hk : k + m = 8) (hl : left ≠ 0)
    (h : takeBits m k (fsbuf j) left = some (b, left')) :
    left' = left - min m left ∧
      (∀ x, i * 4096 + j * 8 + k ≤ x → x < i * 4096 + j * 8 + k + min m left →
        mapBit (wrSect d (base + i) fsbuf) base x = false) ∧
      wrSect d (base + i) (Function.update fsbuf j b) =
        putBits (wrSect d (base + i) fsbuf) base true (i * 4096 + j * 8 + k) (min m left) := by
  induction m generalizing k left fsbuf with
  | zero =>
    rw [takeBits] at h
    simp only [Option.some.injEq, Prod.mk.injEq] at h
    rw [Nat.zero_min]
    refine ⟨h.2.symm, fun x h1 h2 => absurd h1 (by omega), ?_⟩
    rw [← h.1, Function.update_eq_self]
    rfl
  | succ m ih =>
    rw [takeBits] at h
    have hk8 : k < 8 := by omega
    by_cases hb : (fsbuf j).getLsbD k = true
    · rw [if_pos hb] at h
      cases h
    rw [if_neg hb] at h
    have hclear : mapBit (wrSect d (base + i) fsbuf) base (i * 4096 + j * 8 + k) = false := by
      rw [← wrSect_mapBit d base i fsbuf hi hj hk8]
      exact Bool.not_eq_true _ ▸ hb
    have hset : wrSect d (base + i) (Function.update fsbuf j (setBit (fsbuf j) k)) =
        putBit (wrSect d (base + i) fsbuf) base true (i * 4096 + j * 8 + k) :=
      wrSect_bit d base i true fsbuf hi hj hk8
    by_cases h1 : left = 1
    · rw [if_pos h1] at h
      simp only [Option.some.injEq, Prod.mk.injEq] at h
      have hmin : min (m + 1) left = 1 := by omega
      rw [hmin]
      refine ⟨by omega, fun x hx1 hx2 => ?_, ?_⟩
      · rw [show x = i * 4096 + j * 8 + k by omega]
        exact hclear
      · rw [← h.1, hset]
        rfl
    · rw [if_neg h1] at h
      set fsbuf' := Function.update fsbuf j (setBit (fsbuf j) k) with hbuf
      have hat : fsbuf' j = setBit (fsbuf j) k := Function.update_self ..
      rw [← hat] at h
      obtain ⟨hleft, hbits, hput⟩ := ih (by omega) (by omega) h
      have hmin : min (m + 1) left = min m (left - 1) + 1 := by omega
      rw [hset] at hbits hput
      refine ⟨by omega, fun x hx1 hx2 => ?_, ?_⟩
      · by_cases hx : x = i * 4096 + j * 8 + k
        · rw [hx]
          exact hclear
        · have hbit := hbits x (by omega) (by omega)
          rw [mapBit_putBit, if_neg hx] at hbit
          exact hbit
      · have hsame : Function.update fsbuf' j b = Function.update fsbuf j b := by
          rw [hbuf, Function.update_idem]
        rw [hsame] at hput
        rw [hput, hmin, putBits, Nat.add_assoc _ k 1]

/-- **One byte.** -/
theorem allocByte_taken {a a' : Alloc} (hn1 : 2 ≤ n1stSect) (hi : base + i < 2 ^ 22) (hj : j < 512)
    (hn : a.nrSectsToAlloc ≠ 0)
    (ht : Taken d₀ base n1stSect n (i * 4096 + j * 8) (wrSect d (base + i) a.fsbuf) a.nrSectsToAlloc
      a.freeSectNr)
    (h : allocByte n1stSect i j a = some a') :
    Taken d₀ base n1stSect n (i * 4096 + j * 8 + 8) (wrSect d (base + i) a'.fsbuf) a'.nrSectsToAlloc
      a'.freeSectNr := by
  obtain ⟨fsbuf, left, free⟩ := a
  simp only at hn ht
  unfold allocByte at h
  simp only at h
  generalize hD : wrSect d (base + i) fsbuf = D at ht
  cases ht with
  | searching hset =>
    rw [if_pos rfl] at h
    by_cases hff : fsbuf j = 0xFF
    · rw [if_pos hff, Option.some.injEq] at h
      rw [← h]
      show Taken d₀ base n1stSect n _ (wrSect d (base + i) fsbuf) n 0
      rw [hD]
      refine .searching fun x hx => ?_
      by_cases hlt : x < i * 4096 + j * 8
      · exact hset x hlt
      · have hones : ∀ k < 8, (0xFF : Byte).getLsbD k = true := by decide
        have hbit := wrSect_mapBit d base i fsbuf hi hj (show x - (i * 4096 + j * 8) < 8 by omega)
        rw [hD, Nat.add_sub_cancel' (by omega), hff, hones _ (by omega)] at hbit
        exact hbit.symm
    · rw [if_neg hff] at h
      obtain ⟨hk, -, hbefore⟩ := firstZero_spec hff
      set k := firstZero (fsbuf j) with hkdef
      obtain ⟨⟨b, left'⟩, htake, h⟩ := Option.map_eq_some_iff.mp h
      rw [← h]
      obtain ⟨hleft, hclear, hput⟩ := takeBits_spec hi hj (8 - k) (by omega) hn htake
      rw [hD] at hclear hput
      have hsum : (i * SECTOR_SIZE + j) * 8 + k + n1stSect - 1 =
          i * 4096 + j * 8 + k + n1stSect - 1 := by
        unfold SECTOR_SIZE
        omega
      have hcount : min (8 - k) n = n - left' := by omega
      show Taken d₀ base n1stSect n _ (wrSect d (base + i) (Function.update fsbuf j b)) left' _
      rw [hput, hsum, hcount]
      rw [hcount] at hclear
      refine .taking _ (by omega) (fun hl => by omega) (by omega) (fun x hx => ?_) hclear
      by_cases hlt : x < i * 4096 + j * 8
      · exact hset x hlt
      · have hbit := wrSect_mapBit d base i fsbuf hi hj (show x - (i * 4096 + j * 8) < 8 by omega)
        rw [hD, Nat.add_sub_cancel' (by omega), hbefore _ (by omega)] at hbit
        exact hbit.symm
  | taking f hlt hpos hle hset hclear =>
    rw [if_neg (by omega)] at h
    obtain ⟨⟨b, left'⟩, htake, h⟩ := Option.map_eq_some_iff.mp h
    rw [← h]
    obtain ⟨hleft, hnext, hput⟩ := takeBits_spec hi hj 8 (by omega) hn htake
    have hat := hpos hn
    rw [hD, Nat.add_zero, ← hat] at hnext hput
    have hcount : n - left' = n - left + min 8 left := by omega
    show Taken d₀ base n1stSect n _ (wrSect d (base + i) (Function.update fsbuf j b)) left' _
    rw [hput, ← putBits_add, ← hcount]
    refine .taking f (by omega) (fun hl => by omega) (by omega) hset (fun x h1 h2 => ?_)
    by_cases hx : x < f + (n - left)
    · exact hclear x h1 hx
    · have hbit := hnext x (by omega) (by omega)
      rw [mapBit_putBits, if_neg (by omega)] at hbit
      exact hbit

/-- when enough bits are set the loop goes no further -/
theorem Taken.later {pos' : Nat} (hn : n ≠ 0) (hp : pos ≤ pos')
    (ht : Taken d₀ base n1stSect n pos d 0 free) : Taken d₀ base n1stSect n pos' d 0 free := by
  generalize hl : 0 = left at ht
  cases ht with
  | searching => exact absurd hl.symm hn
  | taking f hlt hpos hle hset hclear =>
    subst hl
    exact .taking f hlt (fun h => absurd rfl h) (by omega) hset hclear

/-- **A sector of the map**, from byte `j` on. -/
theorem allocBytes_taken {a a' : Alloc} (m : Nat) (hn1 : 2 ≤ n1stSect) (hn : n ≠ 0)
    (hi : base + i < 2 ^ 22) (hj : j + m = 512)
    (ht : Taken d₀ base n1stSect n (i * 4096 + j * 8) (wrSect d (base + i) a.fsbuf) a.nrSectsToAlloc
      a.freeSectNr)
    (h : allocBytes n1stSect i m j a = some a') :
    Taken d₀ base n1stSect n (i * 4096 + 4096) (wrSect d (base + i) a'.fsbuf) a'.nrSectsToAlloc
      a'.freeSectNr := by
  induction m generalizing j a with
  | zero =>
    cases h
    rw [show i * 4096 + j * 8 = i * 4096 + 4096 by omega] at ht
    exact ht
  | succ m ih =>
    rw [allocBytes] at h
    by_cases hl : a.nrSectsToAlloc = 0
    · rw [if_pos hl] at h
      cases h
      rw [hl] at ht ⊢
      exact ht.later hn (by omega)
    · rw [if_neg hl] at h
      obtain ⟨a₁, hbyte, h⟩ := Option.bind_eq_some_iff.mp h
      have hnext := allocByte_taken hn1 hi (by omega) hl ht hbyte
      refine ih (by omega) ?_ h
      rw [show i * 4096 + (j + 1) * 8 = i * 4096 + j * 8 + 8 by omega]
      exact hnext

/-- a byte in which no clear bit is found leaves everything -/
theorem allocByte_idle {a a' : Alloc} (hn1 : 2 ≤ n1stSect) (h : allocByte n1stSect i j a = some a')
    (hf : a'.freeSectNr = 0) : a' = a := by
  unfold allocByte at h
  simp only at h
  by_cases h0 : a.freeSectNr = 0
  · rw [if_pos h0] at h
    by_cases hff : a.fsbuf j = 0xFF
    · rw [if_pos hff, Option.some.injEq] at h
      exact h.symm
    · rw [if_neg hff] at h
      obtain ⟨r, -, h⟩ := Option.map_eq_some_iff.mp h
      rw [← h] at hf
      simp only at hf
      omega
  · rw [if_neg h0] at h
    obtain ⟨r, -, h⟩ := Option.map_eq_some_iff.mp h
    rw [← h] at hf
    exact absurd hf h0

theorem allocBytes_idle {a a' : Alloc} (hn1 : 2 ≤ n1stSect) (m : Nat)
    (h : allocBytes n1stSect i m j a = some a') (hf : a'.freeSectNr = 0) : a' = a := by
  induction m generalizing j a with
  | zero =>
    cases h
    rfl
  | succ m ih =>
    rw [allocBytes] at h
    by_cases hl : a.nrSectsToAlloc = 0
    · rw [if_pos hl] at h
      cases h
      rfl
    · rw [if_neg hl] at h
      obtain ⟨a₁, hbyte, h⟩ := Option.bind_eq_some_iff.mp h
      have hsame := ih h
      subst hsame
      exact allocByte_idle hn1 hbyte hf

/-- a sector is read, and written only when a clear bit has been found -/
theorem allocSect_disk {a : Alloc} (hn1 : 2 ≤ n1stSect)
    (h : allocBytes n1stSect i 512 0 ⟨rdSect d (base + i), left, free⟩ = some a) :
    (if a.freeSectNr ≠ 0 then wrSect d (base + i) a.fsbuf else d) = wrSect d (base + i) a.fsbuf := by
  by_cases hf : a.freeSectNr ≠ 0
  · rw [if_pos hf]
  · have hidle := allocBytes_idle hn1 _ h (not_not.mp hf)
    rw [if_neg hf, hidle]
    exact (wrSect_rdSect d _).symm

theorem Taken.start (ht : Taken d₀ base n1stSect n (i * 4096) d left free) :
    Taken d₀ base n1stSect n (i * 4096 + 0 * 8) (wrSect d (base + i) (rdSect d (base + i))) left
      free := by
  rw [wrSect_rdSect, Nat.zero_mul, Nat.add_zero]
  exact ht

/-- **The sectors of the map**, from sector `i` on. -/
theorem allocSects_taken {sb : Super} (m : Nat) {r : Disk × Nat × Nat} (hn1 : 2 ≤ sb.n1stSect)
    (hn : n ≠ 0) (hi : sb.smapBase + i + m ≤ 2 ^ 22)
    (ht : Taken d₀ sb.smapBase sb.n1stSect n (i * 4096) d left free)
    (h : allocSects sb m i d left free = some r) :
    Taken d₀ sb.smapBase sb.n1stSect n ((i + m) * 4096) r.1 r.2.1 r.2.2 := by
  induction m generalizing i d left free with
  | zero =>
    cases h
    exact ht
  | succ m ih =>
    rw [allocSects] at h
    obtain ⟨a, hbytes, h⟩ := Option.bind_eq_some_iff.mp h
    have hlt : sb.smapBase + i < 2 ^ 22 := by omega
    have hbytes : allocBytes sb.n1stSect i 512 0 ⟨rdSect d (sb.smapBase + i), left, free⟩ = some a :=
      hbytes
    have hsect := allocBytes_taken 512 hn1 hn hlt (Nat.zero_add 512) ht.start hbytes
    simp only at h
    rw [show 1 + 1 + sb.nrImapSects + i = sb.smapBase + i from rfl, allocSect_disk hn1 hbytes] at h
    by_cases hl : a.nrSectsToAlloc = 0
    · rw [if_pos hl, Option.some.injEq] at h
      rw [← h]
      rw [hl] at hsect
      exact hsect.later hn (by omega)
    · rw [if_neg hl] at h
      rw [show i + (m + 1) = i + 1 + m by omega]
      refine ih (by omega) ?_ h
      rw [show (i + 1) * 4096 = i * 4096 + 4096 by omega]
      exact hsect

end

/-! ## when there are enough -/

/-- bit `f` is the first clear one of a map, and the `n` bits from it on are clear -/
structure FreeRun (bit : Nat → Bool) (n f : Nat) : Prop where
  before : ∀ i < f, bit i = true
  clear : ∀ i, f ≤ i → i < f + n → bit i = false

section
variable {d d₀ : Disk} {base n1stSect n pos i j k f left free : Nat}

/-- there is one first clear bit -/
theorem FreeRun.unique {bit : Nat → Bool} {m f' : Nat} (h : FreeRun bit n f)
    (h' : FreeRun bit m f') (hn : n ≠ 0) (hm : m ≠ 0) : f' = f := by
  have hle : ∀ {n m f f' : Nat}, FreeRun bit n f → FreeRun bit m f' → n ≠ 0 → f' ≤ f := by
    intro n m f f' h h' hn
    by_contra hlt
    have hset := h'.before f (by omega)
    rw [h.clear f le_rfl (by omega)] at hset
    cases hset
  exact Nat.le_antisymm (hle h h' hn) (hle h' h hm)

/-- the bits of a byte, when they are clear -/
theorem takeBits_some {b : Byte} (m : Nat) (hk : k + m = 8) (hl : left ≠ 0)
    (hc : ∀ x, k ≤ x → x < k + min m left → b.getLsbD x = false) :
    ∃ r, takeBits m k b left = some r := by
  induction m generalizing k b left with
  | zero => exact ⟨_, rfl⟩
  | succ m ih =>
    have hk0 : b.getLsbD k = false := hc k le_rfl (by omega)
    rw [takeBits, if_neg (by rw [hk0]; decide)]
    by_cases h1 : left = 1
    · rw [if_pos h1]
      exact ⟨_, rfl⟩
    · rw [if_neg h1]
      refine ih (by omega) (by omega) fun x hx1 hx2 => ?_
      have hbit : (setBit b k).getLsbD x = if x = k then true else b.getLsbD x :=
        bit_getLsbD (v := true) (by omega)
      rw [hbit, if_neg (by omega)]
      exact hc x (by omega) (by omega)

/-- one byte, when there is a run -/
theorem allocByte_some {a : Alloc} (hr : FreeRun (mapBit d₀ base) n f) (hn : n ≠ 0)
    (hn1 : 2 ≤ n1stSect)
    (hi : base + i < 2 ^ 22) (hj : j < 512) (hl : a.nrSectsToAlloc ≠ 0)
    (ht : Taken d₀ base n1stSect n (i * 4096 + j * 8) (wrSect d (base + i) a.fsbuf) a.nrSectsToAlloc
      a.freeSectNr) : ∃ a', allocByte n1stSect i j a = some a' := by
  obtain ⟨fsbuf, left, free⟩ := a
  simp only at hl ht
  have hread : ∀ k < 8, (fsbuf j).getLsbD k =
      mapBit (wrSect d (base + i) fsbuf) base (i * 4096 + j * 8 + k) :=
    fun k hk => wrSect_mapBit d base i fsbuf hi hj hk
  unfold allocByte
  simp only
  generalize wrSect d (base + i) fsbuf = D at ht hread
  cases ht with
  | searching hset =>
    rw [if_pos rfl]
    by_cases hff : fsbuf j = 0xFF
    · rw [if_pos hff]
      exact ⟨_, rfl⟩
    · rw [if_neg hff]
      obtain ⟨hk, hclear, hbefore⟩ := firstZero_spec hff
      have hfirst : FreeRun (mapBit d₀ base) 1 (i * 4096 + j * 8 + firstZero (fsbuf j)) := by
        refine ⟨fun x hx => ?_, fun x h1 h2 => ?_⟩
        · by_cases hlt : x < i * 4096 + j * 8
          · exact hset x hlt
          · have hbit := hread (x - (i * 4096 + j * 8)) (by omega)
            rw [Nat.add_sub_cancel' (by omega), hbefore _ (by omega)] at hbit
            exact hbit.symm
        · rw [show x = i * 4096 + j * 8 + firstZero (fsbuf j) by omega, ← hread _ hk]
          exact hclear
      have hf := hr.unique hfirst hn Nat.one_ne_zero
      obtain ⟨r, htake⟩ := takeBits_some (b := fsbuf j) (k := firstZero (fsbuf j))
        (8 - firstZero (fsbuf j)) (by omega) hl
        fun x h1 h2 => by
          rw [hread x (by omega)]
          exact hr.clear _ (by omega) (by omega)
      rw [htake]
      exact ⟨_, rfl⟩
  | taking f' hlt hpos hle hset hclear =>
    rw [if_neg (by omega)]
    have hf := hr.unique ⟨hset, hclear⟩ hn (by omega)
    have hat := hpos hl
    obtain ⟨r, htake⟩ := takeBits_some (b := fsbuf j) 8 (Nat.zero_add 8) hl fun x h1 h2 => by
      rw [hread x (by omega), mapBit_putBits, if_neg (by omega)]
      exact hr.clear _ (by omega) (by omega)
    rw [htake]
    exact ⟨_, rfl⟩

theorem allocBytes_some {a : Alloc} (hr : FreeRun (mapBit d₀ base) n f) (m : Nat) (hn1 : 2 ≤ n1stSect)
    (hn : n ≠ 0) (hi : base + i < 2 ^ 22) (hj : j + m = 512)
    (ht : Taken d₀ base n1stSect n (i * 4096 + j * 8) (wrSect d (base + i) a.fsbuf) a.nrSectsToAlloc
      a.freeSectNr) : ∃ a', allocBytes n1stSect i m j a = some a' := by
  induction m generalizing j a with
  | zero => exact ⟨a, rfl⟩
  | succ m ih =>
    rw [allocBytes]
    by_cases hl : a.nrSectsToAlloc = 0
    · rw [if_pos hl]
      exact ⟨a, rfl⟩
    · rw [if_neg hl]
      obtain ⟨a₁, hbyte⟩ := allocByte_some hr hn hn1 hi (by omega) hl ht
      have hnext := allocByte_taken hn1 hi (by omega) hl ht hbyte
      rw [hbyte, Option.bind_some]
      refine ih (by omega) ?_
      rw [show i * 4096 + (j + 1) * 8 = i * 4096 + j * 8 + 8 by omega]
      exact hnext

theorem allocSects_some {sb : Super} (hr : FreeRun (mapBit d₀ sb.smapBase) n f) (m : Nat)
    (hn1 : 2 ≤ sb.n1stSect) (hn : n ≠ 0) (hi : sb.smapBase + i + m ≤ 2 ^ 22)
    (ht : Taken d₀ sb.smapBase sb.n1stSect n (i * 4096) d left free) :
    ∃ r, allocSects sb m i d left free = some r := by
  induction m generalizing i d left free with
  | zero => exact ⟨_, rfl⟩
  | succ m ih =>
    have hlt : sb.smapBase + i < 2 ^ 22 := by omega
    obtain ⟨a, hbytes⟩ := allocBytes_some (a := ⟨rdSect d (sb.smapBase + i), left, free⟩) hr 512 hn1
      hn hlt (Nat.zero_add 512) ht.start
    have hsect := allocBytes_taken 512 hn1 hn hlt (Nat.zero_add 512) ht.start hbytes
    rw [allocSects, show 1 + 1 + sb.nrImapSects + i = sb.smapBase + i from rfl,
      show SECTOR_SIZE = 512 from rfl, hbytes, Option.bind_some]
    simp only
    rw [allocSect_disk hn1 hbytes]
    by_cases hl : a.nrSectsToAlloc = 0
    · rw [if_pos hl]
      exact ⟨_, rfl⟩
    · rw [if_neg hl]
      refine ih (by omega) ?_
      rw [show (i + 1) * 4096 = i * 4096 + 4096 by omega]
      exact hsect

end

/-- **A run of sectors is allocated**, when the clear bits from the first one on are enough. -/
theorem allocSmapBit_bits {s : FsState} {n f : Nat} (hn1 : 2 ≤ s.sb.n1stSect) (hn : n ≠ 0)
    (hm : s.sb.smapBase + s.sb.nrSmapSects ≤ 2 ^ 22) (hr : FreeRun (mapBit s.disk s.sb.smapBase) n f)
    (hf : f + n ≤ s.sb.nrSmapSects * 4096) :
    allocSmapBit s n = some (f + s.sb.n1stSect - 1,
      { s with disk := putBits s.disk s.sb.smapBase true f n }) := by
  have hstart : Taken s.disk s.sb.smapBase s.sb.n1stSect n (0 * 4096) s.disk n 0 :=
    .searching fun i hi => absurd hi (by omega)
  obtain ⟨⟨d, left, free⟩, hsects⟩ := allocSects_some hr s.sb.nrSmapSects hn1 hn (by omega) hstart
  have ht := allocSects_taken s.sb.nrSmapSects hn1 hn (by omega) hstart hsects
  rw [Nat.zero_add] at ht
  unfold allocSmapBit
  rw [hsects, Option.bind_some]
  simp only at ht ⊢
  cases ht with
  | searching hset =>
    have hclear := hr.clear f le_rfl (by omega)
    rw [hset f (by omega)] at hclear
    cases hclear
  | taking f' hlt hpos hle hset hclear =>
    have hsame := hr.unique ⟨hset, hclear⟩ hn (by omega)
    subst hsame
    have hl : left = 0 := by
      by_contra hne
      have := hpos hne
      omega
    subst hl
    rw [if_pos rfl, Nat.sub_zero]

end Noxis.Fs
