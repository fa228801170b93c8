import Mathlib.Data.Nat.Find
import Mathlib.Order.Bounds.Defs
import Noxis.Fs.Counts
import Noxis.Fs.SectMap

/-!
# 25-osfs11/fs/open.c: the searches of the two maps

* `searches_iff`   `alloc_imap_bit` takes the least clear bit of the inode map exactly when that bit
                   is in the first sector of the map
* `firstFit_iff`   `alloc_smap_bit` finds a run exactly when the first clear bit of the sector map
                   starts one
-/

namespace Noxis.Fs

/-! ## the inode map -/

section
variable {s s' : FsState} {num k : Nat}

/-- bit `num` is the least clear one of the inode map, all its sectors together -/
def LeastClear (s : FsState) (num : Nat) : Prop :=
  IsLeast {k | k < s.sb.nrImapSects * 4096 ∧ mapBit s.disk 2 k = false} num

/-- **what a search of the whole inode map does**: it takes the least clear bit and writes the sector
that the bit is in, and panics when every bit is set -/
structure SearchesImap (s : FsState) : Prop where
  takes : ∀ num, LeastClear s num → ∃ fsbuf,
    allocImapBit s = some (num, { s with disk := wrSect s.disk (2 + num / 4096) fsbuf }) ∧
      wrSect s.disk (2 + num / 4096) fsbuf = putBit s.disk 2 true num
  panics : (∀ k < s.sb.nrImapSects * 4096, mapBit s.disk 2 k = true) → allocImapBit s = none

/-- a map has a clear bit or it is full -/
theorem clear_or_full (bit : Nat → Bool) (n : Nat) :
    (∃ k < n, bit k = false) ∨ ∀ k < n, bit k = true := by
  by_cases h : ∃ k < n, bit k = false
  · exact .inl h
  · refine .inr fun k hk => ?_
    by_contra hc
    exact h ⟨k, hk, Bool.not_eq_true _ ▸ hc⟩

/-- a bit of the first sector, in the buffer -/
theorem imap_bit (hk : k < 4096) :
    (rdSect s.disk 2 (k / 8)).getLsbD (k % 8) = mapBit s.disk 2 k := by
  have hread := wrSect_mapBit s.disk 2 0 (rdSect s.disk 2) (by decide)
    (show k / 8 < 512 by omega) (Nat.mod_lt k (by decide : 0 < 8))
  rw [Nat.add_zero, wrSect_rdSect, show 0 * 4096 + k / 8 * 8 + k % 8 = k by omega] at hread
  exact hread

/-- a byte with all its bits set is skipped -/
theorem ones_getLsbD {b : Byte} (h : b = 0xFF) (hk : k < 8) : b.getLsbD k = true := by
  have hones : ∀ k < 8, (0xFF : Byte).getLsbD k = true := by decide
  rw [h]
  exact hones k hk

/-- the first sector is full -/
theorem notFull_none (h : ∀ k < 4096, mapBit s.disk 2 k = true) :
    notFull (rdSect s.disk 2) = none := by
  refine List.find?_range_eq_none.mpr fun j hj => ?_
  rw [Bool.not_eq_true', decide_eq_false_iff_not, not_not]
  have hj512 : j < 512 := hj
  apply BitVec.eq_of_getLsbD_eq
  intro i hi
  have hbit := imap_bit (s := s) (k := j * 8 + i) (by omega)
  rw [show (j * 8 + i) / 8 = j by omega, show (j * 8 + i) % 8 = i by omega,
    h _ (by omega)] at hbit
  rw [hbit, ones_getLsbD rfl hi]

/-- when the first sector is full 0 is returned -/
theorem allocImapBit_full (h0 : s.sb.nrImapSects ≠ 0) (h : ∀ k < 4096, mapBit s.disk 2 k = true) :
    allocImapBit s = some (0, s) := by
  unfold allocImapBit freeInodeNr
  rw [if_neg h0]
  simp only [notFull_none h]

/-- otherwise its least clear bit is taken -/
theorem allocImapBit_least (h0 : s.sb.nrImapSects ≠ 0) (hnum : num < 4096)
    (hclear : mapBit s.disk 2 num = false) (hleast : ∀ k < num, mapBit s.disk 2 k = true) :
    ∃ fsbuf, allocImapBit s = some (num, { s with disk := wrSect s.disk 2 fsbuf }) ∧
      wrSect s.disk 2 fsbuf = putBit s.disk 2 true num := by
  have hbyte : ∀ j < num / 8, rdSect s.disk 2 j = 0xFF := by
    intro j hj
    apply BitVec.eq_of_getLsbD_eq
    intro i hi
    have hbit := imap_bit (s := s) (k := j * 8 + i) (by omega)
    rw [show (j * 8 + i) / 8 = j by omega, show (j * 8 + i) % 8 = i by omega,
      hleast _ (by omega)] at hbit
    rw [hbit, ones_getLsbD rfl hi]
  have hhere : rdSect s.disk 2 (num / 8) ≠ 0xFF := by
    intro hff
    have hbit := imap_bit (s := s) hnum
    rw [ones_getLsbD hff (Nat.mod_lt _ (by decide)), hclear] at hbit
    cases hbit
  have hf : notFull (rdSect s.disk 2) = some (num / 8) := by
    refine List.find?_range_eq_some.mpr ⟨decide_eq_true hhere, ?_, fun j hj => ?_⟩
    · exact List.mem_range.mpr (show num / 8 < 512 by omega)
    · rw [Bool.not_eq_true', decide_eq_false_iff_not, not_not]
      exact hbyte j hj
  have hk : firstZero (rdSect s.disk 2 (num / 8)) = num % 8 := by
    obtain ⟨hlt, hzero, hbefore⟩ := firstZero_spec hhere
    rcases Nat.lt_trichotomy (firstZero (rdSect s.disk 2 (num / 8))) (num % 8) with hl | he | hg
    · have hbit := imap_bit (s := s) (k := num / 8 * 8 + firstZero (rdSect s.disk 2 (num / 8)))
        (by omega)
      rw [hleast _ (by omega), show ∀ x < 8, (num / 8 * 8 + x) / 8 = num / 8 by omega,
        show ∀ x < 8, (num / 8 * 8 + x) % 8 = x by omega, hzero] at hbit
      · cases hbit
      · exact hlt
      · exact hlt
    · exact he
    · have hbit := imap_bit (s := s) hnum
      rw [hbefore _ hg, hclear] at hbit
      cases hbit
  have hwrite := wrSect_bit s.disk 2 0 true (rdSect s.disk 2) (by decide)
    (show num / 8 < 512 by omega) (Nat.mod_lt num (by decide : 0 < 8))
  rw [Nat.add_zero, wrSect_rdSect, show 0 * 4096 + num / 8 * 8 + num % 8 = num by omega] at hwrite
  refine ⟨_, ?_, hwrite⟩
  unfold allocImapBit freeInodeNr
  rw [if_neg h0]
  simp only [hf, hk]
  rw [show num / 8 * 8 + num % 8 = num by omega]
  rfl

/-- **When `alloc_imap_bit` searches the whole map**: when its first sector has a clear bit. -/
theorem searches_iff (h : 1 ≤ s.sb.nrImapSects) :
    SearchesImap s ↔ ∃ k < 4096, mapBit s.disk 2 k = false := by
  have h0 : s.sb.nrImapSects ≠ 0 := by omega
  constructor
  · intro hs
    rcases clear_or_full (mapBit s.disk 2) 4096 with hclear | hfull
    · exact hclear
    have hzero := allocImapBit_full h0 hfull
    rcases clear_or_full (mapBit s.disk 2) (s.sb.nrImapSects * 4096) with hex | hall
    · -- the least clear bit is in a sector that is never read
      have hleast : LeastClear s (Nat.find hex) :=
        ⟨Nat.find_spec hex, fun k hk => Nat.find_min' hex hk⟩
      obtain ⟨fsbuf, halloc, -⟩ := hs.takes _ hleast
      rw [hzero, Option.some.injEq, Prod.mk.injEq] at halloc
      have hclear := (Nat.find_spec hex).2
      rw [← halloc.1, hfull 0 (by decide)] at hclear
      cases hclear
    · rw [hs.panics hall] at hzero
      cases hzero
  · rintro ⟨k, hk, hclear⟩
    refine ⟨fun num hnum => ?_, fun hall => ?_⟩
    · obtain ⟨⟨hlt, hbit⟩, hmin⟩ := hnum
      have hle : num ≤ k := hmin ⟨by omega, hclear⟩
      have hsect : 2 + num / 4096 = 2 := by omega
      rw [hsect]
      refine allocImapBit_least h0 (by omega) hbit fun j hj => ?_
      by_contra hc
      have := hmin (show j ∈ {k | k < s.sb.nrImapSects * 4096 ∧ mapBit s.disk 2 k = false} from
        ⟨by omega, Bool.not_eq_true _ ▸ hc⟩)
      omega
    · have hset := hall k (by omega)
      rw [hclear] at hset
      cases hset

end

/-- a disk of zeros -/
def zeros : Disk := fun _ _ => 0

theorem mapBit_zeros (base k : Nat) : mapBit zeros base k = false := BitVec.getLsbD_zero

theorem searches_iff_zeros : SearchesImap (blank zeros .small) ↔
    ∃ k < 4096, mapBit (blank zeros .small).disk 2 k = false := searches_iff le_rfl

/-- 0 is returned when all the numbers are taken -/
theorem full_not_searches {d : Disk} (hfull : ∀ k < 4096, mapBit d 2 k = true) :
    ¬ SearchesImap (blank d .small) := by
  intro hs
  have hpanics := hs.panics fun k hk => hfull k (by rwa [show (blank d .small).sb.nrImapSects = 1
    from rfl, Nat.one_mul] at hk)
  rw [allocImapBit_full Nat.one_ne_zero hfull] at hpanics
  cases hpanics

theorem searches_fails : ¬ SearchesImap (blank (putBits zeros 2 true 0 4096) .small) :=
  full_not_searches fun k hk => by
    rw [mapBit_putBits, if_pos ⟨Nat.zero_le k, by omega⟩]

/-! ## the sector map -/

section
variable {s s' : FsState} {n k a f : Nat}

/-- `n` clear bits from `k` on, for sectors of the device -/
structure RoomAt (s : FsState) (n k : Nat) : Prop where
  map : k + n ≤ s.sb.nrSmapSects * 4096
  device : k + s.sb.n1stSect - 1 + n ≤ s.sb.nrSects
  clear : ∀ i, k ≤ i → i < k + n → mapBit s.disk s.sb.smapBase i = false

/-- **what a search for `n` sectors does**: where there is a run it takes one, and sets its bits and no
others; where there is none it returns a number that is no file's and leaves the disk -/
structure FirstFit (s : FsState) (n : Nat) : Prop where
  takes : (∃ k, RoomAt s n k) → ∃ k, RoomAt s n k ∧ allocSmapBit s n =
    some (k + s.sb.n1stSect - 1, { s with disk := putBits s.disk s.sb.smapBase true k n })
  reports : (¬ ∃ k, RoomAt s n k) → ∃ a < s.sb.n1stSect, allocSmapBit s n = some (a, s)

/-- `alloc_smap_bit` takes the first clear bit and those behind it -/
theorem allocSmapBit_run (hn1 : 2 ≤ s.sb.n1stSect) (hn : n ≠ 0)
    (hm : s.sb.smapBase + s.sb.nrSmapSects ≤ 2 ^ 22) (h : allocSmapBit s n = some (a, s')) :
    ∃ f, FreeRun (mapBit s.disk s.sb.smapBase) n f ∧ f + n ≤ s.sb.nrSmapSects * 4096 ∧
      a = f + s.sb.n1stSect - 1 ∧
      s' = { s with disk := putBits s.disk s.sb.smapBase true f n } := by
  unfold allocSmapBit at h
  obtain ⟨⟨d, left, free⟩, hsects, h⟩ := Option.bind_eq_some_iff.mp h
  simp only at h
  by_cases hl : left = 0
  · rw [if_pos hl, Option.some.injEq, Prod.mk.injEq] at h
    obtain ⟨ha, hs⟩ := h
    have hstart : Taken s.disk s.sb.smapBase s.sb.n1stSect n (0 * 4096) s.disk n 0 :=
      .searching fun i hi => absurd hi (by omega)
    have ht := allocSects_taken s.sb.nrSmapSects hn1 hn (by omega) hstart hsects
    rw [Nat.zero_add] at ht
    simp only at ht
    cases ht with
    | searching => exact absurd hl hn
    | taking f hlt hpos hle hset hclear =>
      subst hl
      rw [Nat.sub_zero] at hle hclear hs
      exact ⟨f, ⟨hset, hclear⟩, hle, ha.symm, hs.symm⟩
  · rw [if_neg hl] at h
    cases h

/-- **When `alloc_smap_bit` finds a run**: when the first clear bit starts one. -/
theorem firstFit_iff (hn1 : 2 ≤ s.sb.n1stSect) (hm : s.sb.smapBase + s.sb.nrSmapSects ≤ 2 ^ 22)
    (hn : 1 ≤ n) :
    FirstFit s n ↔ ∃ f, FreeRun (mapBit s.disk s.sb.smapBase) n f ∧ RoomAt s n f := by
  have h0 : n ≠ 0 := by omega
  constructor
  · intro hs
    by_cases hex : ∃ k, RoomAt s n k
    · obtain ⟨k, hk, halloc⟩ := hs.takes hex
      obtain ⟨f, hf, -, ha, -⟩ := allocSmapBit_run hn1 h0 hm halloc
      rw [show k = f by omega] at hk
      exact ⟨f, hf, hk⟩
    · obtain ⟨a, -, halloc⟩ := hs.reports hex
      obtain ⟨f, hf, -, -, hsame⟩ := allocSmapBit_run hn1 h0 hm halloc
      -- its bit would be clear and set
      have hset : mapBit s.disk s.sb.smapBase f = true := by
        have hdisk : s.disk = putBits s.disk s.sb.smapBase true f n := congrArg FsState.disk hsame
        rw [hdisk, mapBit_putBits, if_pos ⟨le_rfl, by omega⟩]
      rw [hf.clear f le_rfl (by omega)] at hset
      cases hset
  · rintro ⟨f, hf, hrun⟩
    exact ⟨fun _ => ⟨f, hrun, allocSmapBit_bits hn1 h0 hm hf hrun.map⟩,
      fun hno => absurd ⟨f, hrun⟩ hno⟩

end

theorem firstFit_iff_zeros : FirstFit (blank zeros .small) NR_DEFAULT_FILE_SECTS ↔
    ∃ f, FreeRun (mapBit zeros 3) NR_DEFAULT_FILE_SECTS f ∧
      RoomAt (blank zeros .small) NR_DEFAULT_FILE_SECTS f :=
  firstFit_iff (by decide) (by decide) (by decide)

/-- the map of a volume with 44 files in front of /cmd.tar -/
def gapDisk : Disk := putBits (putBits zeros 3 true 0 92161) 3 true 93917 2048

theorem mapBit_gapDisk (k : Nat) : mapBit gapDisk 3 k =
    if 93917 ≤ k ∧ k < 95965 then true else decide (k < 92161) := by
  unfold gapDisk
  rw [mapBit_putBits, mapBit_putBits, mapBit_zeros]
  by_cases hk : k < 92161
  · rw [decide_eq_true hk, if_pos (show 0 ≤ k ∧ k < 0 + 92161 by omega)]
  · rw [decide_eq_false hk, if_neg (show ¬ (0 ≤ k ∧ k < 0 + 92161) by omega)]

/-- the 1756 sectors in front of /cmd.tar are too few, and there are enough behind it -/
theorem gap_not_firstFit {d : Disk} (hbit : ∀ k, mapBit d 3 k =
      if 93917 ≤ k ∧ k < 95965 then true else decide (k < 92161)) :
    ¬ FirstFit (blank d .small) NR_DEFAULT_FILE_SECTS := by
  intro hs
  have hrun : RoomAt (blank d .small) NR_DEFAULT_FILE_SECTS 95965 := by
    refine ⟨show 95965 + 2048 ≤ 33 * 4096 by decide,
      show 95965 + 292 - 1 + 2048 ≤ 0x20000 by decide, fun i h1 h2 => ?_⟩
    show mapBit d 3 i = false
    rw [hbit, if_neg (by omega), decide_eq_false (by omega)]
  obtain ⟨k, -, halloc⟩ := hs.takes ⟨_, hrun⟩
  obtain ⟨f, hf, -⟩ := allocSmapBit_run (s := blank d .small) (show 2 ≤ 292 by decide)
    (show 2048 ≠ 0 by decide) (show 3 + 33 ≤ 2 ^ 22 by decide) halloc
  have hf : FreeRun (mapBit d 3) NR_DEFAULT_FILE_SECTS f := hf
  have hfirst : FreeRun (mapBit d 3) 1 92161 := by
    refine ⟨fun i hi => ?_, fun i h1 h2 => ?_⟩
    · rw [hbit, if_neg (by omega), decide_eq_true hi]
    · rw [hbit, if_neg (by omega), decide_eq_false (by omega)]
  have hsame := hf.unique hfirst (by decide) Nat.one_ne_zero
  have hset := hf.clear 93917 (by omega) (by rw [← hsame]; decide)
  rw [hbit, if_pos (by omega)] at hset
  cases hset

theorem firstFit_fails : ¬ FirstFit (blank gapDisk .small) NR_DEFAULT_FILE_SECTS :=
  gap_not_firstFit mapBit_gapDisk

end Noxis.Fs
