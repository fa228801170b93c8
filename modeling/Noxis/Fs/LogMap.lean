import Noxis.Fs.Give
import Noxis.Fs.FirstFit

/-!
# 25-osfs11/fs/disklog.c: the bits of the log

`sect M <-> bit (M - sb.n_1stsect + 1)` is how `mkfs`, `alloc_smap_bit` and `do_unlink` read the
sector map.  `disklog` takes bit `M` for sector `M`.

* `reserveLog`          what `disklog` does to the sector map when it is called first
* `markTar`             what `mkfs` does to it for /cmd.tar
* `reserve_disagrees`   the bits that are set are never those of the log's sectors
-/

namespace Noxis.Fs

/-- bit `k` of the sector map stands for sector `t` -/
def StandsFor (sb : Super) (k t : Nat) : Prop := k + sb.n1stSect = t + 1

/-! ## disklog -/

/-- the bytes of a sector of the map from `byteOff` on, the first one from bit `bitOff` on -/
def reserveBytes : Nat → Nat → Nat → Buffer → Nat → Option (Buffer × Nat)
  | 0, _, _, logdiskbuf, bitsLeft => some (logdiskbuf, bitsLeft)
  | n + 1, byteOff, bitOff, logdiskbuf, bitsLeft =>
    if bitsLeft = 0 then some (logdiskbuf, bitsLeft)
    else
      (takeBits (8 - bitOff) bitOff (logdiskbuf byteOff) bitsLeft).bind fun r =>
        reserveBytes n (byteOff + 1) 0 (Function.update logdiskbuf byteOff r.1) r.2

/-- the sectors of the map from `sectNr` on -/
def reserveSects : Nat → Nat → Nat → Nat → Disk → Nat → Option (Disk × Nat)
  | 0, _, _, _, d, bitsLeft => some (d, bitsLeft)
  | n + 1, sectNr, byteOff, bitOff, d, bitsLeft =>
    (reserveBytes (SECTOR_SIZE - byteOff) byteOff bitOff (rdSect d sectNr) bitsLeft).bind fun r =>
      let d := wrSect d sectNr r.1
      if r.2 = 0 then some (d, 0) else reserveSects n (sectNr + 1) 0 0 d r.2

/-- the first sector of a log of `nr` sectors -/
def Super.logStart (sb : Super) (nr : Nat) : Nat := sb.nrSects - nr

/-- the reservation of a log of `nr` sectors; `none` is an assertion that fails -/
def reserveLog (nr : Nat) (s : FsState) : Option FsState :=
  let nrLogBlk0Nr := s.sb.logStart nr
  (reserveSects (nr / 4096 + 2) (s.sb.smapBase + nrLogBlk0Nr / 4096) (nrLogBlk0Nr % 4096 / 8)
    (nrLogBlk0Nr % 4096 % 8) s.disk nr).bind fun r =>
      if r.2 = 0 then some { s with disk := r.1 } else none

section
variable {d : Disk} {base i j k m n p left left' : Nat} {fsbuf e : Buffer}

/-- the bytes of one sector -/
theorem reserveBytes_spec (hi : base + i < 2 ^ 22) (n : Nat) (hj : j + n = 512) (hk : k < 8)
    (hk0 : n = 0 → k = 0) (h : reserveBytes n j k fsbuf left = some (e, left')) :
    left' = left - min (n * 8 - k) left ∧
      (∀ x, i * 4096 + j * 8 + k ≤ x → x < i * 4096 + j * 8 + k + min (n * 8 - k) left →
        mapBit (wrSect d (base + i) fsbuf) base x = false) ∧
      wrSect d (base + i) e = putBits (wrSect d (base + i) fsbuf) base true (i * 4096 + j * 8 + k)
        (min (n * 8 - k) left) := by
  induction n generalizing j k fsbuf left with
  | zero =>
    rw [reserveBytes, Option.some.injEq, Prod.mk.injEq] at h
    rw [Nat.zero_mul, Nat.zero_sub, Nat.zero_min, putBits_zero, h.1]
    exact ⟨h.2.symm, fun x h1 h2 => absurd h1 (by omega), rfl⟩
  | succ n ih =>
    rw [reserveBytes] at h
    by_cases hl : left = 0
    · rw [if_pos hl, Option.some.injEq, Prod.mk.injEq] at h
      rw [hl, Nat.min_zero, putBits_zero, h.1]
      exact ⟨by omega, fun x h1 h2 => absurd h1 (by omega), rfl⟩
    · rw [if_neg hl] at h
      obtain ⟨⟨b, left₁⟩, htake, h⟩ := Option.bind_eq_some_iff.mp h
      obtain ⟨hleft₁, hclear, hput⟩ := takeBits_spec hi (by omega) (8 - k) (by omega) hl htake
      obtain ⟨hleft, hrest, hlast⟩ := ih (by omega) (Nat.succ_pos 7) (fun _ => rfl) h
      simp only at hleft hrest hlast
      rw [hput] at hrest hlast
      by_cases h0 : left₁ = 0
      · -- the byte is the last one
        rw [h0, Nat.min_zero, putBits_zero] at hlast
        have hall : min ((n + 1) * 8 - k) left = min (8 - k) left := by omega
        rw [hall, hlast]
        exact ⟨by omega, hclear, rfl⟩
      · have hmin : min (8 - k) left = 8 - k := by omega
        have hnext : i * 4096 + j * 8 + k + (8 - k) = i * 4096 + (j + 1) * 8 + 0 := by omega
        have hsum : min ((n + 1) * 8 - k) left = 8 - k + min (n * 8 - 0) left₁ := by omega
        rw [hmin] at hclear hlast hrest
        rw [← hnext] at hrest hlast
        rw [hsum, hlast, putBits_add, ← Nat.add_assoc]
        refine ⟨by omega, fun x h1 h2 => ?_, rfl⟩
        by_cases hx : x < i * 4096 + j * 8 + k + (8 - k)
        · exact hclear x h1 hx
        · have hbit := hrest x (Nat.le_of_not_lt hx) h2
          rwa [mapBit_putBits, if_neg fun hc => hx hc.2] at hbit

/-- **The sectors of the map**: the bits that were set were clear. -/
theorem reserveSects_spec (n : Nat) {r : Disk × Nat} (hi : base + i + n ≤ 2 ^ 22) (hj : j < 512)
    (hk : k < 8) (h : reserveSects n (base + i) j k d left = some r) :
    r.2 = left - min (n * 4096 - (j * 8 + k)) left ∧
      (∀ x, i * 4096 + j * 8 + k ≤ x → x < i * 4096 + j * 8 + k + (left - r.2) →
        mapBit d base x = false) ∧
      r.1 = putBits d base true (i * 4096 + j * 8 + k) (left - r.2) := by
  induction n generalizing i j k d left with
  | zero =>
    cases h
    rw [Nat.zero_mul, Nat.zero_sub, Nat.zero_min, Nat.sub_self, putBits_zero]
    exact ⟨rfl, fun x h1 h2 => absurd h1 (by omega), rfl⟩
  | succ n ih =>
    rw [reserveSects] at h
    obtain ⟨⟨e, left₁⟩, hbytes, h⟩ := Option.bind_eq_some_iff.mp h
    obtain ⟨hleft₁, hclear, hput⟩ := reserveBytes_spec (d := d)
      (show base + i < 2 ^ 22 by omega) (SECTOR_SIZE - j)
      (by unfold SECTOR_SIZE; omega) hk (fun h0 => by unfold SECTOR_SIZE at h0; omega) hbytes
    rw [wrSect_rdSect] at hclear hput
    have hroom : (SECTOR_SIZE - j) * 8 - k = 4096 - (j * 8 + k) := by
      unfold SECTOR_SIZE
      omega
    rw [hroom] at hleft₁ hclear hput
    simp only at h
    rw [hput] at h
    have hcount : left - left₁ = min (4096 - (j * 8 + k)) left := by omega
    by_cases h0 : left₁ = 0
    · rw [if_pos h0] at h
      cases h
      simp only
      rw [h0] at hcount
      rw [← hcount, Nat.sub_zero] at hclear ⊢
      exact ⟨by omega, hclear, rfl⟩
    · rw [if_neg h0, show base + i + 1 = base + (i + 1) from rfl] at h
      obtain ⟨hleft, hrest, hlast⟩ := ih (by omega) (Nat.succ_pos 511) (Nat.succ_pos 7) h
      have hmin : min (4096 - (j * 8 + k)) left = 4096 - (j * 8 + k) := by omega
      have hnext : (i + 1) * 4096 + 0 * 8 + 0 = i * 4096 + j * 8 + k + (4096 - (j * 8 + k)) := by omega
      have hsum : left - r.2 = 4096 - (j * 8 + k) + (left₁ - r.2) := by omega
      rw [hmin] at hclear hrest hlast
      rw [hnext] at hrest hlast
      refine ⟨by omega, fun x h1 h2 => ?_, ?_⟩
      · rw [hsum, ← Nat.add_assoc] at h2
        by_cases hx : x < i * 4096 + j * 8 + k + (4096 - (j * 8 + k))
        · exact hclear x h1 hx
        · have hbit := hrest x (Nat.le_of_not_lt hx) h2
          rwa [mapBit_putBits, if_neg fun hc => hx hc.2] at hbit
      · rw [hlast, hsum, putBits_add]

/-! ## when the bits are clear -/

/-- a bit that is left for the next byte or sector -/
theorem later_bit {a x : Nat} (hl : left' = left - min a left) (h1 : p + a ≤ x)
    (h2 : x < p + a + left') : p ≤ x ∧ x < p + left ∧ ¬ (p ≤ x ∧ x < p + min a left) := by omega

theorem reserveBytes_some (hi : base + i < 2 ^ 22) (n : Nat) (hj : j + n = 512) (hk : k < 8)
    (hc : ∀ x, i * 4096 + j * 8 + k ≤ x → x < i * 4096 + j * 8 + k + left →
      mapBit (wrSect d (base + i) fsbuf) base x = false) :
    ∃ r, reserveBytes n j k fsbuf left = some r := by
  induction n generalizing j k fsbuf left with
  | zero => exact ⟨_, rfl⟩
  | succ n ih =>
    rw [reserveBytes]
    by_cases hl : left = 0
    · rw [if_pos hl]
      exact ⟨_, rfl⟩
    · rw [if_neg hl]
      obtain ⟨⟨b, left₁⟩, htake⟩ := takeBits_some (b := fsbuf j) (k := k) (8 - k) (by omega) hl
        fun x h1 h2 => by
          rw [wrSect_mapBit d base i fsbuf hi (by omega) (show x < 8 by omega)]
          exact hc _ (by omega) (by omega)
      obtain ⟨hleft₁, -, hput⟩ := takeBits_spec (d := d) hi (by omega) (8 - k) (by omega) hl htake
      rw [htake, Option.bind_some]
      refine ih (by omega) (Nat.succ_pos 7) fun x h1 h2 => ?_
      have hp : i * 4096 + (j + 1) * 8 + 0 = i * 4096 + j * 8 + k + (8 - k) := by omega
      rw [hp] at h1 h2
      obtain ⟨hx1, hx2, hout⟩ := later_bit hleft₁ h1 h2
      rw [hput, mapBit_putBits, if_neg hout]
      exact hc x hx1 hx2

theorem reserveSects_some (n : Nat) (hi : base + i + n ≤ 2 ^ 22) (hj : j < 512) (hk : k < 8)
    (hc : ∀ x, i * 4096 + j * 8 + k ≤ x → x < i * 4096 + j * 8 + k + left → mapBit d base x = false) :
    ∃ r, reserveSects n (base + i) j k d left = some r := by
  induction n generalizing i j k d left with
  | zero => exact ⟨_, rfl⟩
  | succ n ih =>
    rw [reserveSects]
    obtain ⟨⟨e, left₁⟩, hbytes⟩ := reserveBytes_some (d := d) (j := j)
      (show base + i < 2 ^ 22 by omega) (SECTOR_SIZE - j) (by unfold SECTOR_SIZE; omega) hk
      (show ∀ x, i * 4096 + j * 8 + k ≤ x → x < i * 4096 + j * 8 + k + left →
        mapBit (wrSect d (base + i) (rdSect d (base + i))) base x = false by
          rw [wrSect_rdSect]
          exact hc)
    obtain ⟨hleft₁, -, hput⟩ := reserveBytes_spec (d := d)
      (show base + i < 2 ^ 22 by omega) (SECTOR_SIZE - j)
      (by unfold SECTOR_SIZE; omega) hk (fun h0 => by unfold SECTOR_SIZE at h0; omega) hbytes
    rw [wrSect_rdSect] at hput
    rw [hbytes, Option.bind_some]
    simp only
    by_cases h0 : left₁ = 0
    · rw [if_pos h0]
      exact ⟨_, rfl⟩
    · rw [if_neg h0, hput, show base + i + 1 = base + (i + 1) from rfl]
      have hroom : (SECTOR_SIZE - j) * 8 - k = 4096 - (j * 8 + k) := by
        unfold SECTOR_SIZE
        omega
      rw [hroom] at hleft₁ ⊢
      refine ih (by omega) (Nat.succ_pos 511) (Nat.succ_pos 7) fun x h1 h2 => ?_
      have hp : (i + 1) * 4096 + 0 * 8 + 0 = i * 4096 + j * 8 + k + (4096 - (j * 8 + k)) := by omega
      rw [hp] at h1 h2
      obtain ⟨hx1, hx2, hout⟩ := later_bit hleft₁ h1 h2
      rw [mapBit_putBits, if_neg hout]
      exact hc x hx1 hx2

end

section
variable {s s' : FsState} {nr : Nat}

theorem reserveLog_sb (h : reserveLog nr s = some s') : s'.sb = s.sb := by
  unfold reserveLog at h
  obtain ⟨r, -, h⟩ := Option.bind_eq_some_iff.mp h
  by_cases h0 : r.2 = 0
  · rw [if_pos h0] at h
    cases h
    rfl
  · rw [if_neg h0] at h
    cases h

/-- **What the first call reserves**: the bits with the numbers of the log's sectors. -/
theorem reserveLog_bits (hm : s.sb.smapBase + s.sb.nrSects / 4096 + 2 ≤ 2 ^ 22)
    (hle : nr ≤ s.sb.nrSects)
    (h : reserveLog nr s = some s') :
    (∀ k, s.sb.logStart nr ≤ k → k < s.sb.nrSects → mapBit s.disk s.sb.smapBase k = false) ∧
      s' = { s with disk := putBits s.disk s.sb.smapBase true (s.sb.logStart nr) nr } := by
  have hstart : s.sb.logStart nr + nr = s.sb.nrSects := Nat.sub_add_cancel hle
  unfold reserveLog at h
  simp only at h
  generalize s.sb.logStart nr = l at h hstart ⊢
  obtain ⟨⟨d, left⟩, hsects, h⟩ := Option.bind_eq_some_iff.mp h
  obtain ⟨hleft, hclear, hput⟩ := reserveSects_spec (nr / 4096 + 2) (by omega) (by omega) (by omega)
    hsects
  simp only at h hleft hclear hput
  by_cases h0 : left = 0
  · rw [if_pos h0] at h
    have hwhere : l / 4096 * 4096 + l % 4096 / 8 * 8 + l % 4096 % 8 = l := by omega
    rw [hwhere, h0, Nat.sub_zero] at hclear hput
    refine ⟨fun k h1 h2 => hclear k h1 (by omega), ?_⟩
    rw [← hput]
    exact (Option.some.inj h).symm
  · rw [if_neg h0] at h
    cases h

/-- it succeeds when they are clear -/
theorem reserveLog_some (hm : s.sb.smapBase + s.sb.nrSects / 4096 + 2 ≤ 2 ^ 22)
    (hle : nr ≤ s.sb.nrSects)
    (hc : ∀ k, s.sb.logStart nr ≤ k → k < s.sb.nrSects → mapBit s.disk s.sb.smapBase k = false) :
    ∃ s', reserveLog nr s = some s' := by
  have hstart : s.sb.logStart nr + nr = s.sb.nrSects := Nat.sub_add_cancel hle
  unfold reserveLog
  simp only
  generalize s.sb.logStart nr = l at hc hstart ⊢
  have hwhere : l / 4096 * 4096 + l % 4096 / 8 * 8 + l % 4096 % 8 = l := by omega
  obtain ⟨⟨d, left⟩, hsects⟩ := reserveSects_some (j := l % 4096 / 8) (k := l % 4096 % 8)
    (nr / 4096 + 2) (show s.sb.smapBase + l / 4096 + (nr / 4096 + 2) ≤ 2 ^ 22 by omega) (by omega)
    (by omega) fun x h1 (h2 : x < l / 4096 * 4096 + l % 4096 / 8 * 8 + l % 4096 % 8 + nr) =>
      hc x (by omega) (by omega)
  obtain ⟨hleft, -⟩ := reserveSects_spec (nr / 4096 + 2) (by omega) (by omega) (by omega) hsects
  rw [hsects, Option.bind_some]
  simp only at hleft ⊢
  have h0 : left = 0 := by omega
  rw [if_pos h0]
  exact ⟨_, rfl⟩

end

/-! ## mkfs -/

/-- the variables of `mkfs` while it marks /cmd.tar -/
structure Mark where
  disk : Disk
  fsbuf : Buffer
  bitOffInSect : Nat
  curSect : Nat

/-- one turn of `while (bit_left)` -/
def Mark.turn (base : Nat) (m : Mark) : Mark :=
  let byteOff := m.bitOffInSect / 8
  let fsbuf := Function.update m.fsbuf byteOff (setBit (m.fsbuf byteOff) (m.bitOffInSect % 8))
  if m.bitOffInSect + 1 = SECTOR_SIZE * 8 then
    let d := wrSect m.disk (base + m.curSect) fsbuf
    ⟨d, rdSect d (base + (m.curSect + 1)), 0, m.curSect + 1⟩
  else { m with fsbuf := fsbuf, bitOffInSect := m.bitOffInSect + 1 }

def Mark.turns (base : Nat) : Nat → Mark → Mark
  | 0, m => m
  | bitLeft + 1, m => (m.turn base).turns base bitLeft

/-- the bits of `nr` sectors from `startSect` on; `mkfs` does this for INSTALL_START_SECT and
INSTALL_NR_SECTS -/
def markTar (startSect nr : Nat) (s : FsState) : FsState :=
  let base := 2 + s.sb.nrImapSects
  let bitOffset := startSect + 1 - s.sb.n1stSect
  let m := Mark.turns base nr ⟨s.disk, rdSect s.disk (base + bitOffset / 4096), bitOffset % 4096,
    bitOffset / 4096⟩
  { s with disk := wrSect m.disk (base + m.curSect) m.fsbuf }

/-- `c` bits from `f` on are set, once the buffer is written -/
structure Marked (d₀ : Disk) (base f c : Nat) (m : Mark) : Prop where
  bit : m.bitOffInSect < 4096
  pos : f + c = m.curSect * 4096 + m.bitOffInSect
  disk : wrSect m.disk (base + m.curSect) m.fsbuf = putBits d₀ base true f c

section
variable {d₀ : Disk} {base f c n : Nat} {m : Mark}

theorem Marked.turn (h : Marked d₀ base f c m) (hi : base + m.curSect < 2 ^ 22) :
    Marked d₀ base f (c + 1) (m.turn base) := by
  have hbit := h.bit
  have hpos := h.pos
  have hwrite := wrSect_bit m.disk base m.curSect true m.fsbuf hi
    (show m.bitOffInSect / 8 < 512 by omega) (Nat.mod_lt m.bitOffInSect (Nat.succ_pos 7))
  have hat : m.curSect * 4096 + m.bitOffInSect / 8 * 8 + m.bitOffInSect % 8 = f + c := by
    rw [Nat.add_assoc, Nat.div_add_mod', hpos]
  have hone : putBits d₀ base true f (c + 1) = putBit (putBits d₀ base true f c) base true (f + c) := by
    rw [putBits_add]
    rfl
  rw [if_pos rfl, hat, h.disk, ← hone] at hwrite
  unfold Mark.turn
  simp only
  by_cases hend : m.bitOffInSect + 1 = SECTOR_SIZE * 8
  · have hend' : m.bitOffInSect + 1 = 4096 := hend
    rw [if_pos hend]
    refine ⟨Nat.succ_pos 4095, ?_, ?_⟩
    · show f + (c + 1) = (m.curSect + 1) * 4096 + 0
      omega
    · simp only
      rw [wrSect_rdSect]
      exact hwrite
  · have hend' : m.bitOffInSect + 1 ≠ 4096 := hend
    rw [if_neg hend]
    refine ⟨?_, ?_, hwrite⟩
    · show m.bitOffInSect + 1 < 4096
      omega
    · show f + (c + 1) = m.curSect * 4096 + (m.bitOffInSect + 1)
      omega

theorem Marked.turns (n : Nat) (h : Marked d₀ base f c m) (hend : base + (f + c + n) / 4096 < 2 ^ 22) :
    Marked d₀ base f (c + n) (m.turns base n) := by
  induction n generalizing c m with
  | zero => exact h
  | succ n ih =>
    have hbit := h.bit
    have hpos := h.pos
    have hsum : c + (n + 1) = c + 1 + n := by omega
    rw [hsum]
    refine ih (h.turn (by omega)) ?_
    rw [show f + (c + 1) + n = f + c + (n + 1) by omega]
    exact hend

end

section
variable {s s' : FsState} {nr t k : Nat}

/-- **`mkfs` marks the bits that stand for the sectors of /cmd.tar.** -/
theorem markTar_bits
    (hm : s.sb.smapBase + (t + 1 - s.sb.n1stSect + nr) / 4096 < 2 ^ 22) :
    markTar t nr s =
      { s with disk := putBits s.disk s.sb.smapBase true (t + 1 - s.sb.n1stSect) nr } := by
  have hbase : 2 + s.sb.nrImapSects = s.sb.smapBase := rfl
  unfold markTar
  simp only
  rw [hbase]
  generalize t + 1 - s.sb.n1stSect = f at hm ⊢
  have hstart : Marked s.disk s.sb.smapBase f 0
      ⟨s.disk, rdSect s.disk (s.sb.smapBase + f / 4096), f % 4096, f / 4096⟩ := by
    refine ⟨Nat.mod_lt _ (Nat.succ_pos 4095), ?_, ?_⟩
    · show f + 0 = f / 4096 * 4096 + f % 4096
      omega
    · rw [wrSect_rdSect, putBits_zero]
  have hend := (hstart.turns nr hm).disk
  rw [Nat.zero_add] at hend
  exact congrArg (fun d => ({ s with disk := d } : FsState)) hend

/-- `alloc_smap_bit` sets the bits that stand for the sectors that it returns -/
theorem allocSmapBit_standsFor {a n : Nat} (hn1 : 2 ≤ s.sb.n1stSect) (hn : n ≠ 0)
    (hm : s.sb.smapBase + s.sb.nrSmapSects ≤ 2 ^ 22) (h : allocSmapBit s n = some (a, s')) :
    (mapBit s.disk s.sb.smapBase k = false ∧ mapBit s'.disk s.sb.smapBase k = true) ↔
      ∃ t, a ≤ t ∧ t < a + n ∧ StandsFor s.sb k t := by
  obtain ⟨f, hrun, -, ha, rfl⟩ := allocSmapBit_run hn1 hn hm h
  rw [show ∀ d, ({ s with disk := d } : FsState).disk = d from fun _ => rfl, mapBit_putBits]
  constructor
  · rintro ⟨hclear, hset⟩
    by_cases hin : f ≤ k ∧ k < f + n
    · exact ⟨k + s.sb.n1stSect - 1, by omega, by omega, by unfold StandsFor; omega⟩
    · rw [if_neg hin, hclear] at hset
      cases hset
  · rintro ⟨t, h1, h2, hk⟩
    unfold StandsFor at hk
    rw [if_pos (by omega)]
    exact ⟨hrun.clear k (by omega) (by omega), rfl⟩

/-! ## the log and the files -/

/-- what becomes of the sector map when files come and go -/
inductive Later (s : FsState) : FsState → Prop where
  | start : Later s s
  | create {u u' : FsState} {n a : Nat} : Later s u → allocSmapBit u n = some (a, u') → Later s u'
  | unlink {u u' : FsState} {n a : Nat} : Later s u → freeSmapBits u a n = some u' → Later s u'

/-- **the log is kept apart**: the bits that are reserved are those that stand for its sectors, and no
file that is created afterwards has one of its sectors -/
structure LogApart (nr : Nat) (s s' : FsState) : Prop where
  bits : ∀ k, (mapBit s.disk s.sb.smapBase k = false ∧ mapBit s'.disk s.sb.smapBase k = true) ↔
    ∃ t, s.sb.logStart nr ≤ t ∧ t < s.sb.nrSects ∧ StandsFor s.sb k t
  files : ∀ u, Later s' u → ∀ n a u', allocSmapBit u n = some (a, u') →
    a + n ≤ s.sb.logStart nr ∨ s.sb.nrSects ≤ a

/-- **The log is never kept apart**: when its bits are clear `disklog` reserves some, and they are
always others than those that stand for its sectors. -/
theorem reserve_disagrees (hn1 : 2 ≤ s.sb.n1stSect)
    (hm : s.sb.smapBase + s.sb.nrSects / 4096 + 2 ≤ 2 ^ 22) (hnr : 1 ≤ nr) (hle : nr ≤ s.sb.nrSects) :
    ((∀ k, s.sb.logStart nr ≤ k → k < s.sb.nrSects → mapBit s.disk s.sb.smapBase k = false) →
      ∃ s', reserveLog nr s = some s') ∧
    ∀ s', reserveLog nr s = some s' → ¬ LogApart nr s s' := by
  refine ⟨reserveLog_some hm hle, fun s' h hapart => ?_⟩
  obtain ⟨hclear, rfl⟩ := reserveLog_bits hm hle h
  have hstart : s.sb.logStart nr + nr = s.sb.nrSects := Nat.sub_add_cancel hle
  -- the last bit stands for a sector behind the device
  have hlast := (hapart.bits (s.sb.nrSects - 1)).mp ⟨hclear _ (by omega) (by omega), by
    show mapBit (putBits s.disk s.sb.smapBase true (s.sb.logStart nr) nr) _ _ = true
    rw [mapBit_putBits, if_pos (by omega)]⟩
  obtain ⟨t, -, ht, hk⟩ := hlast
  unfold StandsFor at hk
  omega

end

/-- on a disk of zeros it is reserved, and it is not kept apart -/
theorem reserve_disagrees_zeros :
    ((∀ k, (blank zeros .small).sb.logStart NR_DEFAULT_FILE_SECTS ≤ k → k < 0x20000 →
      mapBit zeros 3 k = false) →
      ∃ s', reserveLog NR_DEFAULT_FILE_SECTS (blank zeros .small) = some s') ∧
    ∀ s', reserveLog NR_DEFAULT_FILE_SECTS (blank zeros .small) = some s' →
      ¬ LogApart NR_DEFAULT_FILE_SECTS (blank zeros .small) s' :=
  reserve_disagrees (s := blank zeros .small) (by decide) (by decide) (by decide) (by decide)

/-- the map of a volume with 62 files from the first bit on -/
def nearDisk : Disk := putBits zeros 3 true 0 126976

theorem mapBit_nearDisk (k : Nat) : mapBit nearDisk 3 k = decide (k < 126976) := by
  unfold nearDisk
  rw [mapBit_putBits, mapBit_zeros]
  by_cases hk : k < 126976
  · rw [decide_eq_true hk, if_pos (by omega)]
  · rw [decide_eq_false hk, if_neg (by omega)]

/-- the file that is created next has 291 sectors of the log -/
theorem near_overlaps {d : Disk} (hbit : ∀ k, mapBit d 3 k =
      if 129024 ≤ k ∧ k < 131072 then true else decide (k < 126976)) :
    ∃ u', allocSmapBit (blank d .small) NR_DEFAULT_FILE_SECTS = some (127267, u') := by
  have hrun : FreeRun (mapBit d 3) 2048 126976 := by
    refine ⟨fun i hi => ?_, fun i h1 h2 => ?_⟩
    · rw [hbit, if_neg (by omega), decide_eq_true hi]
    · rw [hbit, if_neg (by omega), decide_eq_false (by omega)]
  exact ⟨_, allocSmapBit_bits (s := blank d .small) (show 2 ≤ 292 by decide)
    (show 2048 ≠ 0 by decide) (show 3 + 33 ≤ 2 ^ 22 by decide) hrun
    (show 126976 + 2048 ≤ 33 * 4096 by decide)⟩

theorem near_not_apart {d : Disk} {n : Nat} (hn : n = NR_DEFAULT_FILE_SECTS)
    (hbit : ∀ k, mapBit d 3 k = decide (k < 126976)) :
    ∃ s', reserveLog n (blank d .small) = some s' ∧ ¬ LogApart n (blank d .small) s' := by
  have hn' : n = 2048 := hn
  have hsects : (blank d .small).sb.nrSects = 131072 := rfl
  have hbase : (blank d .small).sb.smapBase = 3 := rfl
  have hstart : (blank d .small).sb.logStart n = 129024 := by
    unfold Super.logStart
    omega
  have hmap : (blank d .small).sb.smapBase + (blank d .small).sb.nrSects / 4096 + 2 ≤ 2 ^ 22 := by
    omega
  have hle : n ≤ (blank d .small).sb.nrSects := by omega
  obtain ⟨s', h⟩ := reserveLog_some hmap hle fun k hk _ => by
    show mapBit d 3 k = false
    rw [hbit, decide_eq_false (by omega)]
  refine ⟨s', h, fun hapart => ?_⟩
  obtain ⟨-, rfl⟩ := reserveLog_bits hmap hle h
  have hafter : ∀ k, mapBit (putBits d 3 true 129024 n) 3 k =
      if 129024 ≤ k ∧ k < 131072 then true else decide (k < 126976) := by
    intro k
    rw [mapBit_putBits, hbit, hn']
  have hfiles := hapart.files _ .start
  rw [hstart] at hfiles
  generalize hput : putBits d 3 true 129024 n = d' at hafter
  obtain ⟨u', hu⟩ := near_overlaps hafter
  rw [← hput, ← hn] at hu
  have hfile := hfiles _ _ _ hu
  omega

theorem log_fails :
    ∃ s', reserveLog NR_DEFAULT_FILE_SECTS (blank nearDisk .small) = some s' ∧
      ¬ LogApart NR_DEFAULT_FILE_SECTS (blank nearDisk .small) s' :=
  near_not_apart rfl mapBit_nearDisk

end Noxis.Fs
