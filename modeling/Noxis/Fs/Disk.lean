import Noxis.Lib.Bytes

/-!
# 25-osfs11/kernel/hd.c: sectors

A disk is the partition ROOT_DEV: sectors of SECTOR_SIZE bytes.  The file system names a sector by
the byte offset `i * SECTOR_SIZE`, an `int` that becomes a `u64` on its way to the driver
(`position`); `hd_rdwt` turns it back into a number (`sectNr`).  It is the same number below 2^22
(`sectOf_of_lt`), and one that is far away from there on (`sectOf_far`).

`hd_cmd.count` is one byte: the device transfers at most 256 sectors and `hd_rdwt` then waits for
ever for the next one (`transfers`).
-/

namespace Noxis.Fs

def SECTOR_SIZE : Nat := 512

/-- the byte at an offset of a sector -/
abbrev Disk := Nat → Nat → Byte

/-- `i * SECTOR_SIZE` as a `u64` -/
def position (i : Nat) : Nat :=
  if i * 512 % 2 ^ 32 < 2 ^ 31 then i * 512 % 2 ^ 32 else 2 ^ 64 - 2 ^ 32 + i * 512 % 2 ^ 32

/-- `sect_nr` in `hd_rdwt`, before the base of the partition is added -/
def sectNr (pos : Nat) : Nat := pos / 512 % 2 ^ 32

/-- the sector that the driver gets to see -/
def sectOf (i : Nat) : Nat := sectNr (position i)

/-- whether `n` sectors are transferred by one command: a count of 0 stands for 256 -/
def transfers (n : Nat) : Bool := decide (n ≤ if n % 256 = 0 then 256 else n % 256)

/-- the buffer after reading from sector `s` on -/
def readAt (d : Disk) (s : Nat) : Buffer := fun o => d (s + o / 512) (o % 512)

/-- the disk after writing `n` sectors from `s` on -/
def writeAt (d : Disk) (s n : Nat) (b : Buffer) : Disk := fun t o =>
  if s ≤ t ∧ t < s + n ∧ o < 512 then b ((t - s) * 512 + o) else d t o

/-- `rw_sector (DEV_READ, …)`; `none` when the driver does not come back -/
def rdSectors (d : Disk) (i n : Nat) : Option Buffer :=
  if transfers n then some (readAt d (sectOf i)) else none

/-- `rw_sector (DEV_WRITE, …)` -/
def wrSectors (d : Disk) (i n : Nat) (b : Buffer) : Option Disk :=
  if transfers n then some (writeAt d (sectOf i) n b) else none

/-- `RD_SECT` -/
def rdSect (d : Disk) (i : Nat) : Buffer := readAt d (sectOf i)

/-- `WR_SECT` -/
def wrSect (d : Disk) (i : Nat) (b : Buffer) : Disk := writeAt d (sectOf i) 1 b

section
variable {d : Disk} {b : Buffer} {i n s t o : Nat}

theorem sectOf_of_lt (h : i < 2 ^ 22) : sectOf i = i := by
  unfold sectOf sectNr position
  rw [if_pos (by omega)]
  omega

/-- a sector from 2^22 on is taken for one that is far away -/
theorem sectOf_far (h : 2 ^ 22 ≤ i) (hi : i < 2 ^ 31) : sectOf i < i ∨ i + 256 ≤ sectOf i := by
  unfold sectOf sectNr position
  by_cases hlt : i * 512 % 2 ^ 32 < 2 ^ 31
  · rw [if_pos hlt]
    omega
  · rw [if_neg hlt]
    omega

theorem transfers_iff : transfers n = true ↔ n ≤ 256 := by
  unfold transfers
  rw [decide_eq_true_iff]
  split <;> omega

theorem rdSectors_some (h : n ≤ 256) : rdSectors d i n = some (readAt d (sectOf i)) :=
  if_pos (transfers_iff.mpr h)

theorem rdSectors_none (h : 256 < n) : rdSectors d i n = none :=
  if_neg fun ht => absurd (transfers_iff.mp ht) (by omega)

theorem wrSectors_some (h : n ≤ 256) :
    wrSectors d i n b = some (writeAt d (sectOf i) n b) := if_pos (transfers_iff.mpr h)

theorem readAt_lt (h : o < 512) : readAt d s o = d s o := by
  unfold readAt
  rw [Nat.div_eq_of_lt h, Nat.mod_eq_of_lt h]
  rfl

theorem rdSect_lt (h : o < 512) : rdSect d i o = d (sectOf i) o := readAt_lt h

theorem writeAt_other (h : ¬ (s ≤ t ∧ t < s + n)) : writeAt d s n b t o = d t o :=
  if_neg fun hc => h ⟨hc.1, hc.2.1⟩

theorem writeAt_mem (hs : s ≤ t) (ht : t < s + n) (ho : o < 512) :
    writeAt d s n b t o = b ((t - s) * 512 + o) := if_pos ⟨hs, ht, ho⟩

/-- a sector that was not written -/
theorem wrSect_other (h : t ≠ sectOf i) : wrSect d i b t = d t := by
  funext o
  exact writeAt_other (by omega)

theorem wrSect_lt (h : o < 512) : wrSect d i b (sectOf i) o = b o := by
  unfold wrSect
  rw [writeAt_mem le_rfl (Nat.lt_succ_self _) h, Nat.sub_self, Nat.zero_mul, Nat.zero_add]

theorem wrSect_ge (h : 512 ≤ o) : wrSect d i b t o = d t o :=
  if_neg fun hc => absurd hc.2.2 (by omega)

end

end Noxis.Fs
