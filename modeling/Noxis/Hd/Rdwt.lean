import Noxis.Hd.Drive
import Noxis.Fs.ReadWrite

/-!
# 25-osfs11/kernel/hd.c: hd_rdwt

The driver programs the drive, and then moves a sector at a time.  The drive has as many sectors
ready as the command said; for one more the driver waits for ever.

* `rdwtLoop`         the loop, on the memory of the requester and the disk;
* `FsRequest`        what `rw_sector` may be given: up to FSBUF_SIZE bytes from any sector;
* `hdRdwt_iff`       **the request is carried out exactly when the command block can say it**.
-/

namespace Noxis.Hd

open Fs (Disk readAt writeAt)

inductive IoType where
  | DEV_READ | DEV_WRITE
  deriving DecidableEq, Repr

def IoType.command : IoType → Byte
  | .DEV_READ => ATA_READ
  | .DEV_WRITE => ATA_WRITE

/-! ## the code -/

/-- the memory by linear addresses, the disk, the sector that is next, and the bytes moved so far -/
structure Rdwt where
  mem : Buffer
  disk : Disk
  lba : Nat
  moved : Nat

inductive Outcome where
  | done (s : Rdwt)
  /-- `interrupt_wait` is not woken -/
  | waits (s : Rdwt)
  /-- "hd writing error." -/
  | panics (s : Rdwt)
  /-- `phys_copy` of a negative number of bytes -/
  | lost (s : Rdwt)

/-- `while (bytes_left)`, with `n` sectors that the drive has yet to transfer; of less than a sector
that is written the drive waits for the rest -/
def rdwtLoop (io : IoType) : Nat → Int → Nat → Rdwt → Outcome
  | 0, bytesLeft, _, s =>
    if bytesLeft = 0 then .done s
    else
      match io with
      | .DEV_READ => .waits s
      | .DEV_WRITE => .panics s
  | n + 1, bytesLeft, la, s =>
    if bytesLeft = 0 then .done s
    else
      let bytes := min 512 bytesLeft
      match io with
      | .DEV_READ =>
        if bytes < 0 then .lost s
        else
          rdwtLoop io n (bytesLeft - 512) (la + 512)
            { s with
              mem := physCopy s.mem la (s.disk s.lba) 0 bytes.toNat
              lba := s.lba + 1
              moved := s.moved + bytes.toNat }
      | .DEV_WRITE =>
        if bytes < 512 then .waits s
        else
          rdwtLoop io n (bytesLeft - 512) (la + 512)
            { s with
              disk := writeAt s.disk s.lba 1 fun o => s.mem (la + o)
              lba := s.lba + 1
              moved := s.moved + 512 }

/-- `hd_rdwt` with POSITION `pos`, CNT `cnt` and the linear address `la` of the buffer; the command,
and how the transfer ends; `none` is a failed assertion.  In the first one `1 << 31` is an `int`, and
as a `u64` it is nearly 2^64 -/
def hdRdwt (h : HdInfo) (io : IoType) (device pos : Nat) (cnt : Int) (la : Nat) (mem : Buffer)
    (disk : Disk) : Option (HdCmd × Outcome) :=
  if pos / 512 < 2 ^ 64 - 2 ^ 31 ∧ pos % 512 = 0 then
    let sectNr := (Fs.sectNr pos + (h.part device).base) % 2 ^ 32
    let cmd := HdCmd.of (drvOfDev device) sectNr ((cnt + 511) / 512).toNat io.command
    some (cmd, rdwtLoop io cmd.sectors cnt la ⟨mem, disk, cmd.lba, 0⟩)
  else none

/-! ## the requests of the file system -/

/-- sector `sector` of a partition, and `chunk` sectors as they fit into the buffer of FS -/
structure FsRequest where
  io : IoType
  device : Device
  sector : Nat
  chunk : Nat
  sector_lt : sector < 2 ^ 28
  chunk_pos : 0 < chunk
  chunk_le : chunk ≤ Fs.FSBUF_SIZE / Fs.SECTOR_SIZE

/-- `i * SECTOR_SIZE` and `chunk * SECTOR_SIZE` reach the driver -/
def FsRequest.run (q : FsRequest) (h : HdInfo) (la : Nat) (mem : Buffer) (disk : Disk) :
    Option (HdCmd × Outcome) :=
  hdRdwt h q.io q.device.1 (Fs.position q.sector) (q.chunk * 512 : Nat) la mem disk

/-- the sector of the disk that is meant -/
def FsRequest.start (q : FsRequest) (h : HdInfo) : Nat := (h.part q.device.1).base + q.sector

/-- exactly the bytes asked for went between the disk and the buffer -/
def FsRequest.Moved (q : FsRequest) (h : HdInfo) (la : Nat) (mem : Buffer) (disk : Disk) (s : Rdwt) :
    Prop :=
  s.moved = q.chunk * 512 ∧
    match q.io with
    | .DEV_READ => s.disk = disk ∧
        s.mem = physCopy mem la (readAt disk (q.start h)) 0 (q.chunk * 512)
    | .DEV_WRITE => s.mem = mem ∧ s.disk = writeAt disk (q.start h) q.chunk fun o => mem (la + o)

/-- the address, the count and the bytes are those of the request -/
def FsRequest.Transfers (q : FsRequest) (h : HdInfo) (la : Nat) (mem : Buffer) (disk : Disk) : Prop :=
  ∃ cmd s, q.run h la mem disk = some (cmd, .done s) ∧
    cmd.lba = q.start h ∧ cmd.sectors = q.chunk ∧ q.Moved h la mem disk s

/-- what the command block can say: 28 bits of address, 256 sectors, and a byte offset in an `int` (from
2^28 - 2^22 on it wraps to the right sector again) -/
structure FsRequest.Sayable (q : FsRequest) (h : HdInfo) : Prop where
  lba : q.start h < 2 ^ 28
  offset : q.sector < 2 ^ 22 ∨ 2 ^ 28 - 2 ^ 22 ≤ q.sector
  count : q.chunk ≤ 256

/-! ## the loop -/

section
variable {io : IoType} {n left la lba : Nat} {mem : Buffer} {disk : Disk} {s t : Rdwt}

/-- the first sector and the rest -/
theorem physCopy_readAt (mem : Buffer) (la lba n : Nat) (disk : Disk) :
    physCopy (physCopy mem la (disk lba) 0 512) (la + 512) (readAt disk (lba + 1)) 0 (n * 512) =
      physCopy mem la (readAt disk lba) 0 ((n + 1) * 512) := by
  funext a
  unfold physCopy readAt
  by_cases h : la ≤ a ∧ a < la + (n + 1) * 512
  · rw [if_pos h]
    by_cases h2 : la + 512 ≤ a ∧ a < la + 512 + n * 512
    · rw [if_pos h2]
      have h1 : (a - la) / 512 = (a - (la + 512)) / 512 + 1 := by omega
      have h3 : (a - la) % 512 = (a - (la + 512)) % 512 := by omega
      simp only [Nat.zero_add, h1, h3]
      rw [Nat.add_assoc, Nat.add_comm 1]
    · rw [if_neg h2, if_pos (by omega)]
      have h1 : (a - la) / 512 = 0 := by omega
      have h3 : (a - la) % 512 = a - la := by omega
      simp only [Nat.zero_add, h1, h3, Nat.add_zero]
  · rw [if_neg h, if_neg (by omega), if_neg (by omega)]

theorem writeAt_succ (disk : Disk) (lba n : Nat) (b : Buffer) :
    writeAt (writeAt disk lba 1 b) (lba + 1) n (fun o => b (512 + o)) = writeAt disk lba (n + 1) b := by
  funext t o
  unfold writeAt
  by_cases h : lba ≤ t ∧ t < lba + (n + 1) ∧ o < 512
  · rw [if_pos h]
    by_cases h2 : lba + 1 ≤ t ∧ t < lba + 1 + n ∧ o < 512
    · rw [if_pos h2]
      exact congrArg b (by omega)
    · rw [if_neg h2, if_pos (by omega)]
  · rw [if_neg h, if_neg (by omega), if_neg (by omega)]

/-- a whole sector moves -/
def Rdwt.sector (s : Rdwt) (io : IoType) (la : Nat) : Rdwt :=
  match io with
  | .DEV_READ =>
    { s with mem := physCopy s.mem la (s.disk s.lba) 0 512, lba := s.lba + 1, moved := s.moved + 512 }
  | .DEV_WRITE =>
    { s with disk := writeAt s.disk s.lba 1 fun o => s.mem (la + o)
             lba := s.lba + 1
             moved := s.moved + 512 }

/-- one round, while the drive has a sector and the request is for one more -/
theorem rdwtLoop_succ : rdwtLoop io (left + 1) ((n + 1) * 512 : Nat) la s =
    rdwtLoop io left (n * 512 : Nat) (la + 512) (s.sector io la) := by
  have hne : ¬ (((n + 1) * 512 : Nat) : Int) = 0 := by omega
  have hmin : min 512 (((n + 1) * 512 : Nat) : Int) = 512 := by omega
  have hrest : (((n + 1) * 512 : Nat) : Int) - 512 = (n * 512 : Nat) := by omega
  rw [rdwtLoop, if_neg hne]
  simp only [hmin, hrest]
  cases io with
  | DEV_READ => exact if_neg (by omega)
  | DEV_WRITE => exact if_neg (by omega)

/-- nothing is left to move -/
theorem rdwtLoop_nil : rdwtLoop io left (0 * 512 : Nat) la s = .done s := by
  cases left with
  | zero => exact if_pos (by simp)
  | succ left => exact if_pos (by simp)

/-- a READ of no more sectors than the drive has -/
theorem rdwtLoop_read (h : n ≤ left) :
    rdwtLoop .DEV_READ left (n * 512 : Nat) la s =
      .done { s with
        mem := physCopy s.mem la (readAt s.disk s.lba) 0 (n * 512)
        lba := s.lba + n
        moved := s.moved + n * 512 } := by
  induction n generalizing left la s with
  | zero =>
    have hmem : physCopy s.mem la (readAt s.disk s.lba) 0 (0 * 512) = s.mem := by
      funext a
      exact physCopy_not_mem (by omega)
    rw [rdwtLoop_nil, hmem]
    rfl
  | succ n ih =>
    obtain ⟨left, rfl⟩ : ∃ m, left = m + 1 := ⟨left - 1, by omega⟩
    rw [rdwtLoop_succ, ih (by omega)]
    simp only [Outcome.done.injEq, Rdwt.sector, Rdwt.mk.injEq, true_and]
    refine ⟨physCopy_readAt _ _ _ _ _, by omega, ?_⟩
    show s.moved + 512 + n * 512 = s.moved + (n + 1) * 512
    omega

/-- a WRITE of no more sectors than the drive takes -/
theorem rdwtLoop_write (h : n ≤ left) :
    rdwtLoop .DEV_WRITE left (n * 512 : Nat) la s =
      .done { s with
        disk := writeAt s.disk s.lba n fun o => s.mem (la + o)
        lba := s.lba + n
        moved := s.moved + n * 512 } := by
  induction n generalizing left la s with
  | zero =>
    have hdisk : writeAt s.disk s.lba 0 (fun o => s.mem (la + o)) = s.disk := by
      funext t o
      exact Fs.writeAt_other (by omega)
    rw [rdwtLoop_nil, hdisk]
    rfl
  | succ n ih =>
    obtain ⟨left, rfl⟩ : ∃ m, left = m + 1 := ⟨left - 1, by omega⟩
    rw [rdwtLoop_succ, ih (by omega)]
    simp only [Outcome.done.injEq, Rdwt.sector, Rdwt.mk.injEq, true_and]
    refine ⟨?_, by omega, by omega⟩
    have hw := writeAt_succ s.disk s.lba n fun o => s.mem (la + o)
    simp only [← Nat.add_assoc] at hw
    exact hw

/-- one sector more than the drive has, and the loop does not end -/
theorem rdwtLoop_short (h : left < n) : rdwtLoop io left (n * 512 : Nat) la s ≠ .done t := by
  induction left generalizing n la s with
  | zero =>
    have hne : ¬ ((n * 512 : Nat) : Int) = 0 := by omega
    cases io with
    | DEV_READ =>
      rw [rdwtLoop, if_neg hne]
      exact nofun
    | DEV_WRITE =>
      rw [rdwtLoop, if_neg hne]
      exact nofun
  | succ left ih =>
    obtain ⟨n, rfl⟩ : ∃ m, n = m + 1 := ⟨n - 1, by omega⟩
    rw [rdwtLoop_succ]
    exact ih (by omega)

end

/-! ## the command -/

/-- the sector number of a byte offset, against the base of its partition -/
theorem sectNr_iff {i base : Nat} (hi : i < 2 ^ 28) :
    (Fs.sectNr (Fs.position i) + base) % 2 ^ 32 % 2 ^ 28 = base + i ↔
      base + i < 2 ^ 28 ∧ (i < 2 ^ 22 ∨ 2 ^ 28 - 2 ^ 22 ≤ i) := by
  unfold Fs.sectNr Fs.position
  split <;> omega

theorem position_ok (i : Nat) : Fs.position i / 512 < 2 ^ 64 - 2 ^ 31 ∧ Fs.position i % 512 = 0 := by
  unfold Fs.position
  split <;> omega

section
variable (q : FsRequest) (h : HdInfo) (la : Nat) (mem : Buffer) (disk : Disk)

/-- the command that the request comes to -/
def FsRequest.cmd : HdCmd :=
  HdCmd.of 0 ((Fs.sectNr (Fs.position q.sector) + (h.part q.device.1).base) % 2 ^ 32) q.chunk
    q.io.command

theorem FsRequest.run_eq : q.run h la mem disk =
    some (q.cmd h, rdwtLoop q.io (q.cmd h).sectors (q.chunk * 512 : Nat) la
      ⟨mem, disk, (q.cmd h).lba, 0⟩) := by
  have hcnt : (((q.chunk * 512 : Nat) : Int) + 511) / 512 = q.chunk := by omega
  unfold FsRequest.run hdRdwt
  rw [if_pos (position_ok q.sector)]
  simp only [hcnt, Int.toNat_natCast, Device.drive]
  rfl

theorem FsRequest.cmd_lba : (q.cmd h).lba = q.start h ↔
    q.start h < 2 ^ 28 ∧ (q.sector < 2 ^ 22 ∨ 2 ^ 28 - 2 ^ 22 ≤ q.sector) := by
  unfold FsRequest.cmd FsRequest.start
  rw [HdCmd.lba_of]
  exact sectNr_iff q.sector_lt

theorem FsRequest.cmd_sectors : (q.cmd h).sectors = q.chunk ↔ q.chunk ≤ 256 := by
  have h0 := q.chunk_pos
  unfold FsRequest.cmd
  rw [HdCmd.sectors_of]
  split <;> omega

/-- **the driver transfers what FS asked for exactly when the address and the count fit into the
command block** -/
theorem hdRdwt_iff : q.Transfers h la mem disk ↔ q.Sayable h := by
  unfold FsRequest.Transfers
  rw [q.run_eq]
  constructor
  · rintro ⟨cmd, s, hrun, hlba, hcount, -⟩
    simp only [Option.some.injEq, Prod.mk.injEq] at hrun
    rw [← hrun.1] at hlba hcount
    obtain ⟨hl, ho⟩ := (q.cmd_lba h).mp hlba
    exact ⟨hl, ho, (q.cmd_sectors h).mp hcount⟩
  · intro hs
    have hlba := (q.cmd_lba h).mpr ⟨hs.lba, hs.offset⟩
    have hcount := (q.cmd_sectors h).mpr hs.count
    rw [hlba, hcount]
    cases hio : q.io with
    | DEV_READ =>
      rw [rdwtLoop_read (le_refl _)]
      refine ⟨_, _, rfl, hlba, hcount, ?_⟩
      unfold FsRequest.Moved
      rw [hio]
      exact ⟨Nat.zero_add _, rfl, rfl⟩
    | DEV_WRITE =>
      rw [rdwtLoop_write (le_refl _)]
      refine ⟨_, _, rfl, hlba, hcount, ?_⟩
      unfold FsRequest.Moved
      rw [hio]
      exact ⟨Nat.zero_add _, rfl, rfl⟩

/-- the transfers that the file system's model lets through are those that come to an end -/
theorem FsRequest.done_iff :
    (∃ s, (q.run h la mem disk).map Prod.snd = some (.done s)) ↔ Fs.transfers q.chunk = true := by
  rw [Fs.transfers_iff, q.run_eq]
  show (∃ s, some (rdwtLoop _ _ _ _ _) = some (.done s)) ↔ _
  have h0 := q.chunk_pos
  constructor
  · rintro ⟨s, hs⟩
    by_contra hc
    refine rdwtLoop_short ?_ (Option.some.inj hs)
    unfold FsRequest.cmd
    rw [HdCmd.sectors_of]
    split <;> omega
  · intro hc
    rw [(q.cmd_sectors h).mpr hc]
    cases q.io with
    | DEV_READ => exact ⟨_, congrArg some (rdwtLoop_read (le_refl _))⟩
    | DEV_WRITE => exact ⟨_, congrArg some (rdwtLoop_write (le_refl _))⟩

end

/-- all of the FS buffer -/
def wholeBuffer : FsRequest where
  io := .DEV_READ
  device := ⟨0x20, .inr ⟨by decide, by decide⟩⟩
  sector := 300
  chunk := 257
  sector_lt := by decide
  chunk_pos := by decide
  chunk_le := by decide

/-- 257 sectors are asked for, **one is transferred** -/
theorem transfers_fails : ¬ ∀ (q : FsRequest) (h : HdInfo) (la : Nat) (mem : Buffer) (disk : Disk),
    q.Transfers h la mem disk := by
  intro hall
  obtain ⟨cmd, s, hrun, -, hcount, -⟩ :=
    hall wholeBuffer ⟨1, fun _ => ⟨0, 0⟩, fun _ => ⟨2048, 100000⟩⟩ 0 (fun _ => 0) fun _ _ => 0
  rw [FsRequest.run_eq] at hrun
  simp only [Option.some.injEq, Prod.mk.injEq] at hrun
  rw [← hrun.1] at hcount
  exact absurd hcount (by decide)

end Noxis.Hd
