import Noxis.Fs.Disk

/-!
# 25-osfs11/include/sys/hd.h: the command block of the drive

* `HdCmd.of`        the registers that `hd_rdwt` and `get_part_table` fill in;
* `HdCmd.lba`       the sector that the drive takes from them, 28 bits (`HdCmd.lba_of`);
* `HdCmd.sectors`   how many it takes, 256 for a count of 0 (`HdCmd.sectors_of`);
* `HdInfo`          the partitions, one table for the primary and one for the logical ones.
-/

namespace Noxis.Hd

def MAX_DRIVES : Nat := 2
def NR_PART_PER_DRIVE : Nat := 4
def NR_SUB_PER_PART : Nat := 16
def NR_SUB_PER_DRIVE : Nat := NR_SUB_PER_PART * NR_PART_PER_DRIVE
def NR_PRIM_PER_DRIVE : Nat := NR_PART_PER_DRIVE + 1
def MAX_PRIM : Nat := MAX_DRIVES * NR_PRIM_PER_DRIVE - 1
def MINOR_hd1a : Nat := 0x10

def ATA_READ : Byte := 0x20
def ATA_WRITE : Byte := 0x30

/-! ## the registers -/

structure HdCmd where
  features : Byte
  count : Byte
  lbaLow : Byte
  lbaMid : Byte
  lbaHigh : Byte
  device : Byte
  command : Byte
  deriving DecidableEq

def makeDeviceReg (lba drv lbaHighest : Nat) : Byte :=
  BitVec.ofNat 8 (lba <<< 6 ||| drv <<< 4 ||| lbaHighest % 16 ||| 0xA0)

/-- `count` sectors from `sectNr` on, in LBA mode -/
def HdCmd.of (drive sectNr count : Nat) (command : Byte) : HdCmd where
  features := 0
  count := BitVec.ofNat 8 count
  lbaLow := BitVec.ofNat 8 sectNr
  lbaMid := BitVec.ofNat 8 (sectNr / 2 ^ 8)
  lbaHigh := BitVec.ofNat 8 (sectNr / 2 ^ 16)
  device := makeDeviceReg 1 drive (sectNr / 2 ^ 24)
  command := command

/-- the address that the drive reads off the registers -/
def HdCmd.lba (c : HdCmd) : Nat :=
  c.lbaLow.toNat + 2 ^ 8 * c.lbaMid.toNat + 2 ^ 16 * c.lbaHigh.toNat + 2 ^ 24 * (c.device.toNat % 16)

/-- how many sectors the drive transfers -/
def HdCmd.sectors (c : HdCmd) : Nat := if c.count = 0 then 256 else c.count.toNat

theorem makeDeviceReg_low (lba drv lbaHighest : Nat) :
    (makeDeviceReg lba drv lbaHighest).toNat % 16 = lbaHighest % 16 := by
  have h1 : lba <<< 6 % 2 ^ 4 = 0 := by
    rw [Nat.shiftLeft_eq]
    omega
  have h2 : drv <<< 4 % 2 ^ 4 = 0 := by
    rw [Nat.shiftLeft_eq]
    omega
  unfold makeDeviceReg
  rw [BitVec.toNat_ofNat, show (16 : Nat) = 2 ^ 4 from rfl,
    Nat.mod_mod_of_dvd _ (show 2 ^ 4 ∣ 2 ^ 8 by decide), Nat.or_mod_two_pow, Nat.or_mod_two_pow,
    Nat.or_mod_two_pow, h1, h2]
  simp

/-- **the four registers have room for 28 bits** -/
theorem HdCmd.lba_of (drive sectNr count : Nat) (command : Byte) :
    (HdCmd.of drive sectNr count command).lba = sectNr % 2 ^ 28 := by
  unfold HdCmd.lba HdCmd.of
  simp only [makeDeviceReg_low, BitVec.toNat_ofNat]
  omega

theorem HdCmd.sectors_of (drive sectNr count : Nat) (command : Byte) :
    (HdCmd.of drive sectNr count command).sectors = if count % 256 = 0 then 256 else count % 256 := by
  have h0 : (BitVec.ofNat 8 count = 0) ↔ count % 256 = 0 := by
    rw [← BitVec.toNat_inj]
    exact Iff.rfl
  show (if BitVec.ofNat 8 count = 0 then 256 else (BitVec.ofNat 8 count).toNat) = _
  simp only [h0, BitVec.toNat_ofNat]

/-! ## the partitions -/

structure PartInfo where
  base : Nat
  size : Nat
  deriving DecidableEq, Repr

/-- `primary` has NR_PRIM_PER_DRIVE entries, `logical` NR_SUB_PER_DRIVE -/
structure HdInfo where
  openCnt : Nat
  primary : Nat → PartInfo
  logical : Nat → PartInfo

def drvOfDev (dev : Nat) : Nat :=
  if dev ≤ MAX_PRIM then dev / NR_PRIM_PER_DRIVE else (dev - MINOR_hd1a) / NR_SUB_PER_DRIVE

/-- a minor number of the first drive, the only one that can be opened -/
abbrev Device := { n : Nat // n < NR_PRIM_PER_DRIVE ∨
  (MINOR_hd1a ≤ n ∧ n < MINOR_hd1a + NR_SUB_PER_DRIVE) }

/-- the partition of a minor number -/
def HdInfo.part (h : HdInfo) (device : Nat) : PartInfo :=
  if device < MAX_PRIM then h.primary device
  else h.logical ((device - MINOR_hd1a) % NR_SUB_PER_DRIVE)

theorem Device.drive (d : Device) : drvOfDev d.1 = 0 := by
  have h := d.2
  unfold drvOfDev MAX_PRIM MAX_DRIVES MINOR_hd1a NR_PRIM_PER_DRIVE NR_SUB_PER_DRIVE NR_SUB_PER_PART
    NR_PART_PER_DRIVE at *
  split
  · omega
  · omega

end Noxis.Hd
