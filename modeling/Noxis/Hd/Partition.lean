import Noxis.Hd.Drive

/-!
# 25-osfs11/kernel/hd.c: partition

The first `hd_open` reads the MBR, and for an extended partition the chain of its EBRs.  An entry of
an EBR counts from that EBR for the partition, and from the start of the extended partition for the
next EBR.

* `partition`      with `Fault` for an index outside `hd_info`, and for the assertion;
* `EbrChain`       the EBRs from a sector on describe a list of logical partitions;
* `hdOpen_reads`   **no index is outside, the driver stops exactly on an MBR without a partition, and
                   else the tables hold what the disk says**.
-/

namespace Noxis.Hd

open Fs (Disk)

def PARTITION_TABLE_OFFSET : Nat := 0x1BE
def NO_PART : Byte := 0x00
def EXT_PART : Byte := 0x05

/-! ## the code -/

/-- the fields of `part_ent` that are looked at -/
structure PartEnt where
  sysId : Byte
  startSect : Nat
  nrSects : Nat

/-- entry `k` of the table in a sector -/
def partEnt (sector : Buffer) (k : Nat) : PartEnt where
  sysId := sector (PARTITION_TABLE_OFFSET + 16 * k + 4)
  startSect := get32 sector (PARTITION_TABLE_OFFSET + 16 * k + 8)
  nrSects := get32 sector (PARTITION_TABLE_OFFSET + 16 * k + 12)

/-- `get_part_table`: one sector is read -/
def getPartTable (disk : Disk) (drive sectNr : Nat) : Nat → PartEnt :=
  partEnt (disk (HdCmd.of drive sectNr 1 ATA_READ).lba)

/-- why `partition` does not come back -/
inductive Fault where
  /-- an index outside a table of `hd_info` -/
  | bounds
  | assertion
  deriving DecidableEq, Repr

def HdInfo.getPrimary (h : HdInfo) (j : Nat) : Except Fault PartInfo :=
  if j < NR_PRIM_PER_DRIVE then .ok (h.primary j) else .error .bounds

def HdInfo.setPrimary (h : HdInfo) (j : Nat) (p : PartInfo) : Except Fault HdInfo :=
  if j < NR_PRIM_PER_DRIVE then .ok { h with primary := Function.update h.primary j p }
  else .error .bounds

def HdInfo.setLogical (h : HdInfo) (j : Int) (p : PartInfo) : Except Fault HdInfo :=
  if 0 ≤ j ∧ j < NR_SUB_PER_DRIVE then
    .ok { h with logical := Function.update h.logical j.toNat p }
  else .error .bounds

/-- the partition of the EBR at the sector `s` -/
def ebrPart (s : Nat) (tbl : Nat → PartEnt) : PartInfo :=
  ⟨(s + (tbl 0).startSect) % 2 ^ 32, (tbl 0).nrSects⟩

/-- the loop over the EBRs: `n` more, the `i`th at the sector `s` -/
def extLoop (disk : Disk) (drive extStart : Nat) (nr1stSub : Int) :
    Nat → Nat → Nat → HdInfo → Except Fault HdInfo
  | 0, _, _, h => .ok h
  | n + 1, i, s, h => do
    let tbl := getPartTable disk drive s
    let h ← h.setLogical (nr1stSub + i) (ebrPart s tbl)
    if (tbl 1).sysId = NO_PART then .ok h
    else extLoop disk drive extStart nr1stSub n (i + 1) ((extStart + (tbl 1).startSect) % 2 ^ 32) h

/-- `partition (device, P_EXTENDED)` -/
def partitionExtended (disk : Disk) (device : Nat) (h : HdInfo) : Except Fault HdInfo := do
  let j := device % NR_PRIM_PER_DRIVE
  let p ← h.getPrimary j
  extLoop disk (drvOfDev device) p.base (((j : Int) - 1) * NR_SUB_PER_PART) NR_SUB_PER_PART 0 p.base h

/-- entry `i` of the MBR, in use -/
def primEntry (disk : Disk) (device : Nat) (tbl : Nat → PartEnt) (i : Nat) (h : HdInfo) :
    Except Fault HdInfo := do
  let h ← h.setPrimary (i + 1) ⟨(tbl i).startSect, (tbl i).nrSects⟩
  if (tbl i).sysId = EXT_PART then partitionExtended disk (device + (i + 1)) h else .ok h

/-- the loop over the MBR: `n` more entries from the `i`th on, `nr` partitions so far -/
def primLoop (disk : Disk) (device : Nat) (tbl : Nat → PartEnt) :
    Nat → Nat → Nat → HdInfo → Except Fault (HdInfo × Nat)
  | 0, _, nr, h => .ok (h, nr)
  | n + 1, i, nr, h =>
    if (tbl i).sysId = NO_PART then primLoop disk device tbl n (i + 1) nr h
    else do
      let h ← primEntry disk device tbl i h
      primLoop disk device tbl n (i + 1) (nr + 1) h

/-- `partition (device, P_PRIMARY)` -/
def partition (disk : Disk) (device : Nat) (h : HdInfo) : Except Fault HdInfo := do
  let drive := drvOfDev device
  let r ← primLoop disk device (getPartTable disk drive drive) NR_PART_PER_DRIVE 0 0 h
  if r.2 ≠ 0 then .ok r.1 else .error .assertion

/-- `hd_open`; `hdinfo` are the words that the drive identifies itself with -/
def hdOpen (disk : Disk) (hdinfo : Nat → BitVec 16) (device : Nat) (h : HdInfo) :
    Except Fault HdInfo :=
  let drive := drvOfDev device
  if drive = 0 then do
    let h ← h.setPrimary 0 ⟨0, (hdinfo 61).toNat * 2 ^ 16 + (hdinfo 60).toNat⟩
    if h.openCnt = 0 then
      partition disk (drive * (NR_PART_PER_DRIVE + 1)) { h with openCnt := h.openCnt + 1 }
    else .ok { h with openCnt := h.openCnt + 1 }
  else .error .assertion

/-! ## what the disk says -/

/-- entry `k` of the MBR -/
def mbr (disk : Disk) (k : Nat) : PartEnt := partEnt (disk 0) k

/-- the EBRs from the sector `s` on describe the logical partitions `l` of the extended partition at
`ext`; each is on the disk, which has sectors below 2^28 -/
def EbrChain (disk : Disk) (ext : Nat) : Nat → List PartInfo → Prop
  | s, [] => s < 2 ^ 28 ∧ (partEnt (disk s) 0).sysId = NO_PART ∧ (partEnt (disk s) 1).sysId = NO_PART
  | s, p :: l =>
    (s < 2 ^ 28 ∧ (partEnt (disk s) 0).sysId ≠ NO_PART ∧ s + (partEnt (disk s) 0).startSect < 2 ^ 32 ∧
      p = ⟨s + (partEnt (disk s) 0).startSect, (partEnt (disk s) 0).nrSects⟩) ∧
    if l = [] then (partEnt (disk s) 1).sysId = NO_PART
    else (partEnt (disk s) 1).sysId ≠ NO_PART ∧
      EbrChain disk ext (ext + (partEnt (disk s) 1).startSect) l

/-- the slots `i` to `i + n` of the MBR are in the tables -/
structure Tables (disk : Disk) (i n : Nat) (before h : HdInfo) : Prop where
  used : ∀ k, i ≤ k → k < i + n → (mbr disk k).sysId ≠ NO_PART →
    h.primary (k + 1) = ⟨(mbr disk k).startSect, (mbr disk k).nrSects⟩
  unused : ∀ k, i ≤ k → k < i + n → (mbr disk k).sysId = NO_PART →
    h.primary (k + 1) = before.primary (k + 1)
  logical : ∀ k, i ≤ k → k < i + n → (mbr disk k).sysId = EXT_PART →
    ∀ l, EbrChain disk (mbr disk k).startSect (mbr disk k).startSect l → l.length ≤ NR_SUB_PER_PART →
      ∀ m, ∀ hm : m < l.length, h.logical (k * NR_SUB_PER_PART + m) = l[m]

/-- how the first `hd_open` ends -/
structure Reads (disk : Disk) (before : HdInfo) (r : Except Fault HdInfo) : Prop where
  bounds : r ≠ .error .bounds
  stops : r = .error .assertion ↔ ∀ k < NR_PART_PER_DRIVE, (mbr disk k).sysId = NO_PART
  tables : ∀ h, r = .ok h → Tables disk 0 NR_PART_PER_DRIVE before h

/-! ## an extended partition -/

section
variable {disk : Disk} {drive extStart a n i s nr : Nat} {h h' before : HdInfo}

theorem getPartTable_eq (hs : s < 2 ^ 28) : getPartTable disk drive s = partEnt (disk s) := by
  unfold getPartTable
  rw [HdCmd.lba_of, Nat.mod_eq_of_lt hs]

theorem setLogical_ok {j : Nat} (hj : j < NR_SUB_PER_DRIVE) (p : PartInfo) :
    h.setLogical (j : Int) p = .ok { h with logical := Function.update h.logical j p } :=
  if_pos ⟨Int.natCast_nonneg j, by exact_mod_cast hj⟩

/-- one EBR -/
theorem extLoop_succ (ha : a + i < NR_SUB_PER_DRIVE) :
    extLoop disk drive extStart a (n + 1) i s h =
      let tbl := getPartTable disk drive s
      let h' := { h with logical := Function.update h.logical (a + i) (ebrPart s tbl) }
      if (tbl 1).sysId = NO_PART then .ok h'
      else extLoop disk drive extStart a n (i + 1) ((extStart + (tbl 1).startSect) % 2 ^ 32) h' := by
  rw [extLoop]
  have hcast : (a : Int) + (i : Int) = ((a + i : Nat) : Int) := by omega
  rw [hcast, setLogical_ok ha]
  rfl

/-- the loop stays in its part of the table, whatever the chain is -/
theorem extLoop_ok (disk : Disk) (drive extStart s : Nat) (h : HdInfo)
    (ha : a + i + n ≤ NR_SUB_PER_DRIVE) :
    ∃ h', extLoop disk drive extStart a n i s h = .ok h' ∧ h'.primary = h.primary ∧
      ∀ x, x < a + i ∨ a + i + n ≤ x → h'.logical x = h.logical x := by
  induction n generalizing i s h with
  | zero => exact ⟨h, rfl, rfl, fun _ _ => rfl⟩
  | succ n ih =>
    rw [extLoop_succ (by omega)]
    simp only
    split
    · refine ⟨_, rfl, rfl, fun x hx => ?_⟩
      exact Function.update_of_ne (by omega) _ _
    · obtain ⟨h', he, hp, hl⟩ := ih (i := i + 1) _ _ (by omega)
      refine ⟨h', he, hp, fun x hx => ?_⟩
      rw [hl x (by omega)]
      exact Function.update_of_ne (by omega) _ _

/-- **a chain ends up in the table, a partition an entry** -/
theorem extLoop_chain {l : List PartInfo} (hl : l.length ≤ n) (ha : a + i + n ≤ NR_SUB_PER_DRIVE)
    (hc : EbrChain disk extStart s l)
    (he : extLoop disk drive extStart a n i s h = .ok h') :
    ∀ m, ∀ hm : m < l.length, h'.logical (a + i + m) = l[m] := by
  induction l generalizing n i s h with
  | nil => exact fun m hm => absurd hm (Nat.not_lt_zero m)
  | cons p l ih =>
    obtain ⟨n, rfl⟩ : ∃ k, n = k + 1 := ⟨n - 1, by simp only [List.length_cons] at hl; omega⟩
    obtain ⟨⟨hs, -, hsum, hp⟩, hnext⟩ := hc
    have hpart : ebrPart s (partEnt (disk s)) = p := by
      unfold ebrPart
      rw [Nat.mod_eq_of_lt hsum, hp]
    rw [extLoop_succ (by omega), getPartTable_eq hs] at he
    simp only [hpart] at he
    by_cases hl0 : l = []
    · rw [if_pos hl0] at hnext
      rw [if_pos hnext] at he
      cases he
      intro m hm
      obtain rfl : m = 0 := by simp only [hl0, List.length_cons, List.length_nil] at hm; omega
      exact Function.update_self ..
    · rw [if_neg hl0] at hnext
      rw [if_neg hnext.1] at he
      have hs' : extStart + (partEnt (disk s) 1).startSect < 2 ^ 28 := by
        cases l with
        | nil => exact absurd rfl hl0
        | cons q l => exact hnext.2.1.1
      rw [Nat.mod_eq_of_lt (by omega)] at he
      intro m hm
      cases m with
      | zero =>
        obtain ⟨h'', he', -, hf⟩ := extLoop_ok (a := a) (n := n) (i := i + 1) disk drive extStart
          (extStart + (partEnt (disk s) 1).startSect)
          { h with logical := Function.update h.logical (a + i) p } (by omega)
        rw [he'] at he
        cases he
        rw [hf _ (by omega)]
        exact Function.update_self ..
      | succ m =>
        have := ih (i := i + 1) (by simp only [List.length_cons] at hl; omega) (by omega) hnext.2 he m
          (by simp only [List.length_cons] at hm; omega)
        rw [show a + i + (m + 1) = a + (i + 1) + m by omega]
        exact this

/-- the extended partition in slot `k` -/
theorem partitionExtended_eq {k : Nat} (hk : k < NR_PART_PER_DRIVE) :
    partitionExtended disk (k + 1) h =
      extLoop disk 0 (h.primary (k + 1)).base (k * NR_SUB_PER_PART : Nat) NR_SUB_PER_PART 0
        (h.primary (k + 1)).base h := by
  unfold NR_PART_PER_DRIVE at hk
  have hj : (k + 1) % NR_PRIM_PER_DRIVE = k + 1 := by
    unfold NR_PRIM_PER_DRIVE NR_PART_PER_DRIVE
    omega
  have hdrv : drvOfDev (k + 1) = 0 := by
    unfold drvOfDev MAX_PRIM MAX_DRIVES NR_PRIM_PER_DRIVE NR_PART_PER_DRIVE
    rw [if_pos (by omega)]
    omega
  have hp : h.getPrimary (k + 1) = .ok (h.primary (k + 1)) := by
    refine if_pos ?_
    unfold NR_PRIM_PER_DRIVE NR_PART_PER_DRIVE
    omega
  have ha : (((k + 1 : Nat) : Int) - 1) * NR_SUB_PER_PART = (k * NR_SUB_PER_PART : Nat) := by
    unfold NR_SUB_PER_PART
    omega
  unfold partitionExtended
  simp only [hj, hdrv, ha]
  rw [hp]
  rfl

/-! ## the MBR -/

/-- an entry of the MBR that is in use, and then its chain -/
structure Slot (disk : Disk) (i : Nat) (h h' : HdInfo) : Prop where
  primary : h'.primary =
    Function.update h.primary (i + 1) ⟨(mbr disk i).startSect, (mbr disk i).nrSects⟩
  frame : ∀ x, x < i * NR_SUB_PER_PART → h'.logical x = h.logical x
  logical : (mbr disk i).sysId = EXT_PART →
    ∀ l, EbrChain disk (mbr disk i).startSect (mbr disk i).startSect l → l.length ≤ NR_SUB_PER_PART →
      ∀ m, ∀ hm : m < l.length, h'.logical (i * NR_SUB_PER_PART + m) = l[m]

theorem primEntry_ok (disk : Disk) (h : HdInfo) (hi : i < NR_PART_PER_DRIVE) :
    ∃ h', primEntry disk 0 (mbr disk) i h = .ok h' ∧ Slot disk i h h' := by
  have hi4 : i < 4 := hi
  let p : PartInfo := ⟨(mbr disk i).startSect, (mbr disk i).nrSects⟩
  let h1 : HdInfo := { h with primary := Function.update h.primary (i + 1) p }
  have hset : h.setPrimary (i + 1) p = .ok h1 := by
    refine if_pos ?_
    unfold NR_PRIM_PER_DRIVE NR_PART_PER_DRIVE
    omega
  have hbase : h1.primary (i + 1) = p := Function.update_self ..
  have heq : primEntry disk 0 (mbr disk) i h =
      if (mbr disk i).sysId = EXT_PART then partitionExtended disk (i + 1) h1 else .ok h1 := by
    unfold primEntry
    rw [Nat.zero_add]
    show (h.setPrimary (i + 1) p >>= _) = _
    rw [hset]
    rfl
  rw [heq]
  by_cases hx : (mbr disk i).sysId = EXT_PART
  · rw [if_pos hx, partitionExtended_eq hi, hbase]
    have ha : i * NR_SUB_PER_PART + 0 + NR_SUB_PER_PART ≤ NR_SUB_PER_DRIVE := by
      unfold NR_SUB_PER_DRIVE NR_SUB_PER_PART NR_PART_PER_DRIVE
      omega
    obtain ⟨h', he, hp, hl⟩ := extLoop_ok disk 0 p.base p.base h1 ha
    refine ⟨h', he, hp, fun x hlt => hl x (.inl hlt), fun _ l hc hlen m hm => ?_⟩
    exact extLoop_chain hlen ha hc he m hm
  · rw [if_neg hx]
    exact ⟨h1, rfl, rfl, fun _ _ => rfl, fun hc => absurd hc hx⟩

/-- what the loop over the MBR leaves -/
structure Mbr (disk : Disk) (i n nr : Nat) (h h' : HdInfo) (nr' : Nat) : Prop where
  tables : Tables disk i n h h'
  primary : ∀ x, x ≤ i → h'.primary x = h.primary x
  logical : ∀ x, x < i * NR_SUB_PER_PART → h'.logical x = h.logical x
  count : nr' = nr ↔ ∀ k, i ≤ k → k < i + n → (mbr disk k).sysId = NO_PART
  le : nr ≤ nr'

theorem Mbr.nil (disk : Disk) (i nr : Nat) (h : HdInfo) : Mbr disk i 0 nr h h nr := by
  refine ⟨⟨?_, ?_, ?_⟩, fun _ _ => rfl, fun _ _ => rfl, ?_, le_refl _⟩
  · exact fun k h1 h2 => absurd h1 (by omega)
  · exact fun k h1 h2 => absurd h1 (by omega)
  · exact fun k h1 h2 => absurd h1 (by omega)
  · exact ⟨fun _ k h1 h2 => absurd h1 (by omega), fun _ => rfl⟩

/-- an entry that is not in use -/
theorem Mbr.skip {nr' : Nat} (hm : Mbr disk (i + 1) n nr h h' nr') (h0 : (mbr disk i).sysId = NO_PART) :
    Mbr disk i (n + 1) nr h h' nr' := by
  obtain ⟨ht, hp, hl, hc, hle⟩ := hm
  refine ⟨⟨?_, ?_, ?_⟩, fun x hx => hp x (by omega), fun x hx => hl x ?_, ?_, hle⟩
  · intro k h1 h2 hu
    rcases Nat.eq_or_lt_of_le h1 with rfl | h1
    · exact absurd h0 hu
    · exact ht.used k h1 (by omega) hu
  · intro k h1 h2 hu
    rcases Nat.eq_or_lt_of_le h1 with rfl | h1
    · exact hp _ (le_refl _)
    · exact ht.unused k h1 (by omega) hu
  · intro k h1 h2 hx
    rcases Nat.eq_or_lt_of_le h1 with rfl | h1
    · rw [h0] at hx
      exact absurd hx (by decide)
    · exact ht.logical k h1 (by omega) hx
  · unfold NR_SUB_PER_PART at *
    omega
  · rw [hc]
    constructor
    · intro hall k h1 h2
      rcases Nat.eq_or_lt_of_le h1 with rfl | h1
      · exact h0
      · exact hall k h1 (by omega)
    · exact fun hall k h1 h2 => hall k (by omega) (by omega)

/-- an entry that is in use: what comes after it leaves its places alone -/
theorem Slot.mbr {nr' : Nat} {h1 : HdInfo} (hs : Slot disk i h h1)
    (hm : Mbr disk (i + 1) n (nr + 1) h1 h' nr') (h0 : (mbr disk i).sysId ≠ NO_PART) :
    Mbr disk i (n + 1) nr h h' nr' := by
  obtain ⟨ht, hp, hl, hc, hle⟩ := hm
  refine ⟨⟨?_, ?_, ?_⟩, fun x hx => ?_, fun x hx => ?_, ?_, by omega⟩
  · intro k h1 h2 hu
    rcases Nat.eq_or_lt_of_le h1 with rfl | h1
    · rw [hp _ (le_refl _), hs.primary]
      exact Function.update_self ..
    · exact ht.used k h1 (by omega) hu
  · intro k h1 h2 hu
    rcases Nat.eq_or_lt_of_le h1 with rfl | h1
    · exact absurd hu h0
    · rw [ht.unused k h1 (by omega) hu, hs.primary]
      exact Function.update_of_ne (by omega) _ _
  · intro k h1 h2 hx l hch hlen m hm
    rcases Nat.eq_or_lt_of_le h1 with rfl | h1
    · rw [hl _ (by rw [Nat.succ_mul]; omega)]
      exact hs.logical hx l hch hlen m hm
    · exact ht.logical k h1 (by omega) hx l hch hlen m hm
  · rw [hp x (by omega), hs.primary]
    exact Function.update_of_ne (by omega) _ _
  · rw [hl x (by unfold NR_SUB_PER_PART at *; omega)]
    exact hs.frame x hx
  · constructor
    · intro hc'
      omega
    · exact fun hall => absurd (hall i (le_refl _) (by omega)) h0

/-- an entry and the rest -/
theorem primLoop_ok (disk : Disk) (nr : Nat) (h : HdInfo) (hi : i + n ≤ NR_PART_PER_DRIVE) :
    ∃ h' nr', primLoop disk 0 (mbr disk) n i nr h = .ok (h', nr') ∧ Mbr disk i n nr h h' nr' := by
  induction n generalizing i nr h with
  | zero => exact ⟨h, nr, rfl, Mbr.nil disk i nr h⟩
  | succ n ih =>
    rw [primLoop]
    by_cases h0 : (mbr disk i).sysId = NO_PART
    · rw [if_pos h0]
      obtain ⟨h', nr', he, hm⟩ := ih (i := i + 1) nr h (by omega)
      exact ⟨h', nr', he, hm.skip h0⟩
    · rw [if_neg h0]
      obtain ⟨h1, he1, hs⟩ := primEntry_ok disk h (i := i) (by omega)
      rw [he1]
      obtain ⟨h', nr', he, hm⟩ := ih (i := i + 1) (nr + 1) h1 (by omega)
      exact ⟨h', nr', he, hs.mbr hm h0⟩

/-- all four entries, and the assertion -/
theorem partition_reads (disk : Disk) (h : HdInfo) : Reads disk h (partition disk 0 h) := by
  obtain ⟨h', nr', he, hm⟩ := primLoop_ok (n := NR_PART_PER_DRIVE) (i := 0) disk 0 h (le_refl _)
  have hmbr : getPartTable disk (drvOfDev 0) (drvOfDev 0) = mbr disk := by
    funext k
    rw [show drvOfDev 0 = 0 from rfl, getPartTable_eq (by omega)]
    rfl
  have hp : partition disk 0 h = if nr' ≠ 0 then .ok h' else .error .assertion := by
    unfold partition
    simp only [hmbr, he]
    rfl
  have hcount : nr' = 0 ↔ ∀ k < NR_PART_PER_DRIVE, (mbr disk k).sysId = NO_PART := by
    rw [hm.count]
    exact ⟨fun hall k hk => hall k (Nat.zero_le k) (by omega), fun hall k _ hk => hall k (by omega)⟩
  rw [hp]
  by_cases h0 : nr' = 0
  · rw [if_neg (not_not.mpr h0)]
    exact ⟨nofun, ⟨fun _ => hcount.mp h0, fun _ => rfl⟩, nofun⟩
  · rw [if_pos h0]
    refine ⟨nofun, ⟨nofun, fun hall => absurd (hcount.mpr hall) h0⟩, fun t ht => ?_⟩
    cases ht
    exact hm.tables

/-- **on every disk the first `hd_open` stays inside the tables; it stops exactly on an MBR without a
partition; and else the tables hold what the MBR and the chains say** -/
theorem hdOpen_reads (disk : Disk) (hdinfo : Nat → BitVec 16) (d : Device)
    (primary logical : Nat → PartInfo) :
    Reads disk ⟨0, primary, logical⟩ (hdOpen disk hdinfo d.1 ⟨0, primary, logical⟩) := by
  let p : PartInfo := ⟨0, (hdinfo 61).toNat * 2 ^ 16 + (hdinfo 60).toNat⟩
  have hopen : hdOpen disk hdinfo d.1 ⟨0, primary, logical⟩ =
      partition disk 0 ⟨1, Function.update primary 0 p, logical⟩ := by
    unfold hdOpen
    simp only [d.drive]
    rfl
  obtain ⟨hb, hs, ht⟩ := partition_reads disk ⟨1, Function.update primary 0 p, logical⟩
  rw [hopen]
  refine ⟨hb, hs, fun h he => ?_⟩
  obtain ⟨hu, hn, hl⟩ := ht h he
  refine ⟨hu, fun k h1 h2 h0 => (hn k h1 h2 h0).trans ?_, hl⟩
  show Function.update primary 0 p (k + 1) = primary (k + 1)
  exact Function.update_of_ne (Nat.succ_ne_zero k) p primary

end

/-- on a blank disk **the assertion stops the driver** -/
theorem hdOpen_blank : ¬ ∀ (disk : Disk) (hdinfo : Nat → BitVec 16) (d : Device)
    (primary logical : Nat → PartInfo), ∃ h,
      hdOpen disk hdinfo d.1 ⟨0, primary, logical⟩ = .ok h := by
  intro hall
  obtain ⟨h, hh⟩ := hall (fun _ _ => 0) (fun _ => 0) ⟨0, .inl (by decide)⟩ (fun _ => ⟨0, 0⟩)
    fun _ => ⟨0, 0⟩
  have hb : hdOpen (fun _ _ => 0) (fun _ => 0) 0 ⟨0, fun _ => ⟨0, 0⟩, fun _ => ⟨0, 0⟩⟩ =
      .error .assertion := rfl
  cases hb.symm.trans hh

end Noxis.Hd
