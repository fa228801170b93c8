import Noxis.Lib.Packed12
import Mathlib.Data.Nat.Bitwise
import Mathlib.Data.List.Nodup
import Mathlib.Algebra.BigOperators.Group.List.Basic

/-!
# scripts/desktop_image.py: the floppy image

`floppy_image` lays files out on a FAT12 volume, one behind the other.

* `floppyImage`   the function of the script
* `decode`        what the volume says: the root directory, and the chain of each entry
* `Decodes`       the volume says what was put on it
* `floppy_iff`    **when it does**
-/

namespace Noxis.Image

open Slice

/-- the exceptions of the script's own and of `struct` -/
inductive PyError where
  | valueError (text : String)
  | structError
  | indexError

abbrev Py := Except PyError

def SECTOR : Nat := 512

/-! ## data -/

/-- a name in 8.3 form, 0 and 0xE5 do not start one, and data that is not empty -/
structure File where
  name : List Byte
  data : List Byte
  name_length : name.length = 11
  name_used : name.head? ≠ some 0 ∧ name.head? ≠ some 0xE5
  data_pos : 0 < data.length

/-- the numbers of the boot sector -/
structure Bpb where
  bps : Nat
  spc : Nat
  reserved : Nat
  fats : Nat
  entries : Nat
  sectors : Nat
  sectorsPerFat : Nat
  deriving DecidableEq

def floppyBpb : Bpb := ⟨512, 1, 1, 2, 224, 2880, 9⟩

structure Volume where
  disk : List Byte
  fat : List Byte
  cluster : Nat

/-! ## the code -/

def unpackFrom (l : List Byte) (o k : Nat) : Py Nat :=
  if o + k ≤ l.length then .ok (ofLe (slice l o k)) else .error .structError

/-- the numbers with their sizes -/
def packInto (l : List Byte) (o : Nat) (fields : List (Nat × Nat)) : Py (List Byte) :=
  let bytes := fields.flatMap fun f => le f.1 f.2
  if o + bytes.length ≤ l.length ∧ ∀ f ∈ fields, f.2 < 256 ^ f.1 then .ok (splice l o bytes)
  else .error .structError

def setItem (l : List Byte) (o : Nat) (b : Byte) : Py (List Byte) :=
  if o < l.length then .ok (splice l o [b]) else .error .indexError

def readBpb (boot : List Byte) : Py Bpb := do
  let bps ← unpackFrom boot 11 2
  let spc ← unpackFrom boot 13 1
  let reserved ← unpackFrom boot 14 2
  let fats ← unpackFrom boot 16 1
  let entries ← unpackFrom boot 17 2
  let sectors ← unpackFrom boot 19 2
  let sectorsPerFat ← unpackFrom boot 22 2
  return ⟨bps, spc, reserved, fats, entries, sectors, sectorsPerFat⟩

def Bpb.rootStart (b : Bpb) : Nat := (b.reserved + b.fats * b.sectorsPerFat) * b.bps
def Bpb.dataStart (b : Bpb) : Nat := b.rootStart + b.entries * 32

/-- an entry of the table -/
def link (fat : List Byte) (current next : Nat) : Py (List Byte) := do
  let offset := current * 3 / 2
  let pair ← unpackFrom fat offset 2
  let pair := if current &&& 1 ≠ 0 then pair &&& 0x000F ||| next <<< 4 else pair &&& 0xF000 ||| next
  packInto fat offset [(2, pair)]

/-- `for current in range(cluster, cluster + count)`, with `n` rounds left -/
def linkAll (stop : Nat) : Nat → Nat → List Byte → Py (List Byte)
  | 0, _, fat => .ok fat
  | n + 1, current, fat => do
    let next := if current + 1 < stop then current + 1 else 0xFFF
    let fat ← link fat current next
    linkAll stop n (current + 1) fat

/-- a round of `for index, (name, data) in enumerate(files)` -/
def addFile (b : Bpb) (index : Nat) (v : Volume) (name data : List Byte) : Py Volume :=
  let count := (data.length + b.bps - 1) / b.bps
  if count = 0 ∨ b.dataStart + (v.cluster - 2 + count) * b.bps > v.disk.length then
    .error (.valueError "file does not fit the floppy")
  else do
    let entry := b.rootStart + index * 32
    let disk := splice v.disk entry name
    let disk ← setItem disk (entry + 11) 0x20
    let disk ← packInto disk (entry + 26) [(2, v.cluster), (4, data.length)]
    let start := b.dataStart + (v.cluster - 2) * b.bps
    let disk := splice disk start data
    let fat ← linkAll (v.cluster + count) count v.cluster v.fat
    return ⟨disk, fat, v.cluster + count⟩

def addFiles (b : Bpb) : Nat → Volume → List File → Py Volume
  | _, v, [] => .ok v
  | index, v, f :: files => do
    let v ← addFile b index v f.name f.data
    addFiles b (index + 1) v files

/-- `for index in range(fats)` -/
def copyFats (b : Bpb) (fat disk : List Byte) : List Byte :=
  (List.range b.fats).foldl
    (fun disk index => splice disk ((b.reserved + index * b.sectorsPerFat) * b.bps) fat) disk

/-- the boot sector on an empty disk, and the first entries of the table -/
def startVolume (b : Bpb) (boot : List Byte) : Volume where
  disk := splice (List.replicate (b.sectors * b.bps) 0) 0 boot
  fat := splice (List.replicate (b.sectorsPerFat * b.bps) 0) 0 [boot.getD 21 0, 0xFF, 0xFF]
  cluster := 2

def floppyImage (boot : List Byte) (files : List File) : Py (List Byte) :=
  if boot.length ≠ SECTOR ∨ boot.drop 510 ≠ [0x55, 0xAA] then
    .error (.valueError "invalid floppy boot sector")
  else do
    let b ← readBpb boot
    if b ≠ floppyBpb then .error (.valueError "expected a 1.44 MB FAT12 boot sector")
    else do
      let v ← addFiles b 0 (startVolume b boot) files
      return copyFats b v.fat v.disk

/-! ## what a volume says -/

/-- a file of the root directory: its name, its size and its data -/
structure Entry where
  name : List Byte
  size : Nat
  data : List Byte

/-- one of the two tables -/
def fatOf (disk : List Byte) (copy : Nat) : List Byte := slice disk ((1 + copy * 9) * 512) (9 * 512)

/-- the clusters of a chain; `none` when it does not end -/
def follow (disk fat : List Byte) : Nat → Nat → Option (List Byte)
  | 0, _ => none
  | n + 1, cluster =>
    if 0xFF8 ≤ cluster then some []
    else (follow disk fat n (Packed12.get fat cluster)).map
      (slice disk ((33 + (cluster - 2)) * 512) 512 ++ ·)

/-- the `n` entries of the root directory from entry `i` on -/
def entriesFrom (disk fat : List Byte) : Nat → Nat → Option (List Entry)
  | 0, _ => some []
  | n + 1, i =>
    let e := slice disk (19 * 512 + i * 32) 32
    if e.head? = some 0 then some []
    else if e.head? = some 0xE5 then entriesFrom disk fat n (i + 1)
    else
      let size := ofLe (slice e 28 4)
      match follow disk fat 4096 (ofLe (slice e 26 2)), entriesFrom disk fat n (i + 1) with
      | some data, some rest => some (⟨slice e 0 11, size, data.take size⟩ :: rest)
      | _, _ => none

def decode (disk : List Byte) (copy : Nat) : Option (List Entry) :=
  entriesFrom disk (fatOf disk copy) 224 0

def File.entry (f : File) : Entry := ⟨f.name, f.data.length, f.data⟩

/-- **The property**: a ValueError, or an image of 1.44 MB that decodes to the files with either
table. -/
def Decodes (files : List File) : Py (List Byte) → Prop
  | .error (.valueError _) => True
  | .error _ => False
  | .ok disk => disk.length = 1474560 ∧ ∀ copy < 2, decode disk copy = some (files.map File.entry)

/-- the boot sectors that are accepted -/
def Accepted (boot : List Byte) : Prop :=
  boot.length = 512 ∧ boot.drop 510 = [0x55, 0xAA] ∧
    [ofLe (slice boot 11 2), ofLe (slice boot 13 1), ofLe (slice boot 14 2), ofLe (slice boot 16 1),
      ofLe (slice boot 17 2), ofLe (slice boot 19 2), ofLe (slice boot 22 2)] =
      [512, 1, 1, 2, 224, 2880, 9]

def File.clusters (f : File) : Nat := (f.data.length + 511) / 512

/-- the clusters of all files -/
def clusters (files : List File) : Nat := (files.map File.clusters).sum

/-! ## the table -/

section
variable {fat disk : List Byte} {current next stop n c i p k index : Nat} {f : File}
  {files : List File}
  {v : Volume}

theorem low_pair (pair next : Nat) : pair &&& 0x000F ||| next <<< 4 = pair % 16 + 16 * next := by
  have hand : pair &&& 0x000F = pair % 2 ^ 4 := Nat.and_two_pow_sub_one_eq_mod pair 4
  have hor := Nat.two_pow_add_eq_or_of_lt (Nat.mod_lt pair (Nat.two_pow_pos 4)) next
  rw [hand, Nat.or_comm, Nat.shiftLeft_eq, Nat.mul_comm next, ← hor, Nat.add_comm]

theorem high_pair {pair next : Nat} (hp : pair < 2 ^ 16) (hn : next < 2 ^ 12) :
    pair &&& 0xF000 ||| next = pair / 4096 * 4096 + next := by
  have hand : pair &&& 0xF000 = (pair >>> 12) <<< 12 := by
    refine Nat.eq_of_testBit_eq fun j => ?_
    rw [show 0xF000 = (2 ^ 4 - 1) <<< 12 from rfl, Nat.testBit_and, Nat.testBit_shiftLeft,
      Nat.testBit_shiftLeft, Nat.testBit_two_pow_sub_one, Nat.testBit_shiftRight]
    by_cases hj : 12 ≤ j
    · rw [Nat.add_sub_cancel' hj]
      by_cases h16 : j < 16
      · simp [hj, show j - 12 < 4 by omega]
      · have hzero : pair.testBit j = false :=
          Nat.testBit_lt_two_pow (hp.trans_le (Nat.pow_le_pow_right (by decide) (by omega)))
        simp [hzero]
    · simp [hj]
  have hor := Nat.two_pow_add_eq_or_of_lt hn (pair / 4096)
  rw [hand, Nat.shiftLeft_eq, Nat.shiftRight_eq_div_pow, Nat.mul_comm (pair / 2 ^ 12), ← hor,
    Nat.mul_comm]

/-- the masks and shifts set one entry -/
theorem link_ok (h : current * 3 / 2 + 2 ≤ fat.length) (hn : next < 2 ^ 12) :
    link fat current next = .ok (Packed12.set fat current next) := by
  have hpair : ofLe (slice fat (current * 3 / 2) 2) < 2 ^ 16 := by
    have hlt := ofLe_lt (slice fat (current * 3 / 2) 2)
    rw [length_slice h] at hlt
    exact hlt
  have hodd : current &&& 1 = current % 2 := Nat.and_one_is_mod current
  unfold link unpackFrom
  dsimp only
  rw [if_pos h]
  show packInto fat (current * 3 / 2) [(2, if current &&& 1 ≠ 0 then _ else _)] = _
  rw [hodd, low_pair, high_pair hpair hn]
  unfold packInto Packed12.set
  dsimp only
  have hcond : (if current % 2 ≠ 0 then ofLe (slice fat (current * 3 / 2) 2) % 16 + 16 * next
      else ofLe (slice fat (current * 3 / 2) 2) / 4096 * 4096 + next) =
      if current % 2 = 1 then ofLe (slice fat (current * 3 / 2) 2) % 16 + 16 * next
      else ofLe (slice fat (current * 3 / 2) 2) / 4096 * 4096 + next := by
    split <;> split <;> omega
  rw [hcond]
  have hval : (if current % 2 = 1 then ofLe (slice fat (current * 3 / 2) 2) % 16 + 16 * next
      else ofLe (slice fat (current * 3 / 2) 2) / 4096 * 4096 + next) < 256 ^ 2 := by
    split <;> omega
  generalize (if current % 2 = 1 then ofLe (slice fat (current * 3 / 2) 2) % 16 + 16 * next
      else ofLe (slice fat (current * 3 / 2) 2) / 4096 * 4096 + next) = w at hval ⊢
  have hbytes : ([(2, w)] : List (Nat × Nat)).flatMap (fun f => le f.1 f.2) = le 2 w :=
    List.flatMap_singleton ..
  rw [hbytes, length_le, if_pos ⟨h, fun f hf => by rw [List.mem_singleton.mp hf]; exact hval⟩]

/-- the successor of a cluster in a file that ends before `stop` -/
def target (stop c : Nat) : Nat := if c < stop then c else 0xFFF

/-- the table behind the loop -/
def linked (stop : Nat) : Nat → Nat → List Byte → List Byte
  | 0, _, fat => fat
  | n + 1, current, fat =>
    linked stop n (current + 1) (Packed12.set fat current (target stop (current + 1)))

/-- the clusters of the volume are in the table -/
theorem entry_fits (hlen : fat.length = 4608) (hc : c < 2849) : c * 3 / 2 + 2 ≤ fat.length := by
  omega

theorem target_lt (h : stop ≤ 2849) : target stop c < 2 ^ 12 := by
  unfold target
  split <;> omega

theorem length_set (hlen : fat.length = 4608) (hc : c < 2849) (v : Nat) :
    (Packed12.set fat c v).length = 4608 := by
  rw [Packed12.length_set (entry_fits hlen hc), hlen]

theorem linkAll_ok (stop n current : Nat) (fat : List Byte) (hlen : fat.length = 4608)
    (hstop : stop ≤ 2849) (hn : current + n ≤ stop) :
    linkAll stop n current fat = .ok (linked stop n current fat) := by
  induction n generalizing current fat with
  | zero => rfl
  | succ n ih =>
    unfold linkAll linked
    have hlink : link fat current (if current + 1 < stop then current + 1 else 0xFFF) =
        .ok (Packed12.set fat current (target stop (current + 1))) :=
      link_ok (entry_fits hlen (by omega)) (target_lt hstop)
    dsimp only
    rw [hlink]
    exact ih _ _ (length_set hlen (by omega) _) (by omega)

theorem length_linked (n current : Nat) (fat : List Byte) (hlen : fat.length = 4608)
    (hn : current + n ≤ 2849) : (linked stop n current fat).length = 4608 := by
  induction n generalizing current fat with
  | zero => exact hlen
  | succ n ih => exact ih _ _ (length_set hlen (by omega) _) (by omega)

/-- **The loop links the clusters of a file, and no others.** -/
theorem get_linked (n current : Nat) (fat : List Byte) (hlen : fat.length = 4608)
    (hstop : stop ≤ 2849) (hn : current + n ≤ stop) (hc : c < 2849) :
    Packed12.get (linked stop n current fat) c =
      if current ≤ c ∧ c < current + n then target stop (c + 1) else Packed12.get fat c := by
  induction n generalizing current fat with
  | zero =>
    rw [if_neg (by omega)]
    rfl
  | succ n ih =>
    have hset := length_set hlen (show current < 2849 by omega) (target stop (current + 1))
    show Packed12.get (linked stop n (current + 1) _) c = _
    rw [ih _ _ hset (by omega)]
    by_cases hcur : c = current
    · subst hcur
      rw [if_neg (by omega), if_pos (by omega),
        Packed12.get_set_self (entry_fits hlen (by omega)) (target_lt hstop)]
    · rw [Packed12.get_set_ne (entry_fits hlen (by omega)) (entry_fits hlen hc) (target_lt hstop) hcur]
      by_cases hin : current + 1 ≤ c ∧ c < current + 1 + n
      · rw [if_pos hin, if_pos (by omega)]
      · rw [if_neg hin, if_neg (by omega)]

/-! ## one file -/

def rootStart : Nat := 9728
def dataStart : Nat := 16896

/-- the entry of a file -/
def entryBytes (cluster size : Nat) : List Byte := le 2 cluster ++ le 4 size

/-- the disk with a file on it -/
def putDisk (disk : List Byte) (index cluster : Nat) (f : File) : List Byte :=
  let entry := rootStart + index * 32
  let disk := splice disk entry f.name
  let disk := splice disk (entry + 11) [0x20]
  let disk := splice disk (entry + 26) (entryBytes cluster f.data.length)
  splice disk (dataStart + (cluster - 2) * 512) f.data

def Volume.put (v : Volume) (index : Nat) (f : File) : Volume :=
  ⟨putDisk v.disk index v.cluster f, linked (v.cluster + f.clusters) f.clusters v.cluster v.fat,
    v.cluster + f.clusters⟩

structure Volume.Sized (v : Volume) : Prop where
  disk : v.disk.length = 1474560
  fat : v.fat.length = 4608
  cluster : 2 ≤ v.cluster

/-- the file goes behind the others, and its entry is on the disk -/
structure Volume.Fits (v : Volume) (index : Nat) (f : File) : Prop extends v.Sized where
  index : index + 2 ≤ v.cluster
  room : v.cluster + f.clusters ≤ 2849

theorem File.clusters_pos (f : File) : 0 < f.clusters := by
  have hpos := f.data_pos
  unfold File.clusters
  omega

theorem File.data_le (f : File) : f.data.length ≤ f.clusters * 512 := by
  unfold File.clusters
  omega

theorem length_entryBytes (cluster size : Nat) : (entryBytes cluster size).length = 6 := by
  rw [entryBytes, List.length_append, length_le, length_le]

/-- where a file is written -/
theorem Volume.Fits.bounds (h : v.Fits index f) :
    rootStart + index * 32 + 32 ≤ 1474560 ∧
      dataStart + (v.cluster - 2) * 512 + f.data.length ≤ 1474560 ∧ f.data.length < 256 ^ 4 := by
  have h1 := h.index
  have h2 := h.room
  have h3 := f.data_le
  have h4 := f.clusters_pos
  unfold rootStart dataStart
  omega

/-- the lengths of the disk while a file is written -/
theorem Volume.Fits.lengths (h : v.Fits index f) :
    (splice v.disk (rootStart + index * 32) f.name).length = 1474560 ∧
    (splice (splice v.disk (rootStart + index * 32) f.name) (rootStart + index * 32 + 11)
      [0x20]).length = 1474560 ∧
    (splice (splice (splice v.disk (rootStart + index * 32) f.name) (rootStart + index * 32 + 11)
      [0x20]) (rootStart + index * 32 + 26) (entryBytes v.cluster f.data.length)).length = 1474560 := by
  obtain ⟨h1, -, -⟩ := h.bounds
  have hname : (splice v.disk (rootStart + index * 32) f.name).length = 1474560 := by
    rw [length_splice (by rw [f.name_length, h.disk]; omega), h.disk]
  have hattr : (splice (splice v.disk (rootStart + index * 32) f.name) (rootStart + index * 32 + 11)
      [0x20]).length = 1474560 := by
    rw [length_splice (by rw [hname, List.length_singleton]; omega), hname]
  refine ⟨hname, hattr, ?_⟩
  rw [length_splice (by rw [hattr, length_entryBytes]; omega), hattr]

theorem Volume.Fits.length_putDisk (h : v.Fits index f) :
    (putDisk v.disk index v.cluster f).length = 1474560 := by
  obtain ⟨-, h2, -⟩ := h.bounds
  unfold putDisk
  dsimp only
  rw [length_splice (by rw [h.lengths.2.2]; exact h2), h.lengths.2.2]

theorem Volume.Fits.put_sized (h : v.Fits index f) : (v.put index f).Sized where
  disk := h.length_putDisk
  fat := length_linked _ _ _ h.fat h.room
  cluster := Nat.le_add_right_of_le h.cluster

/-- **A file that fits is written.** -/
theorem addFile_ok (h : v.Fits index f) :
    addFile floppyBpb index v f.name f.data = .ok (v.put index f) := by
  obtain ⟨h1, h2, h3⟩ := h.bounds
  obtain ⟨hl1, hl2, -⟩ := h.lengths
  have hcount : (f.data.length + 512 - 1) / 512 = f.clusters := rfl
  have hpos := f.clusters_pos
  have hroom := h.room
  have hclus := h.cluster
  have hlink := linkAll_ok (v.cluster + f.clusters) f.clusters v.cluster v.fat h.fat hroom
    (le_refl _)
  unfold addFile
  dsimp only
  rw [show floppyBpb.bps = 512 from rfl, show floppyBpb.rootStart = rootStart from rfl,
    show floppyBpb.dataStart = dataStart from rfl, hcount, if_neg]
  · have hattr : setItem (splice v.disk (rootStart + index * 32) f.name)
        (rootStart + index * 32 + 11) 0x20 =
        .ok (splice (splice v.disk (rootStart + index * 32) f.name) (rootStart + index * 32 + 11)
          [0x20]) := if_pos (by rw [hl1]; omega)
    have hnums : packInto (splice (splice v.disk (rootStart + index * 32) f.name)
        (rootStart + index * 32 + 11) [0x20]) (rootStart + index * 32 + 26)
        [(2, v.cluster), (4, f.data.length)] =
        .ok (splice (splice (splice v.disk (rootStart + index * 32) f.name)
          (rootStart + index * 32 + 11) [0x20]) (rootStart + index * 32 + 26)
          (entryBytes v.cluster f.data.length)) := by
      have hbytes : ([(2, v.cluster), (4, f.data.length)] : List (Nat × Nat)).flatMap
          (fun f => le f.1 f.2) = entryBytes v.cluster f.data.length := by
        simp [entryBytes]
      unfold packInto
      dsimp only
      rw [hbytes, if_pos]
      refine ⟨by rw [length_entryBytes, hl2]; omega, ?_⟩
      simp only [List.forall_mem_cons]
      exact ⟨by omega, h3, List.forall_mem_nil _⟩
    rw [hattr]
    show (packInto _ _ _ >>= _) = _
    rw [hnums]
    show (linkAll _ _ _ _ >>= _) = _
    rw [hlink]
    rfl
  · rw [not_or, not_lt, h.disk]
    unfold dataStart
    omega

/-- **A file that does not fit is refused.** -/
theorem addFile_full (hs : v.Sized) (hfull : 2849 < v.cluster + f.clusters) :
    addFile floppyBpb index v f.name f.data = .error (.valueError "file does not fit the floppy") := by
  have hcount : (f.data.length + 512 - 1) / 512 = f.clusters := rfl
  have hclus := hs.cluster
  unfold addFile
  dsimp only
  rw [show floppyBpb.bps = 512 from rfl, show floppyBpb.dataStart = dataStart from rfl, hcount,
    if_pos]
  right
  rw [hs.disk]
  unfold dataStart
  omega

/-- what is not in the place of the entry or of the data stays -/
theorem Volume.Fits.slice_putDisk (h : v.Fits index f)
    (hentry : p + n ≤ rootStart + index * 32 ∨ rootStart + index * 32 + 32 ≤ p)
    (hdata : p + n ≤ dataStart + (v.cluster - 2) * 512 ∨
      dataStart + (v.cluster - 2) * 512 + f.data.length ≤ p) :
    slice (putDisk v.disk index v.cluster f) p n = slice v.disk p n := by
  obtain ⟨h1, h2, -⟩ := h.bounds
  obtain ⟨hl1, hl2, hl3⟩ := h.lengths
  have hsize := h.disk
  have hname := f.name_length
  have hnums := length_entryBytes v.cluster f.data.length
  have hattr : ([0x20] : List Byte).length = 1 := rfl
  unfold putDisk
  dsimp only
  rw [slice_splice_ne (by omega) hdata, slice_splice_ne (by omega) (by omega),
    slice_splice_ne (by omega) (by omega), slice_splice_ne (by omega) (by omega)]

/-- file `f` has entry `i` and the clusters from `c` on -/
structure Stored (disk fat : List Byte) (i c : Nat) (f : File) : Prop where
  name : slice disk (rootStart + i * 32) 11 = f.name
  first : ofLe (slice disk (rootStart + i * 32 + 26) 2) = c
  size : ofLe (slice disk (rootStart + i * 32 + 28) 4) = f.data.length
  data : slice disk (dataStart + (c - 2) * 512) f.data.length = f.data
  chain : ∀ k, c ≤ k → k < c + f.clusters → Packed12.get fat k = target (c + f.clusters) (k + 1)

/-- **A file in the root directory is stored.** -/
theorem Volume.Fits.stored (h : v.Fits index f) (hi : index < 224) :
    Stored (v.put index f).disk (v.put index f).fat index v.cluster f := by
  obtain ⟨h1, h2, h3⟩ := h.bounds
  obtain ⟨hl1, hl2, hl3⟩ := h.lengths
  have hsize := h.disk
  have hname := f.name_length
  have hnums := length_entryBytes v.cluster f.data.length
  have hattr : ([0x20] : List Byte).length = 1 := rfl
  have hroot : rootStart + index * 32 + 32 ≤ dataStart := by
    unfold rootStart dataStart
    omega
  -- the six bytes of the numbers
  have hsix : slice (putDisk v.disk index v.cluster f) (rootStart + index * 32 + 26) 6 =
      entryBytes v.cluster f.data.length := by
    unfold putDisk
    dsimp only
    rw [slice_splice_ne (by omega) (by omega), ← hnums, slice_splice_self (by omega)]
  refine ⟨?_, ?_, ?_, ?_, ?_⟩
  · show slice (putDisk v.disk index v.cluster f) _ _ = _
    unfold putDisk
    dsimp only
    rw [slice_splice_ne (by omega) (by omega), slice_splice_ne (by omega) (by omega),
      slice_splice_ne (by omega) (by omega), ← hname, slice_splice_self (by omega)]
  · show ofLe (slice (putDisk v.disk index v.cluster f) _ _) = _
    have hfirst := congrArg (fun l => slice l 0 2) hsix
    simp only [slice_slice (show 0 + 2 ≤ 6 by decide)] at hfirst
    rw [Nat.add_zero] at hfirst
    rw [hfirst]
    have hle : slice (entryBytes v.cluster f.data.length) 0 2 = le 2 v.cluster := rfl
    rw [hle, ofLe_le_of_lt]
    have hroom := h.room
    omega
  · show ofLe (slice (putDisk v.disk index v.cluster f) _ _) = _
    have hlast := congrArg (fun l => slice l 2 4) hsix
    simp only [slice_slice (show 2 + 4 ≤ 6 by decide)] at hlast
    rw [show rootStart + index * 32 + 28 = rootStart + index * 32 + 26 + 2 from rfl, hlast]
    have hle : slice (entryBytes v.cluster f.data.length) 2 4 = le 4 f.data.length := rfl
    rw [hle, ofLe_le_of_lt h3]
  · exact slice_splice_self (by rw [hl3]; exact h2)
  · intro k h4 h5
    have hroom := h.room
    show Packed12.get (linked _ _ _ _) k = _
    rw [get_linked _ _ _ h.fat hroom (le_refl _) (by omega), if_pos ⟨h4, h5⟩]

/-! ## all files -/

def Volume.puts (v : Volume) : Nat → List File → Volume
  | _, [] => v
  | index, f :: files => (v.put index f).puts (index + 1) files

/-- there is room for all files -/
structure Volume.Room (v : Volume) (index : Nat) (files : List File) : Prop extends v.Sized where
  index : index + 2 ≤ v.cluster
  room : v.cluster + clusters files ≤ 2849

theorem clusters_cons (f : File) (files : List File) :
    clusters (f :: files) = f.clusters + clusters files := List.sum_cons

theorem Volume.Room.head (h : v.Room index (f :: files)) : v.Fits index f := by
  have hroom := h.room
  rw [clusters_cons] at hroom
  exact ⟨h.toSized, h.index, by omega⟩

theorem Volume.Room.tail (h : v.Room index (f :: files)) : (v.put index f).Room (index + 1) files := by
  have hroom := h.room
  have hindex := h.index
  have hpos := f.clusters_pos
  rw [clusters_cons] at hroom
  refine ⟨h.head.put_sized, ?_, ?_⟩
  · show index + 1 + 2 ≤ v.cluster + f.clusters
    omega
  · show v.cluster + f.clusters + clusters files ≤ 2849
    omega

theorem addFiles_ok (h : v.Room index files) :
    addFiles floppyBpb index v files = .ok (v.puts index files) := by
  induction files generalizing v index with
  | nil => rfl
  | cons f files ih =>
    unfold addFiles
    rw [addFile_ok h.head]
    exact ih h.tail

theorem addFiles_full (hs : v.Sized) (hi : index + 2 ≤ v.cluster) (hc : v.cluster ≤ 2849)
    (hfull : 2849 < v.cluster + clusters files) :
    ∃ text, addFiles floppyBpb index v files = .error (.valueError text) := by
  induction files generalizing v index with
  | nil => exact absurd hfull (not_lt.mpr hc)
  | cons f files ih =>
    unfold addFiles
    rw [clusters_cons] at hfull
    by_cases hf : v.cluster + f.clusters ≤ 2849
    · have hfits : v.Fits index f := ⟨hs, hi, hf⟩
      have hpos := f.clusters_pos
      rw [addFile_ok hfits]
      exact ih hfits.put_sized (show index + 1 + 2 ≤ v.cluster + f.clusters by omega) hf
        (show 2849 < v.cluster + f.clusters + clusters files by omega)
    · rw [addFile_full hs (not_le.mp hf)]
      exact ⟨_, rfl⟩

theorem Volume.Room.sized (h : v.Room index files) : (v.puts index files).Sized := by
  induction files generalizing v index with
  | nil => exact h.toSized
  | cons f files ih => exact ih h.tail

/-- what lies before the entries and clusters of the files stays, and what lies behind the entries -/
theorem Volume.Room.slice_puts (h : v.Room index files) (hcount : index + files.length ≤ 224)
    (hp : p + n ≤ rootStart + index * 32 ∨
      rootStart + (index + files.length) * 32 ≤ p ∧ p + n ≤ dataStart + (v.cluster - 2) * 512) :
    slice (v.puts index files).disk p n = slice v.disk p n := by
  induction files generalizing v index with
  | nil => rfl
  | cons f files ih =>
    rw [List.length_cons] at hcount hp
    have hclus := h.cluster
    have hroot : rootStart + (index + 1) * 32 ≤ dataStart := by
      unfold rootStart dataStart
      omega
    have htail : slice ((v.put index f).puts (index + 1) files).disk p n =
        slice (v.put index f).disk p n := by
      refine ih h.tail (by omega) ?_
      show _ ∨ _ ∧ p + n ≤ dataStart + (v.cluster + f.clusters - 2) * 512
      omega
    show slice ((v.put index f).puts (index + 1) files).disk p n = _
    rw [htail]
    exact h.head.slice_putDisk (by omega) (by omega)

theorem Volume.Room.get_puts (h : v.Room index files) (hc : c < v.cluster) :
    Packed12.get (v.puts index files).fat c = Packed12.get v.fat c := by
  induction files generalizing v index with
  | nil => rfl
  | cons f files ih =>
    have hroom := h.head.room
    show Packed12.get ((v.put index f).puts (index + 1) files).fat c = _
    rw [ih h.tail (show c < v.cluster + f.clusters by omega)]
    show Packed12.get (linked _ _ _ _) c = _
    rw [get_linked _ _ _ h.fat hroom (le_refl _) (by omega), if_neg (by omega)]

/-- the files have the entries from `i` on and the clusters from `c` on -/
def AllStored (disk fat : List Byte) : Nat → Nat → List File → Prop
  | _, _, [] => True
  | i, c, f :: files => Stored disk fat i c f ∧ AllStored disk fat (i + 1) (c + f.clusters) files

/-- **As many files as the root directory holds are stored.** -/
theorem Volume.Room.stored (h : v.Room index files) (hcount : index + files.length ≤ 224) :
    AllStored (v.puts index files).disk (v.puts index files).fat index v.cluster files := by
  induction files generalizing v index with
  | nil => trivial
  | cons f files ih =>
    rw [List.length_cons] at hcount
    refine ⟨?_, ih h.tail (by omega)⟩
    have hone := h.head.stored (by omega)
    have hdata := f.data_le
    have hclus := h.cluster
    -- the files behind it leave it alone
    have hslice : ∀ p n, (p + n ≤ rootStart + (index + 1) * 32 ∨
        dataStart ≤ p ∧ p + n ≤ dataStart + (v.cluster + f.clusters - 2) * 512) →
        slice (v.puts index (f :: files)).disk p n = slice (v.put index f).disk p n := by
      intro p n hp
      refine h.tail.slice_puts (by omega) ?_
      rcases hp with hp | hp
      · exact .inl hp
      · refine .inr ⟨?_, hp.2⟩
        have hroot : rootStart + (index + 1 + files.length) * 32 ≤ dataStart := by
          unfold rootStart dataStart
          omega
        omega
    refine ⟨?_, ?_, ?_, ?_, ?_⟩
    · rw [hslice _ _ (.inl (by omega))]
      exact hone.name
    · rw [hslice _ _ (.inl (by omega))]
      exact hone.first
    · rw [hslice _ _ (.inl (by omega))]
      exact hone.size
    · rw [hslice _ _ (.inr ⟨by omega, by omega⟩)]
      exact hone.data
    · intro k h1 h2
      rw [← hone.chain k h1 h2]
      exact h.tail.get_puts h2

/-! ## reading the volume -/

/-- the clusters of a file, one after the other -/
theorem follow_chain (disk : List Byte)
    (hchain : ∀ k, c ≤ k → k < stop → Packed12.get fat k = target stop (k + 1))
    (h2 : 2 ≤ c) (hle : c ≤ stop) (hstop : stop ≤ 2849) (fuel : Nat) (hfuel : stop - c < fuel) :
    follow disk fat fuel (target stop c) =
      some (slice disk (dataStart + (c - 2) * 512) ((stop - c) * 512)) := by
  induction hn : stop - c generalizing c fuel with
  | zero =>
    obtain ⟨fuel, rfl⟩ : ∃ n, fuel = n + 1 := ⟨fuel - 1, by omega⟩
    have hend : target stop c = 0xFFF := if_neg (by omega)
    rw [hend, Nat.zero_mul]
    rfl
  | succ n ih =>
    obtain ⟨fuel, rfl⟩ : ∃ n, fuel = n + 1 := ⟨fuel - 1, by omega⟩
    have hcur : target stop c = c := if_pos (by omega)
    have hrest := ih (c := c + 1) (fun k h1 h3 => hchain k (by omega) h3) (by omega) (by omega) fuel
      (by omega) (by omega)
    rw [hcur, follow, if_neg (by omega), hchain c (le_refl c) (by omega), hrest]
    show some (slice disk ((33 + (c - 2)) * 512) 512 ++ slice disk (dataStart + (c + 1 - 2) * 512) _) =
      _
    rw [show dataStart + (c + 1 - 2) * 512 = (33 + (c - 2)) * 512 + 512 by unfold dataStart; omega,
      slice_append, show dataStart + (c - 2) * 512 = (33 + (c - 2)) * 512 by unfold dataStart; omega,
      show 512 + n * 512 = (n + 1) * 512 by omega]

/-- an entry and its chain give the file back -/
theorem Stored.read (h : Stored disk fat i c f) (h2 : 2 ≤ c) (hroom : c + f.clusters ≤ 2849) :
    (follow disk fat 4096 c).map (List.take f.data.length) = some f.data := by
  have hpos := f.clusters_pos
  have hfirst : target (c + f.clusters) c = c := if_pos (by omega)
  have hfollow := follow_chain disk h.chain h2 (by omega) hroom 4096 (by omega)
  rw [hfirst, Nat.add_sub_cancel_left] at hfollow
  rw [hfollow, Option.map_some, take_slice f.data_le, h.data]

theorem entriesFrom_stored (n i c : Nat) (hs : AllStored disk fat i c files) (h2 : 2 ≤ c)
    (hroom : c + clusters files ≤ 2849)
    (hblank : 0 < n → slice disk (rootStart + (i + files.length) * 32) 1 = [0]) :
    entriesFrom disk fat (files.length + n) i = some (files.map File.entry) := by
  induction files generalizing i c with
  | nil =>
    cases n with
    | zero => rfl
    | succ n =>
      have hzero := hblank (Nat.succ_pos n)
      have hhead : (slice disk (19 * 512 + i * 32) 32).head? = some 0 := by
        have hget := congrArg (fun l => l[0]?) hzero
        rw [List.head?_eq_getElem?]
        simp only [getElem?_slice] at hget ⊢
        exact hget
      show entriesFrom disk fat (0 + (n + 1)) i = some []
      rw [Nat.zero_add, entriesFrom]
      dsimp only
      rw [if_pos hhead]
  | cons f files ih =>
    obtain ⟨hone, hrest⟩ := hs
    rw [clusters_cons] at hroom
    rw [List.length_cons] at hblank
    have htail := ih (i + 1) (c + f.clusters) hrest (by omega) (by omega) fun hn => by
      rw [show i + 1 + files.length = i + (files.length + 1) by omega]
      exact hblank hn
    have hread := hone.read h2 (by omega)
    have hname : slice (slice disk (19 * 512 + i * 32) 32) 0 11 = f.name := by
      rw [slice_slice (by decide)]
      exact hone.name
    have hfirst : ofLe (slice (slice disk (19 * 512 + i * 32) 32) 26 2) = c := by
      rw [slice_slice (by decide)]
      exact hone.first
    have hsize : ofLe (slice (slice disk (19 * 512 + i * 32) 32) 28 4) = f.data.length := by
      rw [slice_slice (by decide)]
      exact hone.size
    have hhead : (slice disk (19 * 512 + i * 32) 32).head? = f.name.head? := by
      rw [← hname, List.head?_eq_getElem?, List.head?_eq_getElem?, getElem?_slice,
        getElem?_slice, if_pos (by decide), if_pos (by decide), getElem?_slice, if_pos (by decide)]
    obtain ⟨data, hdata, htake⟩ := Option.map_eq_some_iff.mp hread
    show entriesFrom disk fat (files.length + 1 + n) i = some (f.entry :: files.map File.entry)
    rw [show files.length + 1 + n = files.length + n + 1 by omega, entriesFrom]
    dsimp only
    rw [hhead, if_neg f.name_used.1, if_neg f.name_used.2, hfirst, hdata, htail, hname, hsize]
    dsimp only
    rw [htake]
    rfl

theorem AllStored.congr {disk' : List Byte} (h : AllStored disk fat i c files)
    (hs : ∀ p n, rootStart ≤ p → slice disk' p n = slice disk p n) : AllStored disk' fat i c files := by
  induction files generalizing i c with
  | nil => trivial
  | cons f files ih =>
    obtain ⟨hone, hrest⟩ := h
    have hdata : rootStart ≤ dataStart := by decide
    refine ⟨⟨?_, ?_, ?_, ?_, hone.chain⟩, ih hrest⟩
    · rw [hs _ _ (by omega)]
      exact hone.name
    · rw [hs _ _ (by omega)]
      exact hone.first
    · rw [hs _ _ (by omega)]
      exact hone.size
    · rw [hs _ _ (by omega)]
      exact hone.data

/-- a root directory has 224 entries -/
theorem entriesFrom_length (n i : Nat) (l : List Entry) (h : entriesFrom disk fat n i = some l) :
    l.length ≤ n := by
  induction n generalizing i l with
  | zero =>
    obtain rfl := Option.some.inj h
    exact Nat.le_refl 0
  | succ n ih =>
    unfold entriesFrom at h
    dsimp only at h
    split at h
    · obtain rfl := Option.some.inj h
      exact Nat.zero_le _
    · split at h
      · exact (ih _ _ h).trans (Nat.le_succ n)
      · split at h
        · rename_i data rest _ hrest
          obtain rfl := Option.some.inj h
          exact Nat.succ_le_succ (ih _ _ hrest)
        · cases h

/-! ## the image -/

/-- both tables are on the disk -/
theorem copyFats_floppy (fat disk : List Byte) : copyFats floppyBpb fat disk =
    splice (splice disk 512 fat) 5120 fat := rfl

theorem Volume.Sized.copyFats (hs : v.Sized) :
    (copyFats floppyBpb v.fat v.disk).length = 1474560 ∧
    (∀ copy < 2, fatOf (copyFats floppyBpb v.fat v.disk) copy = v.fat) ∧
    ∀ p n, rootStart ≤ p → slice (copyFats floppyBpb v.fat v.disk) p n = slice v.disk p n := by
  have hdisk := hs.disk
  have hfat := hs.fat
  have hone : (splice v.disk 512 v.fat).length = 1474560 := by
    rw [length_splice (by omega), hdisk]
  rw [copyFats_floppy]
  refine ⟨?_, ?_, ?_⟩
  · rw [length_splice (by omega), hone]
  · intro copy hcopy
    obtain rfl | rfl : copy = 0 ∨ copy = 1 := by omega
    · show slice _ 512 4608 = v.fat
      rw [slice_splice_ne (by omega) (by omega), ← hfat, slice_splice_self (by omega)]
    · show slice _ 5120 4608 = v.fat
      rw [← hfat, slice_splice_self (by omega)]
  · intro p n hp
    unfold rootStart at hp
    rw [slice_splice_ne (by omega) (by omega), slice_splice_ne (by omega) (by omega)]

theorem startVolume_room {boot : List Byte} (hboot : boot.length = 512) (files : List File)
    (hroom : clusters files ≤ 2847) : (startVolume floppyBpb boot).Room 0 files where
  disk := by
    show (splice (List.replicate 1474560 0) 0 boot).length = 1474560
    rw [length_splice (by rw [List.length_replicate, hboot]; decide), List.length_replicate]
  fat := by
    show (splice (List.replicate 4608 0) 0 [_, _, _]).length = 4608
    rw [length_splice (by rw [List.length_replicate]; exact show 0 + 3 ≤ 4608 by decide),
      List.length_replicate]
  cluster := le_refl 2
  index := le_refl 2
  room := by
    show 2 + clusters files ≤ 2849
    omega

theorem readBpb_ok {boot : List Byte} (hlen : boot.length = 512) : readBpb boot =
    .ok ⟨ofLe (slice boot 11 2), ofLe (slice boot 13 1), ofLe (slice boot 14 2),
      ofLe (slice boot 16 1), ofLe (slice boot 17 2), ofLe (slice boot 19 2),
      ofLe (slice boot 22 2)⟩ := by
  have hok : ∀ o k, o + k ≤ 512 → unpackFrom boot o k = .ok (ofLe (slice boot o k)) := by
    intro o k hle
    exact if_pos (hlen.symm ▸ hle)
  unfold readBpb
  rw [hok 11 2 (by decide), hok 13 1 (by decide), hok 14 2 (by decide), hok 16 1 (by decide),
    hok 17 2 (by decide), hok 19 2 (by decide), hok 22 2 (by decide)]
  rfl

/-- an accepted boot sector leads to the loop over the files -/
theorem floppyImage_accepted {boot : List Byte} (h : Accepted boot) (files : List File) :
    floppyImage boot files =
      (addFiles floppyBpb 0 (startVolume floppyBpb boot) files).map fun v =>
        copyFats floppyBpb v.fat v.disk := by
  obtain ⟨hlen, hmagic, hnums⟩ := h
  have hbpb : readBpb boot = .ok floppyBpb := by
    rw [readBpb_ok hlen]
    simp only [List.cons.injEq] at hnums
    obtain ⟨h1, h2, h3, h4, h5, h6, h7, -⟩ := hnums
    rw [h1, h2, h3, h4, h5, h6, h7]
    rfl
  have hhead : ¬ (boot.length ≠ SECTOR ∨ boot.drop 510 ≠ [0x55, 0xAA]) :=
    not_or.mpr ⟨not_not.mpr hlen, not_not.mpr hmagic⟩
  unfold floppyImage
  rw [if_neg hhead, hbpb]
  show (do
    let v ← addFiles floppyBpb 0 (startVolume floppyBpb boot) files
    return copyFats floppyBpb v.fat v.disk) = _
  cases addFiles floppyBpb 0 (startVolume floppyBpb boot) files <;> rfl

/-- any other is refused -/
theorem floppyImage_refused {boot : List Byte} (h : ¬ Accepted boot) (files : List File) :
    ∃ text, floppyImage boot files = .error (.valueError text) := by
  unfold floppyImage
  by_cases hhead : boot.length ≠ SECTOR ∨ boot.drop 510 ≠ [0x55, 0xAA]
  · rw [if_pos hhead]
    exact ⟨_, rfl⟩
  · rw [if_neg hhead]
    obtain ⟨hlen, hmagic⟩ := not_or.mp hhead
    rw [readBpb_ok (not_not.mp hlen)]
    refine ⟨_, if_pos fun hb => h ⟨not_not.mp hlen, not_not.mp hmagic, ?_⟩⟩
    simp only [floppyBpb, Bpb.mk.injEq] at hb
    obtain ⟨h1, h2, h3, h4, h5, h6, h7⟩ := hb
    rw [h1, h2, h3, h4, h5, h6, h7]

/-- the root directory is empty at the start -/
theorem startVolume_blank {boot : List Byte} (hboot : boot.length = 512) (p : Nat)
    (hp : rootStart ≤ p) (hlt : p < 1474560) :
    slice (startVolume floppyBpb boot).disk p 1 = [0] := by
  unfold rootStart at hp
  show slice (splice (List.replicate 1474560 0) 0 boot) p 1 = [0]
  rw [slice_splice_ne (by rw [List.length_replicate, hboot]; decide) (by omega)]
  refine List.ext_getElem? fun i => ?_
  rw [getElem?_slice]
  cases i with
  | zero => rw [if_pos (by decide), List.getElem?_replicate, if_pos (by omega)]; rfl
  | succ i => rw [if_neg (by omega)]; rfl

/-- with room for its clusters a list of files is accepted, and it decodes if the root directory has
room for its entries -/
theorem decodes_of_room {boot : List Byte} (h : Accepted boot) (hroom : clusters files ≤ 2847) :
    Decodes files (floppyImage boot files) ↔ files.length ≤ 224 := by
  have hr := startVolume_room h.1 files hroom
  rw [floppyImage_accepted h, addFiles_ok hr]
  generalize hv : (startVolume floppyBpb boot).puts 0 files = v
  have hsized := hr.sized
  rw [hv] at hsized
  obtain ⟨hlen, hfat, hslice⟩ := hsized.copyFats
  show _ ∧ _ ↔ _
  constructor
  · rintro ⟨-, hdec⟩
    have hle := entriesFrom_length _ _ _ (hdec 0 (by decide))
    rwa [List.length_map] at hle
  · intro hcount
    refine ⟨hlen, fun copy hcopy => ?_⟩
    have hstored := hr.stored (by omega)
    rw [hv] at hstored
    unfold decode
    rw [hfat copy hcopy]
    have hcopied : AllStored (copyFats floppyBpb v.fat v.disk) v.fat 0 2 files := hstored.congr hslice
    have hall := entriesFrom_stored (224 - files.length) 0 2 hcopied (le_refl 2) (by omega) fun hn => ?_
    · rwa [Nat.add_sub_cancel' hcount] at hall
    · have hroot : rootStart + (0 + files.length) * 32 + 1 ≤ dataStart := by
        unfold rootStart dataStart
        omega
      have hstart : (startVolume floppyBpb boot).cluster = 2 := rfl
      have hblank := hr.slice_puts (n := 1) (p := rootStart + (0 + files.length) * 32) (by omega)
        (.inr ⟨le_refl _, by rw [hstart]; exact hroot⟩)
      rw [hv] at hblank
      rw [hslice _ _ (by omega), hblank]
      refine startVolume_blank h.1 _ (by omega) ?_
      unfold dataStart at hroot
      omega

end

/-- **The floppy image decodes to its files** exactly when the boot sector is refused, the files are
too large together, or there are no more of them than the root directory has entries. -/
theorem floppy_iff (boot : List Byte) (files : List File) :
    Decodes files (floppyImage boot files) ↔
      ¬ Accepted boot ∨ 2847 < clusters files ∨ files.length ≤ 224 := by
  by_cases h : Accepted boot
  · by_cases hroom : clusters files ≤ 2847
    · rw [decodes_of_room h hroom]
      simp [h, hroom]
    · have hs := startVolume_room h.1 [] (by decide)
      have hindex : 0 + 2 ≤ (startVolume floppyBpb boot).cluster := le_refl 2
      have hstart : (startVolume floppyBpb boot).cluster ≤ 2849 := show 2 ≤ 2849 by decide
      obtain ⟨text, hfull⟩ := addFiles_full hs.toSized hindex hstart
        (show 2849 < 2 + clusters files by omega)
      rw [floppyImage_accepted h, hfull]
      exact ⟨fun _ => .inr (.inl (not_le.mp hroom)), fun _ => trivial⟩
  · obtain ⟨text, hrefuse⟩ := floppyImage_refused h files
    rw [hrefuse]
    exact ⟨fun _ => .inl h, fun _ => trivial⟩

/-! ## one file more than the root directory has room for -/

/-- a boot sector with the numbers of a 1.44 MB floppy -/
def someBoot : List Byte :=
  List.replicate 11 0 ++ (le 2 512 ++ le 1 1 ++ le 2 1 ++ le 1 2 ++ le 2 224 ++ le 2 2880 ++ [0xF0] ++
    le 2 9) ++ List.replicate 486 0 ++ [0x55, 0xAA]

theorem someBoot_accepted : Accepted someBoot := by
  refine ⟨?_, ?_, ?_⟩ <;> decide +kernel

/-- a file of one byte -/
def smallFile (i : Nat) : File where
  name := BitVec.ofNat 8 (i % 16 + 0x41) :: BitVec.ofNat 8 (i / 16 + 0x41) :: List.replicate 9 0x20
  data := [0]
  name_length := rfl
  name_used := by
    have hhead : (BitVec.ofNat 8 (i % 16 + 0x41)).toNat = i % 16 + 0x41 := by
      rw [BitVec.toNat_ofNat]
      omega
    constructor
    · intro h
      rw [Option.some.inj h] at hhead
      have hzero : (0 : Byte).toNat = 0 := rfl
      omega
    · intro h
      rw [Option.some.inj h] at hhead
      have he5 : (0xE5 : Byte).toNat = 229 := rfl
      omega
  data_pos := Nat.one_pos

theorem smallFile_names : (((List.range 225).map smallFile).map File.name).Nodup := by
  rw [List.map_map]
  refine List.Nodup.map_on (fun i hi j hj h => ?_) List.nodup_range
  have hi' := List.mem_range.mp hi
  have hj' := List.mem_range.mp hj
  obtain ⟨hlow, hhigh, -⟩ := List.cons.inj h |>.imp id List.cons.inj
  have hlow' := congrArg BitVec.toNat hlow
  have hhigh' := congrArg BitVec.toNat hhigh
  rw [BitVec.toNat_ofNat, BitVec.toNat_ofNat] at hlow' hhigh'
  omega

/-- each file has one cluster -/
theorem smallFile_clusters (l : List Nat) : clusters (l.map smallFile) = l.length := by
  induction l with
  | nil => rfl
  | cons i l ih =>
    have hone : (smallFile i).clusters = 1 := by simp [File.clusters, smallFile]
    rw [List.map_cons, clusters_cons, ih, List.length_cons, hone, Nat.add_comm]

/-- 225 files of one byte each, with names of their own -/
theorem floppy_fails : ¬ ∀ (boot : List Byte) (files : List File),
    (files.map File.name).Nodup → Decodes files (floppyImage boot files) := by
  intro hall
  obtain ⟨boot, hboot⟩ : ∃ boot, Accepted boot := ⟨someBoot, someBoot_accepted⟩
  have hdec := hall boot ((List.range 225).map smallFile) smallFile_names
  have hroom : clusters ((List.range 225).map smallFile) ≤ 2847 := by
    rw [smallFile_clusters, List.length_range]
    decide
  rw [decodes_of_room hboot hroom, List.length_map, List.length_range] at hdec
  exact absurd hdec (by decide)

end Noxis.Image
