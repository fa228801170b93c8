import Noxis.Image.Floppy

/-!
# scripts/desktop_image.py: the boot files on the IDE image

`replace_boot_files` writes new contents into files of the Orange'S filesystem of an image, each into
the sectors that the file has already.

* `replaceBootFiles`   the function of the script, with the image that it leaves
* `WellFormed`         an image with a filesystem whose files do not overlap
* `Replaced`           the new contents are there, and nothing else has changed
* `replace_spec`       **what a call does**
-/

namespace Noxis.Image

open Slice

/-! ## the code -/

/-- a mapping from names to contents -/
abbrev Contents := List (List Byte × List Byte)

/-- `disk.write(data)` at `p`; behind the end the gap is filled with zeros -/
def writeAt (disk : List Byte) (p : Nat) (data : List Byte) : List Byte :=
  if data = [] then disk else splice (disk ++ List.replicate (p - disk.length) 0) p data

def text (l : List Byte) : String := String.ofList (l.map fun b => Char.ofNat b.toNat)

/-- number `k` of a block of little-endian numbers of 32 bits -/
def word (l : List Byte) (k : Nat) : Nat := ofLe (slice l (4 * k) 4)

/-- the loop over the directory: the names that were found, and the image -/
def replaceLoop (base inodeStart isizeOff : Nat) (directory : List Byte) (files : Contents) :
    List Nat → List (List Byte) → List Byte → Py (List (List Byte)) × List Byte
  | [], found, disk => (.ok found, disk)
  | offset :: offsets, found, disk =>
    if directory.length < offset + 4 then (.error .structError, disk)
    else
      let inode := ofLe (slice directory offset 4)
      let rawName := (slice directory (offset + 4) 12).takeWhile (· ≠ 0)
      if inode = 0 then
        replaceLoop base inodeStart isizeOff directory files offsets found disk
      else
        match files.lookup rawName with
        | none => replaceLoop base inodeStart isizeOff directory files offsets found disk
        | some data =>
          let inodeOffset := inodeStart + inode * 32 - 32
          let record := slice disk inodeOffset 16
          if record.length ≠ 16 then (.error .structError, disk)
          else if data.length > word record 3 * SECTOR then
            (.error (.valueError (text rawName ++ " exceeds its reserved disk space")), disk)
          else
            let disk := writeAt disk (base + word record 2 * SECTOR) data
            if 2 ^ 32 ≤ data.length then (.error .structError, disk)
            else
              let disk := writeAt disk (inodeOffset + isizeOff) (le 4 data.length)
              replaceLoop base inodeStart isizeOff directory files offsets (rawName :: found) disk

def supported (sb : List Byte) : Bool :=
  word sb 0 = 0x111 ∧ word sb 8 = 32 ∧ word sb 11 = 16 ∧ word sb 12 = 0 ∧ word sb 13 = 4

/-- the names of the mapping that were not found -/
def missing (files : Contents) (found : List (List Byte)) : List (List Byte) :=
  (files.map Prod.fst).filter fun name => name ∉ found

def missingText (files : Contents) (found : List (List Byte)) : String :=
  "IDE template is missing boot files: \x7b" ++
    String.intercalate ", " ((missing files found).map fun name => "\x27" ++ text name ++ "\x27") ++
    "\x7d"

def replaceBootFiles (disk : List Byte) (rootSector : Nat) (files : Contents) :
    Py Unit × List Byte :=
  let base := rootSector * SECTOR
  let sb := slice disk (base + SECTOR) 56
  if sb.length ≠ 56 then (.error .structError, disk)
  else if supported sb = false then
    (.error (.valueError "unsupported Orange'S filesystem in the IDE image"), disk)
  else
    let inodeStart := base + (2 + word sb 3 + word sb 4) * SECTOR
    let record := slice disk (inodeStart + word sb 7 * 32 - 32) 16
    if record.length ≠ 16 then (.error .structError, disk)
    else
      let directory := slice disk (base + word record 2 * SECTOR) (word record 1)
      let offsets := (List.range ((directory.length + 15) / 16)).map (16 * ·)
      match replaceLoop base inodeStart (word sb 9) directory files offsets [] disk with
      | (.error e, disk) => (.error e, disk)
      | (.ok found, disk) =>
        if missing files found = [] then (.ok (), disk)
        else (.error (.valueError (missingText files found)), disk)

/-! ## the filesystem of an image -/

/-- an image, and the sector where its filesystem starts -/
structure Disk where
  bytes : List Byte
  rootSector : Nat

section
variable (d : Disk) (n o : Nat)

def Disk.base : Nat := d.rootSector * SECTOR

/-- the superblock -/
def Disk.sb : List Byte := slice d.bytes (d.base + SECTOR) 56

def Disk.inodeStart : Nat := d.base + (2 + word d.sb 3 + word d.sb 4) * SECTOR

/-- where inode `n` is -/
def Disk.inodeAt : Nat := d.inodeStart + n * 32 - 32

def Disk.size : Nat := ofLe (slice d.bytes (d.inodeAt n + 4) 4)
def Disk.startSect : Nat := ofLe (slice d.bytes (d.inodeAt n + 8) 4)
def Disk.nrSects : Nat := ofLe (slice d.bytes (d.inodeAt n + 12) 4)

/-- where the data of inode `n` starts -/
def Disk.dataAt : Nat := d.base + d.startSect n * SECTOR

/-- the root directory -/
def Disk.directory : List Byte := slice d.bytes (d.dataAt (word d.sb 7)) (d.size (word d.sb 7))

/-- the inode number and the name of the entry at an offset -/
def Disk.entryInode : Nat := ofLe (slice d.directory o 4)
def Disk.entryName : List Byte := (slice d.directory (o + 4) 12).takeWhile (· ≠ 0)

/-- the offsets of the entries that are in use -/
def Disk.used : Prop := o < d.directory.length ∧ o % 16 = 0 ∧ d.entryInode o ≠ 0

/-- an inode's data, as long as its size says -/
def Disk.readFile : List Byte := slice d.bytes (d.dataAt n) (d.size n)

end

/-- the parts of a filesystem are where they belong, and the files of the directory do not overlap -/
structure Disk.Layout (d : Disk) : Prop where
  isizeOff : word d.sb 9 = 4
  root : d.inodeAt (word d.sb 7) + 16 ≤ d.bytes.length
  directory : d.dataAt (word d.sb 7) + d.size (word d.sb 7) ≤ d.bytes.length
  entries : d.size (word d.sb 7) % 16 = 0
  table : d.inodeStart + word d.sb 1 * 32 ≤ d.bytes.length
  inode : ∀ o, d.used o → d.entryInode o ≤ word d.sb 1
  /-- a file's sectors lie behind the inodes, and its size can be written down -/
  extent : ∀ o, d.used o → d.nrSects (d.entryInode o) ≠ 0 →
    d.inodeStart + word d.sb 1 * 32 ≤ d.dataAt (d.entryInode o) ∧
      d.dataAt (d.entryInode o) + d.nrSects (d.entryInode o) * SECTOR ≤ d.bytes.length ∧
      d.nrSects (d.entryInode o) * SECTOR < 2 ^ 32
  disjoint : ∀ o o', d.used o → d.used o' → o ≠ o' → d.nrSects (d.entryInode o) ≠ 0 →
    d.nrSects (d.entryInode o') ≠ 0 →
    d.dataAt (d.entryInode o) + d.nrSects (d.entryInode o) * SECTOR ≤ d.dataAt (d.entryInode o') ∨
      d.dataAt (d.entryInode o') + d.nrSects (d.entryInode o') * SECTOR ≤ d.dataAt (d.entryInode o)

/-- an image with a superblock and, if it is a supported one, a filesystem -/
structure Disk.WellFormed (d : Disk) : Prop where
  superblock : d.base + 2 * SECTOR ≤ d.bytes.length
  layout : supported d.sb = true → d.Layout

/-- the entry at `o` has new content -/
def Disk.Chosen (d : Disk) (files : Contents) (o : Nat) (data : List Byte) : Prop :=
  d.used o ∧ files.lookup (d.entryName o) = some data

/-- byte `i` lies in the sectors of the file, or in the size of its inode -/
def Disk.Owns (d : Disk) (o i : Nat) : Prop :=
  d.dataAt (d.entryInode o) ≤ i ∧
      i < d.dataAt (d.entryInode o) + d.nrSects (d.entryInode o) * SECTOR ∨
    d.inodeAt (d.entryInode o) + 4 ≤ i ∧ i < d.inodeAt (d.entryInode o) + 8

/-- what a successful call leaves -/
structure Disk.Replaced (d : Disk) (files : Contents) (bytes : List Byte) : Prop where
  named : ∀ name ∈ files.map Prod.fst, ∃ o data, d.Chosen files o data ∧ d.entryName o = name
  /-- a file that is named reads as its new content -/
  content : ∀ o data, d.Chosen files o data →
    Disk.readFile { d with bytes := bytes } (d.entryInode o) = data
  length : bytes.length = d.bytes.length
  frame : ∀ i, (∀ o data, d.Chosen files o data → ¬ d.Owns o i) → bytes[i]? = d.bytes[i]?

/-- why a call raises -/
inductive Disk.Reason (d : Disk) (files : Contents) : PyError → Prop where
  | unsupported (text : String) : supported d.sb = false → Reason d files (.valueError text)
  | tooLarge (text : String) (o : Nat) (data : List Byte) : d.Chosen files o data →
      data.length > d.nrSects (d.entryInode o) * SECTOR → Reason d files (.valueError text)
  | missing (text : String) (name : List Byte) : name ∈ files.map Prod.fst →
      (∀ o, d.used o → d.entryName o ≠ name) → Reason d files (.valueError text)

/-! ## where things are -/

section
variable {d : Disk} {files : Contents} {o o' n n' i p k : Nat} {data data' cur l : List Byte}

/-- the end of the inodes -/
def Disk.tableEnd (d : Disk) : Nat := d.inodeStart + word d.sb 1 * 32

theorem Disk.inodeStart_ge (d : Disk) : d.base + 2 * SECTOR ≤ d.inodeStart := by
  unfold Disk.inodeStart SECTOR
  omega

/-- an inode of the directory lies in the table -/
theorem Disk.Layout.inodeAt_bounds (h : d.Layout) (hu : d.used o) :
    d.inodeStart ≤ d.inodeAt (d.entryInode o) ∧ d.inodeAt (d.entryInode o) + 32 ≤ d.tableEnd := by
  have hle := h.inode o hu
  have hne := hu.2.2
  unfold Disk.inodeAt Disk.tableEnd
  omega

/-- the size of another inode is elsewhere -/
theorem inodeAt_apart (h0 : n ≠ 0) (h0' : n' ≠ 0) (hne : n ≠ n') :
    d.inodeAt n + 32 ≤ d.inodeAt n' ∨ d.inodeAt n' + 32 ≤ d.inodeAt n := by
  unfold Disk.inodeAt
  omega

/-- a new content that is not empty has sectors -/
theorem nrSects_pos (hle : data.length ≤ d.nrSects n * SECTOR) (hpos : 0 < data.length) :
    d.nrSects n ≠ 0 := by
  intro hz
  rw [hz, Nat.zero_mul] at hle
  omega

/-- the size of a new content can be written down -/
theorem Disk.Layout.length_lt (h : d.Layout) (hu : d.used o)
    (hle : data.length ≤ d.nrSects (d.entryInode o) * SECTOR) : data.length < 2 ^ 32 := by
  rcases Nat.eq_zero_or_pos data.length with hz | hpos
  · omega
  · have hext := h.extent o hu (nrSects_pos hle hpos)
    omega

/-- two entries of one inode have no sectors -/
theorem Disk.Layout.same_inode (h : d.Layout) (hu : d.used o) (hu' : d.used o') (hne : o ≠ o')
    (hsame : d.entryInode o = d.entryInode o') : d.nrSects (d.entryInode o) = 0 := by
  by_contra hz
  have hz' := hz
  rw [hsame] at hz'
  have hdis := h.disjoint o o' hu hu' hne hz hz'
  rw [hsame] at hdis
  have hpos : 0 < d.nrSects (d.entryInode o') * SECTOR :=
    Nat.mul_pos (Nat.pos_of_ne_zero hz') (by decide)
  omega

theorem writeAt_eq (h : data = [] ∨ p + data.length ≤ l.length) :
    writeAt l p data = if data = [] then l else splice l p data := by
  unfold writeAt
  split
  · rfl
  · rename_i hne
    have hle := h.resolve_left hne
    rw [show p - l.length = 0 by omega, List.replicate_zero, List.append_nil]

theorem length_writeAt (h : data = [] ∨ p + data.length ≤ l.length) :
    (writeAt l p data).length = l.length := by
  rw [writeAt_eq h]
  split
  · rfl
  · rename_i hne
    exact length_splice (h.resolve_left hne)

theorem getElem?_writeAt (h : data = [] ∨ p + data.length ≤ l.length)
    (hi : ¬ (p ≤ i ∧ i < p + data.length)) : (writeAt l p data)[i]? = l[i]? := by
  rw [writeAt_eq h]
  split
  · rfl
  · rename_i hne
    rw [getElem?_splice (h.resolve_left hne), if_neg hi]

theorem slice_writeAt_ne (h : data = [] ∨ p + data.length ≤ l.length)
    (hk : k + n ≤ p ∨ p + data.length ≤ k) : slice (writeAt l p data) k n = slice l k n := by
  rw [writeAt_eq h]
  split
  · rfl
  · rename_i hne
    exact slice_splice_ne (h.resolve_left hne) hk

theorem slice_writeAt_self (h : data = [] ∨ p + data.length ≤ l.length) :
    slice (writeAt l p data) p data.length = data := by
  rw [writeAt_eq h]
  split
  · rename_i hnil
    rw [hnil]
    rfl
  · rename_i hne
    exact slice_splice_self (h.resolve_left hne)

/-! ## the loop over the directory -/

/-- the image when the entries with `done` have had their turn -/
structure Disk.Inv (d : Disk) (files : Contents) (done : Nat → Prop) (cur : List Byte) : Prop where
  length : cur.length = d.bytes.length
  frame : ∀ i, (∀ o data, done o → d.Chosen files o data → ¬ d.Owns o i) → cur[i]? = d.bytes[i]?
  fits : ∀ o data, done o → d.Chosen files o data →
    data.length ≤ d.nrSects (d.entryInode o) * SECTOR
  size : ∀ o data, done o → d.Chosen files o data →
    slice cur (d.inodeAt (d.entryInode o) + 4) 4 = le 4 data.length
  data : ∀ o data, done o → d.Chosen files o data →
    slice cur (d.dataAt (d.entryInode o)) data.length = data

variable {done : Nat → Prop}

/-- what belongs to no file stays -/
theorem Disk.Inv.slice_eq (h : d.Inv files done cur)
    (hk : ∀ i, k ≤ i → i < k + n → ∀ o data, done o → d.Chosen files o data → ¬ d.Owns o i) :
    slice cur k n = slice d.bytes k n := by
  refine List.ext_getElem? fun i => ?_
  rw [getElem?_slice, getElem?_slice]
  split
  · exact h.frame _ (hk _ (by omega) (by omega))
  · rfl

/-- a file owns nothing before its inode, and only the size in the table -/
theorem Disk.Layout.not_owns (hl : d.Layout) (hu : d.used o') (hi : i < d.tableEnd)
    (hs : ¬ (d.inodeAt (d.entryInode o') + 4 ≤ i ∧ i < d.inodeAt (d.entryInode o') + 8)) :
    ¬ d.Owns o' i := by
  rintro (⟨h1, h2⟩ | hsize)
  · have hne : d.nrSects (d.entryInode o') ≠ 0 := by
      intro hz
      rw [hz, Nat.zero_mul] at h2
      omega
    have hext := (hl.extent o' hu hne).1
    unfold Disk.tableEnd at hi
    omega
  · exact hs hsize

/-- where a file is does not change -/
theorem Disk.Inv.record (h : d.Inv files done cur) (hl : d.Layout) (hu : d.used o) :
    slice cur (d.inodeAt (d.entryInode o) + 8) 8 =
      slice d.bytes (d.inodeAt (d.entryInode o) + 8) 8 := by
  refine h.slice_eq fun i h1 h2 o' data _ hc => ?_
  have hb := hl.inodeAt_bounds hu
  refine hl.not_owns hc.1 (by omega) ?_
  by_cases hsame : d.entryInode o' = d.entryInode o
  · rw [hsame]
    omega
  · have hap := inodeAt_apart (d := d) hc.1.2.2 hu.2.2 hsame
    omega

/-- an entry that has no new content -/
theorem Disk.Inv.skip (h : d.Inv files done cur) (hno : ∀ data, ¬ d.Chosen files o data) :
    d.Inv files (fun q => done q ∨ q = o) cur := by
  have hdone : ∀ {q data}, (done q ∨ q = o) → d.Chosen files q data → done q := by
    rintro q data (hq | rfl) hc
    · exact hq
    · exact absurd hc (hno data)
  constructor
  · exact h.length
  · exact fun i hi => h.frame i fun q data hq hc => hi q data (.inl hq) hc
  · exact fun q data hq hc => h.fits q data (hdone hq hc) hc
  · exact fun q data hq hc => h.size q data (hdone hq hc) hc
  · exact fun q data hq hc => h.data q data (hdone hq hc) hc

/-- **An entry gets its new content.** -/
theorem Disk.Inv.write (h : d.Inv files done cur) (hl : d.Layout) (hc : d.Chosen files o data)
    (hle : data.length ≤ d.nrSects (d.entryInode o) * SECTOR) :
    d.Inv files (fun q => done q ∨ q = o)
      (writeAt (writeAt cur (d.dataAt (d.entryInode o)) data) (d.inodeAt (d.entryInode o) + 4)
        (le 4 data.length)) := by
  have hlen := h.length
  have hb := hl.inodeAt_bounds hc.1
  have htable := hl.table
  have hdata : data = [] ∨ d.dataAt (d.entryInode o) + data.length ≤ cur.length := by
    rcases Nat.eq_zero_or_pos data.length with hz | hpos
    · exact .inl (List.length_eq_zero_iff.mp hz)
    · have hext := hl.extent o hc.1 (nrSects_pos hle hpos)
      exact .inr (by omega)
  have hfirst : data.length = 0 ∨ d.tableEnd ≤ d.dataAt (d.entryInode o) := by
    rcases Nat.eq_zero_or_pos data.length with hz | hpos
    · exact .inl hz
    · exact .inr (hl.extent o hc.1 (nrSects_pos hle hpos)).1
  have hlen1 := length_writeAt hdata
  have hfour := length_le 4 data.length
  have hsize : le 4 data.length = [] ∨ d.inodeAt (d.entryInode o) + 4 + (le 4 data.length).length ≤
      (writeAt cur (d.dataAt (d.entryInode o)) data).length := by
    right
    unfold Disk.tableEnd at hb
    omega
  have hfits : ∀ q data', (done q ∨ q = o) → d.Chosen files q data' →
      data'.length ≤ d.nrSects (d.entryInode q) * SECTOR := by
    rintro q data' (hq | rfl) hq'
    · exact h.fits q data' hq hq'
    · obtain rfl := Option.some.inj (hc.2.symm.trans hq'.2)
      exact hle
  constructor
  · rw [length_writeAt hsize, hlen1, hlen]
  · intro i hi
    have hown := hi o data (.inr rfl) hc
    unfold Disk.Owns at hown
    rw [getElem?_writeAt hsize (by omega), getElem?_writeAt hdata (by omega)]
    exact h.frame i fun q data hq hc => hi q data (.inl hq) hc
  · exact hfits
  · intro q data' hq hc'
    by_cases hqo : q = o
    · subst hqo
      obtain rfl := Option.some.inj (hc.2.symm.trans hc'.2)
      rw [← hfour]
      exact slice_writeAt_self hsize
    · have hdone := hq.resolve_right hqo
      have hbq := hl.inodeAt_bounds hc'.1
      by_cases hsame : d.entryInode q = d.entryInode o
      · -- both names are of one inode without sectors
        have hz := hl.same_inode hc'.1 hc.1 hqo hsame
        have hfq := h.fits q data' hdone hc'
        rw [hz, Nat.zero_mul] at hfq
        rw [← hsame, hz, Nat.zero_mul] at hle
        rw [hsame, show data'.length = data.length by omega, ← hfour]
        exact slice_writeAt_self hsize
      · have hap := inodeAt_apart (d := d) hc'.1.2.2 hc.1.2.2 hsame
        rw [slice_writeAt_ne hsize (by omega)]
        rcases hfirst with hz | hbehind
        · obtain rfl := List.length_eq_zero_iff.mp hz
          exact h.size q data' hdone hc'
        · rw [slice_writeAt_ne hdata (by omega)]
          exact h.size q data' hdone hc'
  · intro q data' hq hc'
    have hfq := hfits q data' hq hc'
    rcases Nat.eq_zero_or_pos data'.length with hz | hpos
    · obtain rfl := List.length_eq_zero_iff.mp hz
      rfl
    · have hnr := nrSects_pos hfq hpos
      have hext := hl.extent q hc'.1 hnr
      unfold Disk.tableEnd at hb hfirst
      rw [slice_writeAt_ne hsize (by omega)]
      by_cases hqo : q = o
      · subst hqo
        obtain rfl := Option.some.inj (hc.2.symm.trans hc'.2)
        exact slice_writeAt_self hdata
      · have hdone := hq.resolve_right hqo
        have hapart : d.dataAt (d.entryInode q) + data'.length ≤ d.dataAt (d.entryInode o) ∨
            d.dataAt (d.entryInode o) + data.length ≤ d.dataAt (d.entryInode q) ∨
            data.length = 0 := by
          rcases Nat.eq_zero_or_pos data.length with hz | hpos'
          · exact .inr (.inr hz)
          · have hdis := hl.disjoint q o hc'.1 hc.1 hqo hnr (nrSects_pos hle hpos')
            omega
        rcases hapart with hap | hap | hz
        · rw [slice_writeAt_ne hdata (.inl hap)]
          exact h.data q data' hdone hc'
        · rw [slice_writeAt_ne hdata (.inr hap)]
          exact h.data q data' hdone hc'
        · obtain rfl := List.length_eq_zero_iff.mp hz
          exact h.data q data' hdone hc'

/-- the directory is whole -/
theorem Disk.Layout.length_directory (h : d.Layout) :
    d.directory.length = d.size (word d.sb 7) :=
  length_slice h.directory

theorem word_slice {m : Nat} (h : 4 * k + 4 ≤ m) :
    word (slice l p m) k = ofLe (slice l (p + 4 * k) 4) := by
  rw [word, slice_slice h]

/-- the record that the loop reads says where the file is -/
theorem Disk.Inv.word_record (h : d.Inv files done cur) (hl : d.Layout) (hu : d.used o) :
    word (slice cur (d.inodeAt (d.entryInode o)) 16) 2 = d.startSect (d.entryInode o) ∧
      word (slice cur (d.inodeAt (d.entryInode o)) 16) 3 = d.nrSects (d.entryInode o) := by
  have hrec := h.record hl hu
  rw [word_slice (by decide), word_slice (by decide), Disk.startSect, Disk.nrSects]
  exact ⟨congrArg ofLe (slice_congr hrec (by omega) (by omega)),
    congrArg ofLe (slice_congr hrec (by omega) (by omega))⟩

/-- what the loop returns when the entries at `offsets` are left -/
def Disk.LoopPost (d : Disk) (files : Contents) (done : Nat → Prop) (found : List (List Byte))
    (offsets : List Nat) : Py (List (List Byte)) × List Byte → Prop
  | (.ok found', bytes) => d.Inv files (fun q => done q ∨ q ∈ offsets) bytes ∧
      ∀ name, name ∈ found' ↔ name ∈ found ∨
        ∃ o ∈ offsets, ∃ data, d.Chosen files o data ∧ d.entryName o = name
  | (.error e, _) => d.Reason files e

/-- the entry at `o` comes first -/
theorem Disk.LoopPost.cons {found found' : List (List Byte)} {offsets : List Nat}
    {r : Py (List (List Byte)) × List Byte}
    (hfound : ∀ name, name ∈ found' ↔
      name ∈ found ∨ ∃ data, d.Chosen files o data ∧ d.entryName o = name)
    (h : d.LoopPost files (fun q => done q ∨ q = o) found' offsets r) :
    d.LoopPost files done found (o :: offsets) r := by
  obtain ⟨_ | found'', bytes⟩ := r
  · exact h
  · obtain ⟨hinv, hall⟩ := h
    have hdone : (fun q => (done q ∨ q = o) ∨ q ∈ offsets) = fun q => done q ∨ q ∈ o :: offsets := by
      funext q
      rw [List.mem_cons, or_assoc]
    rw [hdone] at hinv
    refine ⟨hinv, fun name => ?_⟩
    rw [hall, hfound, or_assoc, List.exists_mem_cons_iff]

/-- **The loop gives every chosen entry its content, or stops for a reason.** -/
theorem Disk.Layout.replaceLoop_spec (hl : d.Layout) (offsets : List Nat)
    (hoff : ∀ o ∈ offsets, o % 16 = 0 ∧ o < d.directory.length) (found : List (List Byte))
    (h : d.Inv files done cur) :
    d.LoopPost files done found offsets
      (replaceLoop d.base d.inodeStart 4 d.directory files offsets found cur) := by
  induction offsets generalizing done found cur with
  | nil =>
    refine ⟨?_, fun name => ?_⟩
    · simpa only [List.not_mem_nil, or_false] using h
    · constructor
      · exact .inl
      · rintro (hm | ⟨_, hm, _⟩)
        · exact hm
        · exact absurd hm List.not_mem_nil
  | cons o offsets ih =>
    obtain ⟨hmod, hlt⟩ := hoff o List.mem_cons_self
    have hrest : ∀ q ∈ offsets, q % 16 = 0 ∧ q < d.directory.length :=
      fun q hq => hoff q (List.mem_cons_of_mem o hq)
    have hdir := hl.length_directory
    have hent := hl.entries
    -- an entry without new content is passed over
    have hskip : (∀ data, ¬ d.Chosen files o data) → d.LoopPost files done found (o :: offsets)
        (replaceLoop d.base d.inodeStart 4 d.directory files offsets found cur) := by
      intro hno
      refine Disk.LoopPost.cons (fun name => ⟨.inl, ?_⟩) (ih hrest found (h.skip hno))
      rintro (hm | ⟨data, hc, _⟩)
      · exact hm
      · exact absurd hc (hno data)
    rw [replaceLoop, if_neg (by omega)]
    show d.LoopPost files done found (o :: offsets) (if d.entryInode o = 0 then _ else _)
    split
    · rename_i hz
      exact hskip fun data hc => hc.1.2.2 hz
    · rename_i hne
      have hu : d.used o := ⟨hlt, hmod, hne⟩
      show d.LoopPost files done found (o :: offsets) (match files.lookup (d.entryName o) with
        | none => _
        | some data => _)
      cases hlook : files.lookup (d.entryName o) with
      | none => exact hskip fun data hc => nomatch hlook.symm.trans hc.2
      | some data =>
        have hc : d.Chosen files o data := ⟨hu, hlook⟩
        have hb := hl.inodeAt_bounds hu
        have htable := hl.table
        have hlen := h.length
        have hrecord : (slice cur (d.inodeAt (d.entryInode o)) 16).length = 16 :=
          length_slice (by unfold Disk.tableEnd at hb; omega)
        obtain ⟨hstart, hnr⟩ := h.word_record hl hu
        show d.LoopPost files done found (o :: offsets)
          (if (slice cur (d.inodeAt (d.entryInode o)) 16).length ≠ 16 then _
          else if data.length > word (slice cur (d.inodeAt (d.entryInode o)) 16) 3 * SECTOR then _
          else if 2 ^ 32 ≤ data.length then _ else _)
        rw [if_neg (not_not_intro hrecord), hnr]
        split
        · rename_i hbig
          exact .tooLarge _ o data hc hbig
        · rename_i hfit
          have hle : data.length ≤ d.nrSects (d.entryInode o) * SECTOR := by omega
          rw [if_neg (Nat.not_le.mpr (hl.length_lt hu hle))]
          show d.LoopPost files done found (o :: offsets)
            (replaceLoop d.base d.inodeStart 4 d.directory files offsets (d.entryName o :: found)
              (writeAt (writeAt cur (d.base + word (slice cur (d.inodeAt (d.entryInode o)) 16) 2 *
                SECTOR) data) (d.inodeAt (d.entryInode o) + 4) (le 4 data.length)))
          rw [hstart]
          refine Disk.LoopPost.cons (fun name => ?_) (ih hrest _ (h.write hl hc hle))
          rw [List.mem_cons, or_comm, eq_comm]
          refine or_congr_right ⟨fun hname => ⟨data, hc, hname⟩, ?_⟩
          rintro ⟨_, _, hname⟩
          exact hname

/-! ## the whole call -/

/-- the superblock stays -/
theorem Disk.Inv.sb_eq (h : d.Inv files done cur) (hl : d.Layout) :
    ({ d with bytes := cur } : Disk).sb = d.sb := by
  show slice cur (d.base + SECTOR) 56 = slice d.bytes (d.base + SECTOR) 56
  refine h.slice_eq fun i h1 h2 o' data _ hc => ?_
  have hb := hl.inodeAt_bounds hc.1
  have hge := d.inodeStart_ge
  have hsector : SECTOR = 512 := rfl
  exact hl.not_owns hc.1 (by omega) (by omega)

theorem Disk.Inv.inodeAt_eq (h : d.Inv files done cur) (hl : d.Layout) (n : Nat) :
    ({ d with bytes := cur } : Disk).inodeAt n = d.inodeAt n := by
  rw [Disk.inodeAt, Disk.inodeStart, h.sb_eq hl]
  rfl

/-- a file that had its turn reads as its new content -/
theorem Disk.Inv.readFile_eq (h : d.Inv files done cur) (hl : d.Layout) (hdone : done o)
    (hc : d.Chosen files o data) :
    Disk.readFile { d with bytes := cur } (d.entryInode o) = data := by
  have hsize : ({ d with bytes := cur } : Disk).size (d.entryInode o) = data.length := by
    rw [Disk.size, h.inodeAt_eq hl, h.size o data hdone hc]
    exact ofLe_le_of_lt (hl.length_lt hc.1 (h.fits o data hdone hc))
  have hstart : ({ d with bytes := cur } : Disk).startSect (d.entryInode o) =
      d.startSect (d.entryInode o) := by
    rw [Disk.startSect, h.inodeAt_eq hl]
    exact congrArg ofLe (slice_congr (h.record hl hc.1) (Nat.le_refl _) (by omega))
  rw [Disk.readFile, hsize, Disk.dataAt, hstart]
  exact h.data o data hdone hc

/-- at first no entry has had its turn -/
theorem Disk.inv_start (d : Disk) (files : Contents) :
    d.Inv files (fun _ => False) d.bytes where
  length := rfl
  frame _ _ := rfl
  fits _ _ h := h.elim
  size _ _ h := h.elim
  data _ _ h := h.elim

/-- the offsets of `range(0, len(directory), 16)` -/
def Disk.offsets (d : Disk) : List Nat :=
  (List.range ((d.directory.length + 15) / 16)).map (16 * ·)

theorem Disk.Layout.mem_offsets (hl : d.Layout) :
    o ∈ d.offsets ↔ o % 16 = 0 ∧ o < d.directory.length := by
  have hdir := hl.length_directory
  have hent := hl.entries
  rw [Disk.offsets, List.mem_map]
  constructor
  · rintro ⟨k, hk, rfl⟩
    rw [List.mem_range] at hk
    omega
  · rintro ⟨hmod, hlt⟩
    exact ⟨o / 16, List.mem_range.mpr (by omega), by omega⟩

theorem exists_missing {found : List (List Byte)} (h : missing files found ≠ []) :
    ∃ name ∈ files.map Prod.fst, name ∉ found := by
  obtain ⟨name, hm⟩ := List.exists_mem_of_ne_nil _ h
  rw [missing, List.mem_filter, decide_eq_true_eq] at hm
  exact ⟨name, hm⟩

/-- a name of the mapping has a content -/
theorem exists_lookup {name : List Byte} (h : name ∈ files.map Prod.fst) :
    ∃ data, files.lookup name = some data := by
  obtain ⟨pair, hm, rfl⟩ := List.mem_map.mp h
  refine Option.isSome_iff_exists.mp (List.lookup_isSome_iff.mpr ⟨pair, hm, ?_⟩)
  exact beq_self_eq_true pair.1

/-- what a call may do: replace, or raise an exception for a reason -/
structure Disk.Outcome (d : Disk) (files : Contents) (r : Py Unit × List Byte) : Prop where
  replaced : r.1 = .ok () → d.Replaced files r.2
  reason : ∀ e, r.1 = .error e → d.Reason files e

theorem Disk.Outcome.of_ok {bytes : List Byte} (h : d.Replaced files bytes) :
    d.Outcome files (.ok (), bytes) :=
  ⟨fun _ => h, nofun⟩

theorem Disk.Outcome.of_error {e : PyError} {bytes : List Byte} (h : d.Reason files e) :
    d.Outcome files (.error e, bytes) := by
  refine ⟨nofun, ?_⟩
  rintro _ ⟨⟩
  exact h

/-- what follows the loop -/
theorem Disk.Layout.outcome_ok (hl : d.Layout) {found : List (List Byte)}
    (h : d.LoopPost files (fun _ => False) [] d.offsets (.ok found, cur)) :
    d.Outcome files (if missing files found = [] then (.ok (), cur)
      else (.error (.valueError (missingText files found)), cur)) := by
  obtain ⟨hinv, hfound⟩ := h
  have hoff : ∀ {o}, d.used o → o ∈ d.offsets :=
    fun hu => hl.mem_offsets.mpr ⟨hu.2.1, hu.1⟩
  split
  · rename_i hnone
    refine .of_ok ?_
    constructor
    · intro name hname
      have hmem : name ∈ found := by
        by_contra hno
        have hmiss : name ∈ missing files found :=
          List.mem_filter.mpr ⟨hname, decide_eq_true hno⟩
        rw [hnone] at hmiss
        exact List.not_mem_nil hmiss
      rcases (hfound name).mp hmem with hnil | ⟨o, _, data, hc, heq⟩
      · exact absurd hnil List.not_mem_nil
      · exact ⟨o, data, hc, heq⟩
    · exact fun o data hc => hinv.readFile_eq hl (.inr (hoff hc.1)) hc
    · exact hinv.length
    · exact fun i hi => hinv.frame i fun o data _ hc => hi o data hc
  · rename_i hsome
    obtain ⟨name, hname, hno⟩ := exists_missing hsome
    refine .of_error (.missing _ name hname fun o hu heq => hno ((hfound name).mpr (.inr ?_)))
    obtain ⟨data, hlook⟩ := exists_lookup hname
    refine ⟨o, hoff hu, data, ⟨hu, ?_⟩, heq⟩
    rw [heq]
    exact hlook

/-- **A call replaces the files that are named and nothing else, or it says why not.** -/
theorem replace_spec (d : Disk) (files : Contents) (h : d.WellFormed) :
    d.Outcome files (replaceBootFiles d.bytes d.rootSector files) := by
  have hsb : d.sb.length = 56 :=
    length_slice (by have := h.superblock; unfold SECTOR at *; omega)
  show d.Outcome files (if d.sb.length ≠ 56 then _ else if supported d.sb = false then _ else _)
  rw [if_neg (not_not_intro hsb)]
  split
  · rename_i hno
    exact .of_error (.unsupported _ hno)
  · rename_i hyes
    have hl := h.layout (by simpa using hyes)
    have hrecord : (slice d.bytes (d.inodeAt (word d.sb 7)) 16).length = 16 := length_slice hl.root
    have hloop := hl.replaceLoop_spec d.offsets (fun o ho => hl.mem_offsets.mp ho) []
      (d.inv_start files)
    have hdir : slice d.bytes
        (d.base + word (slice d.bytes (d.inodeAt (word d.sb 7)) 16) 2 * SECTOR)
        (word (slice d.bytes (d.inodeAt (word d.sb 7)) 16) 1) = d.directory := by
      rw [word_slice (by decide), word_slice (by decide)]
      rfl
    show d.Outcome files (if (slice d.bytes (d.inodeAt (word d.sb 7)) 16).length ≠ 16 then _ else
      let directory := slice d.bytes
        (d.base + word (slice d.bytes (d.inodeAt (word d.sb 7)) 16) 2 * SECTOR)
        (word (slice d.bytes (d.inodeAt (word d.sb 7)) 16) 1)
      let offsets := (List.range ((directory.length + 15) / 16)).map (16 * ·)
      match replaceLoop d.base d.inodeStart (word d.sb 9) directory files offsets [] d.bytes with
      | (.error e, disk) => (.error e, disk)
      | (.ok found, disk) => if missing files found = [] then (.ok (), disk)
        else (.error (.valueError (missingText files found)), disk))
    rw [if_neg (not_not_intro hrecord), hdir, hl.isizeOff]
    show d.Outcome files
      (match replaceLoop d.base d.inodeStart 4 d.directory files d.offsets [] d.bytes with
      | (.error e, disk) => (.error e, disk)
      | (.ok found, disk) => if missing files found = [] then (.ok (), disk)
        else (.error (.valueError (missingText files found)), disk))
    cases hrun : replaceLoop d.base d.inodeStart 4 d.directory files d.offsets [] d.bytes with
    | mk r bytes =>
      rw [hrun] at hloop
      cases r with
      | error e => exact .of_error hloop
      | ok found => exact hl.outcome_ok hloop

end

/-! ## a small image -/

def pad (l : List Byte) : List Byte := l ++ List.replicate (SECTOR - l.length) 0

def words (l : List Nat) : List Byte := l.flatMap (le 4)

def sampleSb : List Nat := [0x111, 2, 5, 0, 0, 1, 1, 1, 32, 4, 8, 16, 0, 4]

/-- a root directory with the file `a` -/
def sampleDisk : Disk where
  bytes := pad [] ++ pad (words sampleSb) ++
    pad (words [0x4000, 32, 3, 1, 0, 0, 0, 0, 0x8000, 2, 4, 1]) ++
    pad (words [1, 0x2E, 0, 0, 2, 0x61, 0, 0]) ++ pad [1, 2]
  rootSector := 0

/-- where its parts are -/
theorem sampleDisk_parts :
    sampleDisk.bytes.length = 2560 ∧ sampleDisk.sb = words sampleSb ∧
      sampleDisk.directory.length = 32 ∧
      (sampleDisk.entryInode 0 = 1 ∧ sampleDisk.entryInode 16 = 2) ∧
      (sampleDisk.inodeAt 1 = 1024 ∧ sampleDisk.size 1 = 32 ∧ sampleDisk.dataAt 1 = 1536 ∧
        sampleDisk.nrSects 1 = 1) ∧
      sampleDisk.dataAt 2 = 2048 ∧ sampleDisk.nrSects 2 = 1 := by
  decide +kernel

theorem sampleDisk_used {o : Nat} (hu : sampleDisk.used o) :
    o = 0 ∧ sampleDisk.entryInode o = 1 ∨ o = 16 ∧ sampleDisk.entryInode o = 2 := by
  obtain ⟨_, _, hdir, ⟨hdot, hfile⟩, _⟩ := sampleDisk_parts
  obtain ⟨hlt, hmod, _⟩ := hu
  have ho : o = 0 ∨ o = 16 := by omega
  rcases ho with rfl | rfl
  · exact .inl ⟨rfl, hdot⟩
  · exact .inr ⟨rfl, hfile⟩

theorem sampleDisk_layout : sampleDisk.Layout := by
  obtain ⟨hlen, hsb, _, _, ⟨hroot, hsize, hat, hnr⟩, hat', hnr'⟩ := sampleDisk_parts
  have hone : word sampleDisk.sb 7 = 1 := by
    rw [hsb]
    decide
  have hinodes : word sampleDisk.sb 1 = 2 := by
    rw [hsb]
    decide
  have htable : sampleDisk.inodeStart = 1024 := by
    rw [Disk.inodeAt] at hroot
    omega
  constructor
  · rw [hsb]
    decide
  · rw [hone, hroot, hlen]
    decide
  · rw [hone, hat, hsize, hlen]
    decide
  · rw [hone, hsize]
  · rw [htable, hinodes, hlen]
    decide
  · intro o hu
    rcases sampleDisk_used hu with ⟨_, hi⟩ | ⟨_, hi⟩
    all_goals omega
  · intro o hu _
    rw [htable, hinodes, hlen]
    rcases sampleDisk_used hu with ⟨_, hi⟩ | ⟨_, hi⟩
    · rw [hi, hat, hnr]
      decide
    · rw [hi, hat', hnr']
      decide
  · intro o o' hu hu' hne _ _
    have hsector : SECTOR = 512 := rfl
    rcases sampleDisk_used hu with ⟨rfl, hi⟩ | ⟨rfl, hi⟩
    · rcases sampleDisk_used hu' with ⟨rfl, hi'⟩ | ⟨rfl, hi'⟩
      · exact absurd rfl hne
      · rw [hi, hi', hat, hat', hnr]
        omega
    · rcases sampleDisk_used hu' with ⟨rfl, hi'⟩ | ⟨rfl, hi'⟩
      · rw [hi, hi', hat, hat', hnr]
        omega
      · exact absurd rfl hne

theorem sampleDisk_wellFormed : sampleDisk.WellFormed := by
  obtain ⟨hlen, _⟩ := sampleDisk_parts
  refine ⟨?_, fun _ => sampleDisk_layout⟩
  rw [hlen]
  decide

def sampleContents : Contents := [([0x61], [7, 8, 9])]

theorem replace_spec_sample :
    sampleDisk.Outcome sampleContents
      (replaceBootFiles sampleDisk.bytes sampleDisk.rootSector sampleContents) := by
  exact replace_spec sampleDisk sampleContents sampleDisk_wellFormed

example : (replaceBootFiles sampleDisk.bytes 0 sampleContents).1.isOk = true := by decide +kernel

end Noxis.Image
