import Noxis.Image.Floppy

/-!
# boot/boot.asm and boot/loader.asm: a file of the root directory

The boot sector and the loader look for a file on a floppy and load it with the same routines, in
real mode.  `none` stands for an exception, or for a loop that does not end.  The variables and the
stack of a program are kept apart from the memory.

* `readSector`      `ReadSector`, on a drive that may fail before it succeeds
* `searchRootDir`   the loops over the sectors, the entries and the characters of their names
* `getFATEntry`     `GetFATEntry`
* `goonLoading`     the loop over the chain of a file
-/

namespace Noxis.Boot

open Slice

def BPB_BytsPerSec : Nat := 512
def BPB_SecPerTrk : Nat := 18
def RootDirSectors : Nat := 14
def SectorNoOfRootDirectory : Nat := 19
def SectorNoOfFAT1 : Nat := 1
def DeltaSectorNo : Nat := 17

/-! ## the machine -/

/-- the address of an offset in a segment -/
def lin (seg off : Nat) : Nat := seg * 16 + off

/-- a word of the memory -/
def word (m : Buffer) (a : Nat) : Nat := (m a).toNat + 256 * (m (a + 1)).toNat

/-- a floppy in its drive, and for each request what the attempts that fail leave in the memory -/
structure Drive where
  disk : List Byte
  faults : Nat → List Buffer

def Drive.bytes (d : Drive) : Buffer := fun a => d.disk.getD a 0

/-- the memory, how many requests the drive has had, and what is on the screen -/
structure Pc where
  mem : Buffer
  requests : Nat
  shown : List String

def Pc.say (s : Pc) (t : String) : Pc := { s with shown := s.shown ++ [t] }

/-- the number of a sector from its place -/
def sectorAt (ch dh cl : Nat) : Nat := (ch * 2 + dh) * BPB_SecPerTrk + (cl - 1)

/-- what `int 13h` can read: sectors of one track, to a place that does not cross 64 KB -/
def Readable (size ch dh cl al a : Nat) : Prop :=
  1 ≤ cl ∧ cl - 1 + al ≤ BPB_SecPerTrk ∧ (sectorAt ch dh cl + al) * 512 ≤ size ∧
    a % 65536 + al * 512 ≤ 65536

instance (size ch dh cl al a : Nat) : Decidable (Readable size ch dh cl al a) :=
  inferInstanceAs (Decidable (_ ∧ _))

/-- `int 13h` with 2 in `ah`, when it succeeds -/
def int13 (d : Drive) (m : Buffer) (ch dh cl al a : Nat) : Option Buffer :=
  if Readable d.disk.length ch dh cl al a then
    some (physCopy m a d.bytes (sectorAt ch dh cl * 512) (al * 512))
  else none

/-! ## the code -/

/-- `.GoOnReading`, with the attempts that are still to fail -/
def goOnReading (d : Drive) (ch dh cl al a : Nat) : List Buffer → Buffer → Option Buffer
  | [], m => int13 d m ch dh cl al a
  | left :: faults, m => goOnReading d ch dh cl al a faults (physCopy m a left 0 (al * 512))

/-- `cl` sectors from sector `ax` on go to `es:bx`; the quotient of `div bl` must fit `al` -/
def readSector (d : Drive) (s : Pc) (ax cl es bx : Nat) : Option Pc :=
  let y := ax / BPB_SecPerTrk
  let z := ax % BPB_SecPerTrk
  if 256 ≤ y then none
  else
    (goOnReading d (y >>> 1) (y &&& 1) (z + 1) cl (lin es bx) (d.faults s.requests) s.mem).map
      fun m => { s with mem := m, requests := s.requests + 1 }

/-- `LABEL_CMP_FILENAME`, with the characters that are left: whether they are the same, and `di` -/
def cmpFilename (m : Buffer) (es : Nat) : List Byte → Nat → Bool × Nat
  | [], di => (true, di)
  | c :: name, di =>
    if c = m (lin es di) then cmpFilename m es name ((di + 1) % 2 ^ 16) else (false, di)

/-- the search in a sector, with `dx` entries left; `di` is behind the name that was found -/
def searchSector (m : Buffer) (es : Nat) (name : List Byte) : Nat → Nat → Option Nat
  | 0, _ => none
  | dx + 1, di =>
    match cmpFilename m es name di with
    | (true, di) => some di
    | (false, di) => searchSector m es name dx (((di &&& 0xFFE0) + 0x20) % 2 ^ 16)

/-- `LABEL_SEARCH_IN_ROOT_DIR_BEGIN`, with `wRootDirSizeForLoop` sectors left -/
def searchRootDir (d : Drive) (name : List Byte) (es bx : Nat) :
    Nat → Nat → Pc → Option (Pc × Option Nat)
  | 0, _, s => some (s, none)
  | n + 1, wSectorNo, s => do
    let s ← readSector d s wSectorNo 1 es bx
    match searchSector s.mem es name 0x10 bx with
    | some di => some (s, some di)
    | none => searchRootDir d name es bx n ((wSectorNo + 1) % 2 ^ 16) s

/-- the entry of cluster `ax`, with a buffer for two sectors of the table at `es:0` -/
def getFATEntry (d : Drive) (es : Nat) (s : Pc) (ax : Nat) : Option (Pc × Nat) :=
  let offset := ax * 3 / 2
  let bOdd := ax * 3 % 2
  if 2 ^ 16 ≤ offset then none
  else do
    let s ← readSector d s ((offset / BPB_BytsPerSec + SectorNoOfFAT1) % 2 ^ 16) 2 es 0
    let entry := word s.mem (lin es (offset % BPB_BytsPerSec))
    return (s, (if bOdd = 1 then entry >>> 4 else entry) &&& 0xFFF)

/-- the sector of a cluster -/
def firstSector (cluster : Nat) : Nat := (cluster + RootDirSectors + DeltaSectorNo) % 2 ^ 16

/-- `LABEL_GOON_LOADING_FILE`; `next` moves `es:bx` behind a sector -/
def goonLoading (d : Drive) (fat : Nat) (next : Nat → Nat → Nat × Nat) :
    Nat → Nat → Nat → Nat → Pc → Option Pc
  | 0, _, _, _, _ => none
  | fuel + 1, cluster, es, bx, s => do
    let s ← readSector d (s.say ".") (firstSector cluster) 1 es bx
    let (s, entry) ← getFATEntry d fat s cluster
    if entry = 0xFFF then some s
    else
      let (es, bx) := next es bx
      goonLoading d fat next fuel entry es bx s

/-! ## a request -/

section
variable {d : Drive} {s : Pc} {m : Buffer} {a n x es bx : Nat}

/-- a place that is written again -/
theorem physCopy_again {src left : Buffer} {o p : Nat} :
    physCopy (physCopy m a left p n) a src o n = physCopy m a src o n := by
  funext b
  unfold physCopy
  by_cases hb : a ≤ b ∧ b < a + n
  · rw [if_pos hb, if_pos hb]
  · rw [if_neg hb, if_neg hb, if_neg hb]

/-- the attempts that fail leave nothing behind -/
theorem goOnReading_eq (ch dh cl al : Nat) (faults : List Buffer) (m : Buffer)
    (h : Readable d.disk.length ch dh cl al a) :
    goOnReading d ch dh cl al a faults m =
      some (physCopy m a d.bytes (sectorAt ch dh cl * 512) (al * 512)) := by
  induction faults generalizing m with
  | nil => exact if_pos h
  | cons left faults ih =>
    show goOnReading d ch dh cl al a faults (physCopy m a left 0 (al * 512)) = _
    rw [ih, physCopy_again]

/-- cylinder, head and sector give the number back -/
theorem sectorAt_split (x : Nat) : sectorAt ((x / 18) >>> 1) (x / 18 &&& 1) (x % 18 + 1) = x := by
  unfold sectorAt BPB_SecPerTrk
  rw [Nat.shiftRight_eq_div_pow, Nat.and_one_is_mod]
  omega

/-- the state behind a request for `n` sectors from `x` on -/
def Pc.load (s : Pc) (d : Drive) (a x n : Nat) : Pc :=
  ⟨physCopy s.mem a d.bytes (x * 512) (n * 512), s.requests + 1, s.shown⟩

theorem Pc.load_mem {i : Nat} (hi : i < n * 512) :
    (s.load d a x n).mem (a + i) = d.bytes (x * 512 + i) := physCopy_mem hi

theorem Pc.load_not_mem {b : Nat} (hb : ¬ (a ≤ b ∧ b < a + n * 512)) :
    (s.load d a x n).mem b = s.mem b := physCopy_not_mem hb

/-- **A request is served, however often it fails before.** -/
theorem readSector_ok (hsize : d.disk.length = 1474560) (htrack : x % 18 + n ≤ 18)
    (hx : x + n ≤ 2880) (hplace : lin es bx % 65536 + n * 512 ≤ 65536) :
    readSector d s x n es bx = some (s.load d (lin es bx) x n) := by
  have hread : Readable d.disk.length ((x / 18) >>> 1) (x / 18 &&& 1) (x % 18 + 1) n (lin es bx) := by
    refine ⟨Nat.succ_pos _, by unfold BPB_SecPerTrk; omega, ?_, hplace⟩
    rw [sectorAt_split, hsize]
    omega
  unfold readSector BPB_SecPerTrk
  dsimp only
  rw [if_neg (by omega), goOnReading_eq _ _ _ _ _ _ hread, sectorAt_split]
  rfl

/-! ## names -/

/-- the characters of a name are at `a` -/
def Matches (m : Buffer) (a : Nat) (name : List Byte) : Prop :=
  ∀ i < name.length, name.getD i 0 = m (a + i)

theorem matches_cons {c : Byte} {name : List Byte} :
    Matches m a (c :: name) ↔ c = m a ∧ Matches m (a + 1) name := by
  constructor
  · intro h
    refine ⟨h 0 (Nat.succ_pos _), fun i hi => ?_⟩
    have hsucc := h (i + 1) (Nat.succ_lt_succ hi)
    rwa [← Nat.add_assoc, Nat.add_right_comm] at hsucc
  · rintro ⟨h0, hrest⟩ i hi
    cases i with
    | zero => exact h0
    | succ i =>
      have hone := hrest i (Nat.lt_of_succ_lt_succ hi)
      rwa [Nat.add_right_comm, Nat.add_assoc] at hone

/-- the comparison ends behind the name, or at a character that differs -/
theorem cmpFilename_spec (name : List Byte) (di : Nat) (h : di + name.length < 2 ^ 16) :
    (Matches m (lin es di) name ∧ cmpFilename m es name di = (true, di + name.length)) ∨
      ¬ Matches m (lin es di) name ∧
        ∃ k < name.length, cmpFilename m es name di = (false, di + k) := by
  induction name generalizing di with
  | nil => exact .inl ⟨fun i hi => absurd hi (Nat.not_lt_zero i), rfl⟩
  | cons c name ih =>
    rw [List.length_cons] at h
    have hnext : (di + 1) % 2 ^ 16 = di + 1 := Nat.mod_eq_of_lt (by omega)
    have hlin : lin es (di + 1) = lin es di + 1 := rfl
    rw [matches_cons, List.length_cons]
    by_cases hc : c = m (lin es di)
    · have hstep : cmpFilename m es (c :: name) di = cmpFilename m es name (di + 1) := by
        rw [cmpFilename, if_pos hc, hnext]
      rw [hstep]
      rcases ih (di + 1) (by omega) with ⟨hm, hcmp⟩ | ⟨hm, k, hk, hcmp⟩
      · refine .inl ⟨⟨hc, hm⟩, ?_⟩
        rw [hcmp, Nat.add_right_comm, Nat.add_assoc]
      · refine .inr ⟨fun hall => hm hall.2, k + 1, by omega, ?_⟩
        rw [hcmp, Nat.add_right_comm, Nat.add_assoc]
    · refine .inr ⟨fun hall => hc hall.1, 0, Nat.succ_pos _, ?_⟩
      rw [cmpFilename, if_neg hc]
      rfl

/-! ## masks -/

theorem and_shiftLeft (x y k : Nat) : x &&& y <<< k = (x >>> k &&& y) <<< k := by
  refine Nat.eq_of_testBit_eq fun j => ?_
  rw [Nat.testBit_and, Nat.testBit_shiftLeft, Nat.testBit_shiftLeft, Nat.testBit_and,
    Nat.testBit_shiftRight]
  by_cases hj : k ≤ j
  · rw [Nat.add_sub_cancel' hj]
    simp [hj]
  · simp [hj]

/-- the low bits of a word are cleared -/
theorem and_high {k j : Nat} (hx : x < 2 ^ (k + j)) :
    x &&& (2 ^ j - 1) <<< k = x / 2 ^ k * 2 ^ k := by
  rw [and_shiftLeft, Nat.and_two_pow_sub_one_eq_mod, Nat.shiftLeft_eq, Nat.shiftRight_eq_div_pow,
    Nat.mod_eq_of_lt]
  rw [Nat.div_lt_iff_lt_mul (Nat.two_pow_pos k), ← Nat.pow_add, Nat.add_comm]
  exact hx

/-- the start of an entry, from a place in its first half or in the whole of it -/
theorem and_FFF0 {k : Nat} (hbx : bx % 32 = 0) (hk : k < 16) (h : bx + 32 ≤ 2 ^ 16) :
    (bx + k) &&& 0xFFF0 = bx := by
  have hand := and_high (x := bx + k) (k := 4) (j := 12) (by omega)
  rw [show (2 ^ 12 - 1) <<< 4 = 0xFFF0 from rfl] at hand
  rw [hand]
  omega

theorem and_FFE0 {k : Nat} (hbx : bx % 32 = 0) (hk : k < 32) (h : bx + 32 ≤ 2 ^ 16) :
    (bx + k) &&& 0xFFE0 = bx := by
  have hand := and_high (x := bx + k) (k := 5) (j := 11) (by omega)
  rw [show (2 ^ 11 - 1) <<< 5 = 0xFFE0 from rfl] at hand
  rw [hand]
  omega

end

/-! ## the first one -/

/-- the first number from `lo` on and below `hi` that has a property, if there is one -/
def First (P : Nat → Prop) (lo hi : Nat) : Option Nat → Prop
  | none => ∀ i, lo ≤ i → i < hi → ¬ P i
  | some i => lo ≤ i ∧ i < hi ∧ P i ∧ ∀ k, lo ≤ k → k < i → ¬ P k

section
variable {P Q : Nat → Prop} {lo mid hi : Nat} {r : Option Nat}

theorem First.nothing (P : Nat → Prop) (n : Nat) : First P n n none :=
  fun _ h1 h2 => absurd (Nat.lt_of_lt_of_le h2 h1) (Nat.lt_irrefl _)

theorem First.here (h : P lo) (hlt : lo < hi) : First P lo hi (some lo) :=
  ⟨Nat.le_refl lo, hlt, h, fun _ h1 h2 => absurd (Nat.lt_of_lt_of_le h2 h1) (Nat.lt_irrefl _)⟩

/-- what is before has not got it -/
theorem First.skip (h : First P mid hi r) (hle : lo ≤ mid)
    (hno : ∀ i, lo ≤ i → i < mid → ¬ P i) : First P lo hi r := by
  have hbefore : ∀ j, lo ≤ j → (mid ≤ j → ¬ P j) → ¬ P j := by
    intro j h1 h2
    by_cases hm : mid ≤ j
    · exact h2 hm
    · exact hno j h1 (not_le.mp hm)
  cases r with
  | none =>
    intro i h1 h2
    exact hbefore i h1 fun hm => h i hm h2
  | some i =>
    obtain ⟨hm, hlt, hp, hrest⟩ := h
    exact ⟨hle.trans hm, hlt, hp, fun k h1 h2 => hbefore k h1 fun hk => hrest k hk h2⟩

/-- there is only one -/
theorem First.unique {q : Option Nat} (h : First P lo hi r) (hq : First P lo hi q) : r = q := by
  cases r with
  | none =>
    cases q with
    | none => rfl
    | some j => exact absurd hq.2.2.1 (h j hq.1 hq.2.1)
  | some i =>
    cases q with
    | none => exact absurd h.2.2.1 (hq i h.1 h.2.1)
    | some j =>
      have h1 : ¬ i < j := fun hlt => hq.2.2.2 i h.1 hlt h.2.2.1
      have h2 : ¬ j < i := fun hlt => h.2.2.2 j hq.1 hlt hq.2.2.1
      rw [show i = j by omega]

end

/-! ## the search -/

section
variable {d : Drive} {s : Pc} {m : Buffer} {name : List Byte} {es bx : Nat}

/-- **The first entry of a sector with the name is found.** -/
theorem searchSector_first (hname : name.length = 11) (hbx : bx % 32 = 0)
    (hfit : bx + 544 ≤ 2 ^ 16) (n j : Nat) (hn : j + n = 16) :
    ∃ r, First (fun i => Matches m (lin es (bx + 32 * i)) name) j 16 r ∧
      searchSector m es name n (bx + 32 * j) = r.map (bx + 32 * · + 11) := by
  induction n generalizing j with
  | zero =>
    obtain rfl : j = 16 := hn
    exact ⟨none, First.nothing _ 16, rfl⟩
  | succ n ih =>
    rw [searchSector]
    rcases @cmpFilename_spec m es name (bx + 32 * j) (by omega) with
      ⟨hm, hcmp⟩ | ⟨hm, k, hk, hcmp⟩
    · refine ⟨some j, First.here hm (by omega), ?_⟩
      rw [hcmp, hname]
      rfl
    · obtain ⟨r, hfirst, hrest⟩ := ih (j + 1) (by omega)
      refine ⟨r, hfirst.skip (Nat.le_succ j) fun i h1 h2 => ?_, ?_⟩
      · obtain rfl : i = j := by omega
        exact hm
      · have hand : (bx + 32 * j + k) &&& 0xFFE0 = bx + 32 * j :=
          and_FFE0 (by omega) (by omega) (by omega)
        have hnext : (bx + 32 * j + 0x20) % 2 ^ 16 = bx + 32 * (j + 1) := by omega
        rw [hcmp, ← hrest]
        show searchSector m es name n (((bx + 32 * j + k &&& 0xFFE0) + 0x20) % 2 ^ 16) = _
        rw [hand, hnext]

/-- where a search puts the sectors -/
structure Buffered (es bx : Nat) : Prop where
  aligned : bx % 32 = 0
  fits : bx + 544 ≤ 2 ^ 16
  place : lin es bx % 65536 + 512 ≤ 65536

/-- behind the search: the sector of the entry is in the buffer, and nothing else has changed -/
structure Searched (d : Drive) (a : Nat) (r : Option Nat) (s s' : Pc) : Prop where
  shown : s'.shown = s.shown
  frame : ∀ b, ¬ (a ≤ b ∧ b < a + 512) → s'.mem b = s.mem b
  sector : ∀ i, r = some i → ∀ k < 512,
    s'.mem (a + k) = d.bytes ((Image.rootStart + i / 16 * 512) + k)

/-- an entry in the buffer, and on the disk -/
theorem matches_load (q j : Nat) (hj : j < 16) (hname : name.length = 11) :
    Matches (s.load d (lin es bx) (19 + q) 1).mem (lin es (bx + 32 * j)) name ↔
      Matches d.bytes (Image.rootStart + (16 * q + j) * 32) name := by
  have hbyte : ∀ k < 11, (s.load d (lin es bx) (19 + q) 1).mem (lin es (bx + 32 * j) + k) =
      d.bytes (Image.rootStart + (16 * q + j) * 32 + k) := by
    intro k hk
    have hload := Pc.load_mem (s := s) (d := d) (a := lin es bx) (x := 19 + q) (n := 1)
      (i := 32 * j + k) (by omega)
    rw [show lin es (bx + 32 * j) + k = lin es bx + (32 * j + k) by unfold lin; omega, hload]
    congr 1
    unfold Image.rootStart
    omega
  constructor
  · intro h k hk
    rw [← hbyte k (by omega)]
    exact h k hk
  · intro h k hk
    rw [hbyte k (by omega)]
    exact h k hk

theorem searchRootDir_found {n w di : Nat} {s₁ : Pc} (hread : readSector d s w 1 es bx = some s₁)
    (h : searchSector s₁.mem es name 0x10 bx = some di) :
    searchRootDir d name es bx (n + 1) w s = some (s₁, some di) := by
  simp only [searchRootDir, hread, Option.bind_eq_bind, Option.bind_some, h]

theorem searchRootDir_next {n w : Nat} {s₁ : Pc} (hread : readSector d s w 1 es bx = some s₁)
    (h : searchSector s₁.mem es name 0x10 bx = none) :
    searchRootDir d name es bx (n + 1) w s =
      searchRootDir d name es bx n ((w + 1) % 2 ^ 16) s₁ := by
  simp only [searchRootDir, hread, Option.bind_eq_bind, Option.bind_some, h]

/-- **The first entry of the root directory with the name is found.** -/
theorem searchRootDir_first (hsize : d.disk.length = 1474560) (hname : name.length = 11)
    (hbuf : Buffered es bx) (n q : Nat) (hn : q + n = 14) (s : Pc) :
    ∃ r s', First (fun i => Matches d.bytes (Image.rootStart + i * 32) name) (16 * q) 224 r ∧
      searchRootDir d name es bx n (19 + q) s =
        some (s', r.map fun i => bx + 32 * (i % 16) + 11) ∧
      Searched d (lin es bx) r s s' := by
  induction n generalizing q s with
  | zero =>
    obtain rfl : q = 14 := hn
    refine ⟨none, s, First.nothing _ 224, rfl, rfl, fun _ _ => rfl, fun i hi => ?_⟩
    cases hi
  | succ n ih =>
    have hread : readSector d s (19 + q) 1 es bx = some (s.load d (lin es bx) (19 + q) 1) :=
      readSector_ok hsize (by omega) (by omega) hbuf.place
    obtain ⟨r, hfirst, hsearch⟩ :=
      @searchSector_first (s.load d (lin es bx) (19 + q) 1).mem name es bx hname hbuf.aligned
        hbuf.fits 16 0 rfl
    have hframe : ∀ b, ¬ (lin es bx ≤ b ∧ b < lin es bx + 512) →
        (s.load d (lin es bx) (19 + q) 1).mem b = s.mem b := by
      intro b hb
      exact Pc.load_not_mem hb
    cases r with
    | none =>
      obtain ⟨r, s', hrest, hrun, hdone⟩ := ih (q + 1) (by omega) (s.load d (lin es bx) (19 + q) 1)
      refine ⟨r, s', hrest.skip (by omega) fun i h1 h2 hm => ?_, ?_, hdone.shown, fun b hb => ?_,
        hdone.sector⟩
      · have hi : i - 16 * q < 16 := by omega
        refine hfirst (i - 16 * q) (Nat.zero_le _) hi ((matches_load q _ hi hname).mpr ?_)
        rwa [Nat.add_sub_cancel' h1]
      · rw [searchRootDir_next hread hsearch, Nat.mod_eq_of_lt (by omega), ← hrun]
        rfl
      · rw [hdone.frame b hb, hframe b hb]
    | some j =>
      obtain ⟨-, hj, hm, hbefore⟩ := hfirst
      have hrow : (16 * q + j) % 16 = j ∧ (16 * q + j) / 16 = q := by omega
      refine ⟨some (16 * q + j), s.load d (lin es bx) (19 + q) 1,
        ⟨by omega, by omega, (matches_load q j hj hname).mp hm, fun k h1 h2 hk => ?_⟩, ?_, rfl,
        hframe, fun i hi k hk => ?_⟩
      · refine hbefore (k - 16 * q) (Nat.zero_le _) (by omega)
          ((matches_load q _ (by omega) hname).mpr ?_)
        rwa [Nat.add_sub_cancel' h1]
      · rw [searchRootDir_found hread hsearch, Option.map_some, hrow.1]
      · obtain rfl := Option.some.inj hi
        rw [hrow.2, Pc.load_mem (by omega)]
        congr 1
        unfold Image.rootStart
        omega

end

/-! ## the chain -/

section
variable {d : Drive} {s : Pc} {fat base c n : Nat}

/-- a byte of the first table, on the disk -/
theorem byte_fatOf {disk : List Byte} {j : Nat} (hj : j < 4608) :
    Packed12.byte (Image.fatOf disk 0) j = (disk.getD (512 + j) 0).toNat := by
  have hfat : Image.fatOf disk 0 = slice disk 512 4608 := rfl
  unfold Packed12.byte
  rw [hfat, List.getD_eq_getElem?_getD, getElem?_slice, if_pos hj, List.getD_eq_getElem?_getD]

/-- **The loaders read an entry of the table as it was written.** -/
theorem getFATEntry_ok (hsize : d.disk.length = 1474560)
    (hfat : lin fat 0 % 65536 + 1024 ≤ 65536) {k : Nat} (hk : k < 2849) :
    getFATEntry d fat s k = some (s.load d (lin fat 0) (k * 3 / 2 / 512 + 1) 2,
      Packed12.get (Image.fatOf d.disk 0) k) := by
  have hx : k * 3 / 2 / 512 + 1 ≤ 9 := by omega
  have hread : readSector d s (k * 3 / 2 / 512 + 1) 2 fat 0 =
      some (s.load d (lin fat 0) (k * 3 / 2 / 512 + 1) 2) :=
    readSector_ok hsize (by omega) (by omega) hfat
  have hlen : k * 3 / 2 + 2 ≤ (Image.fatOf d.disk 0).length := by
    have hfull : (Image.fatOf d.disk 0).length = 4608 := length_slice (by rw [hsize]; decide)
    omega
  have hbyte : ∀ j < 2, ((s.load d (lin fat 0) (k * 3 / 2 / 512 + 1) 2).mem
      (lin fat (k * 3 / 2 % 512) + j)).toNat =
      Packed12.byte (Image.fatOf d.disk 0) (k * 3 / 2 + j) := by
    intro j hj
    have hload := Pc.load_mem (s := s) (d := d) (a := lin fat 0) (x := k * 3 / 2 / 512 + 1) (n := 2)
      (i := k * 3 / 2 % 512 + j) (by omega)
    rw [byte_fatOf (by omega),
      show lin fat (k * 3 / 2 % 512) + j = lin fat 0 + (k * 3 / 2 % 512 + j) by unfold lin; omega,
      hload]
    unfold Drive.bytes
    congr 2
    omega
  have h0 := Packed12.byte_lt (Image.fatOf d.disk 0) (k * 3 / 2)
  have h1 := Packed12.byte_lt (Image.fatOf d.disk 0) (k * 3 / 2 + 1)
  have hword : word (s.load d (lin fat 0) (k * 3 / 2 / 512 + 1) 2).mem (lin fat (k * 3 / 2 % 512)) =
      ofLe (slice (Image.fatOf d.disk 0) (k * 3 / 2) 2) := by
    rw [Packed12.ofLe_pair hlen]
    unfold word
    rw [hbyte 1 (by decide)]
    exact congrArg (· + _) (hbyte 0 (by decide))
  have hsector : (k * 3 / 2 / BPB_BytsPerSec + SectorNoOfFAT1) % 2 ^ 16 = k * 3 / 2 / 512 + 1 := by
    unfold BPB_BytsPerSec SectorNoOfFAT1
    omega
  have hmask : ∀ w, w &&& 0xFFF = w % 4096 := fun w => Nat.and_two_pow_sub_one_eq_mod w 12
  unfold getFATEntry
  dsimp only
  rw [if_neg (by omega), hsector, hread]
  show some (_, (if k * 3 % 2 = 1 then word _ _ >>> 4 else word _ _) &&& 0xFFF) = _
  unfold BPB_BytsPerSec
  rw [hword, hmask, Nat.shiftRight_eq_div_pow]
  unfold Packed12.get
  dsimp only
  rw [Packed12.ofLe_pair hlen]
  by_cases hodd : k % 2 = 1
  · rw [if_pos hodd, if_pos (by omega), Nat.mod_eq_of_lt (by omega)]
  · rw [if_neg hodd, if_neg (by omega)]

/-- where the sectors of a file go, one behind the other; `next` moves from one to the next -/
structure Course (next : Nat → Nat → Nat × Nat) (pos : Nat → Nat × Nat) (base n : Nat) : Prop where
  lin : ∀ i < n, lin (pos i).1 (pos i).2 = base + i * 512
  place : ∀ i < n, (base + i * 512) % 65536 + 512 ≤ 65536
  next : ∀ i, i + 1 < n → next (pos i).1 (pos i).2 = pos (i + 1)

/-- the clusters from the `i`th of a file on are loaded, with a buffer for the table at `buf` -/
structure Copied (d : Drive) (buf base c n i : Nat) (s s' : Pc) : Prop where
  data : ∀ b, i * 512 ≤ b → b < n * 512 →
    s'.mem (base + b) = d.bytes (Image.dataStart + (c - 2) * 512 + b)
  frame : ∀ b, ¬ (base + i * 512 ≤ b ∧ b < base + n * 512) →
    ¬ (buf ≤ b ∧ b < buf + 1024) → s'.mem b = s.mem b
  shown : s'.shown = s.shown ++ List.replicate (n - i) "."

variable {next : Nat → Nat → Nat × Nat} {pos : Nat → Nat × Nat}

/-- a round that reads the last sector -/
theorem goonLoading_last {fuel k es bx : Nat} {s₁ s₂ : Pc}
    (hread : readSector d (s.say ".") (firstSector k) 1 es bx = some s₁)
    (hnext : getFATEntry d fat s₁ k = some (s₂, 0xFFF)) :
    goonLoading d fat next (fuel + 1) k es bx s = some s₂ := by
  simp only [goonLoading, hread, Option.bind_eq_bind, Option.bind_some, hnext, ite_true]

/-- a round with another one behind it -/
theorem goonLoading_more {fuel k q es bx : Nat} {s₁ s₂ : Pc}
    (hread : readSector d (s.say ".") (firstSector k) 1 es bx = some s₁)
    (hnext : getFATEntry d fat s₁ k = some (s₂, q)) (hq : q ≠ 0xFFF) :
    goonLoading d fat next (fuel + 1) k es bx s =
      goonLoading d fat next fuel q (next es bx).1 (next es bx).2 s₂ := by
  simp only [goonLoading, hread, Option.bind_eq_bind, Option.bind_some, hnext, if_neg hq]

/-- one cluster, and then the others -/
theorem Copied.trans {buf i : Nat} {s₁ s₂ : Pc} (h : Copied d buf base c (i + 1) i s s₁)
    (h' : Copied d buf base c n (i + 1) s₁ s₂) (hi : i + 1 ≤ n)
    (hapart : buf + 1024 ≤ base ∨ base + n * 512 ≤ buf) : Copied d buf base c n i s s₂ := by
  refine ⟨fun b h1 h2 => ?_, fun b h1 h2 => ?_, ?_⟩
  · by_cases hb : (i + 1) * 512 ≤ b
    · exact h'.data b hb h2
    · have hnot : ¬ (base + (i + 1) * 512 ≤ base + b ∧ base + b < base + n * 512) := by omega
      have hfar : ¬ (buf ≤ base + b ∧ base + b < buf + 1024) := by omega
      rw [h'.frame (base + b) hnot hfar]
      exact h.data b h1 (not_le.mp hb)
  · rw [h'.frame b (fun hb => h1 ⟨by omega, hb.2⟩) h2,
      h.frame b (fun hb => h1 ⟨hb.1, by omega⟩) h2]
  · have hone : i + 1 - i = 1 := Nat.add_sub_cancel_left i 1
    have hall : n - i = 1 + (n - (i + 1)) := by omega
    rw [h'.shown, h.shown, hone, hall, List.append_assoc, List.replicate_add]

/-- **A round loads a sector and finds the next cluster.** -/
theorem round_ok (hsize : d.disk.length = 1474560) (hcourse : Course next pos base n)
    (hchain : ∀ k, c ≤ k → k < c + n →
      Packed12.get (Image.fatOf d.disk 0) k = Image.target (c + n) (k + 1))
    (h2 : 2 ≤ c) (hroom : c + n ≤ 2849) (hfat : lin fat 0 % 65536 + 1024 ≤ 65536)
    (hapart : lin fat 0 + 1024 ≤ base ∨ base + n * 512 ≤ lin fat 0) {i : Nat} (hi : i < n) (s : Pc) :
    ∃ s₁ s₂, readSector d (s.say ".") (firstSector (c + i)) 1 (pos i).1 (pos i).2 = some s₁ ∧
      getFATEntry d fat s₁ (c + i) = some (s₂, Image.target (c + n) (c + i + 1)) ∧
      Copied d (lin fat 0) base c (i + 1) i s s₂ := by
  have hsector : firstSector (c + i) = c + i + 31 := by
    unfold firstSector RootDirSectors DeltaSectorNo
    omega
  have hplace := hcourse.place i hi
  have hread : readSector d (s.say ".") (c + i + 31) 1 (pos i).1 (pos i).2 =
      some ((s.say ".").load d (base + i * 512) (c + i + 31) 1) := by
    rw [readSector_ok hsize (by omega) (by omega) (by rw [hcourse.lin i hi]; exact hplace),
      hcourse.lin i hi]
  have hnext := getFATEntry_ok (s := (s.say ".").load d (base + i * 512) (c + i + 31) 1) hsize hfat
    (k := c + i) (by omega)
  rw [hchain (c + i) (by omega) (by omega)] at hnext
  rw [hsector]
  refine ⟨_, _, hread, hnext, fun b h1 h3 => ?_, fun b h1 h3 => ?_, ?_⟩
  · have hb : b - i * 512 < 1 * 512 := by omega
    have hfar : ¬ (lin fat 0 ≤ base + b ∧ base + b < lin fat 0 + 2 * 512) := by omega
    have hload := Pc.load_mem (s := s.say ".") (d := d) (a := base + i * 512) (x := c + i + 31) hb
    rw [Nat.add_assoc base, Nat.add_sub_cancel' h1] at hload
    rw [Pc.load_not_mem hfar, hload]
    congr 1
    unfold Image.dataStart
    omega
  · have hfar : ¬ (base + i * 512 ≤ b ∧ b < base + i * 512 + 1 * 512) := by omega
    rw [Pc.load_not_mem h3, Pc.load_not_mem hfar]
    rfl
  · rw [show i + 1 - i = 1 from Nat.add_sub_cancel_left i 1]
    rfl

/-- **The chain of a file is loaded.** -/
theorem goonLoading_ok (hsize : d.disk.length = 1474560) (hcourse : Course next pos base n)
    (hchain : ∀ k, c ≤ k → k < c + n →
      Packed12.get (Image.fatOf d.disk 0) k = Image.target (c + n) (k + 1))
    (h2 : 2 ≤ c) (hroom : c + n ≤ 2849) (hfat : lin fat 0 % 65536 + 1024 ≤ 65536)
    (hapart : lin fat 0 + 1024 ≤ base ∨ base + n * 512 ≤ lin fat 0) (r i : Nat) (hr : i + r + 1 = n)
    (fuel : Nat) (hfuel : r < fuel) (s : Pc) :
    ∃ s', goonLoading d fat next fuel (c + i) (pos i).1 (pos i).2 s = some s' ∧
      Copied d (lin fat 0) base c n i s s' := by
  induction r generalizing i fuel s with
  | zero =>
    obtain ⟨fuel, rfl⟩ : ∃ f, fuel = f + 1 := ⟨fuel - 1, by omega⟩
    obtain ⟨s₁, s₂, hread, hnext, hcopied⟩ :=
      round_ok hsize hcourse hchain h2 hroom hfat hapart (show i < n by omega) s
    have hend : Image.target (c + n) (c + i + 1) = 0xFFF := if_neg (by omega)
    rw [hend] at hnext
    refine ⟨s₂, goonLoading_last hread hnext, ?_⟩
    rwa [show i + 1 = n by omega] at hcopied
  | succ r ih =>
    obtain ⟨fuel, rfl⟩ : ∃ f, fuel = f + 1 := ⟨fuel - 1, by omega⟩
    obtain ⟨s₁, s₂, hread, hnext, hcopied⟩ :=
      round_ok hsize hcourse hchain h2 hroom hfat hapart (show i < n by omega) s
    have hmore : Image.target (c + n) (c + i + 1) = c + i + 1 := if_pos (by omega)
    rw [hmore] at hnext
    obtain ⟨s', hrun, hrest⟩ := ih (i + 1) (by omega) fuel (by omega) s₂
    refine ⟨s', ?_, hcopied.trans hrest (by omega) hapart⟩
    rw [goonLoading_more hread hnext (by omega), hcourse.next i (by omega), ← hrun]
    rfl

end

end Noxis.Boot
