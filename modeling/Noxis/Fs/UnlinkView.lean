import Noxis.Fs.Removed

/-!
# 25-osfs11/fs/link.c: UNLINK on a file system in order

* `nrInSects_found`     the search of `do_unlink` for the entry, and the size it computes
* `clearEntry_view`     the entry is cleared
* `View.Ok.removeFile`  what is given back
* `View.Ok.doUnlink`    UNLINK of a regular file that nobody has open
-/

namespace Noxis.Fs
open Ipc (Pid)

section
variable {s : FsState} {d : Disk} {a i j k n v f : Nat} {q : Fin nrInode}

/-! ## maps -/

/-- a number is given back -/
theorem clearBit_view (hsb : s.sb.Ok) (hv : v < 4096) :
    ({ s with disk := putBit s.disk 2 false v } : FsState).view =
      { s.view with imap := Function.update s.view.imap v false } := by
  have hfirst := hsb.n1stSect_eq
  have hd : SameOutside s.disk (putBit s.disk 2 false v) 2 3 :=
    fun t ht => putBit_other (by omega)
  apply View.ext
  · rfl
  · rfl
  · rfl
  · funext w
    show (decide (w < 4096) && mapBit (putBit s.disk 2 false v) 2 w) =
      Function.update s.view.imap v false w
    rw [mapBit_putBit]
    by_cases hw : w = v
    · rw [hw, if_pos rfl, Bool.and_false, Function.update_self]
    · rw [if_neg hw, Function.update_of_ne hw]
      rfl
  · exact smap_same hd (.inl le_rfl)
  · exact inode_same hsb hd (.inl (Nat.le_add_right ..))
  · exact entry_same hd (.inl (by omega))
  · exact data_same hd (by omega)

/-- a run of sectors is given back -/
theorem clearBits_view (hsb : s.sb.Ok) (hk : f + n ≤ s.sb.nrSmapSects * 4096) :
    ({ s with disk := putBits s.disk 3 false f n } : FsState).view =
      { s.view with smap := giveRun s.view.smap f n } := by
  have hfirst := hsb.n1stSect_eq
  have hd : SameOutside s.disk (putBits s.disk 3 false f n) 3 (3 + s.sb.nrSmapSects) :=
    fun t ht => putBits_other fun i h1 h2 => by omega
  apply View.ext
  · rfl
  · rfl
  · rfl
  · exact imap_same hd
  · funext i
    show (decide (i < s.sb.nrSmapSects * 4096) && mapBit (putBits s.disk 3 false f n) 3 i) =
      giveRun s.view.smap f n i
    rw [mapBit_putBits]
    unfold giveRun
    by_cases hi : f ≤ i ∧ i < f + n
    · rw [if_pos hi, if_pos hi, Bool.and_false]
    · rw [if_neg hi, if_neg hi]
      rfl
  · exact inode_same hsb hd (.inl le_rfl)
  · exact entry_same hd (.inl (by omega))
  · exact data_same hd (by omega)

/-! ## the search for the entry -/

/-- how many of the first `m` entries are in use -/
def usedTo (d : Disk) (a m : Nat) : Nat := Nat.count (fun x => entNr d a x ≠ 0) m

theorem usedTo_succ (d : Disk) (a m : Nat) : DIR_ENTRY_SIZE * usedTo d a (m + 1) =
    if entNr d a m ≠ INVALID_INODE then DIR_ENTRY_SIZE * usedTo d a m + DIR_ENTRY_SIZE
    else DIR_ENTRY_SIZE * usedTo d a m := by
  unfold usedTo
  rw [Nat.count_succ, Nat.mul_add]
  by_cases h : entNr d a m ≠ 0
  · rw [if_pos h, Nat.mul_one]
    exact (if_pos h).symm
  · rw [if_neg h, Nat.mul_zero, Nat.add_zero]
    exact (if_neg h).symm

/-- one sector: the entry is found, or it is not there and all entries were looked at -/
theorem nrInSect_found (nr : Nat) (hi : a + i < 2 ^ 22) (c : Nat) (hj : j + c = 32)
    (hle : 32 * i + j ≤ k) (hnr : k < nr) (hv : entNr d a k = v) (hfirst : ∀ x < k, entNr d a x ≠ v) :
    nrInSect (rdSect d (a + i)) nr v c j (32 * i + j) (DIR_ENTRY_SIZE * usedTo d a (32 * i + j)) =
      if k < 32 * i + 32 then (k - 32 * i, k + 1, DIR_ENTRY_SIZE * usedTo d a k, true)
      else (32, 32 * i + 32, DIR_ENTRY_SIZE * usedTo d a (32 * i + 32), false) := by
  induction c generalizing j with
  | zero =>
    obtain rfl : j = 32 := hj
    rw [if_neg (by omega)]
    rfl
  | succ c ih =>
    rw [nrInSect, if_neg (by omega), entryNr_entry hi (by omega)]
    by_cases hk : k = 32 * i + j
    · have hjk : k - 32 * i = j := by omega
      have hat : entNr d a (32 * i + j) = v := hk ▸ hv
      rw [if_pos hat, if_pos (by omega), hjk, hk]
    · rw [if_neg (hfirst _ (by omega)), ← usedTo_succ]
      exact ih (j := j + 1) (by omega) (by omega)

/-- **The entry is found**, and the size is that of the entries in use before it. -/
theorem nrInSects_found (c : Nat) (hc : i + c = s.nrDirEntries / 32 + 1)
    (hb : s.root.startSect + s.nrDirEntries / 32 < 2 ^ 22) (hi : 32 * i ≤ k) (hk : k < s.nrDirEntries)
    (hv : s.nr k = v) (hfirst : ∀ x < k, s.nr x ≠ v) :
    nrInSects s v c i (32 * i) (DIR_ENTRY_SIZE * usedTo s.disk s.root.startSect (32 * i)) =
      some (k / 32, k % 32, k + 1, DIR_ENTRY_SIZE * usedTo s.disk s.root.startSect k) := by
  induction c generalizing i with
  | zero => omega
  | succ c ih =>
    have hsect := nrInSect_found (d := s.disk) (a := s.root.startSect) (i := i) (j := 0)
      s.nrDirEntries (by omega) 32 (Nat.zero_add 32) hi hk hv hfirst
    rw [Nat.add_zero] at hsect
    rw [nrInSects, show perSect = 32 from rfl, hsect]
    by_cases hin : k < 32 * i + 32
    · simp only [if_pos hin, if_true]
      have h1 : i = k / 32 := by omega
      have h2 : k - 32 * i = k % 32 := by omega
      rw [h2, h1]
    · simp only [if_neg hin, Bool.false_eq_true, if_false]
      rw [if_neg (by omega)]
      exact ih (i := i + 1) (by omega) (by omega)

/-! ## the entry is cleared -/

/-- a sector of the directory with entry `k` cleared -/
def withoutEntry (d : Disk) (a k : Nat) : Disk :=
  wrSect d (a + k / 32) fun o =>
    if k % 32 * DIR_ENTRY_SIZE ≤ o ∧ o < k % 32 * DIR_ENTRY_SIZE + DIR_ENTRY_SIZE then 0
    else rdSect d (a + k / 32) o

theorem withoutEntry_byte {o : Nat} (ha : a + k / 32 < 2 ^ 22) (ho : o < 16) :
    entByte (withoutEntry d a k) a j o = if j = k then 0 else entByte d a j o := by
  have hs := sectOf_of_lt ha
  unfold entByte withoutEntry
  by_cases hsect : j / 32 = k / 32
  · have hw := wrSect_lt (d := d) (i := a + k / 32) (b := fun o =>
      if k % 32 * DIR_ENTRY_SIZE ≤ o ∧ o < k % 32 * DIR_ENTRY_SIZE + DIR_ENTRY_SIZE then 0
      else rdSect d (a + k / 32) o) (show j % 32 * 16 + o < 512 by omega)
    rw [hs] at hw
    rw [hsect, hw, rdSect_lt (by omega), hs]
    unfold DIR_ENTRY_SIZE
    by_cases hjk : j = k
    · rw [if_pos hjk, if_pos (by omega)]
    · rw [if_neg hjk, if_neg (by omega)]
  · rw [wrSect_other (by rw [hs]; omega), if_neg fun he => hsect (congrArg (· / 32) he)]

/-- **An entry is cleared** on the disk. -/
theorem withoutEntry_view (hsb : s.sb.Ok) (hk : k < NR_DIR_ENTRIES) :
    ({ s with disk := withoutEntry s.disk s.sb.n1stSect k } : FsState).view =
      { s.view with entry := Function.update s.view.entry k blankEntry } := by
  have hfirst := hsb.n1stSect_eq
  have hfar := hsb.n1stSect_lt
  have hk' : k < 65536 := hk
  have ha : s.sb.n1stSect + k / 32 < 2 ^ 22 := by omega
  have hd : SameOutside s.disk (withoutEntry s.disk s.sb.n1stSect k) s.sb.n1stSect
      (s.sb.n1stSect + NR_DEFAULT_FILE_SECTS) := by
    intro t ht
    refine wrSect_other ?_
    rw [sectOf_of_lt ha]
    unfold NR_DEFAULT_FILE_SECTS at ht
    omega
  apply View.ext
  · rfl
  · rfl
  · rfl
  · exact imap_same (b := s.sb.n1stSect + NR_DEFAULT_FILE_SECTS) fun t ht => hd t (by omega)
  · exact smap_same hd (.inr (by omega))
  · exact inode_same hsb hd (.inr le_rfl)
  · funext j
    have hbyte : ∀ o < 16, entByte (withoutEntry s.disk s.sb.n1stSect k) s.sb.n1stSect j o =
        if j = k then 0 else entByte s.disk s.sb.n1stSect j o := fun o ho => withoutEntry_byte ha ho
    show (if j < NR_DIR_ENTRIES then
      (entNr (withoutEntry s.disk s.sb.n1stSect k) s.sb.n1stSect j,
        entKey (withoutEntry s.disk s.sb.n1stSect k) s.sb.n1stSect j) else blankEntry) =
      Function.update s.view.entry k blankEntry j
    by_cases hj : j = k
    · subst hj
      have hzero : get32 (entByte (withoutEntry s.disk s.sb.n1stSect j) s.sb.n1stSect j) 0 =
          get32 (fun _ => 0) 0 :=
        get32_congr fun i hi => (hbyte (0 + i) (by omega)).trans (if_pos rfl)
      rw [if_pos hk, Function.update_self]
      refine Prod.ext hzero ?_
      funext i
      exact (hbyte (4 + i) (by omega)).trans (if_pos rfl)
    · have hnr : entNr (withoutEntry s.disk s.sb.n1stSect k) s.sb.n1stSect j =
          entNr s.disk s.sb.n1stSect j :=
        get32_congr fun i hi => (hbyte (0 + i) (by omega)).trans (if_neg hj)
      have hkey : entKey (withoutEntry s.disk s.sb.n1stSect k) s.sb.n1stSect j =
          entKey s.disk s.sb.n1stSect j := by
        funext i
        exact (hbyte (4 + i) (by omega)).trans (if_neg hj)
      rw [Function.update_of_ne hj, hnr, hkey]
      rfl
  · exact data_same hd le_rfl

/-- what `clearEntry` relies on -/
structure Clearable (s : FsState) (k v : Nat) : Prop extends Root s where
  fits : s.root.Fits
  lt : k < s.nrDirEntries
  nr : s.view.nr k = v
  first : ∀ x < k, s.view.nr x ≠ v

theorem Clearable.view_nr (h : Clearable s k v) {x : Nat} (hx : x ≤ k) : s.view.nr x = s.nr x := by
  have hsize := h.size
  have hlt := h.lt
  have hlen : s.nrDirEntries = s.root.size / 16 := rfl
  have hin : x < NR_DIR_ENTRIES := by
    unfold NR_DIR_ENTRIES
    omega
  show (if x < NR_DIR_ENTRIES then (entNr s.disk s.sb.n1stSect x, _) else blankEntry).1 = s.nr x
  rw [if_pos hin, FsState.nr, h.start]

/-- the entries before `k` that are in use, as the search counts them -/
theorem Clearable.used (h : Clearable s k v) :
    usedTo s.disk s.root.startSect k = s.view.used k := by
  have hnr : ∀ x < k, (entNr s.disk s.root.startSect x ≠ 0 ↔ s.view.nr x ≠ 0) := by
    intro x hx
    rw [h.view_nr hx.le]
    rfl
  exact le_antisymm (Nat.count_mono_left fun x hx => (hnr x hx).mp)
    (Nat.count_mono_left fun x hx => (hnr x hx).mpr)

/-- **`do_unlink` clears the entry**, and when it was the last one the directory shrinks. -/
theorem clearEntry_view (h : Clearable s k v) : ∃ s', clearEntry s v = some s' ∧
    s'.view = { s.view with
      table := Function.update s.inodeTable s.rootInode
        { s.root with size := s.view.sizeWithout k }
      inode :=
        if k + 1 = s.view.len then
          Function.update s.view.inode ROOT_INODE
            { s.root with size := s.view.sizeWithout k, cnt := 0 }
        else s.view.inode
      entry := Function.update s.view.entry k blankEntry } ∧
    s'.filp = s.filp ∧ s'.fDescTable = s.fDescTable := by
  have hfar := h.sb.n1stSect_lt
  have hsize := h.size
  have hlt := h.lt
  have hlen : s.nrDirEntries = s.root.size / 16 := rfl
  have hkin : k < NR_DIR_ENTRIES := by
    unfold NR_DIR_ENTRIES
    omega
  have hstart := h.start
  have hblks : (s.root.size + SECTOR_SIZE) / SECTOR_SIZE = s.nrDirEntries / 32 + 1 := by
    unfold SECTOR_SIZE
    omega
  have hfound : nrInSects s v (s.nrDirEntries / 32 + 1) 0 0 0 =
      some (k / 32, k % 32, k + 1, DIR_ENTRY_SIZE * s.view.used k) := by
    rw [← h.used]
    exact nrInSects_found (s := s) (i := 0) (s.nrDirEntries / 32 + 1) (Nat.zero_add _) (by omega)
      (Nat.zero_le k) hlt ((h.view_nr le_rfl).symm.trans h.nr)
      fun x hx he => h.first x hx ((h.view_nr hx.le).trans he)
  have hview := withoutEntry_view h.sb hkin
  set s₁ : FsState := { s with disk := withoutEntry s.disk s.sb.n1stSect k } with hs1
  have hclear : clearEntry s v = some (if k + 1 = s.nrDirEntries then
      syncInode (s₁.setInode s.rootInode fun p => { p with size := DIR_ENTRY_SIZE * s.view.used k })
        s.rootInode else s₁) := by
    unfold clearEntry
    rw [hblks, hfound, Option.map_some, hs1, ← hstart]
    rfl
  refine ⟨_, hclear, ?_⟩
  by_cases hlast : k + 1 = s.nrDirEntries
  · have hlast' : k + 1 = s.view.len := hlast
    have hsz : s.view.sizeWithout k = DIR_ENTRY_SIZE * s.view.used k := if_pos hlast'
    have hat : (s₁.setInode s.rootInode fun p =>
        { p with size := DIR_ENTRY_SIZE * s.view.used k }).inodeTable s.rootInode =
        { s.root with size := DIR_ENTRY_SIZE * s.view.used k } := Function.update_self ..
    have hnum : ((s₁.setInode s.rootInode fun p =>
        { p with size := DIR_ENTRY_SIZE * s.view.used k }).inodeTable s.rootInode).num =
        ROOT_INODE := by
      rw [hat]
      exact h.num
    have hused := s.view.used_le k
    have hsmall : DIR_ENTRY_SIZE * s.view.used k < 2 ^ 32 := by
      unfold DIR_ENTRY_SIZE
      unfold NR_DIR_ENTRIES at hkin
      omega
    have hsync := syncInode_view (s := s₁.setInode s.rootInode fun p =>
      { p with size := DIR_ENTRY_SIZE * s.view.used k }) (q := s.rootInode) h.sb
      (by rw [hnum]; exact ⟨by decide, by decide⟩)
      (by rw [hat]; exact ⟨h.fits.mode, hsmall, h.fits.startSect, h.fits.nrSects⟩)
    rw [hnum, hat, setInode_view, hview] at hsync
    rw [if_pos hlast, if_pos hlast', hsz]
    exact ⟨hsync, rfl, rfl⟩
  · have hlast' : ¬ k + 1 = s.view.len := hlast
    have hsz : s.view.sizeWithout k = s.root.size := if_neg hlast'
    have htab : Function.update s.inodeTable s.rootInode { s.root with size := s.root.size } =
        s.inodeTable := Function.update_eq_self s.rootInode s.inodeTable
    rw [if_neg hlast, if_neg hlast', hsz, htab, hview]
    exact ⟨rfl, rfl, rfl⟩

/-! ## the file is removed -/

/-- **The maps**: the number and the sectors of a file are given back. -/
theorem giveMaps {y : Inode} (hsb : s.sb.Ok) (hv : v < 4096) (hset : s.view.imap v = true)
    (hp : s.view.Placed y) (hn : 1 ≤ y.nrSects) :
    ∃ s₂ s₃, freeImapBit s v = some s₂ ∧ freeSmapBits s₂ y.startSect y.nrSects = some s₃ ∧
      s₃.view = { s.view with
        imap := Function.update s.view.imap v false
        smap := giveRun s.view.smap (s.view.firstBit y) y.nrSects } ∧ OnDisk s s₃ := by
  have hfirst := hsb.n1stSect_eq
  have hsmap := hsb.smap
  have hbound := hsb.sects
  have hstart : s.sb.n1stSect + NR_DEFAULT_FILE_SECTS ≤ y.startSect := hp.first
  have hlast : y.startSect + y.nrSects ≤ s.sb.nrSects := hp.last
  have hf : s.view.firstBit y = y.startSect + 1 - s.sb.n1stSect := rfl
  generalize s.view.firstBit y = f at hf ⊢
  have hfy : f + s.sb.n1stSect - 1 = y.startSect := by omega
  have hfn : f + y.nrSects ≤ s.sb.nrSmapSects * 4096 := by omega
  -- the bits are set
  have hbit : mapBit s.disk 2 v = true := by
    have hb : (decide (v < 4096) && mapBit s.disk 2 v) = true := hset
    rw [Bool.and_eq_true] at hb
    exact hb.2
  have hbits : ∀ i, f ≤ i → i < f + y.nrSects → mapBit s.disk 3 i = true := by
    intro i h1 h2
    have hm := hp.marked (i + s.sb.n1stSect - 1) (by omega) (by omega)
    have hi : i + s.sb.n1stSect - 1 + 1 - s.view.sb.n1stSect = i := by
      show i + s.sb.n1stSect - 1 + 1 - s.sb.n1stSect = i
      omega
    rw [hi] at hm
    have hb : (decide (i < s.sb.nrSmapSects * 4096) && mapBit s.disk 3 i) = true := hm
    rw [Bool.and_eq_true] at hb
    exact hb.2
  have hview2 := clearBit_view hsb hv
  set s₂ : FsState := { s with disk := putBit s.disk 2 false v } with hs2
  have hbase : s₂.sb.smapBase = 3 := hsb.smapBase_eq
  have hrun := freeSmapBits_bits (s := s₂) (n := y.nrSects) (f := f)
    (by show 1 ≤ s.sb.n1stSect; omega) (by rw [hbase]; show 3 + s.sb.nrSmapSects < _; omega) hfn hn
    fun i h1 h2 => by
      rw [hbase, hs2, mapBit_congr (putBit_other (by omega))]
      exact hbits i h1 h2
  have hview3 := clearBits_view (s := s₂) (f := f) (n := y.nrSects) hsb hfn
  rw [hbase, show f + s₂.sb.n1stSect - 1 = y.startSect from hfy] at hrun
  rw [hview2] at hview3
  exact ⟨s₂, _, freeImapBit_bit hv hbit, hrun, hview3, rfl⟩

theorem View.Ok.rootFits (h : s.view.Ok) : s.root.Fits := by
  have hfar : s.sb.n1stSect + 2048 < 2 ^ 22 := h.sb.n1stSect_lt
  obtain ⟨h1, h2⟩ := h.dir_size
  have hstart : s.root.startSect = s.sb.n1stSect := h.start
  have hmode : s.root.mode = I_DIRECTORY := h.mode
  have hsects : s.root.nrSects = NR_DEFAULT_FILE_SECTS := h.sects
  refine ⟨?_, by omega, by omega, ?_⟩
  · rw [hmode]
    decide
  · rw [hsects]
    decide

/-- **What UNLINK leaves**, with the inode in slot `q`. -/
theorem View.Ok.removeFile {s₁ : FsState} (h : s.view.Ok) (hk : s.view.Live k)
    (hreg : (s.view.file k).mode = I_REGULAR) (hn : 1 ≤ (s.view.file k).nrSects)
    (hq : q ≠ s.rootInode) (hs1 : s₁ = s.setInode q fun _ => { s.view.file k with cnt := 1 }) :
    ∃ s', removeFile s₁ (s.view.nr k) q = some s' ∧ s'.view = s.view.removed q k ∧
      s'.filp = s.filp ∧ s'.fDescTable = s.fDescTable := by
  obtain ⟨hv1, hv2, hvset⟩ := h.live_num hk
  have hp := h.placed k hk hreg
  have hnum : (s.view.file k).num = s.view.nr k := by
    rw [h.file_disk hk]
    rfl
  set v := s.view.nr k with hvdef
  set y := s.view.file k with hydef
  have hview1 : s₁.view = { s.view with
      table := Function.update s.view.table q { y with cnt := 1 } } := by
    rw [hs1]
    rfl
  have hat1 : s₁.inodeTable q = { y with cnt := 1 } := by
    rw [hs1]
    exact Function.update_self ..
  have hrest1 : s₁.filp = s.filp ∧ s₁.fDescTable = s.fDescTable := by
    rw [hs1]
    exact ⟨rfl, rfl⟩
  have hok1 : s₁.sb.Ok := by
    rw [hs1]
    exact h.sb
  obtain ⟨s₂, s₃, himap, hsmap, hview3, hdisk⟩ := giveMaps (s := s₁) (y := y) hok1 hv2
    (by rw [hview1]; exact hvset) (by rw [hview1]; exact hp.mono rfl fun _ hi => hi) hn
  obtain ⟨hsb3, htab3, hfilp3, hdesc3⟩ := hdisk.rest
  rw [hview1] at hview3
  -- the inode
  set t : FsState := s₃.setInode q fun x =>
    { x with mode := 0, size := 0, startSect := 0, nrSects := 0 } with ht
  have hatt : t.inodeTable q = { Inode.gone v with cnt := 1 } := by
    rw [ht, setInode_self, htab3, hat1, ← hnum]
    rfl
  have hsync := syncInode_view (s := t) (q := q) (hsb3 ▸ hok1) (by rw [hatt]; exact ⟨hv1, hv2.le⟩)
    (by rw [hatt]; exact ⟨Nat.two_pow_pos 32, Nat.two_pow_pos 32, Nat.two_pow_pos 32,
      Nat.two_pow_pos 32⟩)
  set s₄ := syncInode t q with hs4
  have hat4 : s₄.inodeTable q = { Inode.gone v with cnt := 1 } := hatt
  have hput : putInode s₄ q = some (s₄.setInode q fun x => { x with cnt := x.cnt - 1 }) := by
    refine if_pos ?_
    rw [hat4]
    exact Nat.one_pos
  set s₅ := s₄.setInode q fun x => { x with cnt := x.cnt - 1 } with hs5
  have htab5 : s₅.inodeTable = Function.update s.inodeTable q (.gone v) := by
    have h3 : s₃.inodeTable = Function.update s.inodeTable q { y with cnt := 1 } := by
      rw [htab3, hs1]
      rfl
    have h4 : s₄.inodeTable = Function.update s₃.inodeTable q { Inode.gone v with cnt := 1 } := by
      rw [← hatt, ht, setInode_self]
      rfl
    show Function.update s₄.inodeTable q _ = _
    rw [hat4, h4, h3, Function.update_idem, Function.update_idem]
    rfl
  have hview5 : s₅.view = { s.view with
      table := Function.update s.view.table q (.gone v)
      imap := Function.update s.view.imap v false
      smap := giveRun s.view.smap (s.view.firstBit y) y.nrSects
      inode := Function.update s.view.inode v (.gone v) } := by
    have h5 : s₅.view = { s₄.view with table := s₅.inodeTable } := rfl
    have ht3 : t.view = { s₃.view with table := t.inodeTable } := rfl
    rw [h5, hsync, ht3, hview3, htab5, hatt]
    rfl
  -- the entry
  have hdir5 : s₅.root = s.root := by
    have hroot : s₅.view.root = s.view.root := by rw [hview5]
    change s₅.rootInode = s.rootInode at hroot
    unfold FsState.root
    rw [htab5, hroot, Function.update_of_ne hq.symm]
  have hentry5 : s₅.view.entry = s.view.entry := by rw [hview5]
  have hnr5 : ∀ x, s₅.view.nr x = s.view.nr x := fun x => congrArg (fun e => (e x).1) hentry5
  have hsb5 : s₅.sb = s.sb := by
    have hsb : s₅.view.sb = s.view.sb := by rw [hview5]
    exact hsb
  have hclear : Clearable s₅ k v := by
    have hroot5 : s₅.root.startSect = s₅.sb.n1stSect := by
      rw [hdir5, hsb5]
      exact h.start
    refine ⟨⟨hsb5 ▸ h.sb, hroot5, by rw [hdir5]; exact h.num, by rw [hdir5]; exact h.size.2⟩, ?_, ?_,
      hnr5 k, fun x hx he => ?_⟩
    · rw [hdir5]
      exact h.rootFits
    · show k < s₅.root.size / DIR_ENTRY_SIZE
      rw [hdir5]
      exact hk.1
    · rw [hnr5] at he
      have hlive : s.view.Live x := ⟨hx.trans hk.1, by rw [he]; exact hk.2⟩
      exact absurd (h.nums x k hlive hk he) hx.ne
  obtain ⟨s', hs', hview', hfilp', hdesc'⟩ := clearEntry_view hclear
  have hsize : s₅.view.sizeWithout k = s.view.sizeWithout k :=
    View.sizeWithout_congr hdir5 hentry5
  refine ⟨s', ?_, ?_, ?_, ?_⟩
  · unfold Fs.removeFile
    simp only [Option.bind_eq_bind, himap, Option.bind_some, hat1, hsmap]
    rw [← ht, ← hs4, hput, Option.bind_some]
    exact hs'
  · have hlen5 : s₅.view.len = s.view.len := congrArg (fun y : Inode => y.size / DIR_ENTRY_SIZE) hdir5
    have hroot5 : s₅.rootInode = s.rootInode := by
      have hroot : s₅.view.root = s.view.root := by rw [hview5]
      exact hroot
    rw [hview', hsize, hdir5, hroot5, htab5, hlen5, hview5]
    rfl
  · exact hfilp'.trans (hfilp3.trans hrest1.1)
  · exact hdesc'.trans (hdesc3.trans hrest1.2)

/-- **UNLINK** of a regular file that is not in memory. -/
theorem View.Ok.doUnlink {g : Name} (h : s.view.Ok) (hk : s.view.Named g k)
    (hreg : (s.view.file k).mode = I_REGULAR) (hn : 1 ≤ (s.view.file k).nrSects)
    (hidle : ∀ r, (s.inodeTable r).cnt ≠ 0 → (s.inodeTable r).num ≠ s.view.nr k)
    (hfree : ∃ r, (s.inodeTable r).cnt = 0) (rooted : Bool) :
    ∃ q s', doUnlink s (g.path rooted) = some (true, s') ∧ q ≠ s.rootInode ∧
      (s.inodeTable q).cnt = 0 ∧ s'.view = s.view.removed q k ∧ s'.filp = s.filp ∧
      s'.fDescTable = s.fDescTable := by
  obtain ⟨h1, h2, h3⟩ := h.live_num hk.live
  have hroot : s.view.nr k ≠ ROOT_INODE := fun he => hidle s.rootInode h.held (h.num.trans he.symm)
  obtain ⟨q, hget, hmem, hslot⟩ := h.getInode ⟨h1, h2⟩ hroot h3 hfree
  have hcnt : (s.inodeTable q).cnt = 0 := by
    by_contra hc
    exact hidle q hc (hslot hc)
  rw [hcnt] at hget
  have hsearch := h.search_live hk.live hk.name rooted
  set s₁ := s.setInode q fun _ => s.inodeAs (s.view.nr k) (0 + 1) with hs1
  have hat : s₁.inodeTable q = { s.view.file k with cnt := 1 } := Function.update_self ..
  obtain ⟨s', hremove, hview, hrest⟩ := h.removeFile hk.live hreg hn hmem.other hs1
  refine ⟨q, s', ?_, hmem.other, hcnt, hview, hrest⟩
  have hslash : g.path rooted ≠ [slash] := by
    intro he
    have hstrip := g.stripPath_path rooted
    rw [he] at hstrip
    exact g.pos (Option.some.inj hstrip).symm
  have hmode : ¬ (s₁.inodeTable q).mode ≠ I_REGULAR := by
    rw [hat]
    exact not_not.mpr hreg
  have hone : ¬ 1 < (s₁.inodeTable q).cnt := by
    rw [hat]
    exact Nat.lt_irrefl 1
  unfold Fs.doUnlink
  rw [if_neg (Nat.not_le.mpr (g.path_length rooted))]
  simp only [g.cString_path, hsearch, g.stripPath_path]
  rw [if_neg hslash, if_neg (show ¬ s.view.nr k = INVALID_INODE from hk.live.2), hget,
    Option.bind_some]
  simp only
  rw [if_neg hmode, if_neg hone, hremove, Option.map_some]

end

end Noxis.Fs
