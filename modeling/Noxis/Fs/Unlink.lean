import Noxis.Fs.FirstFit
import Noxis.Fs.Give
import Noxis.Fs.NewEntry

/-!
# 25-osfs11/fs: a file that is made and unlinked

* `createFileOf`, `openNew`   OPEN of a name that is not there, with any number of sectors
* `Made`                      what there is of the file afterwards
* `unlink_restores`           once it is closed, UNLINK gives back what was taken from the maps
-/

namespace Noxis.Fs
open Ipc (Pid)

/-! ## files of any number of sectors -/

/-- `new_inode` with `nrSects` for `i_nr_sects` -/
def newInodeOf (nrSects : Nat) (s : FsState) (inodeNr startSect : Nat) :
    Option (Fin nrInode × FsState) :=
  if inodeNr = 0 then none
  else
    (getInode s inodeNr).map fun (q, s) =>
      (q, syncInode (s.setInode q fun _ => ⟨I_REGULAR, 0, startSect, nrSects, 1, inodeNr⟩) q)

/-- `create_file` -/
def createFileOf (nrSects : Nat) (s : FsState) (path : List Byte) :
    Option (Option (Fin nrInode) × FsState) :=
  match stripPath path with
  | none => some (none, s)
  | some filename => do
    let (inodeNr, s) ← allocImapBit s
    let (freeSectNr, s) ← allocSmapBit s nrSects
    let (q, s) ← newInodeOf nrSects s inodeNr freeSectNr
    some (some q, newDirEntry s (s.inodeTable q).num filename)

theorem createFileOf_default : createFileOf NR_DEFAULT_FILE_SECTS = createFile := rfl

/-- `do_open`, when it creates the file -/
def openNew (nrSects : Nat) (s : FsState) (pcaller : Pid) (path : List Byte) (flags : Nat) :
    Option (Option (Fin nrFiles) × FsState) :=
  match freeFilp s pcaller, freeFDesc s with
  | some fd, some x =>
    match createFileOf nrSects s (cString path) with
    | some (some q, s) => finishOpen s pcaller fd x flags q
    | _ => none
  | _, _ => none

/-- OPEN makes files of NR_DEFAULT_FILE_SECTS -/
theorem doOpen_new {s : FsState} {p : Pid} {path : List Byte} {flags : Nat}
    (hlen : path.length < MAX_PATH) (hc : Creates s path flags) :
    doOpen s p path flags = openNew NR_DEFAULT_FILE_SECTS s p path flags := by
  obtain ⟨h0, hflags, hstrip⟩ := hc
  unfold doOpen openNew
  rw [if_neg (Nat.not_le.mpr hlen), createFileOf_default]
  simp only [h0, if_true, if_pos hflags]
  cases freeFilp s p with
  | none => rfl
  | some fd =>
    cases freeFDesc s with
    | none => rfl
    | some x =>
      simp only
      cases hcr : createFile s (cString path) with
      | none => rfl
      | some r =>
        obtain ⟨o, s₁⟩ := r
        cases o with
        | none => exact absurd (createFile_none hcr).1 hstrip
        | some q => rfl

/-! ## the state -/

/-- **what the requests rely on**: the root directory is there and has room, its free entries are
zero, and the numbers of the inodes in memory are taken.  Nothing else is said of the maps. -/
structure Tidy (s : FsState) : Prop extends Mounted s where
  sects : s.root.nrSects = NR_DEFAULT_FILE_SECTS
  room : s.nrDirEntries < NR_DIR_ENTRIES
  blank : ∀ k ≤ s.nrDirEntries, (k < s.nrDirEntries → s.nr k = 0) → s.key k = fun _ => 0
  taken : ∀ q, (s.inodeTable q).cnt ≠ 0 → mapBit s.disk 2 (s.inodeTable q).num = true

/-- inode `v`, with `n` sectors from bit `f` of the map on -/
def madeInode (s : FsState) (n f v c : Nat) : Inode :=
  ⟨I_REGULAR, 0, f + s.sb.n1stSect - 1, n, c, v⟩

/-- **a file that was made**: its number and its sectors are marked and nothing else is, its inode is
on the disk, and its entry is the first one with the name; `c` is the count of its slot -/
structure Made (s : FsState) (n f v k c : Nat) (filename : List Byte) (q : Fin nrInode)
    (t : FsState) : Prop where
  sb : t.sb = s.sb
  rootInode : t.rootInode = s.rootInode
  maps : ∀ i < 3 + s.sb.nrSmapSects, t.disk i = putBits (putBit s.disk 2 true v) 3 true f n i
  inode : inodeOnDisk t v = madeInode s n f v 0
  slot : t.inodeTable q = madeInode s n f v c
  other : q ≠ s.rootInode
  root : t.root = { s.root with size := sizeWith s.root k }
  rest : ∀ r, r ≠ q → r ≠ s.rootInode → t.inodeTable r = s.inodeTable r
  entry : k ≤ s.nrDirEntries ∧ t.nr k = v ∧ t.key k = pad filename
  before : ∀ j < k, t.key j = s.key j

/-- a number and a run of sectors that are free -/
structure Vacant (s : FsState) (n f v : Nat) : Prop where
  num : 1 ≤ v ∧ v < 4096 ∧ mapBit s.disk 2 v = false
  clear : ∀ i, f ≤ i → i < f + n → mapBit s.disk 3 i = false
  room : f + n ≤ s.sb.nrSmapSects * 4096

section
variable {s s' t : FsState} {n f v k c a : Nat} {filename path : List Byte} {q r : Fin nrInode}
  {p : Pid} {fd : Fin nrFiles} {x : Fin nrFileDesc} {flags : Nat}

theorem mapBit_congr {d d' : Disk} {base i : Nat} (h : d' (base + i / 4096) = d (base + i / 4096)) :
    mapBit d' base i = mapBit d base i := by
  unfold mapBit
  rw [h]

/-- an inode is written in one sector of the inode array -/
theorem syncInode_sect (hsb : s.sb.Ok) (hn : (s.inodeTable q).num ≤ 4096) {i : Nat}
    (hi : i < 3 + s.sb.nrSmapSects ∨ s.sb.n1stSect ≤ i) : (syncInode s q).disk i = s.disk i := by
  have hlo := hsb.le_inodeBlk (s.inodeTable q).num
  have hhi := hsb.inodeBlk_lt hn
  have hfar := hsb.n1stSect_lt
  refine wrSect_other ?_
  rw [sectOf_of_lt (by omega)]
  omega

/-- an inode is not in the data area -/
theorem inodeOnDisk_data (hsb : s.sb.Ok) (hv : v ≤ 4096) {d : Disk}
    (hd : ∀ i < s.sb.n1stSect, d i = s.disk i) :
    inodeOnDisk { s with disk := d } v = inodeOnDisk s v := by
  have hhi := hsb.inodeBlk_lt hv
  have hfar := hsb.n1stSect_lt
  refine inodeOnDisk_congr rfl fun o _ _ => ?_
  rw [sectOf_of_lt (by omega)]
  exact congrFun (hd _ hhi) o

/-! ## get_inode -/

theorem cached_none (h : ∀ r, (s.inodeTable r).cnt ≠ 0 → (s.inodeTable r).num ≠ v) :
    cached s v = none := by
  refine List.find?_eq_none.mpr fun r _ hr => ?_
  rw [Bool.and_eq_true, decide_eq_true_iff, decide_eq_true_iff] at hr
  exact h r hr.1 hr.2

/-- an inode that is not in memory goes to a free slot -/
theorem getInode_free (hc : cached s v = none) (h : getInode s v = some (q, s')) :
    (s.inodeTable q).cnt = 0 ∧
      s' = s.setInode q fun _ => { inodeOnDisk s v with cnt := 1 } := by
  unfold getInode at h
  rw [hc] at h
  cases hf : freeEntry s with
  | none =>
    simp only [hf] at h
    cases h
  | some r =>
    simp only [hf] at h
    cases h
    have hfound := List.find?_some hf
    exact ⟨of_decide_eq_true hfound, rfl⟩

theorem getInode_some (hc : cached s v = none) (hfree : (s.inodeTable r).cnt = 0) :
    ∃ q, getInode s v = some (q, s.setInode q fun _ => { inodeOnDisk s v with cnt := 1 }) ∧
      (s.inodeTable q).cnt = 0 := by
  unfold getInode
  rw [hc]
  cases hf : freeEntry s with
  | none => exact absurd (decide_eq_true hfree) (List.find?_eq_none.mp hf r (List.mem_finRange r))
  | some q =>
    have hfound := List.find?_some hf
    exact ⟨q, rfl, of_decide_eq_true hfound⟩

/-- `new_inode`, for a number that is not in memory -/
theorem newInodeOf_eq (hc : cached s v = none) (h : newInodeOf n s v a = some (q, t)) :
    v ≠ 0 ∧ (s.inodeTable q).cnt = 0 ∧
      t = syncInode (s.setInode q fun _ => ⟨I_REGULAR, 0, a, n, 1, v⟩) q := by
  unfold newInodeOf at h
  by_cases h0 : v = 0
  · rw [if_pos h0] at h
    cases h
  · rw [if_neg h0] at h
    obtain ⟨⟨r, s₁⟩, hg, h⟩ := Option.map_eq_some_iff.mp h
    obtain ⟨hfree, hs⟩ := getInode_free hc hg
    simp only [Prod.mk.injEq] at h
    obtain ⟨rfl, rfl⟩ := h
    refine ⟨h0, hfree, ?_⟩
    rw [hs]
    unfold FsState.setInode
    simp only [Function.update_idem]

/-! ## create_file -/

/-- what is taken from the maps -/
theorem takeMaps (hsb : s.sb.Ok) (hn : 1 ≤ n) {s₁ s₂ : FsState} (h1 : allocImapBit s = some (v, s₁))
    (h2 : allocSmapBit s₁ n = some (a, s₂)) (h0 : v ≠ 0) :
    ∃ f, Vacant s n f v ∧ a = f + s.sb.n1stSect - 1 ∧
      s₂ = { s with disk := putBits (putBit s.disk 2 true v) 3 true f n } := by
  have himap : s.sb.nrImapSects ≠ 0 := by
    rw [hsb.imap]
    exact Nat.one_ne_zero
  have hsects := hsb.sects
  have hsmap := hsb.smap
  have hfirst := hsb.n1stSect_eq
  rcases clear_or_full (mapBit s.disk 2) 4096 with ⟨u, hu, hclear⟩ | hfull
  · obtain ⟨num, hnum, hbit, halloc⟩ := allocImapBit_bit himap hu hclear
    rw [h1, Option.some.injEq, Prod.mk.injEq] at halloc
    obtain ⟨rfl, rfl⟩ := halloc
    have hbase : ({ s with disk := putBit s.disk 2 true v } : FsState).sb.smapBase = 3 :=
      hsb.smapBase_eq
    obtain ⟨f, hrun, hroom, ha, hs⟩ := allocSmapBit_run (by show 2 ≤ s.sb.n1stSect; omega) (by omega)
      (by rw [hbase]; show 3 + s.sb.nrSmapSects ≤ _; omega) h2
    rw [hbase] at hrun hs
    refine ⟨f, ⟨⟨by omega, hnum, hbit⟩, fun i hi1 hi2 => ?_, hroom⟩, ha, hs⟩
    have hi : mapBit (putBit s.disk 2 true v) 3 i = false := hrun.clear i hi1 hi2
    rwa [mapBit_congr (putBit_other (by omega))] at hi
  · rw [allocImapBit_full himap hfull, Option.some.injEq, Prod.mk.injEq] at h1
    exact absurd h1.1.symm h0

/-- no slot has a number that is free -/
theorem Tidy.cached (h : Tidy s) (hv : mapBit s.disk 2 v = false) : cached s v = none := by
  refine cached_none fun r hr he => ?_
  have hset := h.taken r hr
  rw [he, hv] at hset
  cases hset

/-- the directory, after steps in front of the data area -/
theorem dir_congr (hdata : SameData s t) (hstart : s.root.startSect = s.sb.n1stSect)
    (hroot : t.root.startSect = s.root.startSect) (k : Nat) : t.nr k = s.nr k ∧ t.key k = s.key k := by
  have hbyte : entByte t.disk t.root.startSect k = entByte s.disk s.root.startSect k := by
    funext o
    unfold entByte
    rw [hroot, hdata _ (by omega)]
  constructor
  · unfold FsState.nr entNr
    rw [hbyte]
  · unfold FsState.key entKey
    rw [hbyte]

/-- where a new entry goes -/
theorem Tidy.place (h : Tidy s) (hdata : SameData s t) (hroot : t.root = s.root) :
    ∃ k ≤ s.nrDirEntries, t.key k = (fun _ => 0) ∧
      freeInSects t (t.nrDirEntries / 32 + 1) 0 0 = (k / 32, k % 32, decide (k < t.nrDirEntries)) := by
  have hfar := h.sb.n1stSect_lt
  have hroom : s.nrDirEntries < 65536 := h.room
  have hstart := h.start
  have hlen : t.nrDirEntries = s.nrDirEntries := congrArg (fun y => y.size / DIR_ENTRY_SIZE) hroot
  have hsame := dir_congr hdata hstart (congrArg Inode.startSect hroot)
  obtain ⟨k, hk, -, hfree, hr⟩ := freeInSects_spec (s := t) (i := 0) (t.nrDirEntries / 32 + 1)
    (Nat.zero_add _) (by rw [hroot]; omega) (Nat.zero_le _) fun x hx => absurd hx (by omega)
  rw [hlen] at hk hfree
  refine ⟨k, hk, ?_, hr⟩
  rw [(hsame k).2]
  refine h.blank k hk fun hlt => ?_
  rw [← (hsame k).1]
  exact hfree hlt

/-- an entry is written in the data area -/
theorem withEntry_sect {d : Disk} (ha : a + k / 32 < 2 ^ 22) {i : Nat} (hi : i < a) :
    withEntry d a k v filename i = d i := by
  refine wrSect_other ?_
  rw [sectOf_of_lt ha]
  omega

/-- **the inode is made**, and there is no entry for it yet -/
structure Numbered (s : FsState) (n f v : Nat) (q : Fin nrInode) (t : FsState) : Prop where
  sb : t.sb = s.sb
  rootInode : t.rootInode = s.rootInode
  maps : ∀ i < 3 + s.sb.nrSmapSects, t.disk i = putBits (putBit s.disk 2 true v) 3 true f n i
  data : SameData s t
  table : t.inodeTable = Function.update s.inodeTable q (madeInode s n f v 1)
  inode : inodeOnDisk t v = madeInode s n f v 0
  other : q ≠ s.rootInode

theorem Numbered.root (h : Numbered s n f v q t) : t.root = s.root := by
  unfold FsState.root
  rw [h.table, h.rootInode, Function.update_of_ne h.other.symm]

theorem Vacant.fits (hsb : s.sb.Ok) (h : Vacant s n f v) : (madeInode s n f v c).Fits := by
  have hroom := h.room
  have hsects := hsb.sects
  have hsmap := hsb.smap
  have hfirst := hsb.n1stSect_eq
  refine ⟨?_, Nat.two_pow_pos 32, ?_, ?_⟩
  · show I_REGULAR < 2 ^ 32
    decide
  · show f + s.sb.n1stSect - 1 < 2 ^ 32
    omega
  · show n < 2 ^ 32
    omega

/-- **`new_inode`**, once a number and a run of sectors are taken -/
theorem Tidy.numbered {s₂ : FsState} (h : Tidy s) (hvac : Vacant s n f v)
    (hs : s₂ = { s with disk := putBits (putBit s.disk 2 true v) 3 true f n })
    (hnew : newInodeOf n s₂ v (f + s.sb.n1stSect - 1) = some (q, t)) : Numbered s n f v q t := by
  have hsb := h.sb
  have hfirst := hsb.n1stSect_eq
  have hv := hvac.num
  have hroom := hvac.room
  have hcached : Fs.cached s₂ v = none := by
    rw [hs]
    exact h.cached hv.2.2
  obtain ⟨-, hfree, ht⟩ := newInodeOf_eq hcached hnew
  have htab₂ : s₂.inodeTable = s.inodeTable := by rw [hs]
  have hsb₂ : s₂.sb = s.sb := by rw [hs]
  have hroot₂ : s₂.rootInode = s.rootInode := by rw [hs]
  have hdisk₂ : s₂.disk = putBits (putBit s.disk 2 true v) 3 true f n := by rw [hs]
  rw [htab₂] at hfree
  have hat : (s₂.setInode q fun _ => madeInode s n f v 1).inodeTable q = madeInode s n f v 1 :=
    setInode_self ..
  have hsect : ∀ i, i < 3 + s.sb.nrSmapSects ∨ s.sb.n1stSect ≤ i → t.disk i = s₂.disk i := by
    intro i hi
    rw [ht]
    refine syncInode_sect (s := s₂.setInode q fun _ => madeInode s n f v 1) (hsb₂ ▸ hsb) ?_ ?_
    · rw [hat]
      exact hv.2.1.le
    · rw [show (s₂.setInode q fun _ => madeInode s n f v 1).sb = s.sb from hsb₂]
      exact hi
  refine ⟨?_, ?_, fun i hi => ?_, fun i hi => ?_, ?_, ?_, ?_⟩
  · rw [ht]
    exact hsb₂
  · rw [ht]
    exact hroot₂
  · rw [hsect i (.inl hi), hdisk₂]
  · rw [hsect i (.inr hi), hdisk₂, putBits_other (fun j h1 h2 => by omega), putBit_other (by omega)]
  · rw [ht, ← htab₂]
    rfl
  · have hself := syncInode_self (s₂.setInode q fun _ => madeInode s n f v 1) q (by
      rw [hat]
      exact hvac.fits hsb)
    rw [hat] at hself
    rw [ht]
    exact hself
  · rintro rfl
    exact h.held hfree

/-- **`new_dir_entry`** -/
theorem Numbered.entered (filename : List Byte) (h : Tidy s) (hvac : Vacant s n f v)
    (ht : Numbered s n f v q t) :
    ∃ k, Made s n f v k 1 filename q (newDirEntry t v filename) := by
  have hsb := h.sb
  have hfirst := hsb.n1stSect_eq
  have hfar := hsb.n1stSect_lt
  have hroom : s.nrDirEntries < 65536 := h.room
  have hv := hvac.num
  obtain ⟨k, hk, hzero, hr⟩ := h.place ht.data ht.root
  have hstart : t.root.startSect = t.sb.n1stSect := by
    rw [ht.root, ht.sb]
    exact h.start
  have ha : s.sb.n1stSect + k / 32 < 2 ^ 22 := by omega
  set d := withEntry t.disk t.sb.n1stSect k v filename with hput
  have hd : d = withEntry t.disk s.sb.n1stSect k v filename := by rw [hput, ht.sb]
  set u : FsState := ({ t with disk := d } : FsState).setInode t.rootInode
    fun p => { p with size := sizeWith t.root k } with hu
  have hnew : newDirEntry t v filename = syncInode u t.rootInode := newDirEntry_eq hstart hr
  have husb : u.sb = s.sb := ht.sb
  have hutab : u.inodeTable = Function.update t.inodeTable t.rootInode
      { s.root with size := sizeWith s.root k } := by
    show Function.update t.inodeTable t.rootInode { t.root with size := sizeWith t.root k } = _
    rw [ht.root]
  have huroot : u.inodeTable t.rootInode = { s.root with size := sizeWith s.root k } := by
    rw [hutab, Function.update_self]
  have hunum : (u.inodeTable t.rootInode).num = ROOT_INODE := by
    rw [huroot]
    exact h.num
  have hone : v ≠ ROOT_INODE := by
    rintro rfl
    have hset := h.taken s.rootInode h.held
    rw [show (s.inodeTable s.rootInode).num = ROOT_INODE from h.num, hv.2.2] at hset
    cases hset
  have hsync : ∀ i, i < 3 + s.sb.nrSmapSects ∨ s.sb.n1stSect ≤ i →
      (newDirEntry t v filename).disk i = d i := by
    intro i hi
    rw [hnew]
    refine syncInode_sect (s := u) (husb ▸ hsb) ?_ (husb ▸ hi)
    rw [hunum]
    decide
  have hroot : (newDirEntry t v filename).root = { s.root with size := sizeWith s.root k } := by
    rw [hnew]
    exact huroot
  -- the entries
  have hentry : ∀ j, (newDirEntry t v filename).nr j = entNr d s.sb.n1stSect j ∧
      (newDirEntry t v filename).key j = entKey d s.sb.n1stSect j := by
    intro j
    have hbyte : entByte (newDirEntry t v filename).disk (newDirEntry t v filename).root.startSect j =
        entByte d s.sb.n1stSect j := by
      funext o
      unfold entByte
      rw [hroot, show ({ s.root with size := sizeWith s.root k } : Inode).startSect =
        s.sb.n1stSect from h.start, hsync _ (.inr (Nat.le_add_right ..))]
    constructor
    · unfold FsState.nr entNr
      rw [hbyte]
    · unfold FsState.key entKey
      rw [hbyte]
  have hkey : ∀ j, t.key j = entKey t.disk s.sb.n1stSect j := by
    intro j
    unfold FsState.key
    rw [hstart, ht.sb]
  refine ⟨k, ⟨?_, ?_, fun i hi => ?_, ?_, ?_, ht.other, hroot, fun r h1 h2 => ?_, ⟨hk, ?_, ?_⟩,
    fun j hj => ?_⟩⟩
  · rw [hnew]
    exact husb
  · rw [hnew]
    exact ht.rootInode
  · rw [hsync i (.inl hi), hd, withEntry_sect ha (by omega)]
    exact ht.maps i hi
  · have hother := syncInode_other (s := u) (q := t.rootInode) (v := v) (husb ▸ hsb)
      (by rw [hunum]; exact ⟨by decide, by decide⟩) ⟨hv.1, hv.2.1.le⟩ (by rw [hunum]; exact hone)
    rw [hnew, hother]
    have hfront := inodeOnDisk_data (s := t) (v := v) (d := d) (ht.sb ▸ hsb) hv.2.1.le fun i hi =>
      hd ▸ withEntry_sect ha (ht.sb ▸ hi)
    exact hfront.trans ht.inode
  · rw [hnew]
    show u.inodeTable q = _
    rw [hutab, Function.update_of_ne (ht.rootInode ▸ ht.other), ht.table, Function.update_self]
  · rw [hnew]
    show u.inodeTable r = _
    rw [hutab, Function.update_of_ne (ht.rootInode ▸ h2), ht.table, Function.update_of_ne h1]
  · rw [(hentry k).1, hd, withEntry_nr ha (by omega)]
  · rw [(hentry k).2, hd]
    refine withEntry_key ha ?_
    rw [← hkey]
    exact hzero
  · rw [(hentry j).2, hd, withEntry_before ha hj, ← hkey]
    exact (dir_congr ht.data h.start (congrArg Inode.startSect ht.root) j).2

/-- **`create_file` has made a file.** -/
theorem Tidy.made (h : Tidy s) (hn : 1 ≤ n) (hp : stripPath path = some filename)
    (hc : createFileOf n s path = some (some q, t)) :
    ∃ f v k, Vacant s n f v ∧ Made s n f v k 1 filename q t := by
  unfold createFileOf at hc
  rw [hp] at hc
  obtain ⟨⟨v, s₁⟩, h1, hc⟩ := Option.bind_eq_some_iff.mp hc
  obtain ⟨⟨a, s₂⟩, h2, hc⟩ := Option.bind_eq_some_iff.mp hc
  obtain ⟨⟨q', s₃⟩, h3, hc⟩ := Option.bind_eq_some_iff.mp hc
  simp only [Option.some.injEq, Prod.mk.injEq] at hc h1 h2 h3
  obtain ⟨rfl, rfl⟩ := hc
  have h0 : v ≠ 0 := by
    rintro rfl
    cases h3
  obtain ⟨f, hvac, rfl, hs₂⟩ := takeMaps h.sb hn h1 h2 h0
  have hnumbered := h.numbered hvac hs₂ h3
  obtain ⟨k, hmade⟩ := hnumbered.entered filename h hvac
  have hnum : (s₃.inodeTable q').num = v := by
    rw [hnumbered.table, Function.update_self]
    rfl
  rw [hnum]
  exact ⟨f, v, k, hvac, hmade⟩

/-! ## do_open, do_close -/

/-- only the count of the slot changes -/
theorem Made.put {c' : Nat} (h : Made s n f v k c filename q t) (hd : s'.disk = t.disk)
    (hsb : s'.sb = t.sb) (hr : s'.rootInode = t.rootInode)
    (htab : s'.inodeTable = Function.update t.inodeTable q (madeInode s n f v c')) :
    Made s n f v k c' filename q s' := by
  have hroot : s'.root = t.root := by
    unfold FsState.root
    rw [hr, htab, Function.update_of_ne (h.rootInode ▸ h.other.symm)]
  have hentry : ∀ j, s'.nr j = t.nr j ∧ s'.key j = t.key j := by
    intro j
    unfold FsState.nr FsState.key
    rw [hroot, hd]
    exact ⟨rfl, rfl⟩
  have hinode : inodeOnDisk s' v = inodeOnDisk t v := by
    unfold inodeOnDisk
    rw [hd, hsb]
  refine ⟨hsb.trans h.sb, hr.trans h.rootInode, fun i hi => ?_, hinode.trans h.inode, ?_, h.other,
    hroot.trans h.root, fun r h1 h2 => ?_, ⟨h.entry.1, ?_, ?_⟩, fun j hj => ?_⟩
  · rw [hd]
    exact h.maps i hi
  · rw [htab, Function.update_self]
  · rw [htab, Function.update_of_ne h1]
    exact h.rest r h1 h2
  · rw [(hentry k).1]
    exact h.entry.2.1
  · rw [(hentry k).2]
    exact h.entry.2.2
  · rw [(hentry j).2]
    exact h.before j hj

/-- the inode is written once more -/
theorem Made.sync (h : Made s n f v k c filename q t) (hs : Tidy s) (hvac : Vacant s n f v) :
    Made s n f v k c filename q (syncInode t q) := by
  have hv := hvac.num
  have hnum : (t.inodeTable q).num = v := by
    rw [h.slot]
    rfl
  have hsect : ∀ i, i < 3 + s.sb.nrSmapSects ∨ s.sb.n1stSect ≤ i →
      (syncInode t q).disk i = t.disk i := by
    intro i hi
    refine syncInode_sect (h.sb ▸ hs.sb) ?_ (h.sb ▸ hi)
    rw [hnum]
    exact hv.2.1.le
  have hstart : t.root.startSect = t.sb.n1stSect := by
    rw [h.root, h.sb]
    exact hs.start
  have hdir := dir_congr (s := t) (t := syncInode t q) (fun i hi => hsect i (.inr (h.sb ▸ hi)))
    hstart rfl
  refine ⟨h.sb, h.rootInode, fun i hi => ?_, ?_, h.slot, h.other, h.root, h.rest,
    ⟨h.entry.1, ?_, ?_⟩, fun j hj => ?_⟩
  · rw [hsect i (.inl hi)]
    exact h.maps i hi
  · have hself := syncInode_self t q (by
      rw [h.slot]
      exact hvac.fits hs.sb)
    rw [hnum, h.slot] at hself
    exact hself
  · rw [(hdir k).1]
    exact h.entry.2.1
  · rw [(hdir k).2]
    exact h.entry.2.2
  · rw [(hdir j).2]
    exact h.before j hj

/-- the second half of OPEN -/
theorem Made.opened {s₁ : FsState} {r : Option (Fin nrFiles)}
    (h : Made s n f v k 1 filename q t) (hs : Tidy s)
    (hvac : Vacant s n f v) (ho : finishOpen t p fd x flags q = some (r, s₁)) :
    Made s n f v k 1 filename q s₁ ∧ s₁.filp p fd = some x ∧ (s₁.fDescTable x).inode = some q ∧
      r = some fd := by
  have htrunc : Made s n f v k 1 filename q (truncate t flags q) := by
    unfold truncate
    by_cases hf : flags &&& O_TRUNC = 0
    · rw [if_pos hf]
      exact h
    · rw [if_neg hf]
      refine Made.sync (h.put rfl rfl rfl ?_) hs hvac
      show Function.update t.inodeTable q { t.inodeTable q with size := 0 } = _
      rw [h.slot]
      rfl
  unfold finishOpen at ho
  simp only at ho
  by_cases hopen : openable ((truncate t flags q).inodeTable q) = true
  · rw [if_pos hopen, Option.some.injEq, Prod.mk.injEq] at ho
    obtain ⟨rfl, rfl⟩ := ho
    refine ⟨htrunc.put rfl rfl rfl ?_, ?_, ?_, rfl⟩
    · show (truncate t flags q).inodeTable = _
      rw [← htrunc.slot, Function.update_eq_self]
    · unfold connect
      simp only [Function.update_self]
    · unfold connect
      simp only [Function.update_self]
  · rw [if_neg hopen] at ho
    cases ho

/-- CLOSE -/
theorem Made.closed {s₁ : FsState} (h : Made s n f v k 1 filename q s₁)
    (hfd : s₁.filp p fd = some x) (hx : (s₁.fDescTable x).inode = some q) :
    ∃ s₂, doClose s₁ p fd = some s₂ ∧ Made s n f v k 0 filename q s₂ := by
  have hput : putInode s₁ q = some (s₁.setInode q fun y => { y with cnt := y.cnt - 1 }) := by
    refine if_pos ?_
    rw [h.slot]
    exact Nat.one_pos
  unfold doClose
  rw [hfd, Option.bind_some, hx, Option.bind_some, hput, Option.map_some]
  refine ⟨_, rfl, h.put rfl rfl rfl ?_⟩
  show Function.update s₁.inodeTable q { s₁.inodeTable q with cnt := (s₁.inodeTable q).cnt - 1 } = _
  rw [h.slot]
  rfl

/-! ## do_unlink -/

/-- a directory that an entry fits into -/
theorem sizeWith_len {y : Inode} (hk : k ≤ y.size / DIR_ENTRY_SIZE) :
    k < sizeWith y k / DIR_ENTRY_SIZE ∧
      sizeWith y k / DIR_ENTRY_SIZE ≤ y.size / DIR_ENTRY_SIZE + 1 := by
  unfold sizeWith
  unfold DIR_ENTRY_SIZE at hk ⊢
  split <;> omega

/-- **The file is found.** -/
theorem Made.search (h : Made s n f v k c filename q t) (hs : Tidy s)
    (hp : stripPath path = some filename) (hne : filename ≠ []) (h0 : 0 ∉ filename)
    (hnone : searchFile s path = INVALID_INODE) : searchFile t path = v := by
  have hfar := hs.sb.n1stSect_lt
  have hroom : s.root.size / 16 < 65536 := hs.room
  have hstart := hs.start
  have hpad : pad filename 0 ≠ 0 := by
    intro hz
    have hlt : 0 < filename.length := List.length_pos_iff.mpr hne
    have hget : filename.getD 0 0 = 0 := hz
    rw [List.getD_eq_getElem _ _ hlt] at hget
    exact h0 (hget ▸ List.getElem_mem hlt)
  -- there was no entry with the name
  have hold : ∀ j, s.Looks j → s.key j ≠ pad filename := by
    rcases searchFile_name (s := s) (by omega) hp hne with ⟨j, hj, hkey, -, hr⟩ | ⟨hno, -⟩
    · have hzero := hs.blank j hj.1 fun _ => hr.symm.trans hnone
      rw [hkey] at hzero
      exact absurd (congrFun hzero 0) hpad
    · exact hno
  have hlen := sizeWith_len h.entry.1
  have hk : k ≤ s.root.size / 16 := h.entry.1
  have hsize : t.root.size = sizeWith s.root k := by rw [h.root]
  have hlen' : k < t.root.size / 16 ∧ t.root.size / 16 ≤ s.root.size / 16 + 1 := by
    rw [hsize]
    exact hlen
  have hlook : t.Looks k := ⟨hlen'.1.le, by omega⟩
  have hstart' : t.root.startSect = s.sb.n1stSect := by
    rw [h.root]
    exact hs.start
  rcases searchFile_name (s := t) (by omega) hp hne with ⟨j, hj, hkey, hfirst, hr⟩ | ⟨hno, -⟩
  · have hle : ¬ k < j := fun hlt => hfirst k hlt h.entry.2.2
    have hge : ¬ j < k := by
      intro hlt
      rw [h.before j hlt] at hkey
      exact hold j ⟨by show j ≤ s.root.size / 16; omega, by omega⟩ hkey
    rw [hr, show j = k by omega]
    exact h.entry.2.1
  · exact absurd h.entry.2.2 (hno k hlook)

/-- the directory, as `search_file` and `do_unlink` use it -/
structure Root (t : FsState) : Prop where
  sb : t.sb.Ok
  start : t.root.startSect = t.sb.n1stSect
  num : t.root.num = ROOT_INODE
  size : t.root.size / 16 ≤ 65536

theorem setInode_disk (s : FsState) (q : Fin nrInode) (g : Inode → Inode) :
    (s.setInode q g).disk = s.disk := rfl

/-- the entry is cleared, in the data area and in the inode of `/` -/
theorem clearEntry_some (hm : Root t) {j : Nat} (hj : j < t.nrDirEntries) (hv : t.nr j = v) :
    ∃ t', clearEntry t v = some t' ∧ ∀ i < 3 + t.sb.nrSmapSects, t'.disk i = t.disk i := by
  have hfirst := hm.sb.n1stSect_eq
  have hfar := hm.sb.n1stSect_lt
  have hstart := hm.start
  have hsize := hm.size
  have hlen : t.nrDirEntries = t.root.size / 16 := rfl
  have hblks : (t.root.size + SECTOR_SIZE) / SECTOR_SIZE = t.nrDirEntries / 32 + 1 := by
    unfold SECTOR_SIZE
    omega
  obtain ⟨⟨i, e, m, size⟩, hfind, hi⟩ := nrInSects_spec (s := t) (i := 0) (t.nrDirEntries / 32 + 1) 0
    (Nat.zero_add _) (by omega) (Nat.zero_le j) hj hv
  simp only at hi
  unfold clearEntry
  rw [hblks, hfind, Option.map_some]
  simp only
  refine ⟨_, rfl, fun b hb => ?_⟩
  have hne : b ≠ sectOf (t.root.startSect + i) := by
    rw [sectOf_of_lt (by omega)]
    omega
  have hwrite : ∀ y : Buffer, ({ t with disk := wrSect t.disk (t.root.startSect + i) y } :
      FsState).disk b = t.disk b := fun y => wrSect_other hne
  have hsync : ∀ u : FsState, u.sb = t.sb → (u.inodeTable t.rootInode).num = ROOT_INODE →
      (syncInode u t.rootInode).disk b = u.disk b := by
    intro u hu hn
    refine syncInode_sect (hu ▸ hm.sb) ?_ (.inl (hu ▸ hb))
    rw [hn]
    decide
  by_cases he : m = t.nrDirEntries
  · rw [if_pos he]
    refine (hsync (FsState.setInode { t with disk := wrSect t.disk (t.root.startSect + i) _ }
      t.rootInode fun p => { p with size := size }) rfl ?_).trans ?_
    · rw [setInode_self]
      exact hm.num
    · rw [setInode_disk]
      exact hwrite _
  · rw [if_neg he]
    exact hwrite _

/-- **A file is removed.** -/
theorem removeFile_some (hm : Root t) (hq : q ≠ t.rootInode) (hvac : Vacant s n f v) (hn : 1 ≤ n)
    (hsb : t.sb = s.sb) (hslot : t.inodeTable q = madeInode s n f v 1)
    (hv : mapBit t.disk 2 v = true) (hset : ∀ i, f ≤ i → i < f + n → mapBit t.disk 3 i = true)
    {j : Nat} (hj : j < t.nrDirEntries) (hnr : t.nr j = v) :
    ∃ t', removeFile t v q = some t' ∧ ∀ i < 3 + t.sb.nrSmapSects,
      t'.disk i = putBits (putBit t.disk 2 false v) 3 false f n i := by
  have hfirst := hm.sb.n1stSect_eq
  have hfar := hm.sb.n1stSect_lt
  have hnum := hvac.num
  have hroom := hvac.room
  rw [← hsb] at hroom
  have hbit := freeImapBit_bit hnum.2.1 hv
  set u₁ : FsState := { t with disk := putBit t.disk 2 false v } with hu₁
  have hbase : u₁.sb.smapBase = 3 := hm.sb.smapBase_eq
  have hrun := freeSmapBits_bits (s := u₁) (n := n) (f := f) (by show 1 ≤ t.sb.n1stSect; omega)
    (by rw [hbase]; show 3 + t.sb.nrSmapSects < _; omega) hroom hn fun i h1 h2 => by
      rw [hbase, hu₁, mapBit_congr (putBit_other (by omega))]
      exact hset i h1 h2
  rw [hbase] at hrun
  have hrun : freeSmapBits u₁ (madeInode s n f v 1).startSect (madeInode s n f v 1).nrSects =
      some { u₁ with disk := putBits (putBit t.disk 2 false v) 3 false f n } := by
    show freeSmapBits u₁ (f + s.sb.n1stSect - 1) n = _
    rw [← hsb]
    exact hrun
  set u₂ : FsState := { u₁ with disk := putBits (putBit t.disk 2 false v) 3 false f n } with hu₂
  -- the inode
  set w : FsState := u₂.setInode q fun y =>
    { y with mode := 0, size := 0, startSect := 0, nrSects := 0 } with hw
  have hat : w.inodeTable q = ⟨0, 0, 0, 0, 1, v⟩ := by
    rw [hw, setInode_self]
    show ({ t.inodeTable q with mode := 0, size := 0, startSect := 0, nrSects := 0 } : Inode) = _
    rw [hslot]
    rfl
  set u₃ : FsState := syncInode w q with hu₃
  have hsect : ∀ i, i < 3 + t.sb.nrSmapSects ∨ t.sb.n1stSect ≤ i → u₃.disk i = u₂.disk i := by
    intro i hi
    refine (syncInode_sect (s := w) hm.sb ?_ hi).trans rfl
    rw [hat]
    exact hnum.2.1.le
  have hput : putInode u₃ q = some (u₃.setInode q fun y => { y with cnt := y.cnt - 1 }) := by
    refine if_pos ?_
    rw [show u₃.inodeTable q = _ from hat]
    exact Nat.one_pos
  set u₄ : FsState := u₃.setInode q fun y => { y with cnt := y.cnt - 1 } with hu₄
  have hroot : u₄.root = t.root := by
    show Function.update (Function.update t.inodeTable q _) q _ t.rootInode = _
    rw [Function.update_of_ne hq.symm, Function.update_of_ne hq.symm]
    rfl
  have hdata : SameData t u₄ := by
    intro i hi
    show u₃.disk i = _
    rw [hsect i (.inr hi), hu₂]
    show putBits (putBit t.disk 2 false v) 3 false f n i = _
    rw [putBits_other (fun y h1 h2 => by omega), putBit_other (by omega)]
  have hdir := dir_congr hdata hm.start (congrArg Inode.startSect hroot) j
  have hlen : u₄.nrDirEntries = t.nrDirEntries := congrArg (fun y => y.size / DIR_ENTRY_SIZE) hroot
  have hm₄ : Root u₄ := by
    refine ⟨hm.sb, ?_, ?_, ?_⟩
    · rw [hroot]
      exact hm.start
    · rw [hroot]
      exact hm.num
    · rw [hroot]
      exact hm.size
  obtain ⟨t', hclear, hsame⟩ := clearEntry_some hm₄ (hlen ▸ hj) (hdir.1.trans hnr)
  refine ⟨t', ?_, fun i hi => ?_⟩
  · unfold removeFile
    simp only [Option.bind_eq_bind, hbit, Option.bind_some, hslot, hrun]
    rw [← hu₃, hput, Option.bind_some]
    exact hclear
  · rw [hsame i hi]
    exact hsect i (.inl hi)

/-- the maps are as they were, bit for bit -/
structure SameMaps (s s' : FsState) : Prop where
  imap : ∀ k < s.sb.nrImapSects * 4096, mapBit s'.disk 2 k = mapBit s.disk 2 k
  smap : ∀ k < s.sb.nrSmapSects * 4096, mapBit s'.disk s.sb.smapBase k = mapBit s.disk s.sb.smapBase k

/-- the maps when the bits of a number and of a run were given the value `b` -/
theorem mapBit_marks {d d' : Disk} {m : Nat} {b : Bool} (hv : v < 4096)
    (h : ∀ i < 3 + m, d' i = putBits (putBit d 2 b v) 3 b f n i) :
    (∀ i < 4096, mapBit d' 2 i = if i = v then b else mapBit d 2 i) ∧
    ∀ i < m * 4096, mapBit d' 3 i = if f ≤ i ∧ i < f + n then b else mapBit d 3 i := by
  constructor
  · intro i hi
    rw [mapBit_congr (h (2 + i / 4096) (by omega)), mapBit_congr (d := putBit d 2 b v)
      (putBits_other fun y h1 h2 => by omega), mapBit_putBit]
  · intro i hi
    rw [mapBit_congr (h (3 + i / 4096) (by omega)), mapBit_putBits,
      mapBit_congr (d := d) (putBit_other (by omega))]

/-- the file is closed, so no slot has its number -/
theorem Made.cached (h : Made s n f v k 0 filename q t) (hs : Tidy s) (hvac : Vacant s n f v) :
    Fs.cached t v = none := by
  refine cached_none fun r hr he => ?_
  by_cases hrq : r = q
  · rw [hrq, h.slot] at hr
    exact hr rfl
  · have hset : mapBit s.disk 2 v = true := by
      by_cases hroot : r = s.rootInode
      · have hat : t.inodeTable r = t.root := by
          rw [hroot, ← h.rootInode]
          rfl
        rw [hat, h.root] at he
        exact he ▸ hs.taken s.rootInode hs.held
      · rw [h.rest r hrq hroot] at hr he
        exact he ▸ hs.taken r hr
    rw [hvac.num.2.2] at hset
    cases hset

/-- **UNLINK of a file that was made and closed** succeeds and gives back its bits. -/
theorem Made.unlinked (h : Made s n f v k 0 filename q t) (hs : Tidy s) (hvac : Vacant s n f v)
    (hn : 1 ≤ n) (hlen : path.length < MAX_PATH) (hp : stripPath (cString path) = some filename)
    (hne : filename ≠ []) (h0 : 0 ∉ filename)
    (hnone : searchFile s (cString path) = INVALID_INODE) :
    ∃ t', doUnlink t path = some (true, t') ∧ SameMaps s t' := by
  have hfirst := hs.sb.n1stSect_eq
  have hnum := hvac.num
  have hroom := hvac.room
  have hv0 : v ≠ INVALID_INODE := by
    have hpos := hnum.1
    show v ≠ 0
    omega
  have hslash : cString path ≠ [slash] := by
    intro he
    rw [he] at hp
    exact hne (Option.some.inj hp).symm
  have hsearch := h.search hs hp hne h0 hnone
  have hfree : (t.inodeTable q).cnt = 0 := by
    rw [h.slot]
    rfl
  obtain ⟨q', hget, hq'⟩ := getInode_some (h.cached hs hvac) hfree
  have hother : q' ≠ t.rootInode := by
    rintro rfl
    rw [show t.inodeTable t.rootInode = _ from h.root] at hq'
    exact hs.held hq'
  set u : FsState := t.setInode q' fun _ => { inodeOnDisk t v with cnt := 1 } with hu
  have hslot : u.inodeTable q' = madeInode s n f v 1 := by
    rw [hu, setInode_self, h.inode]
    rfl
  have huroot : u.root = t.root := setInode_root hother
  have hsize := sizeWith_len h.entry.1
  have hlen16 : s.root.size / 16 < 65536 := hs.room
  have htsize : t.root.size = sizeWith s.root k := by rw [h.root]
  have hm : Root u := by
    have hsb : u.sb = s.sb := h.sb
    refine ⟨hsb ▸ hs.sb, ?_, ?_, ?_⟩
    · rw [huroot, h.root, hsb]
      exact hs.start
    · rw [huroot, h.root]
      exact hs.num
    · rw [huroot, htsize]
      exact hsize.2.trans hlen16
  have hj : k < u.nrDirEntries := by
    show k < u.root.size / DIR_ENTRY_SIZE
    rw [huroot, htsize]
    exact hsize.1
  have hnr : u.nr k = v := by
    unfold FsState.nr
    rw [huroot]
    exact h.entry.2.1
  -- what the maps are now
  obtain ⟨himap, hsmap⟩ := mapBit_marks hnum.2.1 h.maps
  obtain ⟨t', hremove, hmaps⟩ := removeFile_some (q := q') hm hother hvac hn h.sb hslot
    (show mapBit t.disk 2 v = true by rw [himap v hnum.2.1, if_pos rfl])
    (fun i h1 h2 => show mapBit t.disk 3 i = true by
      rw [hsmap i (by omega), if_pos ⟨h1, h2⟩]) hj hnr
  have husb : u.sb.nrSmapSects = s.sb.nrSmapSects := congrArg Super.nrSmapSects h.sb
  rw [husb] at hmaps
  obtain ⟨himap', hsmap'⟩ := mapBit_marks hnum.2.1 hmaps
  refine ⟨t', ?_, ⟨fun i hi => ?_, fun i hi => ?_⟩⟩
  · unfold doUnlink
    rw [if_neg (Nat.not_le.mpr hlen)]
    simp only
    rw [if_neg hslash, hsearch, if_neg hv0, hp, hget]
    simp only [Option.bind_some]
    rw [hslot, if_neg (show ¬ (madeInode s n f v 1).mode ≠ I_REGULAR from not_not.mpr rfl),
      if_neg (show ¬ 1 < (madeInode s n f v 1).cnt from Nat.lt_irrefl 1), hremove, Option.map_some]
  · rw [hs.sb.imap, Nat.one_mul] at hi
    rw [himap' i hi]
    by_cases hiv : i = v
    · rw [if_pos hiv, hiv, hnum.2.2]
    · rw [if_neg hiv]
      show mapBit t.disk 2 i = _
      rw [himap i hi, if_neg hiv]
  · rw [hs.sb.smapBase_eq, hsmap' i hi]
    by_cases hin : f ≤ i ∧ i < f + n
    · rw [if_pos hin, hvac.clear i hin.1 hin.2]
    · rw [if_neg hin]
      show mapBit t.disk 3 i = _
      rw [hsmap i hi, if_neg hin]

/-- **Unlink undoes create on the maps.**  Whatever they are, when a file of `n` sectors is made in a
tidy volume and closed, UNLINK removes it without a failed assertion, and both are as they were. -/
theorem unlink_restores {s₁ : FsState} {r : Option (Fin nrFiles)} (h : Tidy s) (hn : 1 ≤ n)
    (hlen : path.length < MAX_PATH) (hc : Creates s path flags)
    (ho : openNew n s p path flags = some (r, s₁)) :
    ∃ fd s₂ s₃, r = some fd ∧ doClose s₁ p fd = some s₂ ∧ doUnlink s₂ path = some (true, s₃) ∧
      SameMaps s s₃ := by
  obtain ⟨hnone, -, hstrip⟩ := hc
  obtain ⟨filename, hp⟩ := Option.ne_none_iff_exists'.mp hstrip
  have hne : filename ≠ [] := by
    rintro rfl
    unfold searchFile at hnone
    rw [hp] at hnone
    exact absurd (h.num.symm.trans hnone) (by decide)
  obtain ⟨-, h0⟩ := stripPath_spec hp
  unfold openNew at ho
  cases hfd : freeFilp s p with
  | none =>
    rw [hfd] at ho
    cases ho
  | some fd =>
    cases hx : freeFDesc s with
    | none =>
      rw [hfd, hx] at ho
      cases ho
    | some x =>
      simp only [hfd, hx] at ho
      cases hcr : createFileOf n s (cString path) with
      | none =>
        rw [hcr] at ho
        cases ho
      | some y =>
        obtain ⟨o, t⟩ := y
        cases o with
        | none =>
          rw [hcr] at ho
          cases ho
        | some q =>
          simp only [hcr] at ho
          obtain ⟨f, v, k, hvac, hmade⟩ := h.made hn hp hcr
          obtain ⟨hmade₁, hfilp, hdesc, hr⟩ := hmade.opened h hvac ho
          obtain ⟨s₂, hclose, hmade₂⟩ := hmade₁.closed hfilp hdesc
          obtain ⟨s₃, hunlink, hsame⟩ := hmade₂.unlinked h hvac hn hlen hp hne h0 hnone
          exact ⟨fd, s₂, s₃, hr, hclose, hunlink, hsame⟩

end

/-! ## an empty volume -/

/-- the disk of a volume without files: the numbers 0 and 1 are taken -/
def emptyDisk : Disk := fun t o => if t = 2 ∧ o = 0 then 3 else 0

/-- FS on it: the root directory has no entries -/
def emptyFs : FsState :=
  (blank emptyDisk .small).setInode 0 fun _ =>
    ⟨I_DIRECTORY, 0, 292, NR_DEFAULT_FILE_SECTS, 1, ROOT_INODE⟩

theorem emptyFs_cnt {q : Fin nrInode} (h : (emptyFs.inodeTable q).cnt ≠ 0) : q = 0 := by
  by_contra hq
  have hat : emptyFs.inodeTable q = .zero := Function.update_of_ne hq _ _
  rw [hat] at h
  exact h rfl

theorem emptyFs_tidy : Tidy emptyFs where
  sb := ⟨rfl, rfl, rfl, rfl, by decide⟩
  held := Nat.one_ne_zero
  num := rfl
  mode := rfl
  start := rfl
  only _ hq _ := emptyFs_cnt hq
  nums q hq := by
    rw [emptyFs_cnt hq]
    decide
  sects := rfl
  room := by decide
  blank k hk _ := by
    have hk0 : k = 0 := Nat.le_zero.mp hk
    subst hk0
    rfl
  taken q hq := by
    rw [emptyFs_cnt hq]
    decide

set_option maxRecDepth 20000 in
/-- a file of three sectors -/
theorem unlink_restores_empty : ∃ s₁ fd s₂ s₃, openNew 3 emptyFs 8 [0x61] O_CREAT = some (some fd, s₁) ∧
    doClose s₁ 8 fd = some s₂ ∧ doUnlink s₂ [0x61] = some (true, s₃) ∧ SameMaps emptyFs s₃ := by
  have hsome : (openNew 3 emptyFs 8 [0x61] O_CREAT).isSome = true := by decide
  obtain ⟨⟨r, s₁⟩, ho⟩ := Option.isSome_iff_exists.mp hsome
  obtain ⟨fd, s₂, s₃, rfl, hrest⟩ := unlink_restores emptyFs_tidy (by decide : 1 ≤ 3)
    (by decide : [(0x61 : Byte)].length < MAX_PATH) ⟨by decide, by decide, by decide⟩ ho
  exact ⟨s₁, fd, s₂, s₃, ho, hrest⟩

end Noxis.Fs
