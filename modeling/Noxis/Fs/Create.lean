import Noxis.Fs.Files

/-!
# 25-osfs11/fs/open.c: OPEN on a file system in order

* `View.Ok.search_live`, `View.Ok.search_none`   what `search_file` returns
* `View.Ok.getInode`                             the inode that `get_inode` returns
* `View.Ok.doOpen_found`                         OPEN of a regular file
-/

namespace Noxis.Fs
open Ipc (Pid)

section
variable {s : FsState} {q : Fin nrInode} {k v : Nat} {f : Name}

/-! ## search_file -/

theorem View.Ok.entry_nr (h : s.view.Ok) (hk : k < NR_DIR_ENTRIES) : s.nr k = s.view.nr k := by
  show _ = (if k < NR_DIR_ENTRIES then (entNr s.disk s.sb.n1stSect k, _) else blankEntry).1
  rw [if_pos hk, FsState.nr, show s.root.startSect = s.sb.n1stSect from h.start]

theorem View.Ok.entry_key (h : s.view.Ok) (hk : k < NR_DIR_ENTRIES) :
    s.key k = (s.view.entry k).2 := by
  show _ = (if k < NR_DIR_ENTRIES then (_, entKey s.disk s.sb.n1stSect k) else blankEntry).2
  rw [if_pos hk, FsState.key, show s.root.startSect = s.sb.n1stSect from h.start]

/-- an entry with a name is in use -/
theorem View.Ok.live_of_key (h : s.view.Ok) (hk : (s.view.entry k).2 = pad f.bytes) :
    s.view.Live k := by
  by_contra hno
  rw [h.blank k hno] at hk
  exact f.pad_ne_zero (congrFun hk 0).symm

/-- the directory ends before its sectors do -/
theorem View.Ok.dir_size (h : s.view.Ok) : s.root.size = 16 * s.nrDirEntries ∧
    s.nrDirEntries ≤ 65536 := by
  have h1 : s.root.size % 16 = 0 := h.size.1
  have h2 : s.root.size / 16 ≤ 65536 := h.size.2
  have h3 : s.nrDirEntries = s.root.size / 16 := rfl
  omega

theorem View.Ok.searches (h : s.view.Ok) :
    s.root.startSect + (s.root.size + 511) / 512 ≤ 2 ^ 22 ∧ ∀ k, s.Looks k → k < NR_DIR_ENTRIES := by
  obtain ⟨h1, h2⟩ := h.dir_size
  have hfar := h.sb.n1stSect_lt
  have hs : s.root.startSect = s.view.sb.n1stSect := h.start
  refine ⟨by omega, fun k hk => ?_⟩
  have hlt := hk.2
  unfold NR_DIR_ENTRIES
  omega

/-- **A name that is there.** -/
theorem View.Ok.search_live (h : s.view.Ok) (hk : s.view.Live k)
    (hn : (s.view.entry k).2 = pad f.bytes) (rooted : Bool) :
    searchFile s (f.path rooted) = s.view.nr k := by
  obtain ⟨hb, hlooks⟩ := h.searches
  obtain ⟨h1, h2⟩ := h.dir_size
  have hlt : k < s.nrDirEntries := hk.1
  have hlook : s.Looks k := ⟨by omega, by omega⟩
  have hlast := hlooks k hlook
  rcases searchFile_spec hb f rooted with ⟨j, hj, hkey, -, hr⟩ | ⟨hnone, -⟩
  · have hj' := hlooks j hj
    rw [h.entry_key hj'] at hkey
    have hsame := h.names j k (h.live_of_key hkey) hk (hkey.trans hn.symm)
    rw [hr, hsame, h.entry_nr hlast]
  · exact absurd ((h.entry_key hlast).trans hn) (hnone k hlook)

/-- **A name that is not there.** -/
theorem View.Ok.search_none (h : s.view.Ok)
    (hn : ∀ k, s.view.Live k → (s.view.entry k).2 ≠ pad f.bytes) (rooted : Bool) :
    searchFile s (f.path rooted) = INVALID_INODE := by
  obtain ⟨hb, hlooks⟩ := h.searches
  rcases searchFile_spec hb f rooted with ⟨j, hj, hkey, -, -⟩ | ⟨-, hr⟩
  · rw [h.entry_key (hlooks j hj)] at hkey
    exact absurd hkey (hn j (h.live_of_key hkey))
  · exact hr

/-! ## get_inode -/

/-- the inode of a number, as the table has it -/
def FsState.inodeAs (s : FsState) (v cnt : Nat) : Inode := { s.view.inode v with cnt := cnt }

theorem FsState.inodeAs_num {cnt : Nat} (hv : 1 ≤ v ∧ v ≤ 4096) : (s.inodeAs v cnt).num = v := by
  show (if 1 ≤ v ∧ v ≤ 4096 then inodeOnDisk s v else .zero).num = v
  rw [if_pos hv]
  rfl

theorem FsState.inodeAs_disk {cnt : Nat} (hv : 1 ≤ v ∧ v ≤ 4096) :
    { s.inodeAs v cnt with cnt := 0 } = s.view.inode v := by
  have hread : s.view.inode v = inodeOnDisk s v := if_pos hv
  unfold FsState.inodeAs
  rw [hread]
  rfl

/-- **What `get_inode` returns**: the slot that has the inode, or a free one. -/
theorem View.Ok.getInode (h : s.view.Ok) (hv : 1 ≤ v ∧ v < 4096) (hroot : v ≠ ROOT_INODE)
    (ht : s.view.imap v = true) (hfree : ∃ r, (s.inodeTable r).cnt = 0) :
    ∃ q, getInode s v = some (q, s.setInode q fun _ => s.inodeAs v ((s.inodeTable q).cnt + 1)) ∧
      s.view.InMemory q (s.inodeAs v ((s.inodeTable q).cnt + 1)) ∧
      ((s.inodeTable q).cnt ≠ 0 → (s.inodeTable q).num = v) := by
  have hnum : ∀ c, (s.inodeAs v c).num = v := fun c => FsState.inodeAs_num ⟨hv.1, hv.2.le⟩
  unfold Fs.getInode
  cases hc : cached s v with
  | some q =>
    obtain ⟨hcnt, hqn⟩ := cached_spec hc
    have hq : q ≠ s.rootInode := by
      rintro rfl
      exact hroot (hqn.symm.trans h.num)
    obtain ⟨-, -, -, hdisk⟩ := h.memory q hq hcnt
    have hat : s.inodeTable q = s.inodeAs v (s.inodeTable q).cnt := by
      have hdisk' : s.view.inode v = { s.inodeTable q with cnt := 0 } := by
        rw [← hqn]
        exact hdisk
      unfold FsState.inodeAs
      rw [hdisk']
    refine ⟨q, ?_, ⟨hq, by rw [hnum]; exact hv, by rw [hnum]; exact ht, fun r hr hrc => ?_⟩,
      fun _ => hqn⟩
    · have hset : (s.setInode q fun x => { x with cnt := x.cnt + 1 }) =
          s.setInode q fun _ => s.inodeAs v ((s.inodeTable q).cnt + 1) := by
        unfold FsState.setInode
        simp only
        conv_lhs => rw [hat]
        rfl
      exact congrArg (fun t => some (q, t)) hset
    · rw [hnum, ← hqn]
      exact fun he => hr (h.single r q hrc hcnt he)
  | none =>
    have hsome : ∃ q, freeEntry s = some q := by
      obtain ⟨r, hr⟩ := hfree
      refine Option.ne_none_iff_exists'.mp fun hnone => ?_
      have hno := List.find?_eq_none.mp hnone r (List.mem_finRange r)
      exact hno (decide_eq_true hr)
    obtain ⟨q, hf⟩ := hsome
    have hfound := List.find?_some hf
    have hzero : (s.inodeTable q).cnt = 0 := of_decide_eq_true hfound
    have hq : q ≠ s.rootInode := by
      rintro rfl
      exact h.held hzero
    refine ⟨q, ?_, ⟨hq, by rw [hnum]; exact hv, by rw [hnum]; exact ht, fun r hr hrc => ?_⟩,
      fun hc => absurd hzero hc⟩
    · simp only [hf]
      have hread : s.view.inode v = inodeOnDisk s v := if_pos ⟨hv.1, hv.2.le⟩
      rw [hzero]
      unfold FsState.inodeAs
      rw [hread]
      rfl
    · rw [hnum]
      intro he
      have hin : (decide ((s.inodeTable r).cnt ≠ 0) && decide ((s.inodeTable r).num = v)) = true := by
        rw [Bool.and_eq_true, decide_eq_true_iff, decide_eq_true_iff]
        exact ⟨hrc, he⟩
      exact List.find?_eq_none.mp hc r (List.mem_finRange r) hin

/-! ## the end of OPEN -/

variable {p : Pid} {fd : Fin nrFiles} {x : Fin nrFileDesc} {flags : Nat} {y : Inode}

theorem View.Ok.fits (h : s.view.Ok) (hq : s.view.Has q k) (hy : Resized (s.inodeTable q) y)
    (hs : y.size ≤ y.nrSects * SECTOR_SIZE) : y.Fits := by
  have hp := h.has_placed hq
  have hlast : (s.inodeTable q).startSect + (s.inodeTable q).nrSects ≤ s.sb.nrSects := hp.last
  have hint : (s.inodeTable q).nrSects * 512 < 2 ^ 31 := hp.int
  have hdev : s.sb.nrSects < 2 ^ 28 := h.sb.sects
  have hmode : y.mode = I_REGULAR := hy.mode.trans hq.mode
  rw [← hy.start, ← hy.sects] at hlast
  rw [← hy.sects] at hint
  unfold SECTOR_SIZE at hs
  refine ⟨?_, by omega, by omega, by omega⟩
  rw [hmode]
  decide

/-- **the inode of an open file is written** -/
theorem View.Ok.sync (h : s.view.Ok) (hq : s.view.Has q k) (hy : Resized (s.inodeTable q) y)
    (hs : y.size ≤ y.nrSects * SECTOR_SIZE) :
    (syncInode (s.setInode q fun _ => y) q).view = s.view.put q y := by
  have hat : (s.setInode q fun _ => y).inodeTable q = y := Function.update_self ..
  obtain ⟨h1, h2, -, -⟩ := h.memory q hq.other hq.held
  have hnum : y.num = (s.view.table q).num := hy.num
  have hsync := syncInode_view (s := s.setInode q fun _ => y) (q := q) h.sb
    (by rw [hat, hnum]; exact ⟨h1, h2.le⟩) (by rw [hat]; exact h.fits hq hy hs)
  rw [hat] at hsync
  rw [hsync]
  rfl

/-- what the end of `do_open` leaves, when slot `q` has file `k` -/
structure Finished (s s' : FsState) (p : Pid) (fd : Fin nrFiles) (x : Fin nrFileDesc) (flags : Nat)
    (q : Fin nrInode) (k : Nat) : Prop where
  ok : s'.view.Ok
  has : s'.view.Has q k
  only : View.Only q k s.view s'.view
  filp : s'.filp = Function.update s.filp p (Function.update (s.filp p) fd (some x))
  desc : s'.fDescTable = Function.update s.fDescTable x ⟨flags, 0, 1, some q⟩
  cnt : (s'.inodeTable q).cnt = (s.inodeTable q).cnt
  size : flags &&& O_TRUNC ≠ 0 → (s'.inodeTable q).size = 0
  disk : flags &&& O_TRUNC = 0 → s'.disk = s.disk

theorem View.Ok.finished (h : s.view.Ok) (hq : s.view.Has q k) (p : Pid) (fd : Fin nrFiles)
    (x : Fin nrFileDesc) (flags : Nat) :
    Finished s (connect (truncate s flags q) p fd x flags q) p fd x flags q k := by
  unfold truncate
  by_cases ht : flags &&& O_TRUNC = 0
  · rw [if_pos ht]
    exact ⟨h, hq, .refl q k s.view, rfl, rfl, rfl, fun hc => absurd ht hc, fun _ => rfl⟩
  · rw [if_neg ht]
    have hy : Resized (s.inodeTable q) { s.inodeTable q with size := 0 } := ⟨rfl, rfl, rfl, rfl⟩
    have hview := h.sync hq hy (Nat.zero_le _)
    have hat : (connect (syncInode (s.setInode q fun p => { p with size := 0 }) q) p fd x flags
        q).inodeTable q = { s.inodeTable q with size := 0 } := Function.update_self ..
    refine ⟨?_, ?_, ?_, rfl, rfl, by rw [hat], fun _ => by rw [hat], fun hc => absurd hc ht⟩
    · exact hview ▸ h.put hq hy hq.held (Nat.zero_le _)
    · exact hview ▸ View.put_has hq hy hq.held
    · exact hview ▸ h.put_only hq hy

/-! ## OPEN of a file that is there -/

theorem openable_regular (h : y.mode = I_REGULAR) : openable y = true := by
  unfold openable
  rw [h, if_neg (by decide), if_neg (by decide)]
  decide

/-- the flags of an OPEN that may find its file -/
def FindFlags (flags : Nat) : Prop := flags = O_RDWR ∨ flags = O_CREAT ||| O_RDWR ||| O_TRUNC

theorem Name.path_length (f : Name) (rooted : Bool) : (f.path rooted).length < MAX_PATH := by
  have hlen := f.len
  unfold Name.path MAX_PATH
  cases rooted with
  | true =>
    rw [if_pos rfl, List.length_cons]
    omega
  | false =>
    rw [if_neg (by decide)]
    omega

theorem View.Ok.live_num (h : s.view.Ok) (hk : s.view.Live k) :
    1 ≤ s.view.nr k ∧ s.view.nr k < 4096 ∧ s.view.imap (s.view.nr k) = true :=
  ⟨Nat.pos_of_ne_zero hk.2, h.alloc k hk⟩

/-- what OPEN leaves besides: slot `q` counts one more, and the other slots are as they were -/
structure Opens (s s' : FsState) (p : Pid) (fd : Fin nrFiles) (x : Fin nrFileDesc) (flags : Nat)
    (q : Fin nrInode) (k : Nat) : Prop where
  ok : s'.view.Ok
  has : s'.view.Has q k
  filp : s'.filp = Function.update s.filp p (Function.update (s.filp p) fd (some x))
  desc : s'.fDescTable = Function.update s.fDescTable x ⟨flags, 0, 1, some q⟩
  cnt : (s'.inodeTable q).cnt = (s.inodeTable q).cnt + 1
  size : flags &&& O_TRUNC ≠ 0 → (s'.inodeTable q).size = 0
  root : s'.rootInode = s.rootInode ∧ (s'.inodeTable s.rootInode).cnt = (s.inodeTable s.rootInode).cnt
  table : ∀ r, r ≠ q → r ≠ s.rootInode → s'.inodeTable r = s.inodeTable r
  disk : flags &&& O_TRUNC = 0 → s'.disk = s.disk
  slot : (s.inodeTable q).cnt ≠ 0 → (s.inodeTable q).num = (s'.inodeTable q).num

/-- **OPEN finds a regular file.** -/
theorem View.Ok.doOpen_found (h : s.view.Ok) (hflags : FindFlags flags) (hk : s.view.Named f k)
    (hroot : s.view.nr k ≠ ROOT_INODE) (hreg : (s.view.file k).mode = I_REGULAR)
    (hfree : ∃ r, (s.inodeTable r).cnt = 0) (hfd : freeFilp s p = some fd) (hx : freeFDesc s = some x)
    (rooted : Bool) :
    ∃ q s', doOpen s p (f.path rooted) flags = some (some fd, s') ∧ Opens s s' p fd x flags q k ∧
      View.Only q k s.view s'.view := by
  obtain ⟨h1, h2, h3⟩ := h.live_num hk.live
  obtain ⟨q, hget, hmem, hslot⟩ := h.getInode ⟨h1, h2⟩ hroot h3 hfree
  have hsearch := h.search_live hk.live hk.name rooted
  set y := s.inodeAs (s.view.nr k) ((s.inodeTable q).cnt + 1) with hy
  set s₁ := s.setInode q fun _ => y with hs1
  have hnum : y.num = s.view.nr k := FsState.inodeAs_num ⟨h1, h2.le⟩
  have hat : s₁.inodeTable q = y := Function.update_self ..
  have hview : s₁.view = { s.view with table := Function.update s.view.table q y } := rfl
  -- the inode is in slot `q`
  have hok : s₁.view.Ok := by
    rw [hview]
    refine h.setTable hmem.other fun _ => ⟨hmem, ?_⟩
    exact (congrArg s.view.inode hnum).trans (FsState.inodeAs_disk ⟨h1, h2.le⟩).symm
  have hdir : s₁.view.dir = s.view.dir := Function.update_of_ne hmem.other.symm _ _
  have hlive : s₁.view.Live k := by
    have hlive := hk.live
    unfold View.Live View.len at hlive ⊢
    rw [hdir]
    exact hlive
  have hhas : s₁.view.Has q k := by
    refine ⟨hmem.other, ?_, hlive, ?_, ?_⟩
    · show (s₁.inodeTable q).cnt ≠ 0
      rw [hat, hy]
      exact Nat.succ_ne_zero _
    · show (s₁.inodeTable q).num = s.view.nr k
      rw [hat, hnum]
    · show (s₁.inodeTable q).mode = I_REGULAR
      rw [hat]
      exact hreg
  have honly : View.Only q k s.view s₁.view :=
    ⟨rfl, rfl, rfl, rfl, rfl, fun r hr => Function.update_of_ne hr _ _, fun _ _ => rfl, rfl, rfl, rfl,
      fun _ _ => rfl⟩
  have hfin := hok.finished hhas p fd x flags
  refine ⟨q, connect (truncate s₁ flags q) p fd x flags q, ?_, ?_, honly.trans hfin.only⟩
  · have hne : ¬ s.view.nr k = INVALID_INODE := hk.live.2
    have hrdwr : flags &&& O_RDWR ≠ 0 := by
      rcases hflags with rfl | rfl <;> decide
    have hexcl : ¬ (flags &&& O_CREAT ≠ 0 ∧ flags &&& O_TRUNC = 0) := by
      rcases hflags with rfl | rfl <;> decide
    have hall : flags = O_RDWR ∨ flags = O_RDWR ||| O_TRUNC ∨
        flags = O_RDWR ||| O_TRUNC ||| O_CREAT := by
      rcases hflags with rfl | rfl <;> decide
    unfold doOpen
    rw [if_neg (Nat.not_le.mpr (f.path_length rooted))]
    simp only [f.cString_path, hfd, hx, hsearch]
    rw [if_neg hne, if_pos hrdwr, if_neg hexcl, if_pos hall, f.stripPath_path]
    simp only [hget, Option.bind_some]
    exact if_pos (openable_regular hfin.has.mode)
  · refine ⟨hfin.ok, hfin.has, hfin.filp, hfin.desc, ?_, hfin.size, ⟨hfin.only.root, ?_⟩,
      fun r hr _ => ?_, hfin.disk, fun hc => ?_⟩
    · rw [hfin.cnt, hat, hy]
      rfl
    · have hroot' := hfin.only.table s.rootInode hmem.other.symm
      exact congrArg Inode.cnt (hroot'.trans hdir)
    · exact (hfin.only.table r hr).trans (Function.update_of_ne hr _ _)
    · exact (hslot hc).trans (hfin.has.num.trans (hfin.only.nr k)).symm

end

end Noxis.Fs
