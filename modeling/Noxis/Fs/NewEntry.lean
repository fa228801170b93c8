import Noxis.Fs.View

/-!
# 25-osfs11/fs/open.c: new_dir_entry

* `putEntry b j v name`   entry `j` of a sector is written
* `newDirEntry_view`      where the entry goes, and what it is
-/

namespace Noxis.Fs

/-- entry `j` of a sector -/
def putEntry (b : Buffer) (j inodeNr : Nat) (filename : List Byte) : Buffer :=
  strcpy (put32 b (j * DIR_ENTRY_SIZE) inodeNr) (j * DIR_ENTRY_SIZE + 4) filename

section
variable {s : FsState} {b : Buffer} {a j k o v : Nat} {filename : List Byte}

/-- the 0 behind the name belongs to the entry when the name is short -/
theorem putEntry_other (h : ¬ (j * 16 ≤ o ∧ o < j * 16 + 16)) (hl : filename.length ≤ 11) :
    putEntry b j v filename o = b o := by
  unfold putEntry strcpy DIR_ENTRY_SIZE
  rw [if_neg (by omega), put32_not_mem (by omega)]

theorem putEntry_nr (ho : o < 4) : putEntry b j v filename (j * 16 + o) =
    put32 b (j * 16) v (j * 16 + o) :=
  if_neg (by unfold DIR_ENTRY_SIZE; omega)

theorem putEntry_key (hb : ∀ o < 12, b (j * 16 + 4 + o) = 0) (ho : o < 12) :
    putEntry b j v filename (j * 16 + 4 + o) = filename.getD o 0 := by
  unfold putEntry strcpy DIR_ENTRY_SIZE
  by_cases hin : o < filename.length + 1
  · rw [if_pos (by omega), Nat.add_sub_cancel_left]
  · rw [if_neg (by omega), put32_not_mem (by omega), hb o ho, List.getD_eq_default _ _ (by omega)]

/-- a sector of the directory with entry `k` written -/
def withEntry (d : Disk) (a k v : Nat) (filename : List Byte) : Disk :=
  wrSect d (a + k / 32) (putEntry (rdSect d (a + k / 32)) (k % 32) v filename)

theorem withEntry_byte {d : Disk} (ha : a + k / 32 < 2 ^ 22) (hl : filename.length ≤ 11) (hj : j ≠ k)
    (ho : o < 16) : entByte (withEntry d a k v filename) a j o = entByte d a j o := by
  unfold entByte withEntry
  have hs := sectOf_of_lt ha
  by_cases hsect : j / 32 = k / 32
  · have hw := wrSect_lt (d := d) (i := a + k / 32)
      (b := putEntry (rdSect d (a + k / 32)) (k % 32) v filename)
      (show j % 32 * 16 + o < 512 by omega)
    rw [hs] at hw
    rw [hsect, hw, putEntry_other (by omega) hl, rdSect_lt (by omega), hs]
  · rw [wrSect_other (by rw [hs]; omega)]

theorem withEntry_self {d : Disk} (ha : a + k / 32 < 2 ^ 22) (ho : o < 16) :
    entByte (withEntry d a k v filename) a k o =
      putEntry (rdSect d (a + k / 32)) (k % 32) v filename (k % 32 * 16 + o) := by
  have hw := wrSect_lt (d := d) (i := a + k / 32)
    (b := putEntry (rdSect d (a + k / 32)) (k % 32) v filename)
    (show k % 32 * 16 + o < 512 by omega)
  rw [sectOf_of_lt ha] at hw
  exact hw

/-- the number of the entry that is written -/
theorem withEntry_nr {d : Disk} (ha : a + k / 32 < 2 ^ 22) (hv : v < 2 ^ 32) :
    entNr (withEntry d a k v filename) a k = v := by
  have hput : get32 (entByte (withEntry d a k v filename) a k) 0 =
      get32 (fun o => put32 (rdSect d (a + k / 32)) (k % 32 * 16) v (k % 32 * 16 + o)) 0 := by
    refine get32_congr fun i hi => ?_
    rw [Nat.zero_add, withEntry_self ha (by omega), putEntry_nr hi]
  have hround := get32_put32_of_lt (b := rdSect d (a + k / 32)) (o := k % 32 * 16) hv
  exact hput.trans hround

/-- its name, when its bytes were zero -/
theorem withEntry_key {d : Disk} (ha : a + k / 32 < 2 ^ 22)
    (hzero : entKey d a k = fun _ => 0) : entKey (withEntry d a k v filename) a k = pad filename := by
  have hkey : ∀ o < 12, rdSect d (a + k / 32) (k % 32 * 16 + 4 + o) = 0 := by
    intro o ho
    rw [rdSect_lt (by omega), sectOf_of_lt ha, Nat.add_assoc]
    exact congrFun hzero ⟨o, ho⟩
  funext i
  show entByte (withEntry d a k v filename) a k (4 + i) = pad filename i
  rw [withEntry_self ha (by omega), ← Nat.add_assoc]
  exact putEntry_key hkey i.isLt

/-- the other entries -/
theorem withEntry_other {d : Disk} (ha : a + k / 32 < 2 ^ 22) (hl : filename.length ≤ 11)
    (hj : j ≠ k) : entNr (withEntry d a k v filename) a j = entNr d a j ∧
      entKey (withEntry d a k v filename) a j = entKey d a j := by
  constructor
  · refine get32_congr fun i hi => ?_
    exact withEntry_byte ha hl hj (by omega)
  · funext i
    exact withEntry_byte ha hl hj (by omega)

/-- the entries before it, however long the name is -/
theorem withEntry_before {d : Disk} (ha : a + k / 32 < 2 ^ 22) (hj : j < k) :
    entKey (withEntry d a k v filename) a j = entKey d a j := by
  funext i
  have hi := i.isLt
  show entByte (withEntry d a k v filename) a j (4 + i) = entByte d a j (4 + i)
  unfold entByte withEntry
  have hs := sectOf_of_lt ha
  by_cases hsect : j / 32 = k / 32
  · have hw := wrSect_lt (d := d) (i := a + k / 32)
      (b := putEntry (rdSect d (a + k / 32)) (k % 32) v filename)
      (show j % 32 * 16 + (4 + i) < 512 by omega)
    rw [hs] at hw
    have hput : putEntry (rdSect d (a + k / 32)) (k % 32) v filename (j % 32 * 16 + (4 + i)) =
        rdSect d (a + k / 32) (j % 32 * 16 + (4 + i)) := by
      unfold putEntry strcpy DIR_ENTRY_SIZE
      rw [if_neg (by omega), put32_not_mem (by omega)]
    rw [hsect, hw, hput, rdSect_lt (by omega), hs]
  · rw [wrSect_other (by rw [hs]; omega)]

/-- **An entry is written** where there was none. -/
theorem withEntry_view (hsb : s.sb.Ok) (hk : k < NR_DIR_ENTRIES) (hv : v < 2 ^ 32)
    (hl : filename.length ≤ 11) (hb : s.view.entry k = blankEntry) :
    ({ s with disk := withEntry s.disk s.sb.n1stSect k v filename } : FsState).view =
      { s.view with entry := Function.update s.view.entry k (v, pad filename) } := by
  have hfirst := hsb.n1stSect_eq
  have hfar := hsb.n1stSect_lt
  have hk' : k < 65536 := hk
  have ha : s.sb.n1stSect + k / 32 < 2 ^ 22 := by omega
  have hd : SameOutside s.disk (withEntry s.disk s.sb.n1stSect k v filename) s.sb.n1stSect
      (s.sb.n1stSect + NR_DEFAULT_FILE_SECTS) := by
    intro t ht
    refine wrSect_other ?_
    rw [sectOf_of_lt ha]
    unfold NR_DEFAULT_FILE_SECTS at ht
    omega
  apply View.ext
  · rfl
  · rfl
  · rfl
  · exact imap_same (b := s.sb.n1stSect + NR_DEFAULT_FILE_SECTS) fun t ht => hd t (by omega)
  · exact smap_same hd (.inr (by omega))
  · exact inode_same hsb hd (.inr le_rfl)
  · funext j
    show (if j < NR_DIR_ENTRIES then
      (entNr (withEntry s.disk s.sb.n1stSect k v filename) s.sb.n1stSect j,
        entKey (withEntry s.disk s.sb.n1stSect k v filename) s.sb.n1stSect j) else blankEntry) =
      Function.update s.view.entry k (v, pad filename) j
    by_cases hj : j = k
    · subst hj
      have hold : s.view.entry j = (entNr s.disk s.sb.n1stSect j, entKey s.disk s.sb.n1stSect j) :=
        if_pos hk
      have hzero : entKey s.disk s.sb.n1stSect j = fun _ => 0 :=
        congrArg Prod.snd (hold.symm.trans hb)
      rw [if_pos hk, Function.update_self, withEntry_nr ha hv, withEntry_key ha hzero]
    · obtain ⟨hnr, hkey⟩ := withEntry_other (d := s.disk) (v := v) ha hl hj
      rw [Function.update_of_ne hj, hnr, hkey]
      rfl
  · exact data_same hd le_rfl

/-- the size of the directory with an entry at `k` -/
def sizeWith (p : Inode) (k : Nat) : Nat :=
  if k < p.size / DIR_ENTRY_SIZE then p.size else p.size + DIR_ENTRY_SIZE

/-- the entry is written before the inode -/
theorem newDirEntry_eq (hstart : s.root.startSect = s.sb.n1stSect)
    (hr : freeInSects s (s.nrDirEntries / 32 + 1) 0 0 =
      (k / 32, k % 32, decide (k < s.nrDirEntries))) :
    newDirEntry s v filename = syncInode
      (({ s with disk := withEntry s.disk s.sb.n1stSect k v filename } : FsState).setInode s.rootInode
        fun p => { p with size := sizeWith s.root k }) s.rootInode := by
  have hblks : (s.root.size + SECTOR_SIZE) / SECTOR_SIZE = s.nrDirEntries / 32 + 1 := by
    unfold FsState.nrDirEntries SECTOR_SIZE DIR_ENTRY_SIZE
    omega
  unfold newDirEntry
  rw [hblks, hr, hstart]
  simp only
  by_cases hlt : k < s.nrDirEntries
  · have hsize : sizeWith s.root k = s.root.size := if_pos hlt
    have hsame : (({ s with disk := withEntry s.disk s.sb.n1stSect k v filename } :
        FsState).setInode s.rootInode fun p => { p with size := sizeWith s.root k }) =
        { s with disk := withEntry s.disk s.sb.n1stSect k v filename } := by
      rw [hsize]
      exact congrArg (fun t => ({ s with
        disk := withEntry s.disk s.sb.n1stSect k v filename, inodeTable := t } : FsState))
        (Function.update_eq_self s.rootInode s.inodeTable)
    rw [if_pos (decide_eq_true hlt), hsame]
    rfl
  · have hsize : sizeWith s.root k = s.root.size + DIR_ENTRY_SIZE := if_neg hlt
    rw [if_neg (by rw [decide_eq_true_iff]; exact hlt), hsize]
    rfl

/-- **A new entry**: it goes to the first free one, or to the end of the directory. -/
theorem newDirEntry_view (hsb : s.sb.Ok) (hstart : s.root.startSect = s.sb.n1stSect)
    (hnum : s.root.num = ROOT_INODE) (hfits : s.root.Fits)
    (hroom : s.nrDirEntries ≤ NR_DIR_ENTRIES)
    (hfull : (∀ x < s.nrDirEntries, (s.view.entry x).1 ≠ 0) → s.nrDirEntries < NR_DIR_ENTRIES)
    (hblank : ∀ k < NR_DIR_ENTRIES, (k < s.nrDirEntries → (s.view.entry k).1 = 0) →
      s.view.entry k = blankEntry)
    (hv : v < 2 ^ 32) (hl : filename.length ≤ 11) :
    ∃ k ≤ s.nrDirEntries, k < NR_DIR_ENTRIES ∧
      (k < s.nrDirEntries → (s.view.entry k).1 = 0) ∧
      (newDirEntry s v filename).view = { s.view with
        table := Function.update s.inodeTable s.rootInode { s.root with size := sizeWith s.root k }
        inode := Function.update s.view.inode ROOT_INODE
          { s.root with size := sizeWith s.root k, cnt := 0 }
        entry := Function.update s.view.entry k (v, pad filename) } := by
  have hfar := hsb.n1stSect_lt
  have hlen : s.nrDirEntries ≤ 65536 := hroom
  obtain ⟨k, hk, hbefore, hfree, hr⟩ := freeInSects_spec (s := s) (i := 0) (s.nrDirEntries / 32 + 1)
    (Nat.zero_add _) (by rw [hstart]; omega) (Nat.zero_le _) fun x hx => absurd hx (by omega)
  have hentry : ∀ x < NR_DIR_ENTRIES, (s.view.entry x).1 = s.nr x := by
    intro x hx
    show (if x < NR_DIR_ENTRIES then (entNr s.disk s.sb.n1stSect x, _) else blankEntry).1 = _
    rw [if_pos hx, FsState.nr, hstart]
  have hk' : k < NR_DIR_ENTRIES := by
    by_cases hlt : k < s.nrDirEntries
    · exact hlt.trans_le hroom
    · have heq : k = s.nrDirEntries := by omega
      rw [heq]
      refine hfull fun x hx => ?_
      rw [hentry x (hx.trans_le hroom)]
      exact hbefore x (by omega)
  have hfree' : k < s.nrDirEntries → (s.view.entry k).1 = 0 := fun hlt => by
    rw [hentry k hk']
    exact hfree hlt
  have hkey := hblank k hk' hfree'
  refine ⟨k, hk, hk', hfree', ?_⟩
  set z := sizeWith s.root k with hz
  set s₁ : FsState := ({ s with disk := withEntry s.disk s.sb.n1stSect k v filename } :
    FsState).setInode s.rootInode fun p => { p with size := z } with hs1
  have hat : s₁.inodeTable s.rootInode = { s.root with size := z } := Function.update_self ..
  have hview : s₁.view = { s.view with
      table := Function.update s.inodeTable s.rootInode { s.root with size := z }
      entry := Function.update s.view.entry k (v, pad filename) } := by
    rw [hs1, setInode_view, withEntry_view hsb hk' hv hl hkey]
    rfl
  have hnew : newDirEntry s v filename = syncInode s₁ s.rootInode := newDirEntry_eq hstart hr
  have hsize : z < 2 ^ 32 := by
    have hdir : s.root.size / DIR_ENTRY_SIZE ≤ 65536 := hroom
    rw [hz]
    unfold sizeWith
    unfold DIR_ENTRY_SIZE at hdir ⊢
    split <;> omega
  have hnum1 : (s₁.inodeTable s.rootInode).num = ROOT_INODE := by
    rw [hat]
    exact hnum
  have hsync := syncInode_view (s := s₁) (q := s.rootInode) hsb
    (by rw [hnum1]; exact ⟨by decide, by decide⟩)
    (by rw [hat]; exact ⟨hfits.mode, hsize, hfits.startSect, hfits.nrSects⟩)
  rw [hnum1, hat, hview] at hsync
  rw [hnew, hsync]

end

end Noxis.Fs
