import Noxis.Fs.Create

/-!
# 25-osfs11/fs/open.c: create_file on a file system in order

* `View.created`           the view with one file more
* `View.Ok.createFile`     `create_file` makes it
* `View.Ok.doOpen_fresh`   OPEN of a file that is not there
-/

namespace Noxis.Fs
open Ipc (Pid)

/-! ## the view with one file more -/

/-- the inode of a new file -/
def Inode.fresh (v startSect : Nat) : Inode := ⟨I_REGULAR, 0, startSect, NR_DEFAULT_FILE_SECTS, 1, v⟩

theorem Inode.fresh_fits {v a : Nat} (h : a < 2 ^ 32) : (Inode.fresh v a).Fits where
  mode := by
    show I_REGULAR < 2 ^ 32
    decide
  size := by
    show 0 < 2 ^ 32
    decide
  startSect := h
  nrSects := by
    show NR_DEFAULT_FILE_SECTS < 2 ^ 32
    decide

/-- number `v` and the run of sectors from bit `n` of the map on are taken -/
def View.taken (w : View) (v n : Nat) : View :=
  { w with
    imap := Function.update w.imap v true
    smap := takeRun w.smap n NR_DEFAULT_FILE_SECTS }

/-- slot `q` and entry `k` are taken as well -/
def View.created (w : View) (v n : Nat) (q : Fin nrInode) (k : Nat) (name : Key) : View :=
  ((w.taken v n).put q (.fresh v (n + w.sb.n1stSect - 1))).withEntry k v name

/-- what is free before -/
structure View.Free (w : View) (v n : Nat) (q : Fin nrInode) : Prop where
  number : v < 4096 ∧ w.imap v = false
  run : FreeRun w.smap NR_DEFAULT_FILE_SECTS n
  device : n + w.sb.n1stSect - 1 + NR_DEFAULT_FILE_SECTS ≤ w.sb.nrSects
  slot : (w.table q).cnt = 0

section
variable {w : View} {f g : Name} {v n j k : Nat} {q : Fin nrInode}

/-- bit 0 of the sector map and the sectors of `/` are never free -/
theorem View.Ok.run_after (h : w.Ok) (hr : FreeRun w.smap NR_DEFAULT_FILE_SECTS n) :
    NR_DEFAULT_FILE_SECTS < n := by
  by_contra hle
  have hset := h.marked n (by omega)
  rw [hr.clear n le_rfl (by unfold NR_DEFAULT_FILE_SECTS; omega)] at hset
  cases hset

theorem View.Ok.free_ne (h : w.Ok) (hf : w.Free v n q) : v ≠ 0 ∧ v ≠ ROOT_INODE := by
  obtain ⟨-, hv⟩ := hf.number
  constructor
  · rintro rfl
    exact absurd (hv.symm.trans h.reserved.1) nofun
  · rintro rfl
    exact absurd (hv.symm.trans h.reserved.2) nofun

theorem View.Ok.free_nr (h : w.Ok) (hf : w.Free v n q) (hj : w.Live j) : w.nr j ≠ v := by
  intro he
  have htaken := (h.alloc j hj).2
  rw [he, hf.number.2] at htaken
  cases htaken

theorem View.Ok.free_slot (h : w.Ok) (hf : w.Free v n q) : q ≠ w.root := by
  rintro rfl
  exact h.held hf.slot

/-- nobody has the inode in memory -/
theorem View.Ok.free_num (h : w.Ok) (hf : w.Free v n q) (r : Fin nrInode) (hc : (w.table r).cnt ≠ 0) :
    (w.table r).num ≠ v := by
  intro he
  by_cases hr : r = w.root
  · subst hr
    exact (h.free_ne hf).2 (he.symm.trans h.num)
  · have htaken := (h.memory r hr hc).2.2.1
    rw [he, hf.number.2] at htaken
    cases htaken

/-- the inode is written -/
theorem View.Ok.created_inode (h : w.Ok) (hf : w.Free v n q) :
    ((w.taken v n).put q (.fresh v (n + w.sb.n1stSect - 1))).Ok := by
  have htaken : (w.taken v n).Ok := (h.setImap v).takeRun n NR_DEFAULT_FILE_SECTS
  obtain ⟨h0, -⟩ := h.free_ne hf
  refine htaken.setInode Nat.one_ne_zero ?_ fun j hj he _ => absurd he (h.free_nr (j := j) hf hj)
  exact ⟨h.free_slot hf, ⟨Nat.pos_of_ne_zero h0, hf.number.1⟩, Function.update_self ..,
    fun r _ hc => h.free_num hf r hc⟩

theorem View.put_dir {y : Inode} (hq : q ≠ w.root) : (w.put q y).dir = w.dir :=
  Function.update_of_ne hq.symm _ _

theorem View.created_live {name : Key} (h : w.Ok) (hf : w.Free v n q) (hk : k ≤ w.len) :
    (w.created v n q k name).Live j ↔ j = k ∨ j ≠ k ∧ w.Live j := by
  have hdir : ((w.taken v n).put q (.fresh v (n + w.sb.n1stSect - 1))).dir = w.dir :=
    View.put_dir (h.free_slot hf)
  have hlen : k ≤ ((w.taken v n).put q (.fresh v (n + w.sb.n1stSect - 1))).len := by
    unfold View.len
    rw [hdir]
    exact hk
  refine (View.withEntry_live hlen (h.free_ne hf).1).trans ?_
  unfold View.Live View.len
  rw [hdir]
  rfl

theorem View.created_nr {name : Key} : (w.created v n q k name).nr k = v := by
  have hself : (w.created v n q k name).entry k = (v, name) := Function.update_self ..
  exact congrArg Prod.fst hself

theorem View.created_file (h : w.Ok) (hf : w.Free v n q) (k : Nat) (name : Key) :
    (w.created v n q k name).file k = { Inode.fresh v (n + w.sb.n1stSect - 1) with cnt := 0 } := by
  have hnr : (w.created v n q k name).nr k = v := View.created_nr
  rw [View.file, hnr]
  show Function.update (Function.update w.inode v _) ROOT_INODE _ v = _
  rw [Function.update_of_ne (h.free_ne hf).2, Function.update_self]

/-- **A new file keeps the volume in order.** -/
theorem View.Ok.created (h : w.Ok) (hf : w.Free v n q) (hk : k ≤ w.len) (hlast : k < NR_DIR_ENTRIES)
    (hname : ∀ j, ¬ w.Named f j) : (w.created v n q k (pad f.bytes)).Ok := by
  obtain ⟨h0, hroot⟩ := h.free_ne hf
  have hafter := h.run_after hf.run
  have hfirst := h.sb.n1stSect_eq
  have hdev := hf.device
  have hput := h.created_inode hf
  have hdir : ((w.taken v n).put q (.fresh v (n + w.sb.n1stSect - 1))).dir = w.dir :=
    View.put_dir (h.free_slot hf)
  set w₁ := (w.taken v n).put q (.fresh v (n + w.sb.n1stSect - 1)) with hw1
  have hlive : ∀ j, w₁.Live j ↔ w.Live j := by
    intro j
    unfold View.Live View.len
    rw [hdir]
    rfl
  have hat : w₁.inode v = { Inode.fresh v (n + w.sb.n1stSect - 1) with cnt := 0 } :=
    Function.update_self ..
  have hlen : k ≤ w₁.len := by
    unfold View.len
    rw [hdir]
    exact hk
  refine hput.newEntry hlen hlast h0 hroot hf.number.1 (Function.update_self ..) (fun j hj => ?_)
    (fun j hj he => ?_) ?_ fun j hj hm t ht ht' => ?_
  · exact h.free_nr hf ((hlive j).mp hj)
  · exact hname j ⟨(hlive j).mp hj, he⟩
  · rw [hat]
    refine ⟨?_, hdev, Nat.zero_le _, by show NR_DEFAULT_FILE_SECTS * SECTOR_SIZE < _; decide,
      fun t h1 h2 => ?_⟩
    · show w.sb.n1stSect + NR_DEFAULT_FILE_SECTS ≤ n + w.sb.n1stSect - 1
      omega
    · have h1' : n + w.sb.n1stSect - 1 ≤ t := h1
      have h2' : t < n + w.sb.n1stSect - 1 + NR_DEFAULT_FILE_SECTS := h2
      show Fs.takeRun w.smap n NR_DEFAULT_FILE_SECTS (t + 1 - w.sb.n1stSect) = true
      exact if_pos (by omega)
  · -- the sectors of the other files are marked
    have hj' := (hlive j).mp hj
    have hfile : w₁.file j = w.file j :=
      Function.update_of_ne (h.free_nr hf hj') _ _
    rw [hfile] at hm ht
    rw [hat] at ht'
    have hmarked := (h.placed j hj' hm).marked t ht.1 ht.2
    have h1' : n + w.sb.n1stSect - 1 ≤ t := ht'.1
    have h2' : t < n + w.sb.n1stSect - 1 + NR_DEFAULT_FILE_SECTS := ht'.2
    rw [hf.run.clear _ (by omega) (by omega)] at hmarked
    cases hmarked

theorem View.Ok.created_table (h : w.Ok) (hf : w.Free v n q) (name : Key) :
    (w.created v n q k name).table q = .fresh v (n + w.sb.n1stSect - 1) := by
  show Function.update (Function.update w.table q _) w.root _ q = _
  rw [Function.update_of_ne (h.free_slot hf), Function.update_self]

theorem View.Ok.created_has (h : w.Ok) (hf : w.Free v n q) (hk : k ≤ w.len) (name : Key) :
    (w.created v n q k name).Has q k := by
  have hat := h.created_table hf (k := k) name
  have hnr : (w.created v n q k name).nr k = v := View.created_nr
  refine ⟨h.free_slot hf, ?_, (View.created_live h hf hk).mpr (.inl rfl), ?_, ?_⟩
  · rw [hat]
    exact Nat.one_ne_zero
  · rw [hat, hnr]
    rfl
  · rw [hat]
    rfl

/-- **The files with other names stay.** -/
theorem View.Ok.created_same (h : w.Ok) (hf : w.Free v n q) (hk : k ≤ w.len) (hdead : ¬ w.Live k)
    (hg : g ≠ f) : SameFile 0 g w (w.created v n q k (pad f.bytes)) := by
  have hentry : ∀ j, j ≠ k → (w.created v n q k (pad f.bytes)).entry j = w.entry j :=
    fun j hj => Function.update_of_ne hj _ _
  have hself : (w.created v n q k (pad f.bytes)).entry k = (v, pad f.bytes) := Function.update_self ..
  have hne : ∀ j, w.Named g j → j ≠ k := by
    rintro j hj rfl
    exact hdead hj.live
  have hnr : ∀ j, w.Named g j → (w.created v n q k (pad f.bytes)).nr j = w.nr j :=
    fun j hj => congrArg Prod.fst (hentry j (hne j hj))
  refine ⟨fun j => ?_, hnr, fun j hj hr => ?_, fun _ _ _ _ _ _ _ => rfl⟩
  · constructor
    · rintro ⟨hl, hn⟩
      rcases (View.created_live h hf hk).mp hl with rfl | ⟨hj, hl'⟩
      · rw [hself] at hn
        exact absurd (Name.pad_inj hn).symm hg
      · exact ⟨hl', hentry j hj ▸ hn⟩
    · intro hj
      have hjk := hne j hj
      refine ⟨(View.created_live h hf hk).mpr (.inr ⟨hjk, hj.live⟩), ?_⟩
      rw [hentry j hjk]
      exact hj.name
  · rw [View.file, hnr j hj]
    show Function.update (Function.update w.inode v _) ROOT_INODE _ (w.nr j) = w.inode (w.nr j)
    rw [Function.update_of_ne hr, Function.update_of_ne (h.free_nr hf hj.live)]

end

/-! ## create_file -/

section
variable {s : FsState} {p : Pid} {f : Name} {v n : Nat} {q : Fin nrInode} {fd : Fin nrFiles}
  {x : Fin nrFileDesc} {flags : Nat}

theorem View.Ok.newDirEntry (h : s.view.Ok) (hv : v < 2 ^ 32) (hl : f.bytes.length ≤ 11) :
    ∃ k ≤ s.view.len, k < NR_DIR_ENTRIES ∧ ¬ s.view.Live k ∧
      (newDirEntry s v f.bytes).view = s.view.withEntry k v (pad f.bytes) := by
  obtain ⟨h1, h2⟩ := h.dir_size
  have hfar : s.sb.n1stSect + 2048 < 2 ^ 22 := h.sb.n1stSect_lt
  have hmode : s.root.mode = I_DIRECTORY := h.mode
  have hstart : s.root.startSect = s.sb.n1stSect := h.start
  have hsects : s.root.nrSects = NR_DEFAULT_FILE_SECTS := h.sects
  have hfits : s.root.Fits := by
    refine ⟨?_, by omega, by omega, ?_⟩
    · rw [hmode]
      decide
    · rw [hsects]
      decide
  obtain ⟨k, hk, hlast, hzero, hview⟩ := newDirEntry_view h.sb hstart h.num hfits h.size.2 h.not_full
    (fun k _ hk => h.blank k fun hl => hl.2 (hk hl.1)) hv hl
  exact ⟨k, hk, hlast, fun hlive => hlive.2 (hzero hlive.1), hview⟩

theorem newDirEntry_rest (s : FsState) (v : Nat) (filename : List Byte) :
    (newDirEntry s v filename).filp = s.filp ∧
      (newDirEntry s v filename).fDescTable = s.fDescTable := by
  unfold Fs.newDirEntry
  simp only
  split <;> exact ⟨rfl, rfl⟩

/-- the bits of the sector map -/
theorem View.run_bits (h : s.sb.Ok) (hr : FreeRun s.view.smap NR_DEFAULT_FILE_SECTS n)
    (hn : n + NR_DEFAULT_FILE_SECTS ≤ s.sb.nrSmapSects * 4096) :
    FreeRun (mapBit s.disk s.sb.smapBase) NR_DEFAULT_FILE_SECTS n := by
  rw [h.smapBase_eq]
  have hbit : ∀ i, s.view.smap i = (decide (i < s.sb.nrSmapSects * 4096) && mapBit s.disk 3 i) :=
    fun _ => rfl
  refine ⟨fun i hi => ?_, fun i h1 h2 => ?_⟩
  · have hset := hr.before i hi
    rw [hbit, Bool.and_eq_true] at hset
    exact hset.2
  · have hclear := hr.clear i h1 h2
    rwa [hbit, decide_eq_true (by omega), Bool.true_and] at hclear

theorem OnDisk.rest {s' : FsState} (h : OnDisk s s') : s'.sb = s.sb ∧ s'.inodeTable = s.inodeTable ∧
    s'.filp = s.filp ∧ s'.fDescTable = s.fDescTable := by
  unfold OnDisk at h
  generalize s'.disk = d at h
  subst h
  exact ⟨rfl, rfl, rfl, rfl⟩

/-- **The maps**: a number and a run of sectors are taken. -/
theorem View.Ok.takeMaps (h : s.view.Ok) (hbit : ∃ v < 4096, s.view.imap v = false)
    (hrun : FreeRun s.view.smap NR_DEFAULT_FILE_SECTS n)
    (hdev : n + s.sb.n1stSect - 1 + NR_DEFAULT_FILE_SECTS ≤ s.sb.nrSects) :
    ∃ v s₁ s₂, allocImapBit s = some (v, s₁) ∧
      allocSmapBit s₁ NR_DEFAULT_FILE_SECTS = some (n + s.sb.n1stSect - 1, s₂) ∧ v < 4096 ∧
      s.view.imap v = false ∧ s₂.view = s.view.taken v n ∧ OnDisk s s₂ := by
  have hsmap : s.sb.nrSmapSects = s.sb.nrSects / 4096 + 1 := h.sb.smap
  have hfirst : s.sb.n1stSect = 259 + s.sb.nrSmapSects := h.sb.n1stSect_eq
  have hsects : s.sb.nrSects < 2 ^ 28 := h.sb.sects
  have hnlt : n + NR_DEFAULT_FILE_SECTS ≤ s.sb.nrSmapSects * 4096 := by omega
  have himap : s.sb.nrImapSects ≠ 0 := by
    rw [show s.sb.nrImapSects = 1 from h.sb.imap]
    decide
  obtain ⟨v₀, hv₀, hclear⟩ := hbit
  have hclear' : mapBit s.disk 2 v₀ = false := by
    have hb : (decide (v₀ < 4096) && mapBit s.disk 2 v₀) = false := hclear
    rwa [decide_eq_true hv₀, Bool.true_and] at hb
  obtain ⟨v, hv, hvbit, halloc⟩ := allocImapBit_bit himap hv₀ hclear'
  have hview1 := putBit_view (s := s) h.sb hv
  obtain ⟨-, hdisk⟩ := allocImapBit_onDisk halloc
  have hbase : ({ s with disk := putBit s.disk 2 true v } : FsState).sb.smapBase = 3 :=
    h.sb.smapBase_eq
  generalize ({ s with disk := putBit s.disk 2 true v } : FsState) = s₁ at *
  have hsb1 : s₁.sb = s.sb := hdisk.rest.1
  have hrun1 : FreeRun s₁.view.smap NR_DEFAULT_FILE_SECTS n := by
    rw [hview1]
    exact hrun
  have hok1 : s₁.sb.Ok := hsb1 ▸ h.sb
  have hnlt1 : n + NR_DEFAULT_FILE_SECTS ≤ s₁.sb.nrSmapSects * 4096 := by rwa [hsb1]
  have halloc' := allocSmapBit_bits (s := s₁) (by rw [hsb1]; omega) (by decide)
    (by rw [hbase, hsb1]; omega) (View.run_bits hok1 hrun1 hnlt1) hnlt1
  have hbits := putBits_view (s := s₁) (k := n) (n := NR_DEFAULT_FILE_SECTS) hok1 hnlt1
  rw [hsb1] at halloc'
  rw [hsb1, hview1] at hbits
  refine ⟨v, s₁, _, halloc, halloc', hv, ?_, hbits, hdisk.trans (allocSmapBit_onDisk halloc')⟩
  show (decide (v < 4096) && mapBit s.disk 2 v) = false
  rw [hvbit, Bool.and_false]

/-- the new inode, once its number and its sectors are taken -/
theorem View.Ok.newInode {s₂ : FsState} (h : s.view.Ok) (hv : v < 4096 ∧ s.view.imap v = false)
    (hrun : FreeRun s.view.smap NR_DEFAULT_FILE_SECTS n)
    (hdev : n + s.sb.n1stSect - 1 + NR_DEFAULT_FILE_SECTS ≤ s.sb.nrSects)
    (hfree : ∃ r, (s.inodeTable r).cnt = 0) (hview : s₂.view = s.view.taken v n)
    (htab : s₂.inodeTable = s.inodeTable) :
    ∃ q s', newInode s₂ v (n + s.sb.n1stSect - 1) = some (q, s') ∧ s.view.Free v n q ∧
      s'.view = (s.view.taken v n).put q (.fresh v (n + s.sb.n1stSect - 1)) ∧ s'.filp = s₂.filp ∧
      s'.fDescTable = s₂.fDescTable ∧ (s'.inodeTable q).num = v := by
  have hsects : s.sb.nrSects < 2 ^ 28 := h.sb.sects
  have hok2 : s₂.view.Ok := by
    rw [hview]
    exact (h.setImap v).takeRun n NR_DEFAULT_FILE_SECTS
  have h0 : v ≠ 0 := by
    rintro rfl
    exact absurd (hv.2.symm.trans h.reserved.1) nofun
  have hroot : v ≠ ROOT_INODE := by
    rintro rfl
    exact absurd (hv.2.symm.trans h.reserved.2) nofun
  have htaken : s₂.view.imap v = true := by
    rw [hview]
    exact Function.update_self ..
  obtain ⟨q, hget, -, hcached⟩ := hok2.getInode ⟨Nat.pos_of_ne_zero h0, hv.1⟩ hroot htaken
    (by rw [htab]; exact hfree)
  -- no slot has the number yet
  have hslot : (s.inodeTable q).cnt = 0 := by
    by_contra hc
    have hnum : (s.inodeTable q).num = v := by
      rw [htab] at hcached
      exact hcached hc
    by_cases hq : q = s.rootInode
    · rw [hq] at hnum
      exact hroot (hnum.symm.trans h.num)
    · have htaken' : s.view.imap (s.inodeTable q).num = true := (h.memory q hq hc).2.2.1
      rw [hnum, hv.2] at htaken'
      cases htaken'
  set y := Inode.fresh v (n + s.sb.n1stSect - 1) with hy
  have hat : (s₂.setInode q fun _ => y).inodeTable q = y := Function.update_self ..
  have hsync := syncInode_view (s := s₂.setInode q fun _ => y) (q := q) hok2.sb
    (by rw [hat]; exact ⟨Nat.pos_of_ne_zero h0, hv.1.le⟩)
    (by rw [hat]; exact Inode.fresh_fits (by omega))
  rw [hat, setInode_view, htab, hview] at hsync
  refine ⟨q, syncInode (s₂.setInode q fun _ => y) q, ?_, ⟨hv, hrun, hdev, hslot⟩, hsync, rfl, rfl,
    congrArg Inode.num hat⟩
  have htwice : (s₂.setInode q fun _ => s₂.inodeAs v ((s₂.inodeTable q).cnt + 1)).setInode q
      (fun _ => y) = s₂.setInode q fun _ => y := by
    unfold FsState.setInode
    simp only [Function.update_idem]
  unfold Fs.newInode
  rw [if_neg h0, hget, Option.map_some]
  exact congrArg (fun t => some (q, syncInode t q)) htwice

/-- **`create_file` makes a file** where there is room. -/
theorem View.Ok.createFile (h : s.view.Ok) (hl : f.bytes.length ≤ 11)
    (hbit : ∃ v < 4096, s.view.imap v = false) (hrun : FreeRun s.view.smap NR_DEFAULT_FILE_SECTS n)
    (hdev : n + s.sb.n1stSect - 1 + NR_DEFAULT_FILE_SECTS ≤ s.sb.nrSects)
    (hfree : ∃ r, (s.inodeTable r).cnt = 0) (rooted : Bool) :
    ∃ v q k s', createFile s (f.path rooted) = some (some q, s') ∧ s.view.Free v n q ∧
      k ≤ s.view.len ∧ k < NR_DIR_ENTRIES ∧ ¬ s.view.Live k ∧
      s'.view = s.view.created v n q k (pad f.bytes) ∧ s'.filp = s.filp ∧
      s'.fDescTable = s.fDescTable := by
  obtain ⟨v, s₁, s₂, halloc, halloc', hv, hvfree, hview2, hdisk⟩ := h.takeMaps hbit hrun hdev
  obtain ⟨-, htab, hfilp, hdesc⟩ := hdisk.rest
  obtain ⟨q, s₃, hnew, hf, hview3, hfilp3, hdesc3, hnum⟩ :=
    h.newInode ⟨hv, hvfree⟩ hrun hdev hfree hview2 htab
  -- the entry
  have hok3 : s₃.view.Ok := by
    rw [hview3]
    exact h.created_inode hf
  obtain ⟨k, hk, hlast, hdead, hentry⟩ := hok3.newDirEntry (v := v) (by omega) hl
  have hdir : s₃.view.dir = s.view.dir := by
    rw [hview3]
    exact View.put_dir (h.free_slot hf)
  refine ⟨v, q, k, Fs.newDirEntry s₃ v f.bytes, ?_, hf, ?_, hlast, ?_, ?_, ?_, ?_⟩
  · unfold Fs.createFile
    simp only [f.stripPath_path, halloc, Option.bind_eq_bind, Option.bind_some, halloc', hnew, hnum]
  · unfold View.len at hk ⊢
    rwa [hdir] at hk
  · unfold View.Live View.len at hdead ⊢
    rw [hdir, hview3] at hdead
    exact hdead
  · rw [hentry, hview3]
    rfl
  · exact (newDirEntry_rest s₃ v f.bytes).1.trans (hfilp3.trans hfilp)
  · exact (newDirEntry_rest s₃ v f.bytes).2.trans (hdesc3.trans hdesc)

/-- **OPEN makes a file**, whatever the other flags are. -/
theorem View.Ok.doOpen_created (h : s.view.Ok) (hl : f.bytes.length ≤ 11)
    (hnone : ∀ k, ¬ s.view.Named f k) (hbit : ∃ v < 4096, s.view.imap v = false)
    (hrun : FreeRun s.view.smap NR_DEFAULT_FILE_SECTS n)
    (hdev : n + s.sb.n1stSect - 1 + NR_DEFAULT_FILE_SECTS ≤ s.sb.nrSects)
    (hfree : ∃ r, (s.inodeTable r).cnt = 0) (hfd : freeFilp s p = some fd) (hx : freeFDesc s = some x)
    (hflags : flags &&& O_CREAT ≠ 0) (rooted : Bool) :
    ∃ v q k s₁, doOpen s p (f.path rooted) flags =
        some (some fd, connect (truncate s₁ flags q) p fd x flags q) ∧
      Finished s₁ (connect (truncate s₁ flags q) p fd x flags q) p fd x flags q k ∧
      s.view.Free v n q ∧ k ≤ s.view.len ∧ ¬ s.view.Live k ∧
      (s.view.created v n q k (pad f.bytes)).Ok ∧
      s₁.view = s.view.created v n q k (pad f.bytes) ∧ s₁.filp = s.filp ∧
      s₁.fDescTable = s.fDescTable := by
  obtain ⟨v, q, k, s₁, hcreate, hf, hk, hlast, hdead, hview, hfilp, hdesc⟩ :=
    h.createFile hl hbit hrun hdev hfree rooted
  have hok : s₁.view.Ok := by
    rw [hview]
    exact h.created hf hk hlast hnone
  have hhas : s₁.view.Has q k := by
    rw [hview]
    exact h.created_has hf hk _
  have hfin := hok.finished hhas p fd x flags
  refine ⟨v, q, k, s₁, ?_, hfin, hf, hk, hdead, hview ▸ hok, hview, hfilp, hdesc⟩
  have hsearch : searchFile s (f.path rooted) = INVALID_INODE :=
    h.search_none (fun j hj he => hnone j ⟨hj, he⟩) rooted
  unfold doOpen
  rw [if_neg (Nat.not_le.mpr (f.path_length rooted))]
  simp only [f.cString_path, hfd, hx, hsearch, if_true]
  rw [if_pos hflags, hcreate]
  exact if_pos (openable_regular hfin.has.mode)

/-- `open(…, O_CREAT | O_RDWR | O_TRUNC)` -/
def EMPTY : Nat := O_CREAT ||| O_RDWR ||| O_TRUNC

/-- **OPEN makes an empty file.** -/
theorem View.Ok.doOpen_fresh (h : s.view.Ok) (hl : f.bytes.length ≤ 11)
    (hnone : ∀ k, ¬ s.view.Named f k) (hbit : ∃ v < 4096, s.view.imap v = false)
    (hrun : FreeRun s.view.smap NR_DEFAULT_FILE_SECTS n)
    (hdev : n + s.sb.n1stSect - 1 + NR_DEFAULT_FILE_SECTS ≤ s.sb.nrSects)
    (hfree : ∃ r, (s.inodeTable r).cnt = 0) (hfd : freeFilp s p = some fd) (hx : freeFDesc s = some x)
    (rooted : Bool) :
    ∃ v q k s', doOpen s p (f.path rooted) EMPTY = some (some fd, s') ∧
      Opens s s' p fd x EMPTY q k ∧ s.view.Free v n q ∧ k ≤ s.view.len ∧ ¬ s.view.Live k ∧
      (s.view.created v n q k (pad f.bytes)).Ok ∧
      View.Only q k (s.view.created v n q k (pad f.bytes)) s'.view := by
  obtain ⟨v, q, k, s₁, hopen, hfin, hf, hk, hdead, hok, hview, hfilp, hdesc⟩ :=
    h.doOpen_created hl hnone hbit hrun hdev hfree hfd hx (show EMPTY &&& O_CREAT ≠ 0 by decide) rooted
  have hroot : s₁.rootInode = s.rootInode := congrArg View.root hview
  have htab : ∀ r, r ≠ s.rootInode → s₁.inodeTable r =
      Function.update s.inodeTable q (.fresh v (n + s.sb.n1stSect - 1)) r := by
    intro r hr
    rw [show s₁.inodeTable = _ from congrArg View.table hview]
    exact Function.update_of_ne hr _ _
  have hdir : (s₁.inodeTable s.rootInode).cnt = (s.inodeTable s.rootInode).cnt := by
    have hput : ((s.view.taken v n).put q (.fresh v (n + s.sb.n1stSect - 1))).dir = s.view.dir :=
      View.put_dir (h.free_slot hf)
    have hat := View.withEntry_dir ((s.view.taken v n).put q (.fresh v (n + s.sb.n1stSect - 1))) k v
      (pad f.bytes)
    rw [show s₁.inodeTable = _ from congrArg View.table hview]
    refine (congrArg Inode.cnt hat).trans ?_
    rw [hput]
    rfl
  have hq : q ≠ s.rootInode := h.free_slot hf
  refine ⟨v, q, k, connect (truncate s₁ EMPTY q) p fd x EMPTY q, hopen, ?_, hf, hk, hdead, hok,
    hview ▸ hfin.only⟩
  refine ⟨hfin.ok, hfin.has, ?_, ?_, ?_, hfin.size, ⟨hfin.only.root.trans hroot, ?_⟩,
    fun r hr hr' => ?_,
    fun hc => absurd hc (by decide), fun hc => absurd hf.slot hc⟩
  · rw [hfin.filp, hfilp]
  · rw [hfin.desc, hdesc]
  · rw [hfin.cnt, htab q hq, Function.update_self, show (s.inodeTable q).cnt = 0 from hf.slot]
    rfl
  · have hroot' := hfin.only.table s.rootInode hq.symm
    exact (congrArg Inode.cnt hroot').trans hdir
  · have hother : (connect (truncate s₁ EMPTY q) p fd x EMPTY q).inodeTable r = s₁.inodeTable r :=
      hfin.only.table r hr
    rw [hother, htab r hr', Function.update_of_ne hr]

end

end Noxis.Fs
