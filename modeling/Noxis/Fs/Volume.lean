import Mathlib.Data.Fintype.Card
import Noxis.Fs.NewEntry

/-!
# Volumes in order

* `View.Ok`            what holds of a file system in order: names and numbers are used once, what is
                       in use is marked in the maps, and no two files share a sector
* `View.Ok.setInode`   an inode changes
* `View.Ok.newEntry`   a file gets a name
-/

namespace Noxis.Fs

section
variable (w : View)

/-- the inode of `/` -/
def View.dir : Inode := w.table w.root

/-- `nr_dir_entries` -/
def View.len : Nat := w.dir.size / DIR_ENTRY_SIZE

/-- the number of entry `k` -/
def View.nr (k : Nat) : Nat := (w.entry k).1

/-- entry `k` is in use -/
def View.Live (k : Nat) : Prop := k < w.len ∧ w.nr k ≠ 0

/-- the inode of entry `k` -/
def View.file (k : Nat) : Inode := w.inode (w.nr k)

end

/-- a regular file lies behind the directory on the device, its size within its sectors, and these are
marked in the map -/
structure View.Placed (w : View) (p : Inode) : Prop where
  first : w.sb.n1stSect + NR_DEFAULT_FILE_SECTS ≤ p.startSect
  last : p.startSect + p.nrSects ≤ w.sb.nrSects
  size : p.size ≤ p.nrSects * SECTOR_SIZE
  int : p.nrSects * SECTOR_SIZE < 2 ^ 31
  marked : ∀ t, p.startSect ≤ t → t < p.startSect + p.nrSects → w.smap (t + 1 - w.sb.n1stSect) = true

/-- sector `t` is one of the file's -/
def Inode.Covers (p : Inode) (t : Nat) : Prop := p.startSect ≤ t ∧ t < p.startSect + p.nrSects

/-- two files share no sector -/
def Apart (p p' : Inode) : Prop := ∀ t, p.Covers t → ¬ p'.Covers t

/-- **a file system in order** -/
structure View.Ok (w : View) : Prop where
  sb : w.sb.Ok
  held : w.dir.cnt ≠ 0
  num : w.dir.num = ROOT_INODE
  mode : w.dir.mode = I_DIRECTORY
  start : w.dir.startSect = w.sb.n1stSect
  sects : w.dir.nrSects = NR_DEFAULT_FILE_SECTS
  size : w.dir.size % DIR_ENTRY_SIZE = 0 ∧ w.len ≤ NR_DIR_ENTRIES
  /-- free directory bytes are zero -/
  blank : ∀ k, ¬ w.Live k → w.entry k = blankEntry
  names : ∀ j k, w.Live j → w.Live k → (w.entry j).2 = (w.entry k).2 → j = k
  nums : ∀ j k, w.Live j → w.Live k → w.nr j = w.nr k → j = k
  alloc : ∀ k, w.Live k → w.nr k < 4096 ∧ w.imap (w.nr k) = true
  reserved : w.imap 0 = true ∧ w.imap ROOT_INODE = true
  /-- what is in memory is on the disk -/
  memory : ∀ q, q ≠ w.root → (w.table q).cnt ≠ 0 →
    1 ≤ (w.table q).num ∧ (w.table q).num < 4096 ∧ w.imap (w.table q).num = true ∧
      w.inode (w.table q).num = { w.table q with cnt := 0 }
  single : ∀ q r, (w.table q).cnt ≠ 0 → (w.table r).cnt ≠ 0 → (w.table q).num = (w.table r).num → q = r
  marked : ∀ k ≤ NR_DEFAULT_FILE_SECTS, w.smap k = true
  placed : ∀ k, w.Live k → (w.file k).mode = I_REGULAR → w.Placed (w.file k)
  apart : ∀ j k, w.Live j → w.Live k → j ≠ k → (w.file j).mode = I_REGULAR →
    (w.file k).mode = I_REGULAR → Apart (w.file j) (w.file k)

section
variable {w : View} {q : Fin nrInode} {k v n f : Nat} {y p : Inode} {d : Disk}

/-! ## maps and data -/

/-- a map with more bits set will do -/
theorem View.Placed.mono {w' : View} (h : w.Placed p) (hsb : w'.sb = w.sb)
    (hmap : ∀ i, w.smap i = true → w'.smap i = true) : w'.Placed p := by
  refine ⟨?_, ?_, h.size, h.int, fun t h1 h2 => hmap _ ?_⟩
  · rw [hsb]
    exact h.first
  · rw [hsb]
    exact h.last
  · rw [hsb]
    exact h.marked t h1 h2

/-- another size within the same sectors will do -/
theorem View.Placed.resize {p' : Inode} (h : w.Placed p) (hstart : p'.startSect = p.startSect)
    (hsects : p'.nrSects = p.nrSects) (hsize : p'.size ≤ p'.nrSects * SECTOR_SIZE) :
    w.Placed p' := by
  refine ⟨?_, ?_, hsize, ?_, fun t h1 h2 => ?_⟩
  · rw [hstart]
    exact h.first
  · rw [hstart, hsects]
    exact h.last
  · rw [hsects]
    exact h.int
  · rw [hstart] at h1 h2
    rw [hsects] at h2
    exact h.marked t h1 h2

theorem View.Ok.setData (h : w.Ok) (d : Disk) : View.Ok { w with data := d } :=
  ⟨h.sb, h.held, h.num, h.mode, h.start, h.sects, h.size, h.blank, h.names, h.nums, h.alloc,
    h.reserved, h.memory, h.single, h.marked,
    fun k hk hm => (h.placed k hk hm).mono rfl fun _ hi => hi, h.apart⟩

/-- a number more is taken -/
theorem View.Ok.setImap (h : w.Ok) (v : Nat) :
    View.Ok { w with imap := Function.update w.imap v true } := by
  have hmono : ∀ u, w.imap u = true → Function.update w.imap v true u = true := by
    intro u hu
    by_cases huv : u = v
    · rw [huv, Function.update_self]
    · rw [Function.update_of_ne huv, hu]
  refine ⟨h.sb, h.held, h.num, h.mode, h.start, h.sects, h.size, h.blank, h.names, h.nums,
    fun k hk => ?_, ⟨hmono _ h.reserved.1, hmono _ h.reserved.2⟩, fun q hq hc => ?_, h.single,
    h.marked, fun k hk hm => (h.placed k hk hm).mono rfl fun _ hi => hi, h.apart⟩
  · obtain ⟨h1, h2⟩ := h.alloc k hk
    exact ⟨h1, hmono _ h2⟩
  · obtain ⟨h1, h2, h3, h4⟩ := h.memory q hq hc
    exact ⟨h1, h2, hmono _ h3, h4⟩

/-- the map with `n` sectors more -/
def takeRun (bit : Nat → Bool) (f n : Nat) : Nat → Bool := fun i =>
  if f ≤ i ∧ i < f + n then true else bit i

theorem takeRun_mono {bit : Nat → Bool} {i : Nat} (h : bit i = true) : takeRun bit f n i = true := by
  unfold takeRun
  rw [h, ite_self]

theorem View.Ok.takeRun (h : w.Ok) (f n : Nat) : View.Ok { w with smap := takeRun w.smap f n } :=
  ⟨h.sb, h.held, h.num, h.mode, h.start, h.sects, h.size, h.blank, h.names, h.nums, h.alloc,
    h.reserved, h.memory, h.single, fun k hk => takeRun_mono (h.marked k hk),
    fun k hk hm => (h.placed k hk hm).mono rfl fun _ hi => takeRun_mono hi, h.apart⟩

/-! ## inodes -/

/-- an inode in memory, of another file than `/` -/
structure View.InMemory (w : View) (q : Fin nrInode) (y : Inode) : Prop where
  other : q ≠ w.root
  num : 1 ≤ y.num ∧ y.num < 4096
  taken : w.imap y.num = true
  only : ∀ r, r ≠ q → (w.table r).cnt ≠ 0 → (w.table r).num ≠ y.num

theorem View.Ok.tableSingle (h : w.Ok) (hy : y.cnt ≠ 0 → w.InMemory q y) (r r' : Fin nrInode)
    (hr : (Function.update w.table q y r).cnt ≠ 0) (hr' : (Function.update w.table q y r').cnt ≠ 0)
    (hn : (Function.update w.table q y r).num = (Function.update w.table q y r').num) : r = r' := by
  by_cases h1 : r = q
  · by_cases h2 : r' = q
    · rw [h1, h2]
    · rw [h1, Function.update_self] at hr
      rw [h1, Function.update_self, Function.update_of_ne h2] at hn
      rw [Function.update_of_ne h2] at hr'
      exact absurd hn.symm ((hy hr).only r' h2 hr')
  · by_cases h2 : r' = q
    · rw [h2, Function.update_self] at hr'
      rw [h2, Function.update_self, Function.update_of_ne h1] at hn
      rw [Function.update_of_ne h1] at hr
      exact absurd hn ((hy hr').only r h1 hr)
    · rw [Function.update_of_ne h1] at hr hn
      rw [Function.update_of_ne h2] at hr' hn
      exact h.single r r' hr hr' hn

/-- the sectors of a file are where they were, and its size is within them -/
structure SameSectors (p p' : Inode) : Prop where
  mode : p.mode = I_REGULAR
  start : p'.startSect = p.startSect
  sects : p'.nrSects = p.nrSects
  size : p'.size ≤ p'.nrSects * SECTOR_SIZE

theorem SameSectors.apart {p' p₁ p₁' : Inode} (h : p'.startSect = p.startSect ∧ p'.nrSects = p.nrSects)
    (h₁ : p₁'.startSect = p₁.startSect ∧ p₁'.nrSects = p₁.nrSects) (ha : Apart p p₁) :
    Apart p' p₁' := by
  unfold Apart Inode.Covers at ha ⊢
  rw [h.1, h.2, h₁.1, h₁.2]
  exact ha

/-- **An inode changes**, in memory and on the disk. -/
theorem View.Ok.setFile (h : w.Ok) (hq : q ≠ w.root) {g : Nat → Inode}
    (hy : y.cnt ≠ 0 → w.InMemory q y ∧ g y.num = { y with cnt := 0 })
    (hother : ∀ u, u ≠ y.num ∨ y.cnt = 0 → g u = w.inode u)
    (hfile : ∀ k, w.Live k → w.nr k = y.num → y.cnt ≠ 0 → y.mode = I_REGULAR →
      SameSectors (w.file k) y) :
    View.Ok { w with table := Function.update w.table q y, inode := g } := by
  have hdir : View.dir { w with table := Function.update w.table q y, inode := g } = w.dir :=
    Function.update_of_ne hq.symm _ _
  have hlive : ∀ k, View.Live { w with table := Function.update w.table q y, inode := g } k ↔
      w.Live k := by
    intro k
    unfold View.Live View.len
    rw [hdir]
    rfl
  -- the files that are there
  have hsame : ∀ k, w.Live k → (g (w.nr k)).mode = I_REGULAR →
      (w.file k).mode = I_REGULAR ∧ (g (w.nr k)).startSect = (w.file k).startSect ∧
        (g (w.nr k)).nrSects = (w.file k).nrSects ∧
        (g (w.nr k)).size ≤ (g (w.nr k)).nrSects * SECTOR_SIZE := by
    intro k hk hm
    by_cases hn : w.nr k = y.num ∧ y.cnt ≠ 0
    · rw [hn.1, (hy hn.2).2] at hm ⊢
      have hs := hfile k hk hn.1 hn.2 hm
      exact ⟨hs.mode, hs.start, hs.sects, hs.size⟩
    · have hg : g (w.nr k) = w.file k := by
        refine hother _ ?_
        by_cases hu : w.nr k = y.num
        · exact .inr (not_not.mp fun hc => hn ⟨hu, hc⟩)
        · exact .inl hu
      rw [hg] at hm ⊢
      exact ⟨hm, rfl, rfl, (h.placed k hk hm).size⟩
  refine ⟨h.sb, ?_, ?_, ?_, ?_, ?_, ?_, fun k hk => ?_, fun j k hj hk => ?_, fun j k hj hk => ?_,
    fun k hk => ?_, h.reserved, fun r hr hc => ?_, h.tableSingle fun hc => (hy hc).1, h.marked,
    fun k hk hm => ?_, fun j k hj hk hne hm hm' => ?_⟩
  · rw [hdir]
    exact h.held
  · rw [hdir]
    exact h.num
  · rw [hdir]
    exact h.mode
  · rw [hdir]
    exact h.start
  · rw [hdir]
    exact h.sects
  · unfold View.len
    rw [hdir]
    exact h.size
  · exact h.blank k fun hl => hk ((hlive k).mpr hl)
  · exact h.names j k ((hlive j).mp hj) ((hlive k).mp hk)
  · exact h.nums j k ((hlive j).mp hj) ((hlive k).mp hk)
  · exact h.alloc k ((hlive k).mp hk)
  · show _ ∧ _ ∧ _ ∧ g (Function.update w.table q y r).num = _
    simp only at hc
    by_cases hrq : r = q
    · subst hrq
      simp only [Function.update_self] at hc ⊢
      obtain ⟨hm, hg⟩ := hy hc
      exact ⟨hm.num.1, hm.num.2, hm.taken, hg⟩
    · simp only [Function.update_of_ne hrq] at hc ⊢
      obtain ⟨h1, h2, h3, h4⟩ := h.memory r hr hc
      refine ⟨h1, h2, h3, ?_⟩
      rw [hother, h4]
      by_cases hyc : y.cnt = 0
      · exact .inr hyc
      · exact .inl ((hy hyc).1.only r hrq hc)
  · have hk := (hlive k).mp hk
    obtain ⟨hm0, h1, h2, h3⟩ := hsame k hk hm
    have hp : w.Placed (g (w.nr k)) := (h.placed k hk hm0).resize h1 h2 h3
    exact hp.mono rfl fun _ hi => hi
  · obtain ⟨hm0, h1, h2, -⟩ := hsame j ((hlive j).mp hj) hm
    obtain ⟨hm0', h1', h2', -⟩ := hsame k ((hlive k).mp hk) hm'
    exact SameSectors.apart ⟨h1, h2⟩ ⟨h1', h2'⟩
      (h.apart j k ((hlive j).mp hj) ((hlive k).mp hk) hne hm0 hm0')

/-- a slot of the table changes -/
theorem View.Ok.setTable (h : w.Ok) (hq : q ≠ w.root)
    (hy : y.cnt ≠ 0 → w.InMemory q y ∧ w.inode y.num = { y with cnt := 0 }) :
    View.Ok { w with table := Function.update w.table q y } := by
  refine h.setFile hq hy (fun _ _ => rfl) fun k hk hn hc hm => ?_
  have hfile : w.file k = { y with cnt := 0 } := by
    rw [View.file, hn, (hy hc).2]
  have hreg : (w.file k).mode = I_REGULAR := by
    rw [hfile]
    exact hm
  have hp := h.placed k hk hreg
  rw [hfile] at hp ⊢
  exact ⟨hm, rfl, rfl, hp.size⟩

/-- an inode in use is written -/
theorem View.Ok.setInode (h : w.Ok) (hc : y.cnt ≠ 0) (hy : w.InMemory q y)
    (hfile : ∀ k, w.Live k → w.nr k = y.num → y.mode = I_REGULAR → SameSectors (w.file k) y) :
    View.Ok { w with table := Function.update w.table q y
                     inode := Function.update w.inode y.num { y with cnt := 0 } } := by
  refine h.setFile hy.other (fun _ => ⟨hy, Function.update_self ..⟩) (fun u hu => ?_)
    fun k hk hn _ hm => hfile k hk hn hm
  exact Function.update_of_ne (hu.resolve_right hc) _ _

/-! ## a new entry -/

theorem Apart.symm {p p' : Inode} (h : Apart p p') : Apart p' p := fun t ht ht' => h t ht' ht

/-- the view with entry `k` written -/
def View.withEntry (w : View) (k v : Nat) (name : Key) : View :=
  { w with
    table := Function.update w.table w.root { w.dir with size := sizeWith w.dir k }
    inode := Function.update w.inode ROOT_INODE { w.dir with size := sizeWith w.dir k, cnt := 0 }
    entry := Function.update w.entry k (v, name) }

theorem View.withEntry_dir (w : View) (k v : Nat) (name : Key) :
    (w.withEntry k v name).dir = { w.dir with size := sizeWith w.dir k } := Function.update_self ..

theorem View.withEntry_len {name : Key} :
    (w.withEntry k v name).len = if k < w.len then w.len else w.len + 1 := by
  show (w.withEntry k v name).dir.size / DIR_ENTRY_SIZE = _
  rw [View.withEntry_dir]
  show (if k < w.len then w.dir.size else w.dir.size + DIR_ENTRY_SIZE) / DIR_ENTRY_SIZE = _
  by_cases hlt : k < w.len
  · rw [if_pos hlt, if_pos hlt]
    rfl
  · rw [if_neg hlt, if_neg hlt]
    exact Nat.add_div_right _ (by decide)

theorem View.withEntry_live {name : Key} {j : Nat} (hk : k ≤ w.len) (hv : v ≠ 0) :
    (w.withEntry k v name).Live j ↔ j = k ∨ j ≠ k ∧ w.Live j := by
  unfold View.Live
  rw [View.withEntry_len]
  have hnr : (w.withEntry k v name).nr j = if j = k then v else w.nr j := by
    show (Function.update w.entry k (v, name) j).1 = _
    by_cases hj : j = k
    · rw [hj, Function.update_self, if_pos rfl]
    · rw [Function.update_of_ne hj, if_neg hj]
      rfl
  rw [hnr]
  by_cases hj : j = k
  · rw [if_pos hj]
    refine iff_of_true ⟨?_, hv⟩ (.inl hj)
    split <;> omega
  · rw [if_neg hj]
    constructor
    · rintro ⟨hlt, hne⟩
      refine .inr ⟨hj, ?_, hne⟩
      split at hlt <;> omega
    · rintro (he | ⟨-, hlt, hne⟩)
      · exact absurd he hj
      · refine ⟨?_, hne⟩
        split <;> omega

/-- what sets the new entry apart from the others sets apart all of them -/
theorem View.withEntry_pair {name : Key} {P : Nat → Nat → Prop} (hk : k ≤ w.len) (hv : v ≠ 0)
    (hnew : ∀ j, j ≠ k → w.Live j → P k j ∧ P j k)
    (hold : ∀ i j, i ≠ k → j ≠ k → i ≠ j → w.Live i → w.Live j → P i j) {i j : Nat}
    (hi : (w.withEntry k v name).Live i) (hj : (w.withEntry k v name).Live j) (hne : i ≠ j) :
    P i j := by
  rcases (View.withEntry_live hk hv).mp hi with rfl | ⟨hik, hli⟩
  · rcases (View.withEntry_live hk hv).mp hj with rfl | ⟨hjk, hlj⟩
    · exact absurd rfl hne
    · exact (hnew j hjk hlj).1
  · rcases (View.withEntry_live hk hv).mp hj with rfl | ⟨hjk, hlj⟩
    · exact (hnew i hik hli).2
    · exact hold i j hik hjk hne hli hlj

/-- the slots have the numbers that they had -/
theorem View.withEntry_slot {name : Key} (r : Fin nrInode) :
    ((w.withEntry k v name).table r).cnt = (w.table r).cnt ∧
      ((w.withEntry k v name).table r).num = (w.table r).num := by
  by_cases hr : r = w.root
  · subst hr
    have hat : (w.withEntry k v name).table w.root = { w.dir with size := sizeWith w.dir k } :=
      Function.update_self ..
    rw [hat]
    exact ⟨rfl, rfl⟩
  · have hat : (w.withEntry k v name).table r = w.table r := Function.update_of_ne hr _ _
    rw [hat]
    exact ⟨rfl, rfl⟩

/-- a regular file is not `/`, and keeps its inode -/
theorem View.Ok.withEntry_file {name : Key} {j : Nat} (h : w.Ok) (hj : j ≠ k)
    (hm : ((w.withEntry k v name).file j).mode = I_REGULAR) :
    (w.withEntry k v name).file j = w.file j := by
  have hnr : (w.withEntry k v name).nr j = w.nr j :=
    congrArg Prod.fst (Function.update_of_ne hj _ _)
  rw [View.file, hnr] at hm ⊢
  refine Function.update_of_ne (fun he => ?_) _ _
  have hat : ((w.withEntry k v name).inode ROOT_INODE).mode = w.dir.mode := by
    unfold View.withEntry
    simp only [Function.update_self]
  rw [he, hat, h.mode] at hm
  exact absurd hm (by decide)

/-- **A file gets a name** that no other file has. -/
theorem View.Ok.newEntry {name : Key} (h : w.Ok) (hk : k ≤ w.len) (hlast : k < NR_DIR_ENTRIES)
    (hv : v ≠ 0) (hroot : v ≠ ROOT_INODE) (hlt : v < 4096) (htaken : w.imap v = true)
    (hnum : ∀ j, w.Live j → w.nr j ≠ v) (hname : ∀ j, w.Live j → (w.entry j).2 ≠ name)
    (hp : w.Placed (w.inode v))
    (hap : ∀ j, w.Live j → (w.file j).mode = I_REGULAR → Apart (w.file j) (w.inode v)) :
    (w.withEntry k v name).Ok := by
  have hdir := View.withEntry_dir w k v name
  have hlive : ∀ j, (w.withEntry k v name).Live j ↔ j = k ∨ j ≠ k ∧ w.Live j :=
    fun j => View.withEntry_live hk hv
  have hself : (w.withEntry k v name).entry k = (v, name) := Function.update_self ..
  have hother : ∀ j, j ≠ k → (w.withEntry k v name).entry j = w.entry j :=
    fun j hj => Function.update_of_ne hj _ _
  have hnr : (w.withEntry k v name).nr k = v := congrArg Prod.fst hself
  have hnr' : ∀ j, j ≠ k → (w.withEntry k v name).nr j = w.nr j :=
    fun j hj => congrArg Prod.fst (hother j hj)
  have hinode : ∀ u, u ≠ ROOT_INODE → (w.withEntry k v name).inode u = w.inode u :=
    fun u hu => Function.update_of_ne hu _ _
  have hfile : (w.withEntry k v name).file k = w.inode v := by
    rw [View.file, hnr, hinode v hroot]
  refine ⟨h.sb, ?_, ?_, ?_, ?_, ?_, ⟨?_, ?_⟩, fun j hj => ?_, fun i j hi hj he => ?_,
    fun i j hi hj he => ?_, fun j hj => ?_, h.reserved, fun q hq hc => ?_, fun q r hq hr he => ?_,
    h.marked, fun j hj hm => ?_, fun i j hi hj hne => ?_⟩
  · rw [hdir]
    exact h.held
  · rw [hdir]
    exact h.num
  · rw [hdir]
    exact h.mode
  · rw [hdir]
    exact h.start
  · rw [hdir]
    exact h.sects
  · rw [hdir]
    show sizeWith w.dir k % DIR_ENTRY_SIZE = 0
    unfold sizeWith
    split
    · exact h.size.1
    · rw [Nat.add_mod_right]
      exact h.size.1
  · rw [View.withEntry_len]
    have hle := h.size.2
    split <;> omega
  · by_cases hjk : j = k
    · exact absurd ((hlive j).mpr (.inl hjk)) hj
    · rw [hother j hjk]
      exact h.blank j fun hl => hj ((hlive j).mpr (.inr ⟨hjk, hl⟩))
  · -- the names
    by_contra hne
    refine View.withEntry_pair (P := fun i j =>
      ((w.withEntry k v name).entry i).2 ≠ ((w.withEntry k v name).entry j).2) hk hv
      (fun j hjk hl => ?_) (fun i j hik hjk hij hli hlj => ?_) hi hj hne he
    · rw [hself, hother j hjk]
      exact ⟨(hname j hl).symm, hname j hl⟩
    · rw [hother i hik, hother j hjk]
      exact fun he => hij (h.names i j hli hlj he)
  · -- the numbers
    by_contra hne
    refine View.withEntry_pair (P := fun i j =>
      (w.withEntry k v name).nr i ≠ (w.withEntry k v name).nr j) hk hv
      (fun j hjk hl => ?_) (fun i j hik hjk hij hli hlj => ?_) hi hj hne he
    · rw [hnr, hnr' j hjk]
      exact ⟨(hnum j hl).symm, hnum j hl⟩
    · rw [hnr' i hik, hnr' j hjk]
      exact fun he => hij (h.nums i j hli hlj he)
  · rcases (hlive j).mp hj with rfl | ⟨hjk, hlj⟩
    · rw [hnr]
      exact ⟨hlt, htaken⟩
    · rw [hnr' j hjk]
      exact h.alloc j hlj
  · have htab : (w.withEntry k v name).table q = w.table q := Function.update_of_ne hq _ _
    rw [htab] at hc ⊢
    obtain ⟨h1, h2, h3, h4⟩ := h.memory q hq hc
    refine ⟨h1, h2, h3, ?_⟩
    rw [hinode, h4]
    intro he
    exact hq (h.single q w.root hc h.held (he.trans h.num.symm))
  · rw [(View.withEntry_slot q).1] at hq
    rw [(View.withEntry_slot r).1] at hr
    rw [(View.withEntry_slot q).2, (View.withEntry_slot r).2] at he
    exact h.single q r hq hr he
  · rcases (hlive j).mp hj with rfl | ⟨hjk, hlj⟩
    · rw [hfile]
      exact hp.mono rfl fun _ hi => hi
    · have hsame := h.withEntry_file hjk hm
      rw [hsame] at hm ⊢
      exact (h.placed j hlj hm).mono rfl fun _ hi => hi
  · -- the sectors
    refine View.withEntry_pair (P := fun i j => ((w.withEntry k v name).file i).mode = I_REGULAR →
      ((w.withEntry k v name).file j).mode = I_REGULAR →
      Apart ((w.withEntry k v name).file i) ((w.withEntry k v name).file j)) hk hv
      (fun j hjk hl => ⟨fun _ hm => ?_, fun hm _ => ?_⟩)
      (fun i j hik hjk hij hli hlj hm hm' => ?_) hi hj hne
    · have hsame := h.withEntry_file hjk hm
      rw [hsame] at hm ⊢
      rw [hfile]
      exact (hap j hl hm).symm
    · have hsame := h.withEntry_file hjk hm
      rw [hsame] at hm ⊢
      rw [hfile]
      exact hap j hl hm
    · have hsame := h.withEntry_file hik hm
      have hsame' := h.withEntry_file hjk hm'
      rw [hsame] at hm ⊢
      rw [hsame'] at hm' ⊢
      exact h.apart i j hli hlj hij hm hm'

/-- a directory without a free entry is not full -/
theorem View.Ok.not_full (h : w.Ok) (hall : ∀ k < w.len, w.nr k ≠ 0) : w.len < NR_DIR_ENTRIES := by
  have hinj : Function.Injective fun k : Fin w.len =>
      (⟨w.nr k, (h.alloc k ⟨k.isLt, hall k k.isLt⟩).1⟩ : Fin 4096) := by
    intro i j he
    exact Fin.ext (h.nums i j ⟨i.isLt, hall i i.isLt⟩ ⟨j.isLt, hall j j.isLt⟩ (Fin.mk.inj he))
  have hcard := Fintype.card_le_of_injective _ hinj
  rw [Fintype.card_fin, Fintype.card_fin] at hcard
  exact hcard.trans_lt (by decide)

end

end Noxis.Fs
