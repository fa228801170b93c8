import Noxis.Fs.Volume

/-!
# The files of a volume

* `SameFile a f w w'`   the file of the name `f` has not changed, from byte `a` on
* `View.Has q k`        slot `q` of the table has the inode of entry `k`, a regular file
* `View.Only q k w w'`  nothing changes but this file: `View.Only.sameFile`
* `View.put`            its inode is written
-/

namespace Noxis.Fs

variable {w w' w'' : View} {f : Name} {q : Fin nrInode} {a j k t : Nat} {y : Inode}

/-! ## files that stay -/

/-- entry `k` has the name -/
structure View.Named (w : View) (f : Name) (k : Nat) : Prop where
  live : w.Live k
  name : (w.entry k).2 = pad f.bytes

/-- byte `i` of a file -/
def View.byte (w : View) (p : Inode) (i : Nat) : Byte := w.data (p.startSect + i / 512) (i % 512)

/-- **a file is the same**: its entry, its inode and, when it is a regular file, its bytes from `a` on;
of `/` only the entry -/
structure SameFile (a : Nat) (f : Name) (w w' : View) : Prop where
  named : ∀ k, w'.Named f k ↔ w.Named f k
  nr : ∀ k, w.Named f k → w'.nr k = w.nr k
  file : ∀ k, w.Named f k → w.nr k ≠ ROOT_INODE → w'.file k = w.file k
  data : ∀ k, w.Named f k → w.nr k ≠ ROOT_INODE → (w.file k).mode = I_REGULAR →
    ∀ i, a ≤ i → i < (w.file k).nrSects * 512 → w'.byte (w.file k) i = w.byte (w.file k) i

theorem SameFile.refl (a : Nat) (f : Name) (w : View) : SameFile a f w w :=
  ⟨fun _ => Iff.rfl, fun _ _ => rfl, fun _ _ _ => rfl, fun _ _ _ _ _ _ _ => rfl⟩

theorem SameFile.trans (h : SameFile a f w w') (h' : SameFile a f w' w'') : SameFile a f w w'' where
  named k := (h'.named k).trans (h.named k)
  nr k hk := (h'.nr k ((h.named k).mpr hk)).trans (h.nr k hk)
  file k hk hr := by
    have hk' := (h.named k).mpr hk
    rw [h'.file k hk' (by rwa [h.nr k hk]), h.file k hk hr]
  data k hk hr hm i ha hi := by
    have hk' := (h.named k).mpr hk
    have hfile := h.file k hk hr
    have hlast := h'.data k hk' (by rwa [h.nr k hk]) (by rwa [hfile]) i ha (by rwa [hfile])
    rw [hfile] at hlast
    rw [hlast, h.data k hk hr hm i ha hi]

theorem SameFile.mono (h : SameFile 0 f w w') (a : Nat) : SameFile a f w w' :=
  ⟨h.named, h.nr, h.file, fun k hk hr hm i _ hi => h.data k hk hr hm i (Nat.zero_le i) hi⟩

theorem View.Ok.named_unique (h : w.Ok) (hj : w.Named f j) (hk : w.Named f k) : j = k :=
  h.names j k hj.live hk.live (hj.name.trans hk.name.symm)

/-! ## a file in memory -/

/-- slot `q` of the table has the inode of entry `k`, a regular file -/
structure View.Has (w : View) (q : Fin nrInode) (k : Nat) : Prop where
  other : q ≠ w.root
  held : (w.table q).cnt ≠ 0
  live : w.Live k
  num : (w.table q).num = w.nr k
  mode : (w.table q).mode = I_REGULAR

/-- the inode is on the disk as it is in memory -/
theorem View.Ok.has_file (h : w.Ok) (hq : w.Has q k) : w.file k = { w.table q with cnt := 0 } := by
  obtain ⟨-, -, -, hdisk⟩ := h.memory q hq.other hq.held
  rw [View.file, ← hq.num, hdisk]

theorem View.Ok.has_regular (h : w.Ok) (hq : w.Has q k) : (w.file k).mode = I_REGULAR := by
  rw [h.has_file hq]
  exact hq.mode

theorem View.Ok.has_placed (h : w.Ok) (hq : w.Has q k) : w.Placed (w.table q) := by
  have hp := h.placed k hq.live (h.has_regular hq)
  rw [h.has_file hq] at hp
  exact hp.resize rfl rfl hp.size

/-- it is not `/` -/
theorem View.Ok.has_ne (h : w.Ok) (hq : w.Has q k) : w.nr k ≠ ROOT_INODE := by
  rw [← hq.num, ← h.num]
  exact fun he => hq.other (h.single q w.root hq.held h.held he)

/-- two files have two slots -/
theorem View.Ok.has_slots {r : Fin nrInode} (h : w.Ok) (hq : w.Has q k) (hr : w.Has r j)
    (hne : j ≠ k) :
    r ≠ q := by
  rintro rfl
  exact hne (h.nums j k hr.live hq.live (hr.num.symm.trans hq.num))

theorem View.Ok.has_inMemory (h : w.Ok) (hq : w.Has q k) (hn : y.num = (w.table q).num) :
    w.InMemory q y := by
  obtain ⟨h1, h2, h3, -⟩ := h.memory q hq.other hq.held
  refine ⟨hq.other, by rw [hn]; exact ⟨h1, h2⟩, by rw [hn]; exact h3, fun r hr hc he => hr ?_⟩
  exact h.single r q hc hq.held (he.trans hn)

/-- **nothing changes but file `k`**, whose inode is in slot `q`, and it stays in its sectors -/
structure View.Only (q : Fin nrInode) (k : Nat) (w w' : View) : Prop where
  sb : w'.sb = w.sb
  root : w'.root = w.root
  entry : w'.entry = w.entry
  imap : w'.imap = w.imap
  smap : w'.smap = w.smap
  table : ∀ r, r ≠ q → w'.table r = w.table r
  inode : ∀ v, v ≠ w.nr k → w'.inode v = w.inode v
  mode : (w'.file k).mode = (w.file k).mode
  start : (w'.file k).startSect = (w.file k).startSect
  sects : (w'.file k).nrSects = (w.file k).nrSects
  data : ∀ t, ¬ (w.file k).Covers t → w'.data t = w.data t

theorem View.Only.nr (h : View.Only q k w w') (j : Nat) : w'.nr j = w.nr j := by
  unfold View.nr
  rw [h.entry]

theorem View.Only.covers (h : View.Only q k w w') : (w'.file k).Covers t ↔ (w.file k).Covers t := by
  unfold Inode.Covers
  rw [h.start, h.sects]

theorem View.Only.refl (q : Fin nrInode) (k : Nat) (w : View) : View.Only q k w w :=
  ⟨rfl, rfl, rfl, rfl, rfl, fun _ _ => rfl, fun _ _ => rfl, rfl, rfl, rfl, fun _ _ => rfl⟩

theorem View.Only.trans (h : View.Only q k w w') (h' : View.Only q k w' w'') :
    View.Only q k w w'' where
  sb := h'.sb.trans h.sb
  root := h'.root.trans h.root
  entry := h'.entry.trans h.entry
  imap := h'.imap.trans h.imap
  smap := h'.smap.trans h.smap
  table r hr := (h'.table r hr).trans (h.table r hr)
  inode v hv := (h'.inode v (by rwa [h.nr])).trans (h.inode v hv)
  mode := h'.mode.trans h.mode
  start := h'.start.trans h.start
  sects := h'.sects.trans h.sects
  data t ht := (h'.data t (by rwa [h.covers])).trans (h.data t ht)

theorem View.Only.live (h : View.Only q k w w') (hq : q ≠ w.root) (j : Nat) :
    w'.Live j ↔ w.Live j := by
  unfold View.Live View.len View.dir
  rw [h.nr, h.root, h.table w.root hq.symm]

theorem View.Only.file (h : View.Only q k w w') (hw : w.Ok) (hk : w.Live k) (hj : w.Live j)
    (hne : j ≠ k) :
    w'.file j = w.file j := by
  unfold View.file
  rw [h.nr]
  exact h.inode _ fun he => hne (hw.nums j k hj hk he)

/-- **The files with other names stay.** -/
theorem View.Only.sameFile (h : View.Only q k w w') (hw : w.Ok) (hq : q ≠ w.root) (hk : w.Live k)
    (hreg : (w.file k).mode = I_REGULAR) (hf : (w.entry k).2 ≠ pad f.bytes) : SameFile 0 f w w' := by
  have hne : ∀ j, w.Named f j → j ≠ k := by
    rintro j hj rfl
    exact hf hj.name
  refine ⟨fun j => ?_, fun j _ => h.nr j, fun j hj _ => h.file hw hk hj.live (hne j hj),
    fun j hj _ hm i _ hi => congrFun (h.data _ fun hc => ?_) _⟩
  · constructor
    · rintro ⟨h1, h2⟩
      exact ⟨(h.live hq j).mp h1, h.entry ▸ h2⟩
    · rintro ⟨h1, h2⟩
      exact ⟨(h.live hq j).mpr h1, h.entry ▸ h2⟩
  · exact hw.apart j k hj.live hk (hne j hj) hm hreg _ ⟨by omega, by omega⟩ hc

/-! ## an inode is written -/

/-- inode `y` in slot `q` and on the disk -/
def View.put (w : View) (q : Fin nrInode) (y : Inode) : View :=
  { w with
    table := Function.update w.table q y
    inode := Function.update w.inode y.num { y with cnt := 0 } }

/-- a file that is another one in its size and its count alone -/
structure Resized (p y : Inode) : Prop where
  mode : y.mode = p.mode
  start : y.startSect = p.startSect
  sects : y.nrSects = p.nrSects
  num : y.num = p.num

theorem View.put_file (hn : y.num = w.nr k) : (w.put q y).file k = { y with cnt := 0 } := by
  show Function.update w.inode y.num _ (w.nr k) = _
  rw [hn, Function.update_self]

theorem View.Ok.put_only (h : w.Ok) (hq : w.Has q k) (hy : Resized (w.table q) y) :
    View.Only q k w (w.put q y) := by
  have hn : y.num = w.nr k := hy.num.trans hq.num
  have hfile := View.put_file (q := q) hn
  have hold := h.has_file hq
  refine ⟨rfl, rfl, rfl, rfl, rfl, fun r hr => Function.update_of_ne hr _ _, fun v hv => ?_, ?_, ?_,
    ?_,
    fun _ _ => rfl⟩
  · exact Function.update_of_ne (by rwa [hn]) _ _
  · rw [hfile, hold]
    exact hy.mode
  · rw [hfile, hold]
    exact hy.start
  · rw [hfile, hold]
    exact hy.sects

theorem View.Ok.put (h : w.Ok) (hq : w.Has q k) (hy : Resized (w.table q) y) (hc : y.cnt ≠ 0)
    (hs : y.size ≤ y.nrSects * SECTOR_SIZE) : (w.put q y).Ok := by
  refine h.setInode hc (h.has_inMemory hq hy.num) fun j hj hn _ => ?_
  have hjk : j = k := h.nums j k hj hq.live (hn.trans (hy.num.trans hq.num))
  subst hjk
  have hold := h.has_file hq
  refine ⟨?_, ?_, ?_, hs⟩
  · rw [hold]
    exact hq.mode
  · rw [hold]
    exact hy.start
  · rw [hold]
    exact hy.sects

theorem View.put_has (hq : w.Has q k) (hy : Resized (w.table q) y) (hc : y.cnt ≠ 0) :
    (w.put q y).Has q k := by
  have hat : (w.put q y).table q = y := Function.update_self ..
  refine ⟨hq.other, ?_, ?_, ?_, ?_⟩
  · rwa [hat]
  · have hdir : (w.put q y).dir = w.dir := Function.update_of_ne hq.other.symm _ _
    have hlive := hq.live
    unfold View.Live View.len at hlive ⊢
    rw [hdir]
    exact hlive
  · rw [hat]
    exact hy.num.trans hq.num
  · rw [hat]
    exact hy.mode.trans hq.mode

end Noxis.Fs
