import Noxis.Fs.Content

/-!
# What a program sees of a file system in order

* `HasFile s f data`     the file of the name `f` has the bytes `data`
* `Unchanged a f s s'`   the file of the name `f` is the same, from byte `a` on
* `View.Stores`          a file and its bytes, in a view
-/

namespace Noxis.Fs
open Ipc (Pid)

/-- **the file of a name has the bytes** -/
structure HasFile (s : FsState) (f : Name) (data : List Byte) : Prop where
  found : searchFile s f.bytes ≠ INVALID_INODE
  mode : (inodeOnDisk s (searchFile s f.bytes)).mode = I_REGULAR
  size : (inodeOnDisk s (searchFile s f.bytes)).size = data.length
  bytes : ∀ i < data.length,
    s.disk ((inodeOnDisk s (searchFile s f.bytes)).startSect + i / 512) (i % 512) = data.getD i 0

/-- **the file of a name is the same**, from byte `a` on -/
structure Unchanged (a : Nat) (f : Name) (s s' : FsState) : Prop where
  nr : searchFile s' f.bytes = searchFile s f.bytes
  inode : searchFile s f.bytes ≠ INVALID_INODE → searchFile s f.bytes ≠ ROOT_INODE →
    inodeOnDisk s' (searchFile s f.bytes) = inodeOnDisk s (searchFile s f.bytes)
  bytes : searchFile s f.bytes ≠ INVALID_INODE → searchFile s f.bytes ≠ ROOT_INODE →
    (inodeOnDisk s (searchFile s f.bytes)).mode = I_REGULAR → ∀ i, a ≤ i →
      i < (inodeOnDisk s (searchFile s f.bytes)).size →
      s'.disk ((inodeOnDisk s (searchFile s f.bytes)).startSect + i / 512) (i % 512) =
        s.disk ((inodeOnDisk s (searchFile s f.bytes)).startSect + i / 512) (i % 512)

/-- a regular file and its bytes -/
structure View.Stores (w : View) (f : Name) (data : List Byte) (k : Nat) : Prop where
  named : w.Named f k
  nonroot : w.nr k ≠ ROOT_INODE
  mode : (w.file k).mode = I_REGULAR
  size : (w.file k).size = data.length
  bytes : ∀ i < data.length, w.byte (w.file k) i = data.getD i 0

section
variable {w w' : View} {s s' : FsState} {f : Name} {a i j k : Nat} {q r : Fin nrInode}
  {data : List Byte}

theorem View.Stores.same (h : w.Stores f data k) (hw : w.Ok) (hs : SameFile 0 f w w') :
    w'.Stores f data k := by
  have hfile := hs.file k h.named h.nonroot
  have hsize := (hw.placed k h.named.live h.mode).size
  refine ⟨(hs.named k).mpr h.named, ?_, ?_, ?_, fun i hi => ?_⟩
  · rw [hs.nr k h.named]
    exact h.nonroot
  · rw [hfile]
    exact h.mode
  · rw [hfile]
    exact h.size
  · have hlt : i < (w.file k).nrSects * 512 := by
      rw [h.size] at hsize
      exact hi.trans_le hsize
    rw [hfile, hs.data k h.named h.nonroot h.mode i (Nat.zero_le i) hlt]
    exact h.bytes i hi

/-! ## the disk -/

theorem View.Ok.file_disk (h : s.view.Ok) (hk : s.view.Live k) :
    s.view.file k = inodeOnDisk s (s.view.nr k) := by
  obtain ⟨h1, h2, -⟩ := h.live_num hk
  exact if_pos ⟨h1, h2.le⟩

theorem View.Ok.search_named (h : s.view.Ok) (hk : s.view.Named f k) :
    searchFile s f.bytes = s.view.nr k := h.search_live hk.live hk.name false

/-- a name is found, or there is none -/
theorem View.Ok.search_cases (h : s.view.Ok) (f : Name) : (∃ k, s.view.Named f k) ∨
    (∀ k, ¬ s.view.Named f k) ∧ searchFile s f.bytes = INVALID_INODE := by
  by_cases hex : ∃ k, s.view.Named f k
  · exact .inl hex
  · have hnone : ∀ k, ¬ s.view.Named f k := fun k hk => hex ⟨k, hk⟩
    exact .inr ⟨hnone, h.search_none (fun k hl hn => hnone k ⟨hl, hn⟩) false⟩

theorem View.Stores.hasFile (h : s.view.Stores f data k) (hs : s.view.Ok) : HasFile s f data := by
  have hsearch := hs.search_named h.named
  have hdisk := hs.file_disk h.named.live
  refine ⟨?_, ?_, ?_, fun i hi => ?_⟩
  · rw [hsearch]
    exact h.named.live.2
  · rw [hsearch, ← hdisk]
    exact h.mode
  · rw [hsearch, ← hdisk]
    exact h.size
  · rw [hsearch, ← hdisk, ← (hs.placed k h.named.live h.mode).byte_disk]
    exact h.bytes i hi

theorem SameFile.unchanged (h : SameFile a f s.view s'.view) (hs : s.view.Ok) (hs' : s'.view.Ok) :
    Unchanged a f s s' := by
  rcases hs.search_cases f with ⟨k, hk⟩ | ⟨hnone, hsearch⟩
  · have hk' := (h.named k).mpr hk
    have hsearch := hs.search_named hk
    have hdisk := hs.file_disk hk.live
    have hdisk' := hs'.file_disk hk'.live
    rw [h.nr k hk] at hdisk'
    refine ⟨?_, fun _ hr => ?_, fun _ hr hm i hi hlt => ?_⟩
    · rw [hsearch, hs'.search_named hk', h.nr k hk]
    · rw [hsearch] at hr ⊢
      rw [← hdisk, ← hdisk', h.file k hk hr]
    · rw [hsearch] at hr hm hlt ⊢
      rw [← hdisk] at hm hlt ⊢
      have hp := hs.placed k hk.live hm
      have hfile := h.file k hk hr
      have hp' : s'.view.Placed (s.view.file k) := by
        rw [← hfile]
        exact hs'.placed k hk'.live (by rwa [hfile])
      rw [← hp.byte_disk, ← hp'.byte_disk]
      exact h.data k hk hr hm i hi (hlt.trans_le hp.size)
  · have hnone' : ∀ k, ¬ s'.view.Named f k := fun k hk => hnone k ((h.named k).mp hk)
    have hsearch' : searchFile s' f.bytes = INVALID_INODE :=
      hs'.search_none (fun k hl hn => hnone' k ⟨hl, hn⟩) false
    exact ⟨hsearch'.trans hsearch.symm, fun hc => absurd hsearch hc, fun hc => absurd hsearch hc⟩

/-! ## the file after a step -/

theorem View.Only.has_self (h : View.Only q k w w') (hq : w.Has q k)
    (hy : Resized (w.table q) (w'.table q))
    (hc : (w'.table q).cnt ≠ 0) : w'.Has q k := by
  refine ⟨?_, hc, (h.live hq.other k).mpr hq.live, ?_, hy.mode.trans hq.mode⟩
  · rw [h.root]
    exact hq.other
  · rw [hy.num, h.nr]
    exact hq.num

/-- a file is written, but not its inode -/
theorem View.Only.same_self (h : View.Only q k w w') (hw : w.Ok) (hw' : w'.Ok) (hq : w.Has q k)
    (htab : w'.table q = w.table q) (hf : w.Named f k)
    (hb : ∀ i, a ≤ i → w'.byte (w.table q) i = w.byte (w.table q) i) : SameFile a f w w' := by
  have hq' : w'.Has q k := h.has_self hq (by rw [htab]; exact ⟨rfl, rfl, rfl, rfl⟩)
    (by rw [htab]; exact hq.held)
  have hfile := hw.has_file hq
  have hsame : w'.file k = w.file k := by rw [hw'.has_file hq', hfile, htab]
  have honly : ∀ j, w.Named f j → j = k := fun j hj => hw.named_unique hj hf
  refine ⟨fun j => ?_, fun j _ => h.nr j, fun j hj _ => ?_, fun j hj _ _ i hi _ => ?_⟩
  · constructor
    · rintro ⟨h1, h2⟩
      exact ⟨(h.live hq.other j).mp h1, h.entry ▸ h2⟩
    · rintro ⟨h1, h2⟩
      exact ⟨(h.live hq.other j).mpr h1, h.entry ▸ h2⟩
  · rw [honly j hj, hsame]
  · rw [honly j hj, hfile]
    exact hb i hi

/-- nothing is written -/
theorem View.Only.same_disk (h : View.Only q k s.view s'.view) (hq : q ≠ s.rootInode)
    (hd : s'.disk = s.disk) (f : Name) : SameFile 0 f s.view s'.view := by
  have hsb : s'.sb = s.sb := h.sb
  have hinode : s'.view.inode = s.view.inode := by
    funext v
    show (if 1 ≤ v ∧ v ≤ 4096 then inodeOnDisk s' v else .zero) =
      if 1 ≤ v ∧ v ≤ 4096 then inodeOnDisk s v else .zero
    unfold inodeOnDisk
    rw [hd, hsb]
  have hdata : s'.view.data = s.view.data := by
    funext t
    show (if s'.sb.n1stSect + NR_DEFAULT_FILE_SECTS ≤ t then s'.disk t else fun _ => 0) =
      if s.sb.n1stSect + NR_DEFAULT_FILE_SECTS ≤ t then s.disk t else fun _ => 0
    rw [hd, hsb]
  refine ⟨fun j => ?_, fun j _ => h.nr j, fun j _ _ => ?_, fun j _ _ _ i _ _ => ?_⟩
  · constructor
    · rintro ⟨h1, h2⟩
      exact ⟨(h.live hq j).mp h1, h.entry ▸ h2⟩
    · rintro ⟨h1, h2⟩
      exact ⟨(h.live hq j).mpr h1, h.entry ▸ h2⟩
  · rw [View.file, View.file, h.nr, hinode]
  · unfold View.byte
    rw [hdata]

end

end Noxis.Fs
