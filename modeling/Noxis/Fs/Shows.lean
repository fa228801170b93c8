import Noxis.Fs.Calls
import Noxis.Fs.UnlinkView

/-!
# What a file system in order shows to the processes

* `Stored`     the regular files have the bytes of the abstract ones
* `Holds x`    handle `x` is open on its file, at its position
* `Shows`      both, for all handles in use
* `Stored.only`, `Holds.only`   what a step that changes one file leaves
-/

namespace Noxis.Fs
open Ipc (Pid)
open FileStore RefCount

/-- **the regular files of the volume**; all of them have NR_DEFAULT_FILE_SECTS sectors and end
before sector `lim` -/
structure Stored (special : Name → Prop) (lim : Nat) (s : FsState) (a : Files) : Prop where
  ok : s.view.Ok
  files : ∀ f data, a.file f = some data → ∃ k, s.view.Stores f data k
  absent : ∀ f, a.file f = none → ¬ special f → ∀ k, ¬ s.view.Named f k
  sects : ∀ k, s.view.Live k → (s.view.file k).mode = I_REGULAR →
    (s.view.file k).nrSects = NR_DEFAULT_FILE_SECTS ∧
      (s.view.file k).startSect + NR_DEFAULT_FILE_SECTS ≤ lim
  /-- the inode of `/` is on the disk as it is in memory -/
  root : s.view.inode ROOT_INODE = { s.view.dir with cnt := 0 }

/-- handle `x` is open on entry `k`, whose inode is in slot `q` -/
structure HoldsAt (s : FsState) (a : Files) (x : Fin nrFileDesc) (h : Handle Name)
    (q : Fin nrInode) (k : Nat) : Prop where
  handle : a.handle x = some h
  inode : (s.fDescTable x).inode = some q
  pos : (s.fDescTable x).pos = h.pos
  rdwr : (s.fDescTable x).mode &&& O_RDWR ≠ 0
  has : s.view.Has q k
  named : s.view.Named h.file k
  there : a.file h.file ≠ none

def Holds (s : FsState) (a : Files) (x : Fin nrFileDesc) : Prop := ∃ h q k, HoldsAt s a x h q k

/-- **what FS shows to the processes**; `lim` is in the reach of the driver -/
structure Shows (special : Name → Prop) (lim : Nat) (s : FsState) (a : Files) : Prop
    extends Stored special lim s a where
  slots : a.slot = s.filp
  holds : ∀ x, a.Used x → Holds s a x
  near : lim < 2 ^ 22

section
variable {special : Name → Prop} {lim : Nat} {s s' : FsState} {a a' : Files} {w w' : View}
  {f g : Name} {data : List Byte} {p : Pid} {fd : Fin nrFiles} {x y : Fin nrFileDesc}
  {q r : Fin nrInode} {j k : Nat} {h : Handle Name}

/-! ## one file changes -/

/-- a handle of the file that changes has the slot that changes -/
theorem View.Ok.has_unique (hw : w.Ok) (hq : w.Has q k) (hr : w.Has q j) : j = k :=
  hw.nums j k hr.live hq.live (hr.num.symm.trans hq.num)

theorem View.Only.has (ho : View.Only q k w w') (hq : q ≠ w.root) (hr : w.Has r j) (hne : r ≠ q) :
    w'.Has r j := by
  have htab := ho.table r hne
  refine ⟨?_, ?_, (ho.live hq j).mpr hr.live, ?_, ?_⟩
  · rw [ho.root]
    exact hr.other
  · rw [htab]
    exact hr.held
  · rw [htab, ho.nr]
    exact hr.num
  · rw [htab]
    exact hr.mode

theorem View.Only.dir (ho : View.Only q k w w') (hq : q ≠ w.root) : w'.dir = w.dir := by
  unfold View.dir
  rw [ho.root, ho.table w.root hq.symm]

theorem View.Only.named (ho : View.Only q k w w') (hq : q ≠ w.root) : w'.Named f j ↔ w.Named f j := by
  constructor
  · rintro ⟨h1, h2⟩
    exact ⟨(ho.live hq j).mp h1, ho.entry ▸ h2⟩
  · rintro ⟨h1, h2⟩
    exact ⟨(ho.live hq j).mpr h1, ho.entry ▸ h2⟩

/-- **One file has other bytes.** -/
theorem Stored.only (hs : Stored special lim s a) (ho : View.Only q k s.view s'.view)
    (hok : s'.view.Ok) (hq : q ≠ s.rootInode) (hk : s.view.Named f k)
    (hreg : (s.view.file k).mode = I_REGULAR) (hnew : s'.view.Stores f data k) :
    Stored special lim s' (a.put f (some data)) := by
  refine ⟨hok, fun g bytes hg => ?_, fun g hg hsp j hj => ?_, fun j hj hm => ?_, ?_⟩
  · by_cases hgf : g = f
    · subst hgf
      have hat : (a.put g (some data)).file g = some data := Function.update_self ..
      rw [hat] at hg
      obtain rfl := Option.some.inj hg
      exact ⟨k, hnew⟩
    · have hat : (a.put f (some data)).file g = a.file g := Function.update_of_ne hgf _ _
      rw [hat] at hg
      obtain ⟨j, hj⟩ := hs.files g bytes hg
      refine ⟨j, hj.same hs.ok (ho.sameFile hs.ok hq hk.live hreg fun he => ?_)⟩
      exact hgf (Name.pad_inj (he.symm.trans hk.name))
  · by_cases hgf : g = f
    · subst hgf
      have hat : (a.put g (some data)).file g = some data := Function.update_self ..
      rw [hat] at hg
      cases hg
    · have hat : (a.put f (some data)).file g = a.file g := Function.update_of_ne hgf _ _
      rw [hat] at hg
      exact hs.absent g hg hsp j ((ho.named hq).mp hj)
  · have hlive := (ho.live hq j).mp hj
    by_cases hjk : j = k
    · subst hjk
      rw [ho.sects, ho.start]
      exact hs.sects j hlive hreg
    · have hfile := ho.file hs.ok hk.live hlive hjk
      rw [hfile] at hm ⊢
      exact hs.sects j hlive hm
  · have hroot : ROOT_INODE ≠ s.view.nr k := by
      intro he
      rw [View.file, ← he, hs.root] at hreg
      exact absurd (hs.ok.mode.symm.trans hreg) (by decide)
    rw [ho.inode _ hroot, ho.dir hq]
    exact hs.root

/-- **Only counts change.** -/
theorem Stored.same_disk (hs : Stored special lim s a) (ho : View.Only q k s.view s'.view)
    (hok : s'.view.Ok) (hq : q ≠ s.rootInode) (hk : s.view.Live k) (hd : s'.disk = s.disk) :
    Stored special lim s' a := by
  refine ⟨hok, fun f bytes hf => ?_, fun f hf hsp j hj => ?_, fun j hj hm => ?_, ?_⟩
  · obtain ⟨j, hj⟩ := hs.files f bytes hf
    exact ⟨j, hj.same hs.ok (ho.same_disk hq hd f)⟩
  · exact hs.absent f hf hsp j ((ho.named hq).mp hj)
  · have hlive := (ho.live hq j).mp hj
    by_cases hjk : j = k
    · subst hjk
      rw [ho.mode] at hm
      rw [ho.sects, ho.start]
      exact hs.sects j hlive hm
    · have hfile := ho.file hs.ok hk hlive hjk
      rw [hfile] at hm ⊢
      exact hs.sects j hlive hm
  · have hsb : s'.sb = s.sb := ho.sb
    have hinode : s'.view.inode ROOT_INODE = s.view.inode ROOT_INODE := by
      show (if 1 ≤ ROOT_INODE ∧ ROOT_INODE ≤ 4096 then inodeOnDisk s' ROOT_INODE else .zero) =
        if 1 ≤ ROOT_INODE ∧ ROOT_INODE ≤ 4096 then inodeOnDisk s ROOT_INODE else .zero
      unfold inodeOnDisk
      rw [hd, hsb]
    rw [hinode, ho.dir hq]
    exact hs.root

/-- a descriptor is the same, but for its count -/
structure SameDesc (g g' : FileDesc) : Prop where
  inode : g'.inode = g.inode
  pos : g'.pos = g.pos
  mode : g'.mode = g.mode

theorem SameDesc.refl (g : FileDesc) : SameDesc g g := ⟨rfl, rfl, rfl⟩

/-- the handles of the other files, and those of the file when its slot stays in use -/
theorem HoldsAt.only (hx : HoldsAt s a x h r j) (hs : s.view.Ok)
    (ho : View.Only q k s.view s'.view) (hq : q ≠ s.rootInode)
    (hkeep : r = q → s.view.Has q k ∧ s'.view.Has q k)
    (hdesc : SameDesc (s.fDescTable x) (s'.fDescTable x)) (hhandle : a'.handle x = a.handle x)
    (hfile : a.file h.file ≠ none → a'.file h.file ≠ none) : HoldsAt s' a' x h r j := by
  refine ⟨hhandle.trans hx.handle, hdesc.inode.trans hx.inode, hdesc.pos.trans hx.pos, ?_, ?_,
    (ho.named hq).mpr hx.named, hfile hx.there⟩
  · rw [hdesc.mode]
    exact hx.rdwr
  · by_cases hrq : r = q
    · subst hrq
      obtain ⟨hold, hnew⟩ := hkeep rfl
      obtain rfl := hs.has_unique hold hx.has
      exact hnew
    · exact ho.has hq hx.has hrq

/-! ## what a handle has open -/

/-- the file of an open handle -/
theorem HoldsAt.stores (hx : HoldsAt s a x h q k) (hs : Stored special lim s a) :
    ∃ data, a.file h.file = some data ∧ s.view.Stores h.file data k := by
  obtain ⟨data, hdata⟩ := Option.ne_none_iff_exists'.mp hx.there
  obtain ⟨j, hj⟩ := hs.files h.file data hdata
  obtain rfl := hs.ok.named_unique hj.named hx.named
  exact ⟨data, hdata, hj⟩

theorem Shows.holds_slot (hs : Shows special lim s a) (hx : s.filp p fd = some x) : Holds s a x := by
  refine hs.holds x ⟨p, fd, ?_⟩
  rw [hs.slots]
  exact hx

/-- **an open slot**: the handle, the file and its bytes -/
theorem Shows.opened (hs : Shows special lim s a) (hx : s.filp p fd = some x) :
    ∃ h q k data, HoldsAt s a x h q k ∧ s.view.Stores h.file data k ∧
      a.opened p fd = some (x, h, data) := by
  obtain ⟨h, q, k, hh⟩ := hs.holds_slot hx
  obtain ⟨data, hdata, hst⟩ := hh.stores hs.toStored
  refine ⟨h, q, k, data, hh, hst, Store.opened_eq ?_ hh.handle hdata⟩
  rw [hs.slots]
  exact hx

/-- the bytes of a file that is in memory -/
theorem HoldsAt.size (hx : HoldsAt s a x h q k) (hs : s.view.Ok) (hst : s.view.Stores h.file data k) :
    (s.inodeTable q).size = data.length := by
  have hfile := hs.has_file hx.has
  have hsize := hst.size
  rw [hfile] at hsize
  exact hsize

theorem HoldsAt.byte (hx : HoldsAt s a x h q k) (hs : s.view.Ok) (hst : s.view.Stores h.file data k)
    {i : Nat} (hi : i < data.length) : s.view.byte (s.inodeTable q) i = data.getD i 0 := by
  have hfile := hs.has_file hx.has
  have hbyte := hst.bytes i hi
  rw [hfile] at hbyte
  exact hbyte

/-- its sectors -/
theorem HoldsAt.sects (hx : HoldsAt s a x h q k) (hs : Stored special lim s a) :
    (s.inodeTable q).nrSects = NR_DEFAULT_FILE_SECTS ∧
      (s.inodeTable q).startSect + NR_DEFAULT_FILE_SECTS ≤ lim := by
  have hfile := hs.ok.has_file hx.has
  have hsects := hs.sects k hx.named.live (hs.ok.has_regular hx.has)
  rw [hfile] at hsects
  exact hsects

/-- the descriptor, as `do_rdwt` uses it -/
theorem HoldsAt.openFile (hx : HoldsAt s a x h q k) (hs : s.view.Ok) (hp : s.filp p fd = some x) :
    OpenFile s p fd x q ((hs.has_placed hx.has).toFile hs.sb) h.pos where
  desc := hp
  rdwr := hx.rdwr
  inode := hx.inode
  pos := hx.pos
  mode := hx.has.mode
  startSect := rfl
  nrSects := rfl
  size := rfl
  num := by
    obtain ⟨h1, h2, -, -⟩ := hs.memory q hx.has.other hx.has.held
    exact ⟨h1, h2.le⟩
  sb := hs.sb
  data := by
    have hfirst := (hs.has_placed hx.has).first
    show s.sb.n1stSect ≤ (s.view.table q).startSect
    exact (Nat.le_add_right ..).trans hfirst

/-! ## lists of bytes -/

theorem length_bytesOf (buf : Buffer) (n : Nat) : (bytesOf buf n).length = n := by
  unfold bytesOf
  rw [List.length_map, List.length_range]

theorem getD_bytesOf {buf : Buffer} {n i : Nat} (hi : i < n) (d : Byte) :
    (bytesOf buf n).getD i d = buf i := by
  unfold bytesOf
  rw [List.getD_eq_getElem _ _ (by rwa [List.length_map, List.length_range]), List.getElem_map,
    List.getElem_range]

/-- what READ puts into the buffer -/
theorem bytesOf_eq {buf : Buffer} {pos len : Nat} (hlen : pos + len ≤ data.length)
    (h : ∀ i < len, buf i = data.getD (pos + i) 0) : bytesOf buf len = (data.drop pos).take len := by
  unfold bytesOf
  apply List.ext_getElem
  · rw [List.length_map, List.length_range, List.length_take, List.length_drop]
    omega
  · intro i h1 h2
    rw [List.length_map, List.length_range] at h1
    rw [List.getElem_map, List.getElem_range, h i h1, List.getD_eq_getElem _ _ (by omega),
      List.getElem_take, List.getElem_drop]

end

end Noxis.Fs
