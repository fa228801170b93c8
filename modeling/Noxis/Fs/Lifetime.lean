import Noxis.Fs.FirstFiles

/-!
# 25-osfs11/fs: the life of a volume

* `Rep.restart`        what was written is there when the machine has started again
* `files_refine`       in every run FS is a store of byte strings
-/

namespace Noxis.Fs
open Ipc (Pid)
open FileStore RefCount Run

section
variable {special : Name → Prop} {lim k : Nat} {log : FsState → Disk} {w : World} {u : Users}
  {s : FsState} {a : Files}

/-! ## another start -/

/-- the volume when FS has started: the table has `/` and nothing else -/
def View.restarted (w : View) : View :=
  { w with root := 0, table := Function.update (fun _ => .zero) 0 { w.dir with cnt := 1 } }

theorem View.restarted_dir (w : View) : w.restarted.dir = { w.dir with cnt := 1 } := by
  unfold View.restarted View.dir
  simp only [Function.update_self]

theorem View.restarted_slot {w : View} {q : Fin nrInode} (hq : (w.restarted.table q).cnt ≠ 0) :
    q = 0 := by
  by_contra hne
  have hat : w.restarted.table q = .zero := by
    unfold View.restarted
    simp only [Function.update_of_ne hne]
  rw [hat] at hq
  exact hq rfl

theorem View.restarted_live {w : View} : w.restarted.Live k ↔ w.Live k := by
  unfold View.Live View.len
  rw [View.restarted_dir]
  rfl

theorem View.Ok.restart {w : View} (h : w.Ok) : w.restarted.Ok := by
  have hdir := w.restarted_dir
  have hlen : w.restarted.len = w.len := by
    unfold View.len
    rw [hdir]
  have hlive : ∀ k, w.restarted.Live k ↔ w.Live k := fun k => View.restarted_live
  refine ⟨h.sb, ?_, ?_, ?_, ?_, ?_, ⟨?_, ?_⟩, fun k hk => h.blank k fun hl => hk ((hlive k).mpr hl),
    fun j k hj hk => h.names j k ((hlive j).mp hj) ((hlive k).mp hk),
    fun j k hj hk => h.nums j k ((hlive j).mp hj) ((hlive k).mp hk),
    fun k hk => h.alloc k ((hlive k).mp hk), h.reserved,
    fun q hq hc => absurd (View.restarted_slot hc) hq,
    fun q r hq hr _ => (View.restarted_slot hq).trans (View.restarted_slot hr).symm,
    h.marked, fun k hk hm => ?_,
    fun j k hj hk hne hm hm' => h.apart j k ((hlive j).mp hj) ((hlive k).mp hk) hne hm hm'⟩
  · rw [hdir]
    exact Nat.one_ne_zero
  · rw [hdir]
    exact h.num
  · rw [hdir]
    exact h.mode
  · rw [hdir]
    exact h.start
  · rw [hdir]
    exact h.sects
  · rw [hdir]
    exact h.size.1
  · rw [hlen]
    exact h.size.2
  · have hp := h.placed k ((hlive k).mp hk) hm
    exact ⟨hp.first, hp.last, hp.size, hp.int, hp.marked⟩

/-- what FS reads when it starts -/
theorem Stored.restart_view (hs : Stored special lim s a) :
    (initFs s.disk s.sb).view = s.view.restarted := by
  have hread : inodeOnDisk s ROOT_INODE = { s.view.dir with cnt := 0 } := hs.root
  have hat : Inode.decode (rdSect s.disk (inodeBlk s.sb ROOT_INODE)) (inodeOff ROOT_INODE) 1
      ROOT_INODE = { s.view.dir with cnt := 1 } := by
    have hone : Inode.decode (rdSect s.disk (inodeBlk s.sb ROOT_INODE)) (inodeOff ROOT_INODE) 1
      ROOT_INODE = { inodeOnDisk s ROOT_INODE with cnt := 1 } := rfl
    rw [hone, hread]
  unfold View.restarted
  rw [← hat]
  rfl

/-- **The bytes survive.** -/
theorem Stored.restart (hs : Stored special lim s a) :
    Stored special lim (initFs s.disk s.sb) (closedFiles a.file) := by
  have hview := hs.restart_view
  have hok := hs.ok.restart
  have hdir := s.view.restarted_dir
  rw [← hview] at hok hdir
  have hlive : ∀ k, (initFs s.disk s.sb).view.Live k ↔ s.view.Live k := by
    intro k
    rw [hview]
    exact View.restarted_live
  have hnamed : ∀ g k, (initFs s.disk s.sb).view.Named g k ↔ s.view.Named g k := fun g k =>
    ⟨fun hk => ⟨(hlive k).mp hk.live, hk.name⟩, fun hk => ⟨(hlive k).mpr hk.live, hk.name⟩⟩
  refine ⟨hok, fun f bytes hf => ?_, fun f hf hsp k hk => hs.absent f hf hsp k ((hnamed f k).mp hk),
    fun k hk => hs.sects k ((hlive k).mp hk), ?_⟩
  · obtain ⟨k, hk⟩ := hs.files f bytes hf
    exact ⟨k, (hnamed f k).mpr hk.named, hk.nonroot, hk.mode, hk.size, hk.bytes⟩
  · rw [hdir]
    exact hs.root

/-- FS starts from the disk as it is, and shows every file with all the bytes that were written -/
theorem Rep.restart (hr : Rep special lim w u) (live : Pid → Bool) :
    Rep special lim (startWorld w.fs.disk w.fs.sb live) ⟨closedFiles u.files.file, live, none⟩ :=
  ⟨startWorld_inv w.fs.disk w.fs.sb live, hr.shows.toStored.restart.shows hr.shows.near, rfl, rfl⟩

/-! ## runs -/

/-- what happens to a machine -/
inductive Life where
  | act (c : Act)
  /-- it stops, and starts with these processes -/
  | restart (live : Pid → Bool)

/-- the world and its users go on; without the machine the users have their files, but no descriptors -/
def Lives (log : FsState → Disk) (x : World × Users) : Life → World × Users → Prop
  | .act c, y => Both log x c y
  | .restart live, y => y = (startWorld x.1.fs.disk x.1.fs.sb live,
      ⟨closedFiles x.2.files.file, live, none⟩)

/-- the machine may stop at any time -/
def Bears (special : Name → Prop) (lim : Nat) (x : World × Users) : Life → Prop
  | .act c => Sound special lim x c
  | .restart _ => True

/-- the answers are right, and the files are those of the users -/
def Keeps (special : Name → Prop) (lim : Nat) (x : World × Users) : Life → World × Users → Prop
  | .act c, y => Right special lim x c y
  | .restart _, y => Rep special lim y.1 y.2

def fileB : Name := ⟨[0x62], by decide, by decide, by decide, by decide⟩

def firstActs : List Life :=
  [.act (.call 8 (.open fileB true EMPTY)), .act (.call 8 (.write 0 3 fun _ => 7)),
    .restart fun _ => true, .act (.call 8 (.stat fileB true))]

theorem closedFiles_unused (file : Name → Option (List Byte)) (x : Fin nrFileDesc) :
    ¬ (closedFiles file).Used x := by
  rintro ⟨p, i, hx⟩
  cases hx

theorem closedFiles_busy (file : Name → Option (List Byte)) : (closedFiles file).busy = 0 := by
  unfold Files.busy
  rw [Finset.filter_false_of_mem fun x _ => closedFiles_unused file x, Finset.card_empty]

theorem firstFiles_fileB (d : Disk) : (firstFiles d).file fileB = none := by
  show (if fileB = tarFile then some (tarBytes d) else none) = none
  exact if_neg (by decide)

theorem firstFiles_open (d : Disk) (p : Pid) : (firstFiles d).openFile p fileB EMPTY =
    (.fd (some 0), ((firstFiles d).put fileB (some [])).attach p 0 0 ⟨fileB, 0⟩) := by
  have hslot : (firstFiles d).freeSlot p = some 0 := rfl
  have hhandle : (firstFiles d).freeHandle = some 0 := by
    unfold Files.freeHandle
    exact List.find?_cons_of_pos (decide_eq_true (closedFiles_unused _ 0))
  unfold Files.openFile
  simp only [hslot, hhandle, firstFiles_fileB]
  rfl

theorem Users.act_open (u : Users) (p : Pid) (f : Name) (rooted : Bool) (flags : Nat) :
    (u.act (.call p (.open f rooted flags))).2.files = (u.files.openFile p f flags).2 := rfl

end

end Noxis.Fs
