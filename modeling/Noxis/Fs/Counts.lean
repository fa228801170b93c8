import Noxis.Fs.Refs

/-!
# 25-osfs11/fs: reference counts along runs

* `World`, `World.act`   FS with its processes: requests, the two halves of a fork, and exits
* `ExactAfter`           the counts are exact after an event
* `exact_iff`            they are along a run exactly if its requests are `Balanced`
-/

namespace Noxis.Fs
open Ipc (Pid)
open RefCount Run

variable {s s' : FsState} {q : Fin nrInode} {x : Fin nrFileDesc} {p : Pid}

/-! ## FS and its processes -/

/-- a fork that MM has begun: it has copied the parent's entry of `proc_table`, but FS has not heard
of the child yet -/
structure Forking where
  parent : Pid
  child : Pid
  files : Fin nrFiles → Option (Fin nrFileDesc)

structure World where
  fs : FsState
  /-- the entries of `proc_table` that are in use -/
  live : Pid → Bool
  fork : Option Forking

inductive Event where
  /-- a request of a process -/
  | request (p : Pid) (r : Request)
  /-- MM copies the entry of the parent -/
  | copy (parent child : Pid)
  /-- the message FORK for the child that was copied -/
  | fork
  /-- the message EXIT -/
  | exit (p : Pid)

/-- a process whose fork is not finished waits for it -/
def World.waits (w : World) (p : Pid) : Bool := w.fork.any fun f => f.parent = p

/-- after an UNLINK FS writes its log: `log` is the disk then -/
def Request.logged (log : FsState → Disk) (s : FsState) : Request → FsState
  | .UNLINK _ => { s with disk := log s }
  | _ => s

def World.request (log : FsState → Disk) (w : World) (p : Pid) (r : Request) : Option World :=
  if w.live p ∧ ¬ w.waits p then
    (serve w.fs p r).map fun (_, s) => { w with fs := r.logged log s }
  else none

def World.copy (w : World) (parent child : Pid) : Option World :=
  if w.live parent ∧ ¬ w.live child ∧ w.fork.isNone then
    some { w with fork := some ⟨parent, child, w.fs.filp parent⟩ }
  else none

def World.announce (w : World) : Option World :=
  w.fork.bind fun f =>
    (fsFork { w.fs with filp := Function.update w.fs.filp f.child f.files } f.child).map fun s =>
      ⟨s, Function.update w.live f.child true, none⟩

def World.quit (w : World) (p : Pid) : Option World :=
  if w.live p ∧ ¬ w.waits p then
    (fsExit w.fs p).map fun s => { w with fs := s, live := Function.update w.live p false }
  else none

def World.act (log : FsState → Disk) (w : World) : Event → Option World
  | .request p r => w.request log p r
  | .copy parent child => w.copy parent child
  | .fork => w.announce
  | .exit p => w.quit p

/-- **The property.**  The counts are exact after the event, and a request that fails leaves them. -/
structure ExactAfter (w : World) (e : Event) (w' : World) : Prop where
  /-- `i_cnt` is the sum of `fd_cnt`, and one for the root directory -/
  inodes : ∀ q, (w'.fs.inodeTable q).cnt =
    (∑ x, if (w'.fs.fDescTable x).inode = some q then (w'.fs.fDescTable x).cnt else 0) +
      if q = w'.fs.rootInode then 1 else 0
  /-- `fd_cnt` is the number of slots -/
  descs : ∀ x, (w'.fs.fDescTable x).cnt =
    (Finset.univ.filter fun y : Pid × Fin nrFiles => w'.fs.filp y.1 y.2 = some x).card
  failed : ∀ p r s, e = .request p r → serve w.fs p r = some (false, s) →
    (∀ q, (w'.fs.inodeTable q).cnt = (w.fs.inodeTable q).cnt) ∧
      ∀ x, (w'.fs.fDescTable x).cnt = (w.fs.fDescTable x).cnt

/-- every request is balanced -/
def BalancedStep (w : World) (e : Event) (_ : World) : Prop :=
  ∀ p r, e = .request p r → r.Balanced w.fs

/-! ## one event -/

/-- a request touches the slots of its process only -/
def OwnSlots (p : Pid) (s s' : FsState) : Prop := ∀ r, r ≠ p → s'.filp r = s.filp r

theorem Kept.own (h : Kept s s') : OwnSlots p s s' := by
  intro r _
  funext i
  exact congrFun (congrArg Table.slot h.table) (r, i)

theorem finishOpen_own {s₁ : FsState} {fd : Fin nrFiles} {flags : Nat} {r : Option (Fin nrFiles)}
    (hf : s₁.table.slot = s.table.slot) (h : finishOpen s₁ p fd x flags q = some (r, s')) :
    OwnSlots p s s' := by
  intro u hu
  unfold finishOpen at h
  by_cases ho : openable ((truncate s₁ flags q).inodeTable q) = true
  · simp only [if_pos ho, Option.some.injEq, Prod.mk.injEq] at h
    rw [← h.2]
    show Function.update (truncate s₁ flags q).filp p _ u = s.filp u
    rw [Function.update_of_ne hu]
    funext i
    have hslot := congrArg Table.slot (truncate_kept s₁ flags q).table
    exact congrFun (hslot.trans hf) (u, i)
  · simp only [if_neg ho] at h
    cases h

/-- **A balanced request.** -/
theorem serve_tight {r : Request} {ok : Bool} (hs : s.Tight) (hb : r.Balanced s)
    (h : serve s p r = some (ok, s')) :
    s'.Tight ∧ (ok = false → Kept s s') ∧ OwnSlots p s s' := by
  have hkept : Kept s s' → s'.Tight ∧ (ok = false → Kept s s') ∧ OwnSlots p s s' := fun hk =>
    ⟨hk.tight hs, fun _ => hk, hk.own⟩
  cases r with
  | OPEN path flags =>
    obtain ⟨⟨fd, s₁⟩, ho, h⟩ := Option.map_eq_some_iff.mp h
    simp only [Prod.mk.injEq] at h
    obtain ⟨rfl, rfl⟩ := h
    obtain ⟨h1, h2⟩ := doOpen_tight hs hb ho
    refine ⟨h1, h2, ?_⟩
    cases doOpen_cases ho with
    | refused => exact (Kept.refl _).own
    | created _ _ hc hcr hf =>
      have hslot := congrArg Table.slot (createFile_counts hcr (hb hc)).1
      exact finishOpen_own hslot hf
    | found _ _ _ _ _ hg hf =>
      have hslot := congrArg Table.slot (getInode_counts hg).1
      exact finishOpen_own hslot hf
  | CLOSE fd =>
    obtain ⟨s₁, hc, h⟩ := Option.map_eq_some_iff.mp h
    simp only [Prod.mk.injEq] at h
    obtain ⟨rfl, rfl⟩ := h
    refine ⟨doClose_tight hs hc, nofun, fun u hu => ?_⟩
    obtain ⟨x, -, hc⟩ := Option.bind_eq_some_iff.mp hc
    obtain ⟨q, -, hc⟩ := Option.bind_eq_some_iff.mp hc
    obtain ⟨s₂, hp, hc⟩ := Option.map_eq_some_iff.mp hc
    have hslot := congrArg Table.slot (putInode_counts hp).1
    rw [← hc]
    show Function.update s₂.filp p _ u = s.filp u
    rw [Function.update_of_ne hu]
    funext i
    exact congrFun hslot (u, i)
  | READ fd len buf =>
    obtain ⟨⟨a, s₁, b⟩, hr, h⟩ := Option.map_eq_some_iff.mp h
    simp only [Prod.mk.injEq] at h
    rw [← h.2] at hkept ⊢
    exact hkept (doRdwt_kept hr)
  | WRITE fd len buf =>
    obtain ⟨⟨a, s₁, b⟩, hr, h⟩ := Option.map_eq_some_iff.mp h
    simp only [Prod.mk.injEq] at h
    rw [← h.2] at hkept ⊢
    exact hkept (doRdwt_kept hr)
  | LSEEK fd off whence =>
    obtain ⟨⟨a, s₁⟩, hr, h⟩ := Option.map_eq_some_iff.mp h
    simp only [Prod.mk.injEq] at h
    rw [← h.2] at hkept ⊢
    exact hkept (doLseek_kept hr)
  | STAT path =>
    obtain ⟨⟨a, s₁⟩, hr, h⟩ := Option.map_eq_some_iff.mp h
    simp only [Prod.mk.injEq] at h
    rw [← h.2] at hkept ⊢
    exact hkept (doStat_kept hr)
  | UNLINK path =>
    cases doUnlink_cases h with
    | refused => exact hkept (Kept.refl s)
    | stuck hroot h0 hg hm => exact absurd hm ((balanced_unlink_iff hroot h0 hg).mp hb)
    | removed _ _ hg _ _ hr => exact hkept (removeFile_kept hg hr)

/-- a request that is not balanced leaves an inode with a wrong count -/
theorem serve_not_tight {r : Request} {ok : Bool} (hs : s.Tight) (hb : ¬ r.Balanced s)
    (h : serve s p r = some (ok, s')) :
    ¬ ∀ o, s'.table.refs o = shares s'.table.cnt s'.table.target o + rootHeld s' o := by
  cases r with
  | OPEN path flags =>
    obtain ⟨⟨fd, s₁⟩, ho, h⟩ := Option.map_eq_some_iff.mp h
    simp only [Prod.mk.injEq] at h
    rw [← h.2]
    by_cases hc : Creates s path flags
    · cases hclash : cached s (freeInodeNr s) with
      | none => exact absurd (fun _ => hclash) hb
      | some o => exact not_tight_of_clash hs hc hclash ho
    · exact absurd (fun hc' => absurd hc' hc) hb
  | UNLINK path =>
    cases doUnlink_cases h with
    | refused hr => exact absurd (fun h1 h2 => hr.elim (absurd · h1) (absurd · h2)) hb
    | stuck _ _ hg _ => exact not_tight_of_more hs (getInode_counts hg).2 (getInode_counts hg).1
    | removed hroot h0 hg hm hc _ =>
      exact absurd ((balanced_unlink_iff hroot h0 hg).mpr fun hor => hor.elim (absurd hm) hc) hb
  | CLOSE fd => exact absurd trivial hb
  | READ fd len buf => exact absurd trivial hb
  | WRITE fd len buf => exact absurd trivial hb
  | LSEEK fd off whence => exact absurd trivial hb
  | STAT path => exact absurd trivial hb

/-! ## runs -/

/-- the counts are exact, a process that is not there has no files, and a child that was copied has
those of its parent -/
structure World.Inv (w : World) : Prop where
  tight : w.fs.Tight
  dead : ∀ p, w.live p = false → ∀ i, w.fs.filp p i = none
  parent : ∀ f, w.fork = some f → w.live f.parent = true
  child : ∀ f, w.fork = some f → w.live f.child = false
  files : ∀ f, w.fork = some f → f.files = w.fs.filp f.parent

variable {log : FsState → Disk} {w w' : World}

theorem logged_kept (log : FsState → Disk) (s : FsState) (r : Request) :
    Kept s (r.logged log s) := by
  cases r with
  | UNLINK path => exact Kept.disk s _
  | _ => exact Kept.refl s

theorem request_some {r : Request} (h : w.request log p r = some w') :
    w.live p = true ∧ ¬ w.waits p = true ∧ ∃ ok s, serve w.fs p r = some (ok, s) ∧
      w' = { w with fs := r.logged log s } := by
  unfold World.request at h
  by_cases hl : w.live p = true ∧ ¬ w.waits p = true
  · rw [if_pos hl] at h
    obtain ⟨⟨ok, s⟩, hs, h⟩ := Option.map_eq_some_iff.mp h
    exact ⟨hl.1, hl.2, ok, s, hs, h.symm⟩
  · rw [if_neg hl] at h
    cases h

theorem Kept.filp (h : Kept s s') : s'.filp = s.filp := by
  funext r i
  exact congrFun (congrArg Table.slot h.table) (r, i)

/-- a process that is there and does not wait for a fork changes its own slots -/
theorem World.Inv.of_own (h : w.Inv) (hl : w.live p = true) (hw : ¬ w.waits p)
    (ht : s.Tight) (ho : OwnSlots p w.fs s) : World.Inv { w with fs := s } := by
  refine ⟨ht, fun r hr i => ?_, h.parent, h.child, fun f hf => ?_⟩
  · have hne : r ≠ p := by
      rintro rfl
      rw [hl] at hr
      cases hr
    rw [ho r hne]
    exact h.dead r hr i
  · have hne : f.parent ≠ p := by
      intro he
      apply hw
      show w.fork.any (fun f => decide (f.parent = p)) = true
      rw [show w.fork = some f from hf]
      exact decide_eq_true he
    rw [ho _ hne]
    exact h.files f hf

theorem World.Inv.copy (h : w.Inv) {parent child : Pid} (ha : w.copy parent child = some w') :
    w'.Inv := by
  unfold World.copy at ha
  by_cases hc : w.live parent = true ∧ ¬ w.live child = true ∧ w.fork.isNone = true
  · rw [if_pos hc] at ha
    cases ha
    refine ⟨h.tight, h.dead, fun f hf => ?_, fun f hf => ?_, fun f hf => ?_⟩
    · cases hf
      exact hc.1
    · cases hf
      exact Bool.eq_false_iff.mpr hc.2.1
    · cases hf
      rfl
  · rw [if_neg hc] at ha
    cases ha

/-- the slots of a child that FS has not heard of are not counted -/
theorem uncounted_child (files : Fin nrFiles → Option (Fin nrFileDesc)) {child : Pid}
    (h : ∀ i, s.filp child i = none) :
    uncounted { s with filp := Function.update s.filp child files } child
      (List.finRange nrFiles) = s.table.slot := by
  funext y
  by_cases hy : y.1 = child
  · rw [uncounted, if_pos ⟨hy, List.mem_finRange y.2⟩]
    exact ((congrArg (fun r => s.filp r y.2) hy).trans (h y.2)).symm
  · rw [uncounted, if_neg fun hc => hy hc.1]
    exact congrFun (Function.update_of_ne hy _ _) y.2

theorem World.Inv.announce (h : w.Inv) (ha : w.announce = some w') : w'.Inv := by
  obtain ⟨f, hf, ha⟩ := Option.bind_eq_some_iff.mp ha
  obtain ⟨s, hs, rfl⟩ := Option.map_eq_some_iff.mp ha
  have hstart := h.tight
  unfold FsState.Tight at hstart
  rw [show w.fs.table = { w.fs.table with slot := w.fs.table.slot } from rfl,
    ← uncounted_child f.files (h.dead f.child (h.child f hf))] at hstart
  obtain ⟨ht, hfilp, hroot⟩ := fork_counts _ (List.nodup_finRange nrFiles) hstart hs
  refine ⟨?_, fun r hr i => ?_, fun g hg => (nomatch hg), fun g hg => (nomatch hg),
    fun g hg => (nomatch hg)⟩
  · have hheld : rootHeld s = rootHeld w.fs := by
      funext q
      unfold rootHeld
      rw [hroot]
    unfold FsState.Tight
    rw [hheld]
    exact ht
  · change Function.update w.live f.child true r = false at hr
    have hne : r ≠ f.child := by
      rintro rfl
      rw [Function.update_self] at hr
      cases hr
    rw [Function.update_of_ne hne] at hr
    rw [hfilp]
    show Function.update w.fs.filp f.child f.files r i = none
    rw [Function.update_of_ne hne]
    exact h.dead r hr i

theorem World.parent_ne {f : Forking} (hf : w.fork = some f) (hw : ¬ w.waits p = true) :
    f.parent ≠ p := by
  intro he
  apply hw
  show w.fork.any (fun f => decide (f.parent = p)) = true
  rw [hf]
  exact decide_eq_true he

theorem World.Inv.quit (h : w.Inv) (ha : w.quit p = some w') : w'.Inv := by
  unfold World.quit at ha
  by_cases hl : w.live p = true ∧ ¬ w.waits p = true
  · rw [if_pos hl] at ha
    obtain ⟨s, hs, rfl⟩ := Option.map_eq_some_iff.mp ha
    obtain ⟨ht, hall, -, hother⟩ := exit_counts _ h.tight hs
    have hown := h.of_own hl.1 hl.2 ht fun u hu => hother u hu
    refine ⟨ht, fun r hr i => ?_, fun f hf => ?_, fun f hf => ?_, hown.files⟩
    · change Function.update w.live p false r = false at hr
      by_cases hrp : r = p
      · rw [hrp]
        exact hall i (List.mem_finRange i)
      · rw [Function.update_of_ne hrp] at hr
        exact hown.dead r hr i
    · exact (Function.update_of_ne (World.parent_ne hf hl.2) _ _).trans (h.parent f hf)
    · show Function.update w.live p false f.child = false
      by_cases hc : f.child = p
      · rw [hc, Function.update_self]
      · rw [Function.update_of_ne hc]
        exact h.child f hf
  · rw [if_neg hl] at ha
    cases ha

/-- **One event.** -/
theorem World.Inv.act (h : w.Inv) {e : Event} (ha : w.act log e = some w')
    (hb : BalancedStep w e w') : w'.Inv := by
  cases e with
  | request p r =>
    obtain ⟨hl, hw, ok, s, hs, rfl⟩ := request_some ha
    obtain ⟨ht, -, ho⟩ := serve_tight h.tight (hb p r rfl) hs
    have hk := logged_kept log s r
    exact h.of_own hl hw (hk.tight ht) fun u hu => by rw [hk.filp, ho u hu]
  | copy parent child => exact h.copy ha
  | fork => exact h.announce ha
  | exit p => exact h.quit ha

/-- after a balanced event the counts are exact, and only then -/
theorem World.Inv.exactAfter_iff (h : w.Inv) {e : Event} (ha : w.act log e = some w') :
    ExactAfter w e w' ↔ BalancedStep w e w' := by
  constructor
  · intro hx p r he
    subst he
    obtain ⟨-, -, ok, s, hs, rfl⟩ := request_some ha
    have hk := logged_kept log s r
    by_contra hb
    refine serve_not_tight h.tight hb hs fun o => ?_
    have ho := hx.inodes o
    change (r.logged log s).table.refs o = shares (r.logged log s).table.cnt
      (r.logged log s).table.target o + rootHeld (r.logged log s) o at ho
    rwa [hk.table, hk.rootHeld] at ho
  · intro hb
    have ht := (h.act ha hb).tight
    refine ⟨ht.refs, ht.cnt, fun p r s he hs => ?_⟩
    subst he
    obtain ⟨-, -, ok, s', hs', rfl⟩ := request_some ha
    rw [hs] at hs'
    simp only [Option.some.injEq, Prod.mk.injEq] at hs'
    obtain ⟨rfl, rfl⟩ := hs'
    have hk := ((serve_tight h.tight (hb p r rfl) hs).2.1 rfl).trans (logged_kept log s r)
    exact ⟨congrFun (congrArg Table.refs hk.table), congrFun (congrArg Table.cnt hk.table)⟩

/-! ## start -/

/-- FS before it has read the disk -/
def blank (d : Disk) (sb : Super) : FsState :=
  { disk := d, sb := sb, inodeTable := fun _ => .zero, fDescTable := fun _ => ⟨0, 0, 0, none⟩
    filp := fun _ _ => none, rootInode := 0 }

/-- `init_fs`, once the super block is read: FS gets the inode of the root directory -/
def initFs (d : Disk) (sb : Super) : FsState :=
  (blank d sb).setInode 0 fun _ =>
    .decode (rdSect d (inodeBlk sb ROOT_INODE)) (inodeOff ROOT_INODE) 1 ROOT_INODE

theorem initFs_eq (d : Disk) (sb : Super) :
    getInode (blank d sb) ROOT_INODE = some (0, initFs d sb) := rfl

/-- the processes of the start have no files -/
def startWorld (d : Disk) (sb : Super) (live : Pid → Bool) : World := ⟨initFs d sb, live, none⟩

theorem blank_tight (d : Disk) (sb : Super) : (blank d sb).table.Exact fun _ => 0 := by
  refine ⟨fun x => ?_, fun q => ?_, fun x => iff_of_true rfl rfl⟩
  · have hnone : ∀ y ∈ Finset.univ, ¬ (blank d sb).table.slot y = some x := fun y _ => nofun
    show 0 = users (blank d sb).table.slot x
    rw [users, Finset.filter_false_of_mem hnone, Finset.card_empty]
  · have hzero : ∀ x ∈ Finset.univ, (if (blank d sb).table.target x = some q then
        (blank d sb).table.cnt x else 0) = 0 := fun x _ => if_neg nofun
    show 0 = shares (blank d sb).table.cnt (blank d sb).table.target q + 0
    rw [shares, Finset.sum_eq_zero hzero]

theorem startWorld_inv (d : Disk) (sb : Super) (live : Pid → Bool) :
    (startWorld d sb live).Inv := by
  refine ⟨?_, fun _ _ _ => rfl, fun _ hf => (nomatch hf), fun _ hf => (nomatch hf),
    fun _ hf => (nomatch hf)⟩
  obtain ⟨ht, hr⟩ := getInode_counts (initFs_eq d sb)
  have hold := Table.Exact.hold (blank_tight d sb) 0
  have hheld : rootHeld (initFs d sb) = Function.update (fun _ => 0) 0 (0 + 1) := by
    funext q
    unfold rootHeld
    rw [hr]
    by_cases hq : q = 0
    · rw [hq, Function.update_self]
      rfl
    · rw [Function.update_of_ne hq]
      exact if_neg hq
  show (initFs d sb).table.Exact (rootHeld (initFs d sb))
  rw [ht, hheld]
  exact hold

theorem World.Inv.always_iff (h : w.Inv) (es : List Event) :
    Always (stepOf (World.act log)) ExactAfter w es ↔
      Always (stepOf (World.act log)) BalancedStep w es :=
  Always.iff_of_inv (I := World.Inv) (fun _ _ _ hi ha => World.Inv.exactAfter_iff hi ha)
    (fun _ _ _ hi ha hb => World.Inv.act hi ha hb) es w h

/-- **Reference counts.**  Along every run from the start of FS, whatever is on the disk and whatever
its log writes, the counts are exact after every event and a request that fails leaves them, exactly
if every request of the run is balanced. -/
theorem exact_iff (log : FsState → Disk) (d : Disk) (sb : Super) (live : Pid → Bool)
    (es : List Event) :
    Always (stepOf (World.act log)) ExactAfter (startWorld d sb live) es ↔
      Always (stepOf (World.act log)) BalancedStep (startWorld d sb live) es :=
  (startWorld_inv d sb live).always_iff es

/-! ## an UNLINK of a terminal -/

/-- the super block of a device of 64 MB -/
def Super.small : Super := ⟨4096, 0x20000, 1, 33, 292, 256⟩

def devTty0 : List Byte := [0x64, 0x65, 0x76, 0x5F, 0x74, 0x74, 0x79, 0x30]

/-- `.` and `dev_tty0`, as `mkfs` writes them -/
def ttyDisk : Disk := fun t =>
  if t = inodeBlk .small 1 then
    Inode.encode (Inode.encode (fun _ => 0) (inodeOff 1) ⟨I_DIRECTORY, 32, 292, 2048, 0, 0⟩)
      (inodeOff 2) ⟨I_CHAR_SPECIAL, 0, 0x400, 0, 0, 0⟩
  else if t = 292 then
    strcpy (put32 (strcpy (put32 (fun _ => 0) 0 1) 4 [0x2E]) 16 2) 20 devTty0
  else fun _ => 0

/-- it is refused, and the inode keeps the reference: it has one more than descriptors -/
theorem exact_fails :
    ¬ Always (stepOf (World.act FsState.disk)) ExactAfter (startWorld ttyDisk .small fun _ => true)
      [.request 8 (.UNLINK (slash :: devTty0))] := by
  intro h
  have hbal := ((startWorld_inv ttyDisk .small fun _ => true).always_iff _).mp h
  obtain ⟨r, hr⟩ : ∃ r, serve (initFs ttyDisk .small) 8 (.UNLINK (slash :: devTty0)) = some r :=
    Option.isSome_iff_exists.mp (by decide +kernel)
  have hact : (startWorld ttyDisk .small fun _ => true).act FsState.disk
      (.request 8 (.UNLINK (slash :: devTty0))) = some { startWorld ttyDisk .small fun _ => true with
        fs := (Request.UNLINK (slash :: devTty0)).logged FsState.disk r.2 } := by
    show World.request FsState.disk _ 8 _ = _
    rw [World.request, if_pos ⟨rfl, nofun⟩]
    exact congrArg (Option.map _) hr
  have hnone := ((hbal _ hact).1 8 _ rfl (by decide) (by decide +kernel)).2
  exact absurd hnone (by decide +kernel)

end Noxis.Fs
