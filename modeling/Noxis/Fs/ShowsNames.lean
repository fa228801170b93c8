import Noxis.Fs.ShowsCalls

/-!
# 25-osfs11/fs: OPEN and UNLINK as the processes see them

* `FsState.Room`      there is room for one file more, before sector `lim`
* `Stored.opened`     the end of OPEN: the file has no bytes any more, if it is truncated
* `Stored.created`    a file more
* `Stored.removed`    a file less
* `Shows.open`, `Shows.unlink`
-/

namespace Noxis.Fs
open Ipc (Pid)
open FileStore RefCount

/-- there is room for a file: an inode number is free, and the first free run of sectors ends
before `lim` -/
def FsState.Room (lim : Nat) (s : FsState) : Prop :=
  (∃ v < 4096, s.view.imap v = false) ∧ ∃ n, FreeRun s.view.smap NR_DEFAULT_FILE_SECTS n ∧
    n + s.sb.n1stSect - 1 + NR_DEFAULT_FILE_SECTS ≤ s.sb.nrSects ∧
    n + s.sb.n1stSect - 1 + NR_DEFAULT_FILE_SECTS ≤ lim

/-- `open` with O_TRUNC -/
def Files.truncated (a : Files) (f : Name) (flags : Nat) : Files :=
  if flags &&& O_TRUNC = 0 then a else a.put f (some [])

section
variable {special : Name → Prop} {lim : Nat} {s s' s₁ : FsState} {a a₁ : Files} {f g : Name}
  {data : List Byte} {p : Pid} {fd : Fin nrFiles} {x y : Fin nrFileDesc} {q r : Fin nrInode}
  {j k n v flags : Nat} {h : Handle Name} {rooted : Bool}

/-! ## free slots and handles -/

/-- a handle is free when no slot points to it -/
theorem Shows.free_iff (hs : Shows special lim s a) (ht : s.Tight) :
    (s.fDescTable x).inode = none ↔ ¬ a.Used x := by
  have hcnt : (s.fDescTable x).cnt = users s.table.slot x := ht.cnt x
  have hfree : (s.fDescTable x).inode = none ↔ (s.fDescTable x).cnt = 0 := ht.free x
  rw [hfree, hcnt]
  constructor
  · rintro hzero ⟨p, i, hx⟩
    rw [hs.slots] at hx
    exact absurd (Finset.mem_filter.mpr ⟨Finset.mem_univ (p, i), hx⟩)
      (Finset.card_eq_zero.mp hzero ▸ Finset.notMem_empty _)
  · intro hno
    by_contra hc
    obtain ⟨⟨p, i⟩, hmem⟩ := Finset.card_ne_zero.mp hc
    refine hno ⟨p, i, ?_⟩
    rw [hs.slots]
    exact (Finset.mem_filter.mp hmem).2

/-- OPEN takes the first free slot and the first free handle -/
theorem Shows.frees (hs : Shows special lim s a) (ht : s.Tight) :
    freeFilp s p = a.freeSlot p ∧ freeFDesc s = a.freeHandle := by
  constructor
  · unfold freeFilp Files.freeSlot
    rw [hs.slots]
  · have htest : (fun x => decide ((s.fDescTable x).inode = none)) = fun x => decide (¬ a.Used x) := by
      funext x
      exact decide_eq_decide.mpr (hs.free_iff ht)
    unfold freeFDesc Files.freeHandle
    rw [htest]

theorem Files.freeSlot_some (hfd : a.slot p fd = none) : ∃ i, a.freeSlot p = some i := by
  refine Option.ne_none_iff_exists'.mp fun hnone => ?_
  exact List.find?_eq_none.mp hnone fd (List.mem_finRange fd) (decide_eq_true hfd)

theorem Files.freeHandle_some (hbusy : a.busy < 63) : ∃ x, a.freeHandle = some x ∧ ¬ a.Used x := by
  have hex : ∃ x, ¬ a.Used x := by
    by_contra hno
    have hall : (Finset.univ.filter fun x => a.Used x) = Finset.univ :=
      Finset.filter_true_of_mem fun x _ => not_not.mp fun hx => hno ⟨x, hx⟩
    unfold Files.busy at hbusy
    rw [hall, Finset.card_univ, Fintype.card_fin] at hbusy
    exact absurd hbusy (by decide)
  obtain ⟨y, hy⟩ := hex
  have hsome : a.freeHandle ≠ none := by
    intro hnone
    unfold Files.freeHandle at hnone
    exact List.find?_eq_none.mp hnone y (List.mem_finRange y) (decide_eq_true hy)
  obtain ⟨x, hx⟩ := Option.ne_none_iff_exists'.mp hsome
  refine ⟨x, hx, ?_⟩
  unfold Files.freeHandle at hx
  have hfound := List.find?_some hx
  exact of_decide_eq_true hfound

/-! ## the end of OPEN -/

theorem Files.truncated_slot : (a.truncated f flags).slot = a.slot := by
  unfold Files.truncated
  split <;> rfl

theorem Files.truncated_handle : (a.truncated f flags).handle = a.handle := by
  unfold Files.truncated
  split <;> rfl

theorem Files.truncated_file (hg : a.file g ≠ none) : (a.truncated f flags).file g ≠ none := by
  unfold Files.truncated
  split
  · exact hg
  · show Function.update a.file f (some []) g ≠ none
    by_cases hgf : g = f
    · rw [hgf, Function.update_self]
      exact Option.some_ne_none _
    · rwa [Function.update_of_ne hgf]

theorem View.Only.stores_nil (ho : View.Only q k s.view s'.view) (hok : s'.view.Ok)
    (hhas : s'.view.Has q k) (hq : q ≠ s.rootInode) (hk : s.view.Named f k)
    (hroot : s.view.nr k ≠ ROOT_INODE) (hsize : (s'.inodeTable q).size = 0) :
    s'.view.Stores f [] k := by
  have hfile := hok.has_file hhas
  refine ⟨(ho.named hq).mpr hk, ?_, hok.has_regular hhas, ?_, fun i hi => absurd hi (Nat.not_lt_zero i)⟩
  · rw [ho.nr]
    exact hroot
  · rw [hfile]
    exact hsize

/-- **The file is opened**, and truncated if the flags say so. -/
theorem Stored.opened (hs : Stored special lim s a) (hst : s.view.Stores f data k)
    (ho : View.Only q k s.view s'.view) (hok : s'.view.Ok) (hhas : s'.view.Has q k)
    (hq : q ≠ s.rootInode) (hsize : flags &&& O_TRUNC ≠ 0 → (s'.inodeTable q).size = 0)
    (hdisk : flags &&& O_TRUNC = 0 → s'.disk = s.disk) :
    Stored special lim s' (a.truncated f flags) := by
  unfold Files.truncated
  by_cases ht : flags &&& O_TRUNC = 0
  · rw [if_pos ht]
    exact hs.same_disk ho hok hq hst.named.live (hdisk ht)
  · rw [if_neg ht]
    exact hs.only ho hok hq hst.named hst.mode
      (ho.stores_nil hok hhas hq hst.named hst.nonroot (hsize ht))

/-- **The process gets a descriptor.** -/
theorem Stored.attach (hst : Stored special lim s' a₁) (hslots : a₁.slot = s.filp)
    (hfilp : s'.filp = Function.update s.filp p (Function.update (s.filp p) fd (some x)))
    (hdesc : s'.fDescTable = Function.update s.fDescTable x ⟨flags, 0, 1, some q⟩)
    (hrdwr : flags &&& O_RDWR ≠ 0) (hhas : s'.view.Has q k) (hnamed : s'.view.Named f k)
    (hthere : a₁.file f ≠ none) (hothers : ∀ y, y ≠ x → a₁.Used y → ∃ h r j, HoldsAt s' a₁ y h r j)
    (hnear : lim < 2 ^ 22) : Shows special lim s' (a₁.attach p fd x ⟨f, 0⟩) := by
  have hslot : (a₁.attach p fd x ⟨f, 0⟩).slot = s'.filp := by
    show Function.update a₁.slot p (Function.update (a₁.slot p) fd (some x)) = _
    rw [hslots, hfilp]
  refine ⟨⟨hst.ok, hst.files, hst.absent, hst.sects, hst.root⟩, hslot, fun y hy => ?_, hnear⟩
  by_cases hyx : y = x
  · subst hyx
    have hat : s'.fDescTable y = ⟨flags, 0, 1, some q⟩ := by
      rw [hdesc, Function.update_self]
    refine ⟨⟨f, 0⟩, q, k, Function.update_self .., ?_, ?_, ?_, hhas, hnamed, hthere⟩
    · rw [hat]
    · rw [hat]
    · rw [hat]
      exact hrdwr
  · have hused : a₁.Used y := by
      obtain ⟨u, i, hu⟩ := hy
      refine ⟨u, i, ?_⟩
      have hne : u ≠ p ∨ i ≠ fd := by
        by_contra hc
        obtain ⟨rfl, rfl⟩ : u = p ∧ i = fd := by
          constructor
          · exact not_not.mp fun hup => hc (.inl hup)
          · exact not_not.mp fun hi => hc (.inr hi)
        rw [Store.attach, Store.setSlot_self] at hu
        exact hyx (Option.some.inj hu).symm
      rw [Store.attach, Store.setSlot_other _ hne] at hu
      exact hu
    obtain ⟨h, r, j, hh⟩ := hothers y hyx hused
    exact ⟨h, r, j, (Function.update_of_ne hyx _ _).trans hh.handle, hh.inode, hh.pos, hh.rdwr, hh.has,
      hh.named, hh.there⟩

/-! ## OPEN of a file that is there -/

theorem Shows.open_found {fd' : Fin nrFiles} (hs : Shows special lim s a) (ht : s.Tight)
    (hbusy : a.busy < 63) (hfd' : a.slot p fd' = none) (hf : a.file f = some data) (hflags : FindFlags flags) :
    Serves special lim s a p (.open f rooted flags) := by
  obtain ⟨k, hst⟩ := hs.files f data hf
  obtain ⟨fd, hfd⟩ := Files.freeSlot_some hfd'
  obtain ⟨x, hx, hunused⟩ := Files.freeHandle_some hbusy
  obtain ⟨hfilp, hdesc⟩ := hs.frees ht (p := p)
  obtain ⟨q, s', hopen, ho, honly⟩ := hs.ok.doOpen_found hflags hst.named hst.nonroot hst.mode
    (hs.free_slot ht hbusy) (hfilp.trans hfd) (hdesc.trans hx) rooted
  have hq : q ≠ s.rootInode := by
    have hother := ho.has.other
    rwa [show s'.view.root = s.rootInode from ho.root.1] at hother
  have hrdwr : flags &&& O_RDWR ≠ 0 := by
    rcases hflags with rfl | rfl <;> decide
  have hstored := hs.toStored.opened hst honly ho.ok ho.has hq ho.size ho.disk
  have hcall : a.call p (.open f rooted flags) =
      (.fd (some fd), (a.truncated f flags).attach p fd x ⟨f, 0⟩) := by
    show a.openFile p f flags = _
    unfold Files.openFile Files.truncated
    simp only [hfd, hx, hf]
    rcases hflags with rfl | rfl <;> rfl
  rw [Serves, hcall]
  refine ⟨true, s', congrArg (Option.map _) hopen, congrArg (Option.map _) hopen, ?_⟩
  refine hstored.attach (Files.truncated_slot.trans hs.slots) ho.filp ho.desc hrdwr ho.has
    ((honly.named hq).mpr hst.named) (Files.truncated_file ?_) (fun y hyx hy => ?_) hs.near
  · rw [hf]
    exact Option.some_ne_none _
  · have hy' : a.Used y := by
      obtain ⟨u, i, hu⟩ := hy
      rw [Files.truncated_slot] at hu
      exact ⟨u, i, hu⟩
    obtain ⟨h, r, j, hh⟩ := hs.holds y hy'
    refine ⟨h, r, j, hh.only hs.ok honly hq (fun hrq => ?_) ?_ (congrFun Files.truncated_handle y)
      Files.truncated_file⟩
    · subst hrq
      have hnum : (s.inodeTable r).num = (s'.inodeTable r).num := ho.slot hh.has.held
      have hnr : (s'.inodeTable r).num = s.view.nr k := ho.has.num.trans (honly.nr k)
      have hjk : j = k :=
        hs.ok.nums j k hh.has.live hst.named.live (hh.has.num.symm.trans (hnum.trans hnr))
      subst hjk
      exact ⟨hh.has, ho.has⟩
    · rw [ho.desc, Function.update_of_ne hyx]
      exact .refl _

/-! ## OPEN that does nothing -/

theorem Shows.open_refused {fd' : Fin nrFiles} (hs : Shows special lim s a) (ht : s.Tight)
    (hbusy : a.busy < 63) (hfd' : a.slot p fd' = none)
    (hno : a.file f = none ∧ ¬ special f ∧ ¬ flags &&& O_CREAT ≠ 0 ∨
      a.file f ≠ none ∧ flags = O_CREAT ||| O_RDWR) :
    Serves special lim s a p (.open f rooted flags) := by
  obtain ⟨fd, hfd⟩ := Files.freeSlot_some hfd'
  obtain ⟨x, hx, -⟩ := Files.freeHandle_some hbusy
  obtain ⟨hfilp, hdesc⟩ := hs.frees ht (p := p)
  have hopen : doOpen s p (f.path rooted) flags = some (none, s) := by
    unfold doOpen
    rw [if_neg (Nat.not_le.mpr (f.path_length rooted))]
    simp only [f.cString_path, hfilp.trans hfd, hdesc.trans hx]
    rcases hno with ⟨hf, hsp, hflags⟩ | ⟨hf, rfl⟩
    · rw [if_pos (hs.search_absent hsp hf rooted), if_neg hflags]
    · obtain ⟨data, hdata⟩ := Option.ne_none_iff_exists'.mp hf
      obtain ⟨k, hst⟩ := hs.files f data hdata
      rw [hs.ok.search_live hst.named.live hst.named.name rooted,
        if_neg (show ¬ s.view.nr k = INVALID_INODE from hst.named.live.2)]
      rfl
  have hcall : a.call p (.open f rooted flags) = (.fd none, a) := by
    show a.openFile p f flags = _
    unfold Files.openFile
    simp only [hfd, hx]
    rcases hno with ⟨hf, -, hflags⟩ | ⟨hf, rfl⟩
    · rw [hf, if_pos (show (none : Option (List Byte)).isNone = true from rfl), if_neg hflags]
    · obtain ⟨data, hdata⟩ := Option.ne_none_iff_exists'.mp hf
      rw [hdata]
      rfl
  rw [Serves, hcall]
  exact ⟨false, s, congrArg (Option.map _) hopen, congrArg (Option.map _) hopen, hs⟩

/-! ## a file more -/

theorem View.Ok.created_named {w : View} (h : w.Ok) (hf : w.Free v n q) (hk : k ≤ w.len) :
    (w.created v n q k (pad f.bytes)).Named f k :=
  have hself : (w.created v n q k (pad f.bytes)).entry k = (v, pad f.bytes) := Function.update_self ..
  ⟨(View.created_live h hf hk).mpr (.inl rfl), congrArg Prod.snd hself⟩

/-- the files that were there are where they were -/
theorem View.Ok.created_old {w : View} (h : w.Ok) (hf : w.Free v n q) (hk : k ≤ w.len)
    (hj : (w.created v n q k (pad f.bytes)).Live j) (hjk : j ≠ k)
    (hm : ((w.created v n q k (pad f.bytes)).file j).mode = I_REGULAR) :
    w.Live j ∧ (w.created v n q k (pad f.bytes)).file j = w.file j := by
  rcases (View.created_live h hf hk).mp hj with rfl | ⟨-, hlive⟩
  · exact absurd rfl hjk
  · refine ⟨hlive, ?_⟩
    have hput := h.created_inode hf
    have hfile := hput.withEntry_file hjk hm
    refine hfile.trans ?_
    exact Function.update_of_ne (h.free_nr hf hlive) _ _

/-- **One file more.** -/
theorem Stored.created (hs : Stored special lim s a) (hf : s.view.Free v n q) (hk : k ≤ s.view.len)
    (hdead : ¬ s.view.Live k) (hview : s₁.view = s.view.created v n q k (pad f.bytes))
    (hok : s₁.view.Ok) (hlim : n + s.sb.n1stSect - 1 + NR_DEFAULT_FILE_SECTS ≤ lim) :
    Stored special lim s₁ (a.put f (some [])) := by
  have hfile := View.created_file hs.ok hf k (pad f.bytes)
  have hnew : s₁.view.Stores f [] k := by
    rw [hview]
    refine ⟨hs.ok.created_named hf hk, ?_, ?_, ?_, fun i hi => absurd hi (Nat.not_lt_zero i)⟩
    · rw [View.created_nr]
      exact (hs.ok.free_ne hf).2
    · rw [hfile]
      rfl
    · rw [hfile]
      rfl
  have hsame : ∀ g, g ≠ f → SameFile 0 g s.view s₁.view := by
    intro g hg
    rw [hview]
    exact hs.ok.created_same hf hk hdead hg
  refine ⟨hok, fun g bytes hg => ?_, fun g hg hsp j hj => ?_, fun j hj hm => ?_, ?_⟩
  · by_cases hgf : g = f
    · subst hgf
      have hat : (a.put g (some [])).file g = some [] := Function.update_self ..
      rw [hat] at hg
      obtain rfl := Option.some.inj hg
      exact ⟨k, hnew⟩
    · have hat : (a.put f (some [])).file g = a.file g := Function.update_of_ne hgf _ _
      rw [hat] at hg
      obtain ⟨j, hj⟩ := hs.files g bytes hg
      exact ⟨j, hj.same hs.ok (hsame g hgf)⟩
  · by_cases hgf : g = f
    · subst hgf
      have hat : (a.put g (some [])).file g = some [] := Function.update_self ..
      rw [hat] at hg
      cases hg
    · have hat : (a.put f (some [])).file g = a.file g := Function.update_of_ne hgf _ _
      rw [hat] at hg
      exact hs.absent g hg hsp j (((hsame g hgf).named j).mp hj)
  · rw [hview] at hj hm ⊢
    by_cases hjk : j = k
    · subst hjk
      rw [hfile]
      exact ⟨rfl, hlim⟩
    · obtain ⟨hlive, hold⟩ := hs.ok.created_old hf hk hj hjk hm
      rw [hold] at hm ⊢
      exact hs.sects j hlive hm
  · -- `new_dir_entry` writes the inode of `/`
    rw [hview]
    set w := (s.view.taken v n).put q (.fresh v (n + s.view.sb.n1stSect - 1))
    have hinode : (w.withEntry k v (pad f.bytes)).inode ROOT_INODE =
        { w.dir with size := sizeWith w.dir k, cnt := 0 } := by
      unfold View.withEntry
      simp only [Function.update_self]
    show (w.withEntry k v (pad f.bytes)).inode ROOT_INODE =
      { (w.withEntry k v (pad f.bytes)).dir with cnt := 0 }
    rw [hinode, View.withEntry_dir]

/-- a file in memory stays there -/
theorem View.Ok.created_keeps {w : View} {name : Key} (h : w.Ok) (hf : w.Free v n q) (hk : k ≤ w.len)
    (hdead : ¬ w.Live k) (hr : w.Has r j) : r ≠ q ∧ (w.created v n q k name).Has r j := by
  have hrq : r ≠ q := by
    rintro rfl
    exact hr.held hf.slot
  have hjk : j ≠ k := by
    rintro rfl
    exact hdead hr.live
  have htab : (w.created v n q k name).table r = w.table r := by
    show Function.update (Function.update w.table q _) w.root _ r = w.table r
    rw [Function.update_of_ne hr.other, Function.update_of_ne hrq]
  have hnr : (w.created v n q k name).nr j = w.nr j :=
    congrArg Prod.fst (Function.update_of_ne hjk _ _)
  refine ⟨hrq, hr.other, ?_, (View.created_live h hf hk).mpr (.inr ⟨hjk, hr.live⟩), ?_, ?_⟩
  · rw [htab]
    exact hr.held
  · rw [htab, hnr]
    exact hr.num
  · rw [htab]
    exact hr.mode

theorem Files.put_there (hg : a.file g ≠ none) : (a.put f (some data)).file g ≠ none := by
  show Function.update a.file f (some data) g ≠ none
  by_cases hgf : g = f
  · rw [hgf, Function.update_self]
    exact Option.some_ne_none _
  · rwa [Function.update_of_ne hgf]

/-- the handles of the other files -/
theorem HoldsAt.created (hx : HoldsAt s a x h r j) (hs : s.view.Ok) (hf : s.view.Free v n q)
    (hk : k ≤ s.view.len) (hdead : ¬ s.view.Live k)
    (hview : s₁.view = s.view.created v n q k (pad f.bytes)) (hdesc : s₁.fDescTable = s.fDescTable) :
    r ≠ q ∧ HoldsAt s₁ (a.put f (some [])) x h r j := by
  obtain ⟨hrq, hhas⟩ : r ≠ q ∧ (s.view.created v n q k (pad f.bytes)).Has r j :=
    hs.created_keeps hf hk hdead hx.has
  have hjk : j ≠ k := by
    rintro rfl
    exact hdead hx.named.live
  refine ⟨hrq, hx.handle, ?_, ?_, ?_, hview ▸ hhas, ?_, Files.put_there hx.there⟩
  · rw [hdesc]
    exact hx.inode
  · rw [hdesc]
    exact hx.pos
  · rw [hdesc]
    exact hx.rdwr
  · rw [hview]
    refine ⟨(View.created_live hs hf hk).mpr (.inr ⟨hjk, hx.named.live⟩), ?_⟩
    exact (congrArg Prod.snd (Function.update_of_ne hjk _ _)).trans hx.named.name

theorem Files.put_truncated (a : Files) (f : Name) (flags : Nat) :
    Files.truncated (a.put f (some [])) f flags = a.put f (some []) := by
  unfold Files.truncated
  split
  · rfl
  · unfold Store.put
    simp only [Function.update_idem]

/-- **OPEN makes a file.** -/
theorem Shows.open_created {fd' : Fin nrFiles} (hs : Shows special lim s a) (ht : s.Tight)
    (hbusy : a.busy < 63) (hfd' : a.slot p fd' = none) (hf : a.file f = none) (hsp : ¬ special f)
    (hcreat : flags &&& O_CREAT ≠ 0) (hrdwr : flags &&& O_RDWR ≠ 0) (hl : f.bytes.length ≤ 11)
    (hroom : s.Room lim) : Serves special lim s a p (.open f rooted flags) := by
  obtain ⟨hbit, n, hrun, hdev, hlim⟩ := hroom
  obtain ⟨fd, hfd⟩ := Files.freeSlot_some hfd'
  obtain ⟨x, hx, hunused⟩ := Files.freeHandle_some hbusy
  obtain ⟨hfilp, hdesc⟩ := hs.frees ht (p := p)
  obtain ⟨v, q, k, s₁, hopen, hfin, hfree, hk, hdead, hok, hview, hfilp₁, hdesc₁⟩ :=
    hs.ok.doOpen_created hl (hs.absent f hf hsp) hbit hrun hdev (hs.free_slot ht hbusy)
      (hfilp.trans hfd) (hdesc.trans hx) hcreat rooted
  set s' := connect (truncate s₁ flags q) p fd x flags q with hs'
  have hok₁ : s₁.view.Ok := hview ▸ hok
  have hstored₁ := hs.toStored.created hfree hk hdead hview hok₁ hlim
  have hnamed₁ : s₁.view.Named f k := by
    rw [hview]
    exact hs.ok.created_named hfree hk
  have hat : (a.put f (some [])).file f = some [] := Function.update_self ..
  obtain ⟨k', hst₁⟩ := hstored₁.files f [] hat
  obtain rfl := hok₁.named_unique hst₁.named hnamed₁
  have hq : q ≠ s₁.rootInode := by
    have hother := hfin.has.other
    rwa [show s'.view.root = s₁.rootInode from hfin.only.root] at hother
  have hstored := hstored₁.opened hst₁ hfin.only hfin.ok hfin.has hq hfin.size hfin.disk
  rw [Files.put_truncated] at hstored
  have hcall : a.call p (.open f rooted flags) =
      (.fd (some fd), (a.put f (some [])).attach p fd x ⟨f, 0⟩) := by
    show a.openFile p f flags = _
    unfold Files.openFile
    simp only [hfd, hx, hf]
    rw [if_pos (show (none : Option (List Byte)).isNone = true from rfl), if_pos hcreat]
  rw [Serves, hcall]
  refine ⟨true, s', congrArg (Option.map _) hopen, congrArg (Option.map _) hopen, ?_⟩
  refine hstored.attach (s := s₁) (hs.slots.trans hfilp₁.symm) hfin.filp hfin.desc hrdwr hfin.has
    ((hfin.only.named hq).mpr hnamed₁) ?_ (fun y hyx hy => ?_) hs.near
  · rw [hat]
    exact Option.some_ne_none _
  · obtain ⟨h, r, j, hh⟩ := hs.holds y hy
    obtain ⟨hrq, hh₁⟩ := hh.created (f := f) hs.ok hfree hk hdead hview hdesc₁
    refine ⟨h, r, j, hh₁.only hok₁ hfin.only hq (fun he => absurd he hrq) ?_ rfl fun hf => hf⟩
    rw [hfin.desc, Function.update_of_ne hyx]
    exact .refl _

/-- **OPEN**, whatever it does. -/
theorem Shows.open (hs : Shows special lim s a) (ht : s.Tight)
    (hc : a.Allows special p (.open f rooted flags))
    (hroom : a.file f = none → flags &&& O_CREAT ≠ 0 → s.Room lim) :
    Serves special lim s a p (.open f rooted flags) := by
  obtain ⟨hsp, ⟨fd', hfd'⟩, hbusy, hnew, hold⟩ := hc
  cases hf : a.file f with
  | none =>
    by_cases hcreat : flags &&& O_CREAT ≠ 0
    · obtain ⟨hrdwr, hl⟩ := hnew hf hcreat
      exact hs.open_created ht hbusy hfd' hf hsp hcreat hrdwr hl (hroom hf hcreat)
    · exact hs.open_refused ht hbusy hfd' (.inl ⟨hf, hsp, hcreat⟩)
  | some data =>
    have hthere : a.file f ≠ none := by
      rw [hf]
      exact Option.some_ne_none _
    rcases hold hthere with hflags | hflags | hflags
    · exact hs.open_found ht hbusy hfd' hf (.inl hflags)
    · exact hs.open_refused ht hbusy hfd' (.inr ⟨hthere, hflags⟩)
    · exact hs.open_found ht hbusy hfd' hf (.inr hflags)

/-! ## UNLINK -/

/-- a file that no handle is open on is not in memory -/
theorem Shows.idle (hs : Shows special lim s a) (ht : s.Tight) (hst : s.view.Stores f data k)
    (hclosed : ∀ x h, a.Used x → a.handle x = some h → h.file ≠ f) (r : Fin nrInode)
    (hr : (s.inodeTable r).cnt ≠ 0) : (s.inodeTable r).num ≠ s.view.nr k := by
  intro hnum
  have hroot : r ≠ s.rootInode := by
    rintro rfl
    exact hst.nonroot (hnum.symm.trans hs.ok.num)
  obtain ⟨x, hx, hused⟩ := hs.slot_used ht hroot hr
  obtain ⟨h, q, j, hh⟩ := hs.holds x hused
  obtain rfl := Option.some.inj (hx.symm.trans hh.inode)
  have hjk : j = k := hs.ok.nums j k hh.named.live hst.named.live (hh.has.num.symm.trans hnum)
  subst hjk
  exact hclosed x h hused hh.handle (Name.pad_inj (hh.named.name.symm.trans hst.named.name))

/-- **One file less.** -/
theorem Stored.removed (hs : Stored special lim s a) (hst : s.view.Stores f data k)
    (hq : q ≠ s.rootInode) (hgap : s.view.NoGap k)
    (hidle : ∀ r, (s.inodeTable r).cnt ≠ 0 → (s.inodeTable r).num ≠ s.view.nr k)
    (hview : s'.view = s.view.removed q k) : Stored special lim s' (a.put f none) := by
  have hok : s'.view.Ok := by
    rw [hview]
    exact hs.ok.removed hst.named.live hst.nonroot hst.mode hq hgap fun r _ => hidle r
  have hsame : ∀ g, g ≠ f → SameFile 0 g s.view s'.view := by
    intro g hg
    rw [hview]
    exact hs.ok.removed_same hst.named hgap hg
  refine ⟨hok, fun g bytes hg => ?_, fun g hg hsp j hj => ?_, fun j hj hm => ?_, ?_⟩
  · have hgf : g ≠ f := by
      rintro rfl
      have hat : (a.put g none).file g = none := Function.update_self ..
      rw [hat] at hg
      cases hg
    have hat : (a.put f none).file g = a.file g := Function.update_of_ne hgf _ _
    rw [hat] at hg
    obtain ⟨j, hj⟩ := hs.files g bytes hg
    exact ⟨j, hj.same hs.ok (hsame g hgf)⟩
  · by_cases hgf : g = f
    · subst hgf
      rw [hview] at hj
      exact hs.ok.removed_none hst.named hgap j hj
    · have hat : (a.put f none).file g = a.file g := Function.update_of_ne hgf _ _
      rw [hat] at hg
      exact hs.absent g hg hsp j (((hsame g hgf).named j).mp hj)
  · rw [hview] at hj hm ⊢
    obtain ⟨hjk, hlive⟩ := (View.removed_live hst.named.live hgap).mp hj
    have hfile := hs.ok.removed_file hst.named.live hlive hjk hm
    rw [hfile] at hm ⊢
    exact hs.sects j hlive hm
  · rw [hview, View.removed_dir]
    show (if k + 1 = s.view.len then _ else _ : Nat → Inode) ROOT_INODE = _
    by_cases hlast : k + 1 = s.view.len
    · rw [if_pos hlast, Function.update_self]
    · have hsize : s.view.sizeWithout k = s.view.dir.size := if_neg hlast
      rw [if_neg hlast, Function.update_of_ne hst.nonroot.symm, hs.root, hsize]

/-- the handles of the other files -/
theorem HoldsAt.removed (hx : HoldsAt s a x h r j) (hk : s.view.Live k) (hgap : s.view.NoGap k)
    (hfree : (s.inodeTable q).cnt = 0) (hjk : j ≠ k) (hne : h.file ≠ f)
    (hview : s'.view = s.view.removed q k) (hdesc : s'.fDescTable = s.fDescTable) :
    HoldsAt s' (a.put f none) x h r j := by
  have hrq : r ≠ q := by
    rintro rfl
    exact hx.has.held hfree
  have hlive : (s.view.removed q k).Live j := (View.removed_live hk hgap).mpr ⟨hjk, hx.named.live⟩
  have htab : (s.view.removed q k).table r = s.view.table r := by
    show Function.update (Function.update s.view.table q _) s.view.root _ r = s.view.table r
    rw [Function.update_of_ne hx.has.other, Function.update_of_ne hrq]
  refine ⟨hx.handle, ?_, ?_, ?_, ?_, ?_, ?_⟩
  · rw [hdesc]
    exact hx.inode
  · rw [hdesc]
    exact hx.pos
  · rw [hdesc]
    exact hx.rdwr
  · rw [hview]
    refine ⟨hx.has.other, ?_, hlive, ?_, ?_⟩
    · rw [htab]
      exact hx.has.held
    · rw [htab, View.removed_nr hjk]
      exact hx.has.num
    · rw [htab]
      exact hx.has.mode
  · rw [hview]
    exact ⟨hlive, (congrArg Prod.snd (View.removed_entry hjk)).trans hx.named.name⟩
  · show Function.update a.file f none h.file ≠ none
    rw [Function.update_of_ne hne]
    exact hx.there

/-- **UNLINK**, whether the file is there or not. -/
theorem Shows.unlink (hs : Shows special lim s a) (ht : s.Tight)
    (hc : a.Allows special p (.unlink f rooted))
    (hgap : ∀ k, s.view.Named f k → s.view.NoGap k) :
    Serves special lim s a p (.unlink f rooted) := by
  obtain ⟨hsp, hbusy, hclosed⟩ := hc
  cases hf : a.file f with
  | none =>
    have hput : a.put f none = a := by
      unfold Store.put
      rw [← hf, Function.update_eq_self]
    have hunlink : doUnlink s (f.path rooted) = some (false, s) := by
      unfold doUnlink
      rw [if_neg (Nat.not_le.mpr (f.path_length rooted))]
      simp only [f.cString_path, hs.search_absent hsp hf rooted, if_true, ite_self]
    have hcall : a.call p (.unlink f rooted) = (.unlinked false, a) := by
      show (Result.unlinked (a.file f).isSome, a.put f none) = _
      rw [hput, hf]
      rfl
    rw [Serves, hcall]
    exact ⟨false, s, hunlink, congrArg (Option.map _) hunlink, hs⟩
  | some data =>
    obtain ⟨k, hst⟩ := hs.files f data hf
    have hidle := hs.idle ht hst hclosed
    have hsects := (hs.sects k hst.named.live hst.mode).1
    obtain ⟨q, s', hunlink, hq, hfree, hview, hfilp, hdesc⟩ := hs.ok.doUnlink hst.named hst.mode
      (by rw [hsects]; decide) hidle (hs.free_slot ht hbusy) rooted
    have hgapk := hgap k hst.named
    have hcall : a.call p (.unlink f rooted) = (.unlinked true, a.put f none) := by
      show (Result.unlinked (a.file f).isSome, a.put f none) = _
      rw [hf]
      rfl
    rw [Serves, hcall]
    have hstored := hs.toStored.removed hst hq hgapk hidle hview
    refine ⟨true, s', hunlink, congrArg (Option.map _) hunlink,
      ⟨⟨hstored.ok, hstored.files, hstored.absent, hstored.sects, hstored.root⟩,
        hs.slots.trans hfilp.symm, fun x hx => ?_, hs.near⟩⟩
    obtain ⟨h, r, j, hh⟩ := hs.holds x hx
    have hne := hclosed x h hx hh.handle
    have hjk : j ≠ k := by
      rintro rfl
      exact hne (Name.pad_inj (hh.named.name.symm.trans hst.named.name))
    exact ⟨h, r, j, hh.removed hst.named.live hgapk hfree hjk hne hview hdesc⟩

end

end Noxis.Fs
