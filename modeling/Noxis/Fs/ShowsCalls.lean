import Mathlib.Algebra.Order.BigOperators.Group.Finset
import Noxis.Fs.Shows

/-!
# 25-osfs11/fs: READ, WRITE, LSEEK, CLOSE and STAT as the processes see them

* `Serves`   FS answers a call as it is meant, and shows what it should afterwards
* `Shows.read`, `Shows.write`, `Shows.lseek`, `Shows.close`, `Shows.stat`
-/

namespace Noxis.Fs
open Ipc (Pid)
open FileStore RefCount

/-- **FS serves a call**: it ends, with the right answer and the right files -/
def Serves (special : Name → Prop) (lim : Nat) (s : FsState) (a : Files) (p : Pid) (c : Call) :
    Prop :=
  ∃ ok s', serve s p c.request = some (ok, s') ∧
    s.reply p c.request = some (a.call p c).1 ∧ Shows special lim s' (a.call p c).2

section
variable {special : Name → Prop} {lim : Nat} {s s' : FsState} {a : Files} {f : Name}
  {data : List Byte} {p : Pid} {fd : Fin nrFiles} {x y : Fin nrFileDesc} {q r : Fin nrInode}
  {j k len n : Nat} {h : Handle Name} {buf : Buffer}

theorem Shows.opened_some (hs : Shows special lim s a) (ho : a.opened p fd = some (x, h, data)) :
    ∃ q k, s.filp p fd = some x ∧ HoldsAt s a x h q k ∧ s.view.Stores h.file data k := by
  obtain ⟨z, hz, -⟩ := Option.bind_eq_some_iff.mp ho
  rw [hs.slots] at hz
  obtain ⟨h', q, k, data', hh, hst, ho'⟩ := hs.opened hz
  rw [ho'] at ho
  simp only [Option.some.injEq, Prod.mk.injEq] at ho
  obtain ⟨rfl, rfl, rfl⟩ := ho
  exact ⟨q, k, hz, hh, hst⟩

/-! ## the position -/

/-- a handle gets another position -/
theorem HoldsAt.move (hy : HoldsAt s a y h r j) (hne : y ≠ x) {g : FileDesc} {h' : Handle Name} :
    HoldsAt { s with fDescTable := Function.update s.fDescTable x g } (a.setHandle x h') y h r j := by
  have hdesc : Function.update s.fDescTable x g y = s.fDescTable y := Function.update_of_ne hne _ _
  refine ⟨(Function.update_of_ne hne _ _).trans hy.handle, ?_, ?_, ?_, hy.has, hy.named, hy.there⟩
  · exact (congrArg FileDesc.inode hdesc).trans hy.inode
  · exact (congrArg FileDesc.pos hdesc).trans hy.pos
  · exact (congrArg (fun g => g.mode &&& O_RDWR ≠ 0) hdesc).mpr hy.rdwr

theorem HoldsAt.moved (hx : HoldsAt s a x h q k) (n : Nat) :
    HoldsAt { s with fDescTable := Function.update s.fDescTable x { s.fDescTable x with pos := n } }
      (a.setHandle x ⟨h.file, n⟩) x ⟨h.file, n⟩ q k := by
  have hdesc : Function.update s.fDescTable x { s.fDescTable x with pos := n } x =
      { s.fDescTable x with pos := n } := Function.update_self ..
  refine ⟨Function.update_self .., ?_, ?_, ?_, hx.has, hx.named, hx.there⟩
  · exact (congrArg FileDesc.inode hdesc).trans hx.inode
  · exact congrArg FileDesc.pos hdesc
  · exact (congrArg (fun g => g.mode &&& O_RDWR ≠ 0) hdesc).mpr hx.rdwr

/-- **A handle is moved**, for all slots that share it. -/
theorem Shows.move (hs : Shows special lim s a) (hx : HoldsAt s a x h q k) (n : Nat) :
    Shows special lim
      { s with fDescTable := Function.update s.fDescTable x { s.fDescTable x with pos := n } }
      (a.setHandle x ⟨h.file, n⟩) := by
  refine ⟨⟨hs.ok, hs.files, hs.absent, hs.sects, hs.root⟩, hs.slots, fun y hy => ?_, hs.near⟩
  by_cases hyx : y = x
  · subst hyx
    exact ⟨_, q, k, hx.moved n⟩
  · obtain ⟨h', r, j, hh⟩ := hs.holds y hy
    exact ⟨h', r, j, hh.move hyx⟩

/-! ## READ -/

theorem Shows.read (hs : Shows special lim s a) (hc : a.Allows special p (.read fd len buf)) :
    Serves special lim s a p (.read fd len buf) := by
  obtain ⟨x, h, data, ho, hend, hone⟩ := hc
  obtain ⟨q, k, hp, hx, hst⟩ := hs.opened_some ho
  have hsize := hx.size hs.ok hst
  obtain ⟨hsects, hlim⟩ := hx.sects hs.toStored
  have hnear := hs.near
  have hplaced : s.view.Placed (s.inodeTable q) := hs.ok.has_placed hx.has
  have hle := hplaced.size
  have hread : Readable ((hs.ok.has_placed hx.has).toFile hs.ok.sb) h.pos len := by
    refine ⟨?_, hone, ?_⟩
    · show h.pos + len ≤ (s.inodeTable q).size
      rw [hsize]
      exact hend
    · refine .inr ?_
      show (s.inodeTable q).startSect + h.pos / 512 < 2 ^ 22
      rw [hsects, hsize] at hle
      unfold NR_DEFAULT_FILE_SECTS SECTOR_SIZE at hle
      unfold NR_DEFAULT_FILE_SECTS at hlim
      omega
  obtain ⟨buf', hdo, hbytes⟩ := readsFile_of hread s p fd x q (hx.openFile hs.ok hp) buf
  have hlen : min len (((hs.ok.has_placed hx.has).toFile hs.ok.sb).size - h.pos) = len := by
    show min len ((s.inodeTable q).size - h.pos) = len
    omega
  rw [hlen] at hdo hbytes
  have hdata : bytesOf buf' len = (data.drop h.pos).take len := by
    refine bytesOf_eq hend fun i hi => ?_
    rw [hbytes i hi, ← hx.byte hs.ok hst (by omega)]
    exact (hplaced.byte_disk (h.pos + i)).symm
  have hcall : a.call p (.read fd len buf) =
      (.data ((data.drop h.pos).take len), a.setHandle x ⟨h.file, h.pos + len⟩) := by
    show a.read p fd len = _
    unfold Files.read
    rw [ho]
  rw [Serves, hcall]
  refine ⟨true, _, congrArg (Option.map _) hdo, ?_, hs.move hx (h.pos + len)⟩
  show (doRdwt s p .READ fd len buf).bind _ = _
  rw [hdo, Option.bind_some, ← hdata]

/-! ## WRITE -/

/-- a WRITE inside the allocation and within one command -/
theorem doRdwt_inside {g : File} {pos : Nat} (ho : OpenFile s p fd x q g pos)
    (hend : pos + len ≤ g.nrSects * 512) (hone : OneCommand pos len)
    (hnear : g.startSect + pos / 512 < 2 ^ 22) (buf : Buffer) :
    doRdwt s p .WRITE fd len buf = some (.count len, rwEnd s x q (written s.disk buf
      (g.startSect + pos / 512) ((pos + len) / 512 - pos / 512 + 1) pos len len), buf) := by
  have hmore : g.more .WRITE pos len = (pos + len) / 512 - pos / 512 := by
    show min (pos + len) (g.nrSects * 512) / 512 - pos / 512 = _
    rw [Nat.min_eq_left hend]
  have hdo := doRdwt_write (n := len) buf ho (by omega) (by rw [hmore]; exact hone)
    (by rw [hmore]; omega)
  rwa [hmore, sectOf_of_lt hnear] at hdo

/-- the end of a request, whatever the descriptors are -/
theorem rwEnd_view (t : Fin nrFileDesc → FileDesc) (r : Rw) :
    (rwEnd { s with fDescTable := t } x q r).view = (rwEnd s x q r).view ∧
      (rwEnd { s with fDescTable := t } x q r).inodeTable = (rwEnd s x q r).inodeTable := by
  unfold rwEnd
  split
  · exact ⟨rfl, rfl⟩
  · exact ⟨rfl, rfl⟩

theorem rwEnd_rest (s : FsState) (x : Fin nrFileDesc) (q : Fin nrInode) (r : Rw) :
    (rwEnd s x q r).filp = s.filp ∧ (rwEnd s x q r).fDescTable =
      Function.update s.fDescTable x { s.fDescTable x with pos := r.fdPos } := by
  unfold rwEnd
  split
  · exact ⟨rfl, rfl⟩
  · exact ⟨rfl, rfl⟩

/-- what a WRITE leaves -/
structure Wrote (s s' : FsState) (x : Fin nrFileDesc) (q : Fin nrInode) (k pos len : Nat)
    (buf : Buffer) : Prop where
  ok : s'.view.Ok
  only : View.Only q k s.view s'.view
  filp : s'.filp = s.filp
  desc : s'.fDescTable = Function.update s.fDescTable x { s.fDescTable x with pos := pos + len }
  inode : s'.inodeTable q = { s.inodeTable q with size := max (s.inodeTable q).size (pos + len) }
  bytes : ∀ i, s'.view.byte (s.inodeTable q) i =
    if pos ≤ i ∧ i < pos + len then buf (i - pos) else s.view.byte (s.inodeTable q) i

/-- **WRITE**, on a handle that any number of slots share. -/
theorem HoldsAt.write (hx : HoldsAt s a x h q k) (hs : s.view.Ok) (hp : s.filp p fd = some x)
    (hend : h.pos + len ≤ (s.inodeTable q).nrSects * 512) (hone : OneCommand h.pos len)
    (hnear : (s.inodeTable q).startSect + h.pos / 512 < 2 ^ 22) (buf : Buffer) :
    ∃ s', doRdwt s p .WRITE fd len buf = some (.count len, s', buf) ∧
      Wrote s s' x q k h.pos len buf := by
  -- the same state, with one slot for the handle
  set t : Fin nrFileDesc → FileDesc :=
    Function.update s.fDescTable x ⟨(s.fDescTable x).mode, h.pos, 1, some q⟩ with ht
  have hat : FsState.At { s with fDescTable := t } p fd x q k (s.fDescTable x).mode h.pos :=
    ⟨hp, Function.update_self .., hx.rdwr, hx.has⟩
  obtain ⟨s₁, hdo₁, hok, honly, -, -, hinode, hbytes⟩ :=
    View.Ok.doWrite (s := { s with fDescTable := t }) hs hat hend hone hnear buf
  have hdo := doRdwt_inside (hx.openFile hs hp) hend hone hnear buf
  rw [doRdwt_inside (View.Ok.openFile (s := { s with fDescTable := t }) hs hat) hend hone hnear buf,
    Option.some.injEq, Prod.mk.injEq, Prod.mk.injEq] at hdo₁
  obtain ⟨-, hs₁, -⟩ := hdo₁
  refine ⟨_, hdo, ?_⟩
  set r := written s.disk buf ((s.inodeTable q).startSect + h.pos / 512)
    ((h.pos + len) / 512 - h.pos / 512 + 1) h.pos len len with hr
  obtain ⟨hview, htab⟩ := rwEnd_view (s := s) (x := x) (q := q) t r
  obtain ⟨hfilp, hdesc⟩ := rwEnd_rest s x q r
  have hview₁ : s₁.view = (rwEnd s x q r).view := by
    rw [← hs₁]
    exact hview
  have htab₁ : s₁.inodeTable = (rwEnd s x q r).inodeTable := by
    rw [← hs₁]
    exact htab
  rw [hview₁] at hok honly hbytes
  rw [htab₁] at hinode
  exact ⟨hok, honly, hfilp, hdesc, hinode, hbytes⟩

theorem Wrote.has {pos : Nat} (hw : Wrote s s' x q k pos len buf) (hq : s.view.Has q k) :
    s'.view.Has q k := by
  have htab : s'.view.table q = { s.view.table q with size := max (s.view.table q).size (pos + len) } :=
    hw.inode
  refine hw.only.has_self hq ?_ ?_
  · rw [htab]
    exact ⟨rfl, rfl, rfl, rfl⟩
  · rw [htab]
    exact hq.held

/-- **The bytes that were written are in the file.** -/
theorem Wrote.stores {pos : Nat} (hw : Wrote s s' x q k pos len buf) (hs : s.view.Ok)
    (hq : s.view.Has q k) (hst : s.view.Stores f data k) (hpos : pos ≤ data.length) :
    s'.view.Stores f (splice data pos (bytesOf buf len)) k := by
  have hsize : (s.inodeTable q).size = data.length := by
    have hsz := hst.size
    rw [hs.has_file hq] at hsz
    exact hsz
  have hfile' : s'.view.file k = { s'.inodeTable q with cnt := 0 } := hw.ok.has_file (hw.has hq)
  have hlen : (splice data pos (bytesOf buf len)).length =
      max data.length (pos + (bytesOf buf len).length) := length_splice hpos
  rw [length_bytesOf] at hlen
  refine ⟨(hw.only.named hq.other).mpr hst.named, ?_, ?_, ?_, fun i hi => ?_⟩
  · rw [hw.only.nr]
    exact hst.nonroot
  · rw [hfile', hw.inode]
    exact hq.mode
  · rw [hfile', hw.inode, hlen, ← hsize]
  · have hbyte : s'.view.byte (s'.view.file k) i = s'.view.byte (s.inodeTable q) i := by
      rw [hfile', hw.inode]
      rfl
    rw [hbyte, hw.bytes, getD_splice hpos, length_bytesOf]
    by_cases hin : pos ≤ i ∧ i < pos + len
    · rw [if_pos hin, if_pos hin, getD_bytesOf (show i - pos < len by omega)]
    · rw [if_neg hin, if_neg hin]
      have hold := hst.bytes i (by omega)
      rw [hs.has_file hq] at hold
      exact hold

theorem Shows.write (hs : Shows special lim s a) (hc : a.Allows special p (.write fd len buf)) :
    Serves special lim s a p (.write fd len buf) := by
  obtain ⟨x, h, data, ho, hpos, hend, hone⟩ := hc
  obtain ⟨q, k, hp, hx, hst⟩ := hs.opened_some ho
  obtain ⟨hsects, hlim⟩ := hx.sects hs.toStored
  have hnear := hs.near
  have hmax : MAX_FILE = 2048 * 512 := rfl
  have h2048 : NR_DEFAULT_FILE_SECTS = 2048 := rfl
  have hroom : h.pos + len ≤ (s.inodeTable q).nrSects * 512 := by
    rw [hsects, h2048]
    exact hmax ▸ hend
  obtain ⟨s', hdo, hw⟩ := hx.write hs.ok hp hroom hone (by omega) buf
  have hcall : a.call p (.write fd len buf) = (.count len,
      (a.put h.file (some (splice data h.pos (bytesOf buf len)))).setHandle x
        ⟨h.file, h.pos + len⟩) := by
    show a.write p fd (bytesOf buf len) = _
    unfold Files.write
    rw [ho]
    simp only [length_bytesOf]
  rw [Serves, hcall]
  refine ⟨true, s', congrArg (Option.map _) hdo, ?_, ⟨?_, ?_, fun y hy => ?_, hs.near⟩⟩
  · show (doRdwt s p .WRITE fd len buf).bind _ = _
    rw [hdo, Option.bind_some]
  · have hst' := hs.toStored.only hw.only hw.ok hx.has.other hst.named hst.mode
      (hw.stores hs.ok hx.has hst hpos)
    exact ⟨hst'.ok, hst'.files, hst'.absent, hst'.sects, hst'.root⟩
  · rw [hw.filp]
    exact hs.slots
  · -- a file that is there stays
    have hthere : ∀ g : Name, a.file g ≠ none → Function.update a.file h.file
        (some (splice data h.pos (bytesOf buf len))) g ≠ none := by
      intro g hg
      by_cases hgf : g = h.file
      · rw [hgf, Function.update_self]
        exact Option.some_ne_none _
      · rwa [Function.update_of_ne hgf]
    by_cases hyx : y = x
    · subst hyx
      have hdesc : s'.fDescTable y = { s.fDescTable y with pos := h.pos + len } := by
        rw [hw.desc, Function.update_self]
      refine ⟨_, q, k, Function.update_self .., ?_, ?_, ?_, hw.has hx.has,
        (hw.only.named hx.has.other).mpr hst.named, hthere _ hx.there⟩
      · rw [hdesc]
        exact hx.inode
      · rw [hdesc]
      · rw [hdesc]
        exact hx.rdwr
    · obtain ⟨h', r, j, hh⟩ := hs.holds y hy
      refine ⟨h', r, j, hh.only hs.ok hw.only hx.has.other (fun _ => ⟨hx.has, hw.has hx.has⟩) ?_ ?_
        (hthere h'.file)⟩
      · rw [hw.desc, Function.update_of_ne hyx]
        exact .refl _
      · exact Function.update_of_ne hyx _ _

/-! ## LSEEK -/

theorem Shows.lseek {off : Int} {whence : Nat} (hs : Shows special lim s a)
    (hc : a.Allows special p (.lseek fd off whence)) :
    Serves special lim s a p (.lseek fd off whence) := by
  obtain ⟨x, hx0⟩ := Option.ne_none_iff_exists'.mp (show a.slot p fd ≠ none from hc)
  rw [hs.slots] at hx0
  obtain ⟨h, q, k, data, hx, hst, ho⟩ := hs.opened hx0
  have hsize := hx.size hs.ok hst
  -- the new position, or -1
  have hseek : doLseek s p fd off whence =
      some ((seekTo h.pos data.length off whence).elim (none, s) fun n => (some n, { s with
        fDescTable := Function.update s.fDescTable x { s.fDescTable x with pos := n } })) := by
    unfold doLseek seekTo
    simp only [hx0, hx.inode, hx.pos, hsize, Option.bind_some, Option.map_some]
    generalize (if whence = SEEK_SET then some off
      else if whence = SEEK_CUR then some (↑h.pos + off)
      else if whence = SEEK_END then some (↑data.length + off) else none : Option Int) = want
    cases want with
    | none => rfl
    | some n =>
      simp only [Option.bind_some]
      by_cases hn : n > data.length ∨ n < 0
      · rw [if_pos hn, if_pos hn]
        rfl
      · rw [if_neg hn, if_neg hn]
        rfl
  cases hto : seekTo h.pos data.length off whence with
  | none =>
    have hcall : a.call p (.lseek fd off whence) = (.pos none, a) := by
      show a.lseek p fd off whence = _
      simp only [Files.lseek, ho, hto]
    rw [hto] at hseek
    rw [Serves, hcall]
    exact ⟨false, s, congrArg (Option.map _) hseek, congrArg (Option.map _) hseek, hs⟩
  | some n =>
    have hcall : a.call p (.lseek fd off whence) =
        (.pos (some n), a.setHandle x ⟨h.file, n⟩) := by
      show a.lseek p fd off whence = _
      simp only [Files.lseek, ho, hto]
    rw [hto] at hseek
    rw [Serves, hcall]
    exact ⟨true, _, congrArg (Option.map _) hseek, congrArg (Option.map _) hseek, hs.move hx n⟩

/-! ## CLOSE -/

/-- a handle that a slot points to is open, and its inode is in use -/
theorem FsState.Tight.used {i : Fin nrFiles} (ht : s.Tight) (hx : s.filp p i = some x) :
    (s.fDescTable x).inode ≠ none ∧
      ∀ q, (s.fDescTable x).inode = some q → (s.inodeTable q).cnt ≠ 0 := by
  have hcnt : (s.fDescTable x).cnt ≠ 0 := by
    rw [show (s.fDescTable x).cnt = users s.table.slot x from ht.cnt x]
    exact Finset.card_ne_zero_of_mem (Finset.mem_filter.mpr ⟨Finset.mem_univ (p, i), hx⟩)
  refine ⟨fun hn => hcnt ((ht.free x).mp hn), fun q hq => ?_⟩
  have hrefs : (s.inodeTable q).cnt = shares s.table.cnt s.table.target q + rootHeld s q := ht.refs q
  have hle : (s.fDescTable x).cnt ≤ shares s.table.cnt s.table.target q := by
    have hsum := Finset.single_le_sum (f := fun d =>
      if s.table.target d = some q then s.table.cnt d else 0) (fun d _ => Nat.zero_le _)
      (Finset.mem_univ x)
    rw [if_pos (show s.table.target x = some q from hq)] at hsum
    exact hsum
  omega

/-- **A slot is closed**, by CLOSE or because its process exits. -/
theorem Shows.drop (hs : Shows special lim s a) (ht : s.Tight) (hp : s.filp p fd = some x) :
    ∃ s', exitStep p s fd = some s' ∧ doClose s p fd = some s' ∧ s'.Tight ∧
      Shows special lim s' (a.setSlot p fd none) := by
  obtain ⟨h, q, k, hx⟩ := hs.holds_slot hp
  have hcnt : 0 < (s.inodeTable q).cnt := Nat.pos_of_ne_zero hx.has.held
  obtain ⟨-, -, -, hdisk⟩ := hs.ok.memory q hx.has.other hx.has.held
  set y : Inode := { s.inodeTable q with cnt := (s.inodeTable q).cnt - 1 } with hy
  set s' : FsState := { s.setInode q fun z => { z with cnt := z.cnt - 1 } with
    fDescTable := Function.update s.fDescTable x (dropFDesc (s.fDescTable x))
    filp := Function.update s.filp p (Function.update (s.filp p) fd none) } with hs'
  have hexit : exitStep p s fd = some s' := by
    unfold exitStep
    simp only [hp, hx.inode, Option.map_some]
    rfl
  have hclose : doClose s p fd = some s' := by
    unfold doClose putInode
    simp only [hp, hx.inode, Option.bind_some, if_pos hcnt, Option.map_some]
    rfl
  have ht' := exitStep_tight ht hexit
  have hview : s'.view = { s.view with table := Function.update s.view.table q y } := rfl
  have hok : s'.view.Ok := by
    rw [hview]
    exact hs.ok.setTable (y := y) hx.has.other fun _ => ⟨hs.ok.has_inMemory hx.has rfl, hdisk⟩
  have honly : View.Only q k s.view s'.view := by
    rw [hview]
    exact ⟨rfl, rfl, rfl, rfl, rfl, fun r hr => Function.update_of_ne hr _ _, fun _ _ => rfl, rfl, rfl,
      rfl, fun _ _ => rfl⟩
  have hslots : (a.setSlot p fd none).slot = s'.filp := by
    show Function.update a.slot p (Function.update (a.slot p) fd none) = _
    rw [hs.slots]
  have hst := hs.toStored.same_disk honly hok hx.has.other hx.has.live rfl
  refine ⟨s', hexit, hclose, ht', ⟨⟨hst.ok, hst.files, hst.absent, hst.sects, hst.root⟩, hslots,
    fun z hz => ?_, hs.near⟩⟩
  obtain ⟨p', i, hz'⟩ := hz
  rw [hslots] at hz'
  obtain ⟨hopen, hused⟩ := ht'.used hz'
  -- the slot was open before
  have hbefore : a.Used z := by
    refine ⟨p', i, ?_⟩
    have hne : p' ≠ p ∨ i ≠ fd := by
      by_contra hc
      obtain ⟨rfl, rfl⟩ : p' = p ∧ i = fd := by
        constructor
        · exact not_not.mp fun hp' => hc (.inl hp')
        · exact not_not.mp fun hi => hc (.inr hi)
      rw [← hslots, Store.setSlot_self] at hz'
      cases hz'
    rw [← hslots, Store.setSlot_other _ hne] at hz'
    exact hz'
  obtain ⟨h', r, j, hh⟩ := hs.holds z hbefore
  have hdesc : SameDesc (s.fDescTable z) (s'.fDescTable z) := by
    by_cases hzx : z = x
    · subst hzx
      have hat : s'.fDescTable z = dropFDesc (s.fDescTable z) := Function.update_self ..
      rw [hat] at hopen ⊢
      unfold dropFDesc at hopen ⊢
      by_cases h0 : (s.fDescTable z).cnt - 1 = 0
      · rw [if_pos h0] at hopen
        exact absurd rfl hopen
      · rw [if_neg h0]
        exact ⟨rfl, rfl, rfl⟩
    · have hat : s'.fDescTable z = s.fDescTable z := Function.update_of_ne hzx _ _
      rw [hat]
      exact .refl _
  refine ⟨h', r, j, hh.only hs.ok honly hx.has.other (fun hrq => ⟨hx.has, ?_⟩) hdesc rfl fun hf => hf⟩
  have hheld : (s'.inodeTable q).cnt ≠ 0 := hused q (hdesc.inode.trans (hrq ▸ hh.inode))
  refine honly.has_self hx.has ?_ hheld
  have hat : s'.view.table q = y := Function.update_self ..
  rw [hat]
  exact ⟨rfl, rfl, rfl, rfl⟩

theorem Shows.close (hs : Shows special lim s a) (ht : s.Tight)
    (hc : a.Allows special p (.close fd)) : Serves special lim s a p (.close fd) := by
  obtain ⟨x, hx⟩ := Option.ne_none_iff_exists'.mp (show a.slot p fd ≠ none from hc)
  rw [hs.slots] at hx
  obtain ⟨s', -, hclose, -, hs'⟩ := hs.drop ht hx
  exact ⟨true, s', congrArg (Option.map _) hclose, congrArg (Option.map _) hclose, hs'⟩

/-! ## STAT -/

/-- a slot of the inode table in use belongs to a handle -/
theorem Shows.slot_used (hs : Shows special lim s a) (ht : s.Tight) (hr : r ≠ s.rootInode)
    (hc : (s.inodeTable r).cnt ≠ 0) : ∃ x, (s.fDescTable x).inode = some r ∧ a.Used x := by
  have hrefs : (s.inodeTable r).cnt = shares s.table.cnt s.table.target r + rootHeld s r := ht.refs r
  rw [show rootHeld s r = 0 from if_neg hr, Nat.add_zero] at hrefs
  obtain ⟨x, -, hx⟩ := Finset.exists_ne_zero_of_sum_ne_zero (hrefs ▸ hc)
  by_cases htarget : s.table.target x = some r
  · rw [if_pos htarget, ht.cnt x] at hx
    obtain ⟨⟨p, i⟩, hmem⟩ := Finset.card_ne_zero.mp hx
    refine ⟨x, htarget, p, i, ?_⟩
    rw [hs.slots]
    exact (Finset.mem_filter.mp hmem).2
  · rw [if_neg htarget] at hx
    exact absurd rfl hx

/-- a slot of the inode table is free when few handles are in use -/
theorem Shows.free_slot (hs : Shows special lim s a) (ht : s.Tight) (hbusy : a.busy < 63) :
    ∃ r, (s.inodeTable r).cnt = 0 := by
  by_contra hno
  have hall : ∀ r, (s.inodeTable r).cnt ≠ 0 := fun r hr => hno ⟨r, hr⟩
  have hshare : ∀ r, r ≠ s.rootInode → ∃ x, (s.fDescTable x).inode = some r ∧ a.Used x :=
    fun r hr => hs.slot_used ht hr (hall r)
  choose! g hg using hshare
  have hcard := Finset.card_le_card_of_injOn (s := Finset.univ.erase s.rootInode)
    (t := Finset.univ.filter fun x => a.Used x) g (fun r hr => by
      rw [Finset.mem_coe, Finset.mem_filter]
      exact ⟨Finset.mem_univ _, (hg r (Finset.ne_of_mem_erase hr)).2⟩) fun r hr r' hr' he => by
        have h1 := (hg r (Finset.ne_of_mem_erase hr)).1
        have h2 := (hg r' (Finset.ne_of_mem_erase hr')).1
        rw [he, h2] at h1
        exact (Option.some.inj h1).symm
  rw [Finset.card_erase_of_mem (Finset.mem_univ _), Finset.card_univ, Fintype.card_fin] at hcard
  have hlt : (Finset.univ.filter fun x => a.Used x).card < 63 := hbusy
  have h64 : nrInode - 1 = 63 := rfl
  rw [h64] at hcard
  exact absurd hlt (Nat.not_lt.mpr hcard)

/-- a name that is not there -/
theorem Shows.search_absent (hs : Shows special lim s a) (hsp : ¬ special f) (hf : a.file f = none)
    (rooted : Bool) : searchFile s (f.path rooted) = INVALID_INODE :=
  hs.ok.search_none (fun j hj he => hs.absent f hf hsp j ⟨hj, he⟩) rooted

/-- a reference to an inode is taken and given back: the slot may have changed -/
theorem Shows.touch {c : Nat} (hs : Shows special lim s a) (hk : s.view.Live k)
    (hroot : s.view.nr k ≠ ROOT_INODE) (hmem : s.view.InMemory q (s.inodeAs (s.view.nr k) (c + 1)))
    (hc : (s.inodeTable q).cnt = c) (hslot : c ≠ 0 → (s.inodeTable q).num = s.view.nr k) :
    Shows special lim (s.setInode q fun _ => s.inodeAs (s.view.nr k) c) a := by
  obtain ⟨h1, h2, -⟩ := hs.ok.live_num hk
  set y := s.inodeAs (s.view.nr k) c with hy
  set s' := s.setInode q fun _ => y with hs'
  have hnum : y.num = s.view.nr k := FsState.inodeAs_num ⟨h1, h2.le⟩
  have hview : s'.view = { s.view with table := Function.update s.view.table q y } := rfl
  have hok : s'.view.Ok := by
    rw [hview]
    refine hs.ok.setTable hmem.other fun hc0 => ⟨⟨hmem.other, ?_, ?_, fun r hr hrc => ?_⟩, ?_⟩
    · rw [hnum]
      exact ⟨h1, h2⟩
    · rw [hnum]
      exact (hs.ok.alloc k hk).2
    · exact hmem.only r hr hrc
    · exact (congrArg s.view.inode hnum).trans (FsState.inodeAs_disk ⟨h1, h2.le⟩).symm
  have honly : View.Only q k s.view s'.view := by
    rw [hview]
    exact ⟨rfl, rfl, rfl, rfl, rfl, fun r hr => Function.update_of_ne hr _ _, fun _ _ => rfl, rfl, rfl,
      rfl, fun _ _ => rfl⟩
  have hst := hs.toStored.same_disk honly hok hmem.other hk rfl
  refine ⟨⟨hst.ok, hst.files, hst.absent, hst.sects, hst.root⟩, hs.slots, fun x hx => ?_, hs.near⟩
  obtain ⟨h, r, j, hh⟩ := hs.holds x hx
  refine ⟨h, r, j, hh.only hs.ok honly hmem.other (fun hrq => ?_) (.refl _) rfl fun hf => hf⟩
  subst hrq
  have hheld : (s.inodeTable r).cnt ≠ 0 := hh.has.held
  rw [hc] at hheld
  have hjk : j = k := hs.ok.nums j k hh.has.live hk (hh.has.num.symm.trans (hslot hheld))
  subst hjk
  refine ⟨hh.has, honly.has_self hh.has ?_ ?_⟩
  · have hat : s'.view.table r = y := Function.update_self ..
    have hdisk := hs.ok.has_file hh.has
    have hmode : y.mode = (s.view.file j).mode := rfl
    have hstart : y.startSect = (s.view.file j).startSect := rfl
    have hsects : y.nrSects = (s.view.file j).nrSects := rfl
    rw [hat]
    refine ⟨hmode.trans ?_, hstart.trans ?_, hsects.trans ?_, hnum.trans hh.has.num.symm⟩
    · rw [hdisk]
    · rw [hdisk]
    · rw [hdisk]
  · have hat : s'.view.table r = y := Function.update_self ..
    rw [hat]
    exact hheld

theorem Shows.stat {rooted : Bool} (hs : Shows special lim s a) (ht : s.Tight)
    (hc : a.Allows special p (.stat f rooted)) : Serves special lim s a p (.stat f rooted) := by
  obtain ⟨hsp, hbusy⟩ := hc
  cases hf : a.file f with
  | none =>
    have hsearch := hs.search_absent hsp hf rooted
    have hstat : doStat s (f.path rooted) = some (none, s) := by
      unfold doStat
      rw [if_neg (Nat.not_le.mpr (f.path_length rooted))]
      simp only [f.cString_path, hsearch, if_true]
    refine ⟨false, s, congrArg (Option.map _) hstat, ?_, hs⟩
    show (doStat s (f.path rooted)).map _ = some (Result.stat ((a.file f).map _))
    rw [hstat, hf]
    rfl
  | some data =>
    obtain ⟨k, hst⟩ := hs.files f data hf
    obtain ⟨h1, h2, h3⟩ := hs.ok.live_num hst.named.live
    obtain ⟨q, hget, hmem, hslot⟩ := hs.ok.getInode ⟨h1, h2⟩ hst.nonroot h3 (hs.free_slot ht hbusy)
    have hsearch := hs.ok.search_live hst.named.live hst.named.name rooted
    have hne : ¬ s.view.nr k = INVALID_INODE := hst.named.live.2
    set c := (s.inodeTable q).cnt with hcdef
    have hfile : s.inodeAs (s.view.nr k) (c + 1) = { s.view.file k with cnt := c + 1 } := rfl
    have hstat : doStat s (f.path rooted) = some
        (some ⟨s.view.nr k, I_REGULAR, none, data.length⟩,
          s.setInode q fun _ => s.inodeAs (s.view.nr k) c) := by
      unfold doStat
      rw [if_neg (Nat.not_le.mpr (f.path_length rooted))]
      simp only [f.cString_path, hsearch, f.stripPath_path]
      rw [if_neg hne, hget, Option.bind_some]
      have hput : putInode (s.setInode q fun _ => s.inodeAs (s.view.nr k) (c + 1)) q =
          some (s.setInode q fun _ => s.inodeAs (s.view.nr k) c) := by
        have hat : (s.setInode q fun _ => s.inodeAs (s.view.nr k) (c + 1)).inodeTable q =
          s.inodeAs (s.view.nr k) (c + 1) := Function.update_self ..
        unfold putInode
        rw [hat, if_pos (show 0 < (s.inodeAs (s.view.nr k) (c + 1)).cnt from Nat.succ_pos c)]
        unfold FsState.setInode
        simp only [Function.update_idem, Function.update_self]
        rfl
      have hat : (s.setInode q fun _ => s.inodeAs (s.view.nr k) (c + 1)).inodeTable q =
        { s.view.file k with cnt := c + 1 } := Function.update_self ..
      have hmode : ({ s.view.file k with cnt := c + 1 } : Inode).mode = I_REGULAR := hst.mode
      have hsize : ({ s.view.file k with cnt := c + 1 } : Inode).size = data.length := hst.size
      have hnum : ({ s.view.file k with cnt := c + 1 } : Inode).num = s.view.nr k :=
        FsState.inodeAs_num ⟨h1, h2.le⟩
      simp only [hput, hat, Option.map_some]
      rw [hmode, hsize, hnum]
      rfl
    refine ⟨true, _, congrArg (Option.map _) hstat, ?_,
      hs.touch hst.named.live hst.nonroot hmem hcdef.symm hslot⟩
    show (doStat s (f.path rooted)).map _ = some (Result.stat ((a.file f).map _))
    rw [hstat, hf]
    rfl

end

end Noxis.Fs
