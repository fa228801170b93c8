import Noxis.Fs.ShowsNames

/-!
# 25-osfs11/fs: the processes have files of bytes

* `Logged`            what the log may write after an UNLINK
* `Shows.fork`, `Shows.exit`   what FS does when a process is born or dies
* `Rep`               the world shows what the users have
* `Rep.step`          one call, fork or exit
-/

namespace Noxis.Fs
open Ipc (Pid)
open FileStore RefCount Run

/-! ## the log -/

/-- the first sector behind the files, and behind `/` in any case -/
def Super.behind (sb : Super) (lim : Nat) : Nat := max lim (sb.n1stSect + NR_DEFAULT_FILE_SECTS)

/-- **the log has its own sectors**, from there to the end of the device, and may take bits of the
sector map -/
structure Logged (lim : Nat) (s : FsState) (d : Disk) : Prop where
  same : ∀ t, t < 3 ∨ 3 + s.sb.nrSmapSects ≤ t ∧ t < s.sb.behind lim ∨ s.sb.nrSects ≤ t →
    d t = s.disk t
  bits : ∀ i, s.view.smap i = true → ({ s with disk := d } : FsState).view.smap i = true

/-- the log does so whenever it is written -/
def LogsApart (lim : Nat) (log : FsState → Disk) : Prop := ∀ s, s.view.Ok → Logged lim s (log s)

section
variable {special : Name → Prop} {lim : Nat} {s s' : FsState} {a : Files} {f : Name}
  {data : List Byte} {p : Pid} {x : Fin nrFileDesc} {q : Fin nrInode} {j k : Nat} {h : Handle Name}
  {d : Disk} {rooted : Bool}

theorem Logged.view (hl : Logged lim s d) (hsb : s.sb.Ok) :
    ({ s with disk := d } : FsState).view = { s.view with
      smap := ({ s with disk := d } : FsState).view.smap
      data := fun t => if s.sb.n1stSect + NR_DEFAULT_FILE_SECTS ≤ t then d t else fun _ => 0 } := by
  have hfirst := hsb.n1stSect_eq
  have hfar : s.sb.n1stSect + NR_DEFAULT_FILE_SECTS ≤ s.sb.behind lim := le_max_right ..
  have hsame := hl.same
  generalize s.sb.behind lim = lim at hfar hsame
  -- the map first, then the sectors of the log
  set d₁ : Disk := fun t => if lim ≤ t then s.disk t else d t with hd₁
  have h1 : SameOutside s.disk d₁ 3 (3 + s.sb.nrSmapSects) := by
    intro t ht
    by_cases hlim : lim ≤ t
    · exact if_pos hlim
    · refine (if_neg hlim).trans (hsame t ?_)
      omega
  have h2 : SameOutside d₁ d lim s.sb.nrSects := by
    intro t ht
    by_cases hlim : lim ≤ t
    · refine (hsame t (.inr (.inr ?_))).trans (if_pos hlim).symm
      omega
    · exact (if_neg hlim).symm
  have hview := data_view (s := { s with disk := d₁ }) hsb h2 hfar
  have hsmap : ({ s with disk := d } : FsState).view.smap =
      ({ s with disk := d₁ } : FsState).view.smap :=
    smap_same (s := { s with disk := d₁ }) h2 (.inr (by show 3 + s.sb.nrSmapSects ≤ lim; omega))
  rw [hsmap]
  refine hview.trans ?_
  apply View.ext
  · rfl
  · rfl
  · rfl
  · exact imap_same h1
  · rfl
  · exact inode_same hsb h1 (.inl le_rfl)
  · exact entry_same h1 (.inl (by omega))
  · rfl

/-- a sector map with more bits will do -/
theorem View.Ok.setSmap {w : View} (h : w.Ok) {m : Nat → Bool}
    (hm : ∀ i, w.smap i = true → m i = true) :
    View.Ok { w with smap := m } :=
  ⟨h.sb, h.held, h.num, h.mode, h.start, h.sects, h.size, h.blank, h.names, h.nums, h.alloc,
    h.reserved, h.memory, h.single, fun k hk => hm k (h.marked k hk),
    fun k hk hreg => (h.placed k hk hreg).mono rfl hm, h.apart⟩

/-- **The log leaves the files.** -/
theorem Stored.logged (hs : Stored special lim s a) (hl : Logged lim s d) :
    Stored special lim { s with disk := d } a := by
  have hview := hl.view hs.ok.sb
  have hok : ({ s with disk := d } : FsState).view.Ok := by
    rw [hview]
    exact (hs.ok.setSmap hl.bits).setData _
  have hnamed : ∀ g j, ({ s with disk := d } : FsState).view.Named g j ↔ s.view.Named g j := by
    intro g j
    rw [hview]
    exact ⟨fun hj => ⟨hj.live, hj.name⟩, fun hj => ⟨hj.live, hj.name⟩⟩
  refine ⟨hok, fun g bytes hg => ?_, fun g hg hsp j hj => hs.absent g hg hsp j ((hnamed g j).mp hj),
    fun j hj hm => ?_, ?_⟩
  · obtain ⟨j, hj⟩ := hs.files g bytes hg
    refine ⟨j, (hnamed g j).mpr hj.named, ?_, ?_, ?_, fun i hi => ?_⟩
    · rw [hview]
      exact hj.nonroot
    · rw [hview]
      exact hj.mode
    · rw [hview]
      exact hj.size
    · -- the byte lies before `lim`
      obtain ⟨hsects, hlim⟩ := hs.sects j hj.named.live hj.mode
      have hplaced := hs.ok.placed j hj.named.live hj.mode
      have hsize := hplaced.size
      have h512 : SECTOR_SIZE = 512 := rfl
      have h2048 : NR_DEFAULT_FILE_SECTS = 2048 := rfl
      rw [hj.size, hsects, h512, h2048] at hsize
      have hfirst := hplaced.first
      have hlo : s.sb.n1stSect + NR_DEFAULT_FILE_SECTS ≤ (s.view.file j).startSect + i / 512 := by
        have hsb : s.view.sb.n1stSect + NR_DEFAULT_FILE_SECTS ≤ (s.view.file j).startSect := hfirst
        exact hsb.trans (Nat.le_add_right ..)
      have hsect : d ((s.view.file j).startSect + i / 512) =
          s.disk ((s.view.file j).startSect + i / 512) := by
        have hn1 := hs.ok.sb.n1stSect_eq
        have hn1' : s.sb.n1stSect = 259 + s.sb.nrSmapSects := hn1
        have hbehind : lim ≤ s.sb.behind lim := le_max_left ..
        exact hl.same _ (.inr (.inl ⟨by omega, by omega⟩))
      have hbyte := hj.bytes i hi
      rw [hview]
      rw [← hbyte]
      show (if s.sb.n1stSect + NR_DEFAULT_FILE_SECTS ≤ (s.view.file j).startSect + i / 512 then
          d ((s.view.file j).startSect + i / 512) else fun _ => 0) (i % 512) =
        (if s.sb.n1stSect + NR_DEFAULT_FILE_SECTS ≤ (s.view.file j).startSect + i / 512 then
          s.disk ((s.view.file j).startSect + i / 512) else fun _ => 0) (i % 512)
      rw [if_pos hlo, if_pos hlo, hsect]
  · rw [hview] at hj hm ⊢
    exact hs.sects j hj hm
  · rw [hview]
    exact hs.root

theorem Shows.logged (hs : Shows special lim s a) (hl : Logged lim s d) :
    Shows special lim { s with disk := d } a := by
  have hview := hl.view hs.ok.sb
  have hst := hs.toStored.logged hl
  refine ⟨⟨hst.ok, hst.files, hst.absent, hst.sects, hst.root⟩, hs.slots, fun x hx => ?_, hs.near⟩
  obtain ⟨h, q, k, hh⟩ := hs.holds x hx
  refine ⟨h, q, k, hh.handle, hh.inode, hh.pos, hh.rdwr, ?_, ?_, hh.there⟩
  · rw [hview]
    exact ⟨hh.has.other, hh.has.held, hh.has.live, hh.has.num, hh.has.mode⟩
  · rw [hview]
    exact ⟨hh.named.live, hh.named.name⟩

/-! ## FORK -/

/-- the child has the slots of its parent -/
theorem Shows.share (hs : Shows special lim s a) (parent child : Pid) :
    Shows special lim { s with filp := Function.update s.filp child (s.filp parent) }
      (a.share parent child) := by
  refine ⟨⟨hs.ok, hs.files, hs.absent, hs.sects, hs.root⟩, ?_, fun x hx => ?_, hs.near⟩
  · show Function.update a.slot child (a.slot parent) = _
    rw [hs.slots]
  · have hused : a.Used x := by
      obtain ⟨u, i, hu⟩ := hx
      have hat : Function.update a.slot child (a.slot parent) u i = some x := hu
      by_cases hc : u = child
      · rw [hc, Function.update_self] at hat
        exact ⟨parent, i, hat⟩
      · rw [Function.update_of_ne hc] at hat
        exact ⟨u, i, hat⟩
    obtain ⟨h, q, k, hh⟩ := hs.holds x hused
    exact ⟨h, q, k, hh.handle, hh.inode, hh.pos, hh.rdwr, hh.has, hh.named, hh.there⟩

/-- one round of the loop: the counts of a descriptor and of its inode go up -/
theorem Shows.forkStep (hs : Shows special lim s a) (child : Pid) (i : Fin nrFiles) :
    ∃ s', forkStep child s i = some s' ∧ Shows special lim s' a := by
  cases hx : s.filp child i with
  | none =>
    refine ⟨s, ?_, hs⟩
    unfold Fs.forkStep
    simp only [hx]
  | some x =>
    obtain ⟨h, q, k, hh⟩ := hs.holds_slot hx
    set y : Inode := { s.inodeTable q with cnt := (s.inodeTable q).cnt + 1 } with hy
    set s' : FsState := { s.setInode q fun z => { z with cnt := z.cnt + 1 } with
      fDescTable := Function.update s.fDescTable x
        { s.fDescTable x with cnt := (s.fDescTable x).cnt + 1 } } with hs'
    have hstep : Fs.forkStep child s i = some s' := by
      unfold Fs.forkStep
      simp only [hx]
      exact Option.map_eq_some_iff.mpr ⟨q, hh.inode, rfl⟩
    obtain ⟨-, -, -, hdisk⟩ := hs.ok.memory q hh.has.other hh.has.held
    have hview : s'.view = { s.view with table := Function.update s.view.table q y } := rfl
    have hok : s'.view.Ok := by
      rw [hview]
      exact hs.ok.setTable (y := y) hh.has.other fun _ => ⟨hs.ok.has_inMemory hh.has rfl, hdisk⟩
    have honly : View.Only q k s.view s'.view := by
      rw [hview]
      exact ⟨rfl, rfl, rfl, rfl, rfl, fun r hr => Function.update_of_ne hr _ _, fun _ _ => rfl, rfl,
        rfl, rfl, fun _ _ => rfl⟩
    have hat : s'.view.table q = y := Function.update_self ..
    have hhas : s'.view.Has q k := by
      refine honly.has_self hh.has ?_ ?_
      · rw [hat]
        exact ⟨rfl, rfl, rfl, rfl⟩
      · rw [hat]
        exact Nat.succ_ne_zero _
    have hst := hs.toStored.same_disk honly hok hh.has.other hh.has.live rfl
    refine ⟨s', hstep, ⟨⟨hst.ok, hst.files, hst.absent, hst.sects, hst.root⟩, hs.slots, fun z hz => ?_,
      hs.near⟩⟩
    obtain ⟨h', r, j, hz'⟩ := hs.holds z hz
    refine ⟨h', r, j, hz'.only hs.ok honly hh.has.other (fun _ => ⟨hh.has, hhas⟩) ?_ rfl fun hf => hf⟩
    by_cases hzx : z = x
    · subst hzx
      have hz : s'.fDescTable z = { s.fDescTable z with cnt := (s.fDescTable z).cnt + 1 } :=
        Function.update_self ..
      rw [hz]
      exact ⟨rfl, rfl, rfl⟩
    · have hz : s'.fDescTable z = s.fDescTable z := Function.update_of_ne hzx _ _
      rw [hz]
      exact .refl _

theorem Shows.forkSteps (child : Pid) (l : List (Fin nrFiles)) : ∀ {s : FsState},
    Shows special lim s a →
      ∃ s', l.foldlM (Fs.forkStep child) s = some s' ∧ Shows special lim s' a := by
  induction l with
  | nil =>
    intro s hs
    exact ⟨s, rfl, hs⟩
  | cons i l ih =>
    intro s hs
    obtain ⟨s₁, hstep, hs₁⟩ := hs.forkStep child i
    obtain ⟨s', hrest, hs'⟩ := ih hs₁
    refine ⟨s', ?_, hs'⟩
    rw [List.foldlM_cons, hstep]
    exact hrest

/-! ## EXIT -/

/-- **The slots of a process are closed**, one by one. -/
theorem Shows.exitSteps (p : Pid) (l : List (Fin nrFiles)) : ∀ {s : FsState} {a : Files}, s.Tight →
    Shows special lim s a → ∃ s', l.foldlM (exitStep p) s = some s' ∧
      Shows special lim s' (l.foldl (fun a i => a.setSlot p i none) a) := by
  induction l with
  | nil =>
    intro s a _ hs
    exact ⟨s, rfl, hs⟩
  | cons i l ih =>
    intro s a ht hs
    have hone : ∃ s₁, exitStep p s i = some s₁ ∧ s₁.Tight ∧
        Shows special lim s₁ (a.setSlot p i none) := by
      cases hx : s.filp p i with
      | none =>
        have hsame : a.setSlot p i none = a := by
          unfold Store.setSlot
          rw [hs.slots, ← hx, Function.update_eq_self, Function.update_eq_self, ← hs.slots]
        rw [hsame]
        refine ⟨s, ?_, ht, hs⟩
        unfold exitStep
        simp only [hx]
      | some x =>
        obtain ⟨s₁, hexit, -, ht₁, hs₁⟩ := hs.drop ht hx
        exact ⟨s₁, hexit, ht₁, hs₁⟩
    obtain ⟨s₁, hstep, ht₁, hs₁⟩ := hone
    obtain ⟨s', hrest, hs'⟩ := ih ht₁ hs₁
    refine ⟨s', ?_, hs'⟩
    rw [List.foldlM_cons, hstep]
    exact hrest

/-- all of them are closed -/
theorem Files.setSlots_eq (p : Pid) (l : List (Fin nrFiles)) : ∀ a : Files,
    l.foldl (fun (a : Files) i => a.setSlot p i none) a =
      { a with slot := Function.update a.slot p fun i => if i ∈ l then none else a.slot p i } := by
  induction l with
  | nil =>
    intro a
    simp only [List.foldl_nil, List.not_mem_nil, if_false, Function.update_eq_self]
  | cons i l ih =>
    intro a
    rw [List.foldl_cons, ih]
    unfold Store.setSlot
    simp only [Function.update_idem, Function.update_self]
    congr 2
    funext j
    by_cases hj : j ∈ l
    · rw [if_pos hj, if_pos (List.mem_cons_of_mem _ hj)]
    · rw [if_neg hj]
      by_cases hji : j = i
      · rw [hji, Function.update_self, if_pos List.mem_cons_self]
      · rw [Function.update_of_ne hji, if_neg fun hc => (List.mem_cons.mp hc).elim hji hj]

theorem Files.quit_eq (a : Files) (p : Pid) :
    (List.finRange nrFiles).foldl (fun (a : Files) i => a.setSlot p i none) a = a.quit p := by
  rw [Files.setSlots_eq]
  unfold Store.quit
  congr 2
  funext i
  exact if_pos (List.mem_finRange i)

/-! ## the requests are balanced -/

/-- what the volume has to have for a call: room for a new file, and no gap before a last entry that
is removed -/
def FsState.Ready (lim : Nat) (s : FsState) (a : Files) : Call → Prop
  | .open f _ flags => a.file f = none → flags &&& O_CREAT ≠ 0 → s.Room lim
  | .unlink f _ => ∀ k, s.view.Named f k → s.view.NoGap k
  | _ => True

/-- a number that is not in use is not in memory -/
theorem View.Ok.cached_free (h : s.view.Ok) {v : Nat} (hv : s.view.imap v = false) :
    cached s v = none := by
  by_contra hc
  obtain ⟨r, hr⟩ := Option.ne_none_iff_exists'.mp hc
  obtain ⟨hcnt, hnum⟩ := cached_spec hr
  have htaken : s.view.imap (s.inodeTable r).num = true := by
    by_cases hroot : r = s.rootInode
    · rw [hroot, show (s.inodeTable s.rootInode).num = ROOT_INODE from h.num]
      exact h.reserved.2
    · exact (h.memory r hroot hcnt).2.2.1
  rw [hnum, hv] at htaken
  cases htaken

/-- the first free number -/
theorem View.Ok.freeInodeNr_clear (h : s.view.Ok) (hbit : ∃ v < 4096, s.view.imap v = false) :
    s.view.imap (freeInodeNr s) = false := by
  obtain ⟨v, hv, hclear⟩ := hbit
  have himap : s.sb.nrImapSects ≠ 0 := by
    rw [show s.sb.nrImapSects = 1 from h.sb.imap]
    decide
  have hbit : mapBit s.disk 2 v = false := by
    have hb : (decide (v < 4096) && mapBit s.disk 2 v) = false := hclear
    rwa [decide_eq_true hv, Bool.true_and] at hb
  obtain ⟨num, hnum, hfree, halloc⟩ := allocImapBit_bit himap hv hbit
  obtain ⟨hnr, -⟩ := allocImapBit_onDisk halloc
  rw [← hnr]
  show (decide (num < 4096) && mapBit s.disk 2 num) = false
  rw [hfree, Bool.and_false]

theorem Shows.balanced {c : Call} (hs : Shows special lim s a) (ht : s.Tight)
    (hc : a.Allows special p c) (hready : s.Ready lim a c) : c.request.Balanced s := by
  cases c with
  | «open» f rooted flags =>
    obtain ⟨hsp, -⟩ := hc
    rintro ⟨hsearch, hcreat, -⟩
    rw [f.cString_path] at hsearch
    have hf : a.file f = none := by
      by_contra hthere
      obtain ⟨data, hdata⟩ := Option.ne_none_iff_exists'.mp hthere
      obtain ⟨k, hst⟩ := hs.files f data hdata
      rw [hs.ok.search_live hst.named.live hst.named.name rooted] at hsearch
      exact hst.named.live.2 hsearch
    exact hs.ok.cached_free (hs.ok.freeInodeNr_clear (hready hf hcreat).1)
  | unlink f rooted =>
    obtain ⟨hsp, hbusy, hclosed⟩ := hc
    intro _ hsearch
    rw [f.cString_path] at hsearch ⊢
    cases hf : a.file f with
    | none => exact absurd (hs.search_absent hsp hf rooted) hsearch
    | some data =>
      obtain ⟨k, hst⟩ := hs.files f data hf
      have hidle := hs.idle ht hst hclosed
      rw [hs.ok.search_live hst.named.live hst.named.name rooted]
      refine ⟨?_, ?_⟩
      · by_contra hcached
        obtain ⟨r, hr⟩ := Option.ne_none_iff_exists'.mp hcached
        obtain ⟨hcnt, hnum⟩ := cached_spec hr
        exact hidle r hcnt hnum
      · have hmode := hst.mode
        rw [hs.ok.file_disk hst.named.live] at hmode
        exact hmode
  | _ => trivial

/-- **One call.** -/
theorem Shows.call {c : Call} (hs : Shows special lim s a) (ht : s.Tight)
    (hc : a.Allows special p c) (hready : s.Ready lim a c) : Serves special lim s a p c := by
  cases c with
  | «open» f rooted flags => exact hs.open ht hc hready
  | close fd => exact hs.close ht hc
  | read fd len buf => exact hs.read hc
  | write fd len buf => exact hs.write hc
  | lseek fd off whence => exact hs.lseek hc
  | stat f rooted => exact hs.stat ht hc
  | unlink f rooted => exact hs.unlink ht hc hready

end

/-! ## runs -/

/-- **the world shows what the users have** -/
structure Rep (special : Name → Prop) (lim : Nat) (w : World) (u : Users) : Prop where
  inv : w.Inv
  shows : Shows special lim w.fs u.files
  live : w.live = u.live
  fork : w.fork.map (fun f => (f.parent, f.child)) = u.fork

/-- what FS needs before an act -/
def World.Ready (lim : Nat) (w : World) (u : Users) : Act → Prop
  | .call _ c => w.fs.Ready lim u.files c
  | _ => True

section
variable {special : Name → Prop} {lim : Nat} {log : FsState → Disk} {w w' : World} {u : Users}
  {p parent child : Pid} {c : Call}

theorem Rep.free (hr : Rep special lim w u) (hruns : u.Runs p) :
    w.live p = true ∧ ¬ w.waits p = true := by
  refine ⟨hr.live ▸ hruns.1, fun hw => ?_⟩
  obtain ⟨f, hf, hp⟩ := (Option.any_eq_true _ _).mp hw
  refine hruns.2 (f.parent, f.child) ?_ (of_decide_eq_true hp)
  rw [← hr.fork, hf]
  rfl

theorem Rep.act_call (hr : Rep special lim w u) (hlog : LogsApart lim log) (hruns : u.Runs p)
    (hc : u.files.Allows special p c) (hready : w.fs.Ready lim u.files c) :
    ∃ w', w.act log (.request p c.request) = some w' ∧
      w.fs.reply p c.request = some (u.files.call p c).1 ∧
      Rep special lim w' { u with files := (u.files.call p c).2 } := by
  obtain ⟨ok, s', hserve, hreply, hs'⟩ := hr.shows.call hr.inv.tight hc hready
  obtain ⟨hl, hw⟩ := hr.free hruns
  have hact : w.act log (.request p c.request) =
      some { w with fs := c.request.logged log s' } := by
    show w.request log p c.request = _
    unfold World.request
    rw [if_pos ⟨hl, hw⟩, hserve, Option.map_some]
  have hbal : BalancedStep w (.request p c.request) { w with fs := c.request.logged log s' } := by
    intro p' r he
    cases he
    exact hr.shows.balanced hr.inv.tight hc hready
  refine ⟨_, hact, hreply, hr.inv.act hact hbal, ?_, hr.live, hr.fork⟩
  show Shows special lim (c.request.logged log s') _
  cases c with
  | unlink f rooted => exact hs'.logged (hlog s' hs'.ok)
  | _ => exact hs'

theorem Rep.act_copy (hr : Rep special lim w u) (log : FsState → Disk) (hp : u.live parent = true)
    (hc : u.live child = false) (hf : u.fork = none) :
    ∃ w', w.act log (.copy parent child) = some w' ∧
      Rep special lim w' { u with fork := some (parent, child) } := by
  have hnone : w.fork = none := by
    have hmap := hr.fork
    rw [hf] at hmap
    exact Option.map_eq_none_iff.mp hmap
  have hact : w.act log (.copy parent child) =
      some { w with fork := some ⟨parent, child, w.fs.filp parent⟩ } := by
    show w.copy parent child = _
    unfold World.copy
    rw [hr.live, hp, hc, hnone]
    exact if_pos ⟨rfl, nofun, rfl⟩
  exact ⟨_, hact, hr.inv.copy hact, hr.shows, hr.live, rfl⟩

theorem Rep.act_fork (hr : Rep special lim w u) (log : FsState → Disk)
    (hf : u.fork = some (parent, child)) :
    ∃ w', w.act log .fork = some w' ∧ Rep special lim w'
      ⟨u.files.share parent child, Function.update u.live child true, none⟩ := by
  have hmap := hr.fork
  rw [hf] at hmap
  obtain ⟨f, hwf, he⟩ := Option.map_eq_some_iff.mp hmap
  simp only [Prod.mk.injEq] at he
  obtain ⟨rfl, rfl⟩ := he
  have hfiles := hr.inv.files f hwf
  obtain ⟨s', hfork, hs'⟩ := Shows.forkSteps f.child (List.finRange nrFiles)
    (hr.shows.share f.parent f.child)
  have hact : w.act log .fork = some ⟨s', Function.update w.live f.child true, none⟩ := by
    show w.announce = _
    unfold World.announce fsFork
    rw [hwf, Option.bind_some, hfiles]
    exact congrArg (Option.map _) hfork
  refine ⟨_, hact, hr.inv.announce hact, hs', ?_, rfl⟩
  show Function.update w.live f.child true = _
  rw [hr.live]

theorem Rep.act_exit (hr : Rep special lim w u) (log : FsState → Disk) (hruns : u.Runs p) :
    ∃ w', w.act log (.exit p) = some w' ∧ Rep special lim w'
      { u with files := u.files.quit p, live := Function.update u.live p false } := by
  obtain ⟨hl, hw⟩ := hr.free hruns
  obtain ⟨s', hexit, hs'⟩ := Shows.exitSteps p (List.finRange nrFiles) hr.inv.tight hr.shows
  rw [Files.quit_eq] at hs'
  have hact : w.act log (.exit p) =
      some { w with fs := s', live := Function.update w.live p false } := by
    show w.quit p = _
    unfold World.quit fsExit
    rw [if_pos ⟨hl, hw⟩, hexit, Option.map_some]
  refine ⟨_, hact, hr.inv.quit hact, hs', ?_, hr.fork⟩
  show Function.update w.live p false = _
  rw [hr.live]

/-- the world and its users take a step together -/
def Both (log : FsState → Disk) (x : World × Users) (c : Act) (y : World × Users) : Prop :=
  x.1.act log c.event = some y.1 ∧ y.2 = (x.2.act c).2

/-- the users keep the rules, and the volume has what it needs -/
def Sound (special : Name → Prop) (lim : Nat) (x : World × Users) (c : Act) : Prop :=
  x.2.Allows special c ∧ x.1.Ready lim x.2 c

/-- **FS does what is meant**: the answer is that of the byte strings, and the files are theirs
afterwards -/
def Right (special : Name → Prop) (lim : Nat) (x : World × Users) (c : Act) (y : World × Users) :
    Prop :=
  x.1.answer c = (x.2.act c).1 ∧ Rep special lim y.1 y.2

/-- **One act.** -/
theorem Rep.step (hlog : LogsApart lim log) (x : World × Users) (c : Act)
    (hr : Rep special lim x.1 x.2) (hsound : Sound special lim x c) :
    ∃ y, Both log x c y ∧ Right special lim x c y := by
  obtain ⟨w, u⟩ := x
  obtain ⟨hallow, hready⟩ := hsound
  cases c with
  | call p c =>
    obtain ⟨w', hact, hreply, hr'⟩ := hr.act_call hlog hallow.1 hallow.2 hready
    exact ⟨(w', _), ⟨hact, rfl⟩, hreply, hr'⟩
  | copy parent child =>
    obtain ⟨w', hact, hr'⟩ := hr.act_copy log hallow.1 hallow.2.1 hallow.2.2
    exact ⟨(w', _), ⟨hact, rfl⟩, rfl, hr'⟩
  | fork =>
    obtain ⟨⟨parent, child⟩, hf⟩ := Option.ne_none_iff_exists'.mp (show u.fork ≠ none from hallow)
    obtain ⟨w', hact, hr'⟩ := hr.act_fork log hf
    have hu : u.act .fork =
        (none, ⟨u.files.share parent child, Function.update u.live child true, none⟩) := by
      unfold Users.act
      simp only [hf]
    refine ⟨(w', _), ⟨hact, rfl⟩, ?_, ?_⟩
    · show none = (u.act .fork).1
      rw [hu]
    · show Rep special lim w' (u.act .fork).2
      rw [hu]
      exact hr'
  | exit p =>
    obtain ⟨w', hact, hr'⟩ := hr.act_exit log hallow
    exact ⟨(w', _), ⟨hact, rfl⟩, rfl, hr'⟩

end

end Noxis.Fs
