import Noxis.Tar.Untar

/-!
# untar extracts the archive

* `Places`         the volume has room for the members
* `Along.member`   one turn of the loop over the headers
* `Along.run`      all turns
-/

namespace Noxis.Tar
open Fs
open Ipc (Pid)

/-! ## room -/

/-- how many inode numbers are free -/
def freeNrs (imap : Nat → Bool) : Nat := ((Finset.range 4096).filter fun v => imap v = false).card

theorem freeNrs_pos {imap : Nat → Bool} (h : 0 < freeNrs imap) : ∃ v < 4096, imap v = false := by
  obtain ⟨v, hv⟩ := Finset.card_pos.mp h
  obtain ⟨h1, h2⟩ := Finset.mem_filter.mp hv
  exact ⟨v, Finset.mem_range.mp h1, h2⟩

theorem freeNrs_update {imap : Nat → Bool} {v : Nat} (hv : v < 4096) (h : imap v = false) :
    freeNrs (Function.update imap v true) = freeNrs imap - 1 := by
  have herase : ((Finset.range 4096).filter fun u => Function.update imap v true u = false) =
      ((Finset.range 4096).filter fun u => imap u = false).erase v := by
    ext u
    rw [Finset.mem_filter, Finset.mem_erase, Finset.mem_filter]
    by_cases hu : u = v
    · rw [hu, Function.update_self]
      exact iff_of_false (fun hc => absurd hc.2 (by decide)) fun hc => hc.1 rfl
    · rw [Function.update_of_ne hu]
      exact (and_iff_right hu).symm
  unfold freeNrs
  rw [herase, Finset.card_erase_of_mem (Finset.mem_filter.mpr ⟨Finset.mem_range.mpr hv, h⟩)]

/-- **there is room for the members**, which start at the sectors `ts`: a member that is there is a
regular file with enough sectors, and for the others there are numbers and runs of free sectors.  `n`
numbers are free, and `bit` is the sector map -/
def Places (w : View) : Nat → (Nat → Bool) → List Member → List Nat → Prop
  | _, _, [], [] => True
  | n, bit, m :: ms, t :: ts =>
    (∃ k, w.Named m.name k ∧ w.nr k ≠ ROOT_INODE ∧ (w.file k).mode = I_REGULAR ∧
      m.data.length ≤ (w.file k).nrSects * SECTOR_SIZE ∧ t = (w.file k).startSect ∧
      Places w n bit ms ts) ∨
    (∀ k, ¬ w.Named m.name k) ∧ 0 < n ∧ ∃ f, FreeRun bit NR_DEFAULT_FILE_SECTS f ∧
      t = f + w.sb.n1stSect - 1 ∧ t + NR_DEFAULT_FILE_SECTS ≤ w.sb.nrSects ∧
      Places w (n - 1) (takeRun bit f NR_DEFAULT_FILE_SECTS) ms ts
  | _, _, _, _ => False

section
variable {w w' : View} {s s' : FsState} {p : Pid} {fd fdo : Fin nrFiles} {x xo : Fin nrFileDesc}
  {q qo : Fin nrInode} {k ko : Nat} {f g : Name} {c : Nat → Byte} {pos n t : Nat} {bit : Nat → Bool}
  {m : Member} {ms : List Member} {ts : List Nat}

theorem Places.same (h : Places w n bit ms ts) (hsb : w'.sb = w.sb)
    (hs : ∀ m ∈ ms, SameFile 0 m.name w w') : Places w' n bit ms ts := by
  induction ms generalizing n bit ts with
  | nil =>
    cases ts with
    | nil => trivial
    | cons t ts => exact h
  | cons m ms ih =>
    cases ts with
    | nil => exact h
    | cons t ts =>
      have hm := hs m (List.mem_cons_self ..)
      have hrest : ∀ m' ∈ ms, SameFile 0 m'.name w w' := fun m' hm' =>
        hs m' (List.mem_cons_of_mem _ hm')
      rcases h with ⟨k, hk, hr, hreg, hlen, ht, hp⟩ | ⟨hnone, hn, f, hf, ht, hdev, hp⟩
      · have hfile := hm.file k hk hr
        refine .inl ⟨k, (hm.named k).mpr hk, ?_, ?_, ?_, ?_, ih hp hrest⟩
        · rwa [hm.nr k hk]
        · rwa [hfile]
        · rwa [hfile]
        · rwa [hfile]
      · refine .inr ⟨fun k hk => hnone k ((hm.named k).mp hk), hn, f, hf, ?_, ?_, ih hp hrest⟩
        · rwa [hsb]
        · rwa [hsb]

/-- one entry is free in each table -/
structure Spare (s : FsState) (p : Pid) : Prop where
  filp : ∃ i, s.filp p i = none
  desc : ∃ y, (s.fDescTable y).inode = none
  slot : ∃ r, (s.inodeTable r).cnt = 0

theorem Spare.freeFilp (h : Spare s p) : ∃ fd, freeFilp s p = some fd := by
  obtain ⟨i, hi⟩ := h.filp
  refine Option.ne_none_iff_exists'.mp fun hnone => ?_
  exact List.find?_eq_none.mp hnone i (List.mem_finRange i) (decide_eq_true hi)

theorem Spare.freeFDesc (h : Spare s p) : ∃ x, freeFDesc s = some x := by
  obtain ⟨y, hy⟩ := h.desc
  refine Option.ne_none_iff_exists'.mp fun hnone => ?_
  exact List.find?_eq_none.mp hnone y (List.mem_finRange y) (decide_eq_true hy)

/-- a request for the archive leaves the free entries -/
theorem Along.spare (h : Along s p fd x q k f c pos) (hsp : Spare s p) (hfilp : s'.filp = s.filp)
    (hdesc : ∃ e, s'.fDescTable = Function.update s.fDescTable x e)
    (htab : ∀ r, r ≠ q → s'.inodeTable r = s.inodeTable r) : Spare s' p := by
  obtain ⟨e, hdesc⟩ := hdesc
  obtain ⟨y, hy⟩ := hsp.desc
  have hyx : y ≠ x := by
    rintro rfl
    rw [h.src.desc] at hy
    cases hy
  obtain ⟨r, hr⟩ := hsp.slot
  have hrq : r ≠ q := by
    rintro rfl
    exact h.src.has.held hr
  refine ⟨?_, ⟨y, ?_⟩, ⟨r, ?_⟩⟩
  · rw [hfilp]
    exact hsp.filp
  · rw [hdesc, Function.update_of_ne hyx]
    exact hy
  · rw [htab r hrq]
    exact hr

theorem Sought.spare (hs : Sought s s' x) (h : Along s p fd x q k f c pos) (hsp : Spare s p) :
    Spare s' p :=
  h.spare hsp hs.filp hs.desc fun r _ => congrFun hs.table r

/-! ## a member is opened -/

/-- **The file of a member is opened**: it is there and becomes empty, or it is new. -/
theorem open_member (h : s.view.Ok) (hsp : Spare s p)
    (hpl : Places s.view (freeNrs s.view.imap) s.view.smap (m :: ms) (t :: ts)) :
    ∃ fdo xo qo ko s', doOpen s p m.name.bytes EMPTY = some (some fdo, s') ∧
      freeFilp s p = some fdo ∧ freeFDesc s = some xo ∧ Opens s s' p fdo xo EMPTY qo ko ∧
      (s'.view.entry ko).2 = pad m.name.bytes ∧ (∀ g, g ≠ m.name → SameFile 0 g s.view s'.view) ∧
      (s'.inodeTable qo).startSect = t ∧ m.data.length ≤ (s'.inodeTable qo).nrSects * SECTOR_SIZE ∧
      s'.view.sb = s.view.sb ∧ Places s.view (freeNrs s'.view.imap) s'.view.smap ms ts := by
  obtain ⟨fdo, hfd⟩ := hsp.freeFilp
  obtain ⟨xo, hx⟩ := hsp.freeFDesc
  rcases hpl with ⟨k, hk, hr, hreg, hlen, ht, hp⟩ | ⟨hnone, hn, f, hf, ht, hdev, hp⟩
  · obtain ⟨qo, s', hdo, hopens, honly⟩ :=
      h.doOpen_found (.inr rfl) hk hr hreg hsp.slot hfd hx false
    have hfile := hopens.ok.has_file hopens.has
    refine ⟨fdo, xo, qo, k, s', hdo, hfd, hx, hopens, ?_, fun g hg => ?_, ?_, ?_, honly.sb, ?_⟩
    · rw [honly.entry]
      exact hk.name
    · have hroot : qo ≠ s.view.root := honly.root ▸ hopens.has.other
      refine honly.sameFile h hroot hk.live hreg ?_
      rw [hk.name]
      exact fun he => hg (Name.pad_inj he).symm
    · have hstart := honly.start
      rw [hfile] at hstart
      exact hstart.trans ht.symm
    · have hsects := honly.sects
      rw [hfile] at hsects
      rw [show (s'.inodeTable qo).nrSects = _ from hsects]
      exact hlen
    · rw [honly.imap, honly.smap]
      exact hp
  · obtain ⟨v, qo, ko, s', hdo, hopens, hfree, hko, hdead, hok, honly⟩ :=
      h.doOpen_fresh m.short hnone (freeNrs_pos hn) hf (ht ▸ hdev) hsp.slot hfd hx false
    have hfile := hopens.ok.has_file hopens.has
    have hcreated := View.created_file h hfree ko (pad m.name.bytes)
    refine ⟨fdo, xo, qo, ko, s', hdo, hfd, hx, hopens, ?_, fun g hg => ?_, ?_, ?_, honly.sb, ?_⟩
    · have hself : (s.view.created v f qo ko (pad m.name.bytes)).entry ko = (v, pad m.name.bytes) :=
        Function.update_self ..
      rw [honly.entry, hself]
    · have hhas := h.created_has hfree hko (pad m.name.bytes)
      have hself : (s.view.created v f qo ko (pad m.name.bytes)).entry ko = (v, pad m.name.bytes) :=
        Function.update_self ..
      refine (h.created_same hfree hko hdead hg).trans ?_
      refine honly.sameFile hok hhas.other hhas.live (hok.has_regular hhas) ?_
      rw [hself]
      exact fun he => hg (Name.pad_inj he).symm
    · have hstart := honly.start
      rw [hfile, hcreated] at hstart
      exact hstart.trans ht.symm
    · have hsects := honly.sects
      rw [hfile, hcreated] at hsects
      rw [show (s'.inodeTable qo).nrSects = _ from hsects]
      exact m.fits
    · rw [honly.imap, honly.smap]
      show Places s.view (freeNrs (Function.update s.view.imap v true)) (takeRun s.view.smap f _) ms ts
      rw [freeNrs_update hfree.number.1 hfree.number.2]
      exact hp

/-- the archive is still open then -/
theorem Along.copying (h : Along s p fd x q k f c pos) (ho : Opens s s' p fdo xo EMPTY qo ko)
    (hfd : s.filp p fdo = none) (hx : (s.fDescTable xo).inode = none)
    (hname : (s'.view.entry ko).2 ≠ pad f.bytes) (hsame : SameFile 0 f s.view s'.view) :
    Copying s' p fd fdo x xo q qo k ko f c pos 0 := by
  have hk' := (hsame.named k).mpr h.named
  have hne : k ≠ ko := by
    rintro rfl
    exact hname hk'.name
  -- a slot that is in use has another inode
  have hq : q ≠ qo := by
    rintro rfl
    have hslot := ho.slot h.src.has.held
    have hnr : s'.view.nr k = s'.view.nr ko :=
      (hsame.nr k h.named).trans (h.src.has.num.symm.trans (hslot.trans ho.has.num))
    exact hne (ho.ok.nums k ko hk'.live ho.has.live hnr)
  have hx' : x ≠ xo := by
    rintro rfl
    rw [h.src.desc] at hx
    cases hx
  have hfd' : fd ≠ fdo := by
    rintro rfl
    rw [h.src.filp] at hfd
    cases hfd
  refine ⟨h.step ho.ok hsame ho.root.1 (ho.table q hq h.src.has.other) ?_ ?_,
    ⟨?_, ?_, by decide, ho.has⟩,
    ho.size (by decide), hne⟩
  · rw [ho.filp, Function.update_self, Function.update_of_ne hfd']
    exact h.src.filp
  · rw [ho.desc, Function.update_of_ne hx']
    exact h.src.desc
  · rw [ho.filp, Function.update_self, Function.update_self]
  · rw [ho.desc, Function.update_self]

/-- the bytes of the member are in its file then -/
theorem Copied.stores (h : Copied s s' x xo qo ko c pos 0 m.data.length) (hok : s'.view.Ok)
    (hhas : s'.view.Has qo ko) (hname : (s'.view.entry ko).2 = pad m.name.bytes)
    (hdata : ∀ i < m.data.length, c (pos + i) = m.data.getD i 0) :
    s'.view.Stores m.name m.data ko := by
  have hfile := hok.has_file hhas
  have hinode : s'.view.table qo = { s.inodeTable qo with size := m.data.length } := h.inode
  refine ⟨⟨hhas.live, hname⟩, hok.has_ne hhas, hok.has_regular hhas, ?_, fun i hi => ?_⟩
  · rw [hfile, hinode]
  · have hbyte := h.bytes i
    rw [if_pos ⟨Nat.zero_le i, hi⟩, Nat.sub_zero, hdata i hi] at hbyte
    rw [hfile, hinode]
    exact hbyte

/-- what a turn of the loop over the headers leaves -/
structure Turned (s s' : FsState) (p : Pid) (q : Fin nrInode) (m : Member) : Prop where
  spare : Spare s' p
  stores : ∃ k, s'.view.Stores m.name m.data k
  same : ∀ g, g ≠ m.name → SameFile 0 g s.view s'.view
  slot : s'.inodeTable q = s.inodeTable q
  sb : s'.view.sb = s.view.sb

/-- **One turn**: the member is extracted, and the archive is at the next header. -/
theorem Along.member (h : Along s p fd x q k f c pos) (hsp : Spare s p)
    (hheader : Header m fun i => c (pos + i))
    (hdata : ∀ i < m.data.length, c (pos + SECTOR_SIZE + i) = m.data.getD i 0) (hne : m.name ≠ f)
    (hpl : Places s.view (freeNrs s.view.imap) s.view.smap (m :: ms) (t :: ts))
    (hend : pos + SECTOR_SIZE + blocks m.data.length ≤ (s.inodeTable q).size)
    (hnear : (s.inodeTable q).startSect + (pos + SECTOR_SIZE + blocks m.data.length) / 512 < 2 ^ 22)
    (hnear' : m.data.length = 0 ∨ t + (m.data.length - 1) / CHUNK * CHUNK / 512 < 2 ^ 22) (N i : Nat)
    (buf : Buffer) :
    ∃ s' buf', untarLoop p fd (N + 1) i s buf = untarLoop p fd N (i + 1) s' buf' ∧
      Along s' p fd x q k f c (pos + SECTOR_SIZE + blocks m.data.length) ∧ Turned s s' p q m ∧
      Places s.view (freeNrs s'.view.imap) s'.view.smap ms ts := by
  -- the header
  obtain ⟨s₁, buf₁, hread, hbytes, hs1, hsrc1⟩ := h.read (n := SECTOR_SIZE) (by omega) (by decide)
    (by omega) buf
  have hview1 := hs1.view
  have hsp1 := hs1.spare h hsp
  have hpl1 : Places s₁.view (freeNrs s₁.view.imap) s₁.view.smap (m :: ms) (t :: ts) := by
    rw [hview1]
    exact hpl
  -- the file of the member
  obtain ⟨fdo, xo, qo, ko, s₂, hopen, hfd, hx, hopens, hname, hothers, hstart, hlen, hsb, hpl2⟩ :=
    open_member hsrc1.ok hsp1 hpl1
  have hfd' := freeFilp_spec hfd
  have hx' := freeFDesc_spec hx
  have hcopying := hsrc1.copying hopens hfd' hx'
    (by rw [hname]; exact fun he => hne (Name.pad_inj he)) (hothers f hne.symm)
  have htab2 : s₂.inodeTable q = s.inodeTable q := by
    rw [hopens.table q hcopying.slots.1 hsrc1.src.has.other, hs1.table]
  have hturns : m.data.length ≤ (m.data.length / CHUNK + 1) * CHUNK := by
    unfold CHUNK SECTOR_SIZE
    omega
  obtain ⟨s₃, buf₃, hcopy, hcopying3, hcopied⟩ := hcopying.copyOut hturns
    (by rw [htab2]; exact hend) (by rw [Nat.zero_add]; exact hlen) (by rw [htab2]; exact hnear)
    (by rw [hstart, Nat.zero_add]; exact hnear') buf₁
  rw [Nat.zero_add] at hcopying3 hcopied
  have hstores3 := hcopied.stores hcopying3.src.ok hcopying3.out.has
    (by rw [hcopied.only.entry]; exact hname) hdata
  -- the file is closed
  obtain ⟨s₄, hclose, halong4, honly4, hsame4, hfilp4, hdesc4, htab4⟩ := hcopying3.close
  have hq := hcopying3.slots.1
  refine ⟨s₄, buf₃, ?_, halong4, ⟨⟨⟨fdo, hfilp4⟩, ⟨xo, hdesc4⟩, ?_⟩,
    ⟨ko, hstores3.same hcopying3.src.ok (hsame4 _)⟩, fun g hg => ?_, ?_, ?_⟩, ?_⟩
  · have hfirst := hheader.first hbytes
    have hcname := hheader.cstr_name hbytes
    have hcsize := hheader.octal_size hbytes
    have hpos : ¬ ((m.data.length : Int) < 0) := by omega
    rw [untarLoop, hread]
    simp only [Option.bind_some, ne_eq, not_true, if_false, if_neg hfirst, hcname, hopen, hcsize,
      if_neg hpos, Int.toNat_natCast, hcopy, hclose]
  · obtain ⟨r, hr⟩ := hsp1.slot
    refine ⟨r, ?_⟩
    rw [htab4]
    by_cases hrq : r = qo
    · rw [hrq] at hr ⊢
      rw [Function.update_self, hcopied.inode]
      show (s₂.inodeTable qo).cnt - 1 = 0
      rw [hopens.cnt, hr]
    · have hroot : r ≠ s₁.rootInode := by
        rintro rfl
        exact hsrc1.ok.held hr
      have hkept : s₃.inodeTable r = s₂.inodeTable r := hcopied.only.table r hrq
      rw [Function.update_of_ne hrq, hkept, hopens.table r hrq hroot]
      exact hr
  · refine SameFile.trans ?_ (hsame4 g)
    have hthere := hopens.ok.has_regular hopens.has
    refine SameFile.trans (hview1 ▸ hothers g hg)
      (hcopied.only.sameFile hopens.ok hopens.has.other hopens.has.live hthere ?_)
    rw [hname]
    exact fun he => hg (Name.pad_inj he).symm
  · have hkept : s₃.inodeTable q = s₂.inodeTable q := hcopied.only.table q hq
    rw [htab4, Function.update_of_ne hq, hkept, htab2]
  · rw [honly4.sb, hcopied.only.sb, hsb, hview1]
  · rw [honly4.imap, hcopied.only.imap, honly4.smap, hcopied.only.smap, ← hview1]
    exact hpl2

/-- the requests for the bytes of a member start below sector 2^22 -/
def NearMember (e : Member × Nat) : Prop :=
  e.1.data.length = 0 ∨ e.2 + (e.1.data.length - 1) / CHUNK * CHUNK / 512 < 2 ^ 22

/-- what the loop over the headers leaves -/
structure Ran (s s' : FsState) (p : Pid) (q : Fin nrInode) (ms : List Member) : Prop where
  spare : Spare s' p
  stores : ∀ m ∈ ms, ∃ k, s'.view.Stores m.name m.data k
  same : ∀ g, (∀ m ∈ ms, m.name ≠ g) → SameFile 0 g s.view s'.view
  slot : s'.inodeTable q = s.inodeTable q

/-- **All turns**: every member is extracted, and the archive is behind its block of zeros. -/
theorem Along.run (h : Along s p fd x q k f c pos) (hsp : Spare s p) (harch : Archive c pos ms)
    (hne : ∀ m ∈ ms, m.name ≠ f) (hnames : (ms.map Member.name).Nodup)
    (hpl : Places s.view (freeNrs s.view.imap) s.view.smap ms ts)
    (hend : endOf pos ms + SECTOR_SIZE ≤ (s.inodeTable q).size)
    (hnear : (s.inodeTable q).startSect + endOf pos ms / 512 < 2 ^ 22)
    (hnear' : ∀ e ∈ ms.zip ts, NearMember e) (i : Nat) {N : Nat} (hN : ms.length < N) (buf : Buffer) :
    ∃ s' buf', untarLoop p fd N i s buf = some (some (i + ms.length), s', buf') ∧
      Along s' p fd x q k f c (endOf pos ms + SECTOR_SIZE) ∧ Ran s s' p q ms := by
  obtain ⟨N, rfl⟩ : ∃ N', N = N' + 1 := ⟨N - 1, by omega⟩
  induction ms generalizing s pos ts i N buf with
  | nil =>
    obtain ⟨s₁, buf₁, hread, hbytes, hs1, hsrc1⟩ :=
      h.read (n := SECTOR_SIZE) hend (by decide) hnear buf
    have hzero : buf₁ 0 = 0 := (hbytes 0 (by decide)).trans (harch 0 (by decide))
    refine ⟨s₁, buf₁, ?_, hsrc1, hs1.spare h hsp, fun m hm => (nomatch hm), fun g _ => ?_, ?_⟩
    · rw [untarLoop, hread]
      simp only [Option.bind_some, ne_eq, not_true, if_false, hzero, if_true, List.length_nil,
        Nat.add_zero]
    · rw [hs1.view]
      exact .refl 0 g s.view
    · rw [hs1.table]
  | cons m ms ih =>
    obtain ⟨hheader, hdata, hrest⟩ := harch
    obtain ⟨hfresh, hnames'⟩ := List.nodup_cons.mp hnames
    have hafter : pos + SECTOR_SIZE + blocks m.data.length ≤ endOf pos (m :: ms) := le_endOf _ ms
    cases ts with
    | nil => exact absurd hpl id
    | cons t ts =>
      have hmember := hnear' (m, t) (List.mem_cons_self ..)
      obtain ⟨s₁, buf₁, hloop, hsrc1, hturned, hpl1⟩ := h.member hsp hheader hdata
        (hne m (List.mem_cons_self ..)) hpl (by omega) (by omega) hmember N i buf
      have hsize : endOf (pos + SECTOR_SIZE + blocks m.data.length) ms + SECTOR_SIZE ≤
          (s₁.inodeTable q).size := by
        rw [hturned.slot]
        exact hend
      -- the names are different, so the other members find what they need
      have hother : ∀ m' ∈ ms, m'.name ≠ m.name := by
        intro m' hm' he
        exact hfresh (he ▸ List.mem_map_of_mem hm')
      have hpl2 := hpl1.same hturned.sb fun m' hm' => hturned.same _ (hother m' hm')
      obtain ⟨N, rfl⟩ : ∃ N', N = N' + 1 := ⟨N - 1, by rw [List.length_cons] at hN; omega⟩
      obtain ⟨s', buf', hdo, hsrc', hran⟩ := ih hsrc1 hturned.spare hrest
        (fun m' hm' => hne m' (List.mem_cons_of_mem _ hm')) hnames' hpl2 hsize
        (by rw [hturned.slot]; exact hnear) (fun e he => hnear' e (List.mem_cons_of_mem _ he))
        (i + 1) buf₁ N
        (by rw [List.length_cons] at hN; omega)
      refine ⟨s', buf', ?_, hsrc', hran.spare, fun m' hm' => ?_, fun g hg => ?_,
        hran.slot.trans hturned.slot⟩
      · rw [hloop, hdo, List.length_cons, Nat.add_assoc, Nat.add_comm 1]
      · rcases List.mem_cons.mp hm' with rfl | hin
        · obtain ⟨ko, hko⟩ := hturned.stores
          exact ⟨ko, hko.same hsrc1.ok (hran.same _ hother)⟩
        · exact hran.stores m' hin
      · exact (hturned.same g fun he => hg m (List.mem_cons_self ..) he.symm).trans
          (hran.same g fun m' hm' => hg m' (List.mem_cons_of_mem _ hm'))

end

end Noxis.Tar
