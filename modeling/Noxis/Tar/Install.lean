import Noxis.Tar.Extract

/-!
# untar, from its OPEN to its CLOSE

* `Extracts`        the property of `untar`: every member is a file with its bytes, and nothing else
  changes
* `Near`            the condition: no request starts behind sector 2^22
* `untar_extracts`  the condition is enough
* `untar_fails`     an archive that lies behind sector 2^22 is not extracted
-/

namespace Noxis.Tar
open Fs
open Ipc (Pid)

section
variable {s s' : FsState} {p : Pid} {fd : Fin nrFiles} {x : Fin nrFileDesc} {q : Fin nrInode}
  {k pos n : Nat} {f : Name} {c : Nat → Byte} {ms : List Member} {ts : List Nat}

/-! ## the archive is opened -/

/-- two entries are free in each table -/
structure TwoSpare (s : FsState) (p : Pid) : Prop where
  filp : ∃ i j, i ≠ j ∧ s.filp p i = none ∧ s.filp p j = none
  desc : ∃ y z, y ≠ z ∧ (s.fDescTable y).inode = none ∧ (s.fDescTable z).inode = none
  slot : ∃ r t, r ≠ t ∧ (s.inodeTable r).cnt = 0 ∧ (s.inodeTable t).cnt = 0

theorem TwoSpare.spare (h : TwoSpare s p) : Spare s p := by
  obtain ⟨⟨i, -, -, hi, -⟩, ⟨y, -, -, hy, -⟩, ⟨r, -, -, hr, -⟩⟩ := h
  exact ⟨⟨i, hi⟩, ⟨y, hy⟩, ⟨r, hr⟩⟩

/-- one of two is another one than `a` -/
theorem exists_other {α : Type} [DecidableEq α] {P : α → Prop} (h : ∃ i j, i ≠ j ∧ P i ∧ P j) (a : α) :
    ∃ i, i ≠ a ∧ P i := by
  obtain ⟨i, j, hne, hi, hj⟩ := h
  by_cases ha : i = a
  · exact ⟨j, fun hj' => hne (ha.trans hj'.symm), hj⟩
  · exact ⟨i, ha, hi⟩

theorem TwoSpare.opened {flags : Nat} (h : TwoSpare s p) (hok : s.view.Ok)
    (ho : Opens s s' p fd x flags q k) : Spare s' p := by
  obtain ⟨i, hi, hfi⟩ := exists_other h.filp fd
  obtain ⟨y, hy, hdy⟩ := exists_other h.desc x
  obtain ⟨r, hr, hcr⟩ := exists_other h.slot q
  refine ⟨⟨i, ?_⟩, ⟨y, ?_⟩, ⟨r, ?_⟩⟩
  · rw [ho.filp, Function.update_self, Function.update_of_ne hi]
    exact hfi
  · rw [ho.desc, Function.update_of_ne hy]
    exact hdy
  · have hroot : r ≠ s.rootInode := by
      rintro rfl
      exact hok.held hcr
    rw [ho.table r hr hroot]
    exact hcr

/-- **OPEN of the archive.** -/
theorem open_tar (h : s.view.Ok) (hk : s.view.Named f k) (hr : s.view.nr k ≠ ROOT_INODE)
    (hreg : (s.view.file k).mode = I_REGULAR) (hsp : Spare s p) :
    ∃ fd x q s', doOpen s p (f.path true) O_RDWR = some (some fd, s') ∧
      Opens s s' p fd x O_RDWR q k ∧ View.Only q k s.view s'.view ∧
      (∀ g, SameFile 0 g s.view s'.view) ∧ (s'.inodeTable q).size = (s.view.file k).size ∧
      (s'.inodeTable q).startSect = (s.view.file k).startSect ∧
      Along s' p fd x q k f (s.view.byte (s.view.file k)) 0 := by
  obtain ⟨fd, hfd⟩ := hsp.freeFilp
  obtain ⟨x, hx⟩ := hsp.freeFDesc
  obtain ⟨q, s', hdo, hopens, honly⟩ := h.doOpen_found (.inl rfl) hk hr hreg hsp.slot hfd hx true
  have hroot : q ≠ s.rootInode := fun he => hopens.has.other (he.trans hopens.root.1.symm)
  have hsame := honly.same_disk hroot (hopens.disk (by decide))
  have hfile : { s'.inodeTable q with cnt := 0 } = s.view.file k :=
    (hopens.ok.has_file hopens.has).symm.trans ((hsame f).file k hk hr)
  refine ⟨fd, x, q, s', hdo, hopens, honly, hsame, by rw [← hfile], by rw [← hfile], hopens.ok,
    ⟨?_, ?_, by decide, hopens.has⟩, ?_,
    fun i hi => ?_⟩
  · rw [hopens.filp, Function.update_self, Function.update_self]
  · rw [hopens.desc, Function.update_self]
  · rw [honly.entry]
    exact hk.name
  · have hsize : (s'.inodeTable q).size ≤ (s'.inodeTable q).nrSects * 512 :=
      (hopens.ok.has_placed hopens.has).size
    have hdata := (hsame f).data k hk hr hreg i (Nat.zero_le i)
    rw [← hfile] at hdata ⊢
    exact hdata (hi.trans_le hsize)

/-! ## the end -/

/-- **The first byte of the archive becomes 0** when a file was extracted. -/
theorem Along.empty (h : Along s p fd x q k f c pos) (hsp : Spare s p)
    (hsize : 0 < (s.inodeTable q).size)
    (hnear : (s.inodeTable q).startSect < 2 ^ 22) {i : Nat} (hi : i = 0 → c 0 = 0) (buf : Buffer) :
    ∃ s' pos' c', emptyTar p fd i s buf = some s' ∧ Along s' p fd x q k f c' pos' ∧ Spare s' p ∧
      c' 0 = 0 ∧
      (∀ g, g ≠ f → SameFile 0 g s.view s'.view) ∧ SameFile 1 f s.view s'.view ∧
      s'.inodeTable q = s.inodeTable q := by
  by_cases hzero : i = 0
  · exact ⟨s, pos, c, if_pos hzero, h, hsp, hi hzero, fun g _ => .refl 0 g s.view,
      .refl 1 f s.view, rfl⟩
  obtain ⟨s₁, hseek, hs1, h1⟩ : ∃ s₁, doLseek s p fd 0 SEEK_SET = some (some 0, s₁) ∧
      Sought s s₁ x ∧ Along s₁ p fd x q k f c 0 := ⟨_, h.src.doLseek, h.seek 0⟩
  have hview1 := hs1.view
  have htab1 := hs1.table
  have hroom : (s.inodeTable q).size ≤ (s.inodeTable q).nrSects * 512 :=
    (h.ok.has_placed h.src.has).size
  have hroom1 : 0 + 1 ≤ (s₁.inodeTable q).nrSects * 512 := by
    rw [htab1]
    omega
  obtain ⟨s', hwrite, hok, honly, hfilp, hdesc, hinode, hbyte⟩ := h1.ok.doWrite h1.src hroom1
    (by decide) (by rw [htab1]; omega) (Function.update buf 0 0)
  rw [htab1, max_eq_left (by omega)] at hinode
  rw [htab1] at hbyte
  have htab : s'.view.table q = s₁.view.table q := by
    rw [hview1]
    exact hinode
  have hhas := honly.has_self h1.src.has (by rw [htab]; exact ⟨rfl, rfl, rfl, rfl⟩)
    (by rw [htab]; exact h1.src.has.held)
  refine ⟨s', 1, fun i => if i = 0 then 0 else c i, ?_,
    ⟨hok, ⟨?_, ?_, by decide, hhas⟩, ?_, fun i hi => ?_⟩,
    h1.spare (hs1.spare h hsp) hfilp ⟨_, hdesc⟩ fun r hr => honly.table r hr, if_pos rfl,
    fun g hg => ?_, ?_, hinode⟩
  · unfold emptyTar
    rw [if_neg hzero, hseek]
    simp only [Option.bind_some, hwrite, if_true]
  · rw [hfilp]
    exact h1.src.filp
  · rw [hdesc, Function.update_self]
  · rw [honly.entry]
    exact h1.name
  · rw [hinode] at hi ⊢
    rw [hbyte i]
    by_cases hi0 : i = 0
    · subst hi0
      rw [if_pos ⟨le_rfl, Nat.one_pos⟩, if_pos rfl]
      exact Function.update_self ..
    · rw [if_neg (by omega), if_neg hi0, hview1]
      exact h.bytes i hi
  · rw [← hview1]
    refine honly.sameFile h1.ok h1.src.has.other h1.src.has.live (h1.ok.has_regular h1.src.has) ?_
    rw [h1.name]
    exact fun he => hg (Name.pad_inj he).symm
  · rw [← hview1]
    refine honly.same_self h1.ok hok h1.src.has htab h1.named fun i hi => ?_
    have hrest := hbyte i
    rw [if_neg (by omega)] at hrest
    rw [show s₁.view.table q = s.inodeTable q from congrFun htab1 q]
    exact hrest

/-- **CLOSE of the archive.** -/
theorem Along.close (h : Along s p fd x q k f c pos) : ∃ s', doClose s p fd = some s' ∧ s'.view.Ok ∧
    (∀ g, SameFile 0 g s.view s'.view) ∧ (Spare s p → Spare s' p) := by
  obtain ⟨s', hclose, hok, honly, hfilp, hdesc, htab, hdisk⟩ := h.ok.doClose h.src
  refine ⟨s', hclose, hok, honly.same_disk h.src.has.other hdisk, fun hsp => ⟨⟨fd, ?_⟩, ⟨x, ?_⟩, ?_⟩⟩
  · rw [hfilp, Function.update_self, Function.update_self]
  · rw [hdesc, Function.update_self]
  · obtain ⟨r, hr⟩ := hsp.slot
    have hrq : r ≠ q := by
      rintro rfl
      exact h.src.has.held hr
    exact ⟨r, by rw [htab, Function.update_of_ne hrq]; exact hr⟩

/-- an archive that begins with a 0 is left as it is -/
theorem untar_again (h : s.view.Ok) (hk : s.view.Named f k) (hr : s.view.nr k ≠ ROOT_INODE)
    (hreg : (s.view.file k).mode = I_REGULAR) (hsp : Spare s p)
    (hsize : SECTOR_SIZE ≤ (s.view.file k).size)
    (hzero : s.view.byte (s.view.file k) 0 = 0) (hnear : (s.view.file k).startSect < 2 ^ 22)
    (hn : 0 < n)
    (buf : Buffer) : ∃ s', untar p n (f.path true) buf s = some (some 0, s') ∧ s'.view.Ok ∧
      ∀ g, SameFile 0 g s.view s'.view := by
  obtain ⟨fd, x, q, s₁, hopen, hopens, -, hsame, hsize1, hstart1, halong⟩ := open_tar h hk hr hreg hsp
  obtain ⟨s₂, buf₂, hread, hbytes, hs2, halong2⟩ := halong.read (n := SECTOR_SIZE)
    (by rw [hsize1, Nat.zero_add]; exact hsize) (by decide) (by rw [hstart1]; exact hnear) buf
  have hfirst : buf₂ 0 = 0 := (hbytes 0 (by decide)).trans hzero
  obtain ⟨s', hclose, hok, hsame', -⟩ := halong2.close
  obtain ⟨N, rfl⟩ : ∃ N, n = N + 1 := ⟨n - 1, by omega⟩
  refine ⟨s', ?_, hok, fun g => (hsame g).trans (hs2.view ▸ hsame' g)⟩
  unfold untar
  rw [hopen]
  simp only [Option.bind_some, untarLoop, hread, ne_eq, not_true, if_false, hfirst, if_true,
    emptyTar, hclose,
    Option.map_some]

end

/-! ## the whole -/

/-- **a file system with an archive**: it is in order, the file `f` begins with the archive of the
members `ms`, no two of them have one name, and there is room for them from the sectors `ts` on -/
structure Packed (s : FsState) (p : Pid) (f : Name) (k : Nat) (ms : List Member) (ts : List Nat) :
    Prop where
  ok : s.view.Ok
  named : s.view.Named f k
  nonroot : s.view.nr k ≠ ROOT_INODE
  regular : (s.view.file k).mode = I_REGULAR
  archive : Archive (s.view.byte (s.view.file k)) 0 ms
  size : endOf 0 ms + SECTOR_SIZE ≤ (s.view.file k).size
  names : (ms.map Member.name).Nodup
  other : ∀ m ∈ ms, m.name ≠ f
  room : Places s.view (freeNrs s.view.imap) s.view.smap ms ts
  spare : TwoSpare s p

/-- **The property of `untar`.**  Every member is a file with its bytes, no other file changes but the
archive in its first byte, and a second `untar` extracts nothing. -/
def Extracts (s : FsState) (p : Pid) (f : Name) (ms : List Member) : Prop :=
  ∀ buf n, ms.length < n → ∃ s', untar p n (f.path true) buf s = some (some ms.length, s') ∧
    (∀ m ∈ ms, HasFile s' m.name m.data) ∧
    (∀ g, (∀ m ∈ ms, m.name ≠ g) → g ≠ f → Unchanged 0 g s s') ∧ Unchanged 1 f s s' ∧
    ∀ buf' n', 0 < n' → ∃ s'', untar p n' (f.path true) buf' s' = some (some 0, s'') ∧
      ∀ g, Unchanged 0 g s' s''

/-- **The condition.**  Every request starts below sector 2^22: the last one for the archive, and the
last one for each member that has bytes. -/
structure Near (s : FsState) (k : Nat) (ms : List Member) (ts : List Nat) : Prop where
  archive : (s.view.file k).startSect + endOf 0 ms / 512 < 2 ^ 22
  members : ∀ e ∈ ms.zip ts, NearMember e

/-- **`untar` extracts the archive** when it and the members lie below sector 2^22. -/
theorem untar_extracts {s : FsState} {p : Pid} {f : Name} {k : Nat} {ms : List Member} {ts : List Nat}
    (h : Packed s p f k ms ts) (hnear : Near s k ms ts) : Extracts s p f ms := by
  intro buf n hn
  obtain ⟨fd, x, q, s₁, hopen, hopens, honly, hsame1, hsize1, hstart1, halong⟩ :=
    open_tar h.ok h.named h.nonroot h.regular h.spare.spare
  have hroom : Places s₁.view (freeNrs s₁.view.imap) s₁.view.smap ms ts := by
    rw [honly.imap, honly.smap]
    exact h.room.same honly.sb fun m _ => hsame1 m.name
  -- the members
  obtain ⟨s₂, buf₂, hloop, halong2, hran⟩ := halong.run (h.spare.opened h.ok hopens)
    h.archive h.other h.names hroom (by rw [hsize1]; exact h.size)
    (by rw [hstart1]; exact hnear.archive) hnear.members 0 hn buf
  rw [Nat.zero_add] at hloop
  have hsize2 : (s₂.inodeTable q).size = (s.view.file k).size := by rw [hran.slot, hsize1]
  have hstart2 : (s₂.inodeTable q).startSect = (s.view.file k).startSect := by rw [hran.slot, hstart1]
  have hbig : SECTOR_SIZE ≤ (s.view.file k).size := (Nat.le_add_left ..).trans h.size
  have hlow : (s.view.file k).startSect < 2 ^ 22 := by
    have harch := hnear.archive
    omega
  -- the first byte
  obtain ⟨s₃, pos, c, hempty, halong3, hsp3, hzero, hsame3, hsame3', hslot3⟩ :=
    halong2.empty hran.spare
    (by rw [hsize2]; exact Nat.lt_of_lt_of_le (by decide) hbig) (by rw [hstart2]; exact hlow)
    (i := ms.length)
    (fun hlen => by
      have hnil := List.length_eq_zero_iff.mp hlen
      have harch := h.archive
      rw [hnil] at harch
      exact harch 0 (by decide)) buf₂
  -- the end
  obtain ⟨s', hclose, hok, hsame4, hkeep⟩ := halong3.close
  have htar : SameFile 0 f s.view s₂.view := (hsame1 f).trans (hran.same f h.other)
  have htar' : SameFile 1 f s.view s'.view := ((htar.mono 1).trans hsame3').trans ((hsame4 f).mono 1)
  have hk' := (htar'.named k).mpr h.named
  have hfile' : s'.view.file k = s.view.file k := htar'.file k h.named h.nonroot
  have hzero' : s'.view.byte (s'.view.file k) 0 = 0 := by
    have hk3 := halong3.named
    have hfile3 : s₃.view.file k = s.view.file k :=
      ((htar.mono 1).trans hsame3').file k h.named h.nonroot
    have hplaced := h.ok.placed k h.named.live h.regular
    have hdata := (hsame4 f).data k hk3 (halong3.ok.has_ne halong3.src.has)
      (halong3.ok.has_regular halong3.src.has) 0 le_rfl (by
        rw [hfile3]
        have hle := hplaced.size
        unfold SECTOR_SIZE at hle hbig
        omega)
    rw [hfile', ← hfile3, hdata, halong3.ok.has_file halong3.src.has]
    refine Eq.trans ?_ hzero
    refine halong3.bytes 0 ?_
    rw [hslot3, hsize2]
    exact Nat.lt_of_lt_of_le (by decide) hbig
  refine ⟨s', ?_, fun m hm => ?_, fun g hg hgf => ?_, htar'.unchanged h.ok hok, fun buf' n' hn' => ?_⟩
  · unfold untar
    rw [hopen]
    simp only [Option.bind_some, hloop, hempty, hclose, Option.map_some]
  · obtain ⟨ko, hko⟩ := hran.stores m hm
    have hne : m.name ≠ f := h.other m hm
    exact ((hko.same halong2.ok (hsame3 _ hne)).same halong3.ok (hsame4 _)).hasFile hok
  · have hsame := (((hsame1 g).trans (hran.same g hg)).trans (hsame3 g hgf)).trans (hsame4 g)
    exact hsame.unchanged h.ok hok
  · obtain ⟨s'', hagain, hok', hsame⟩ := untar_again hok hk'
      (by rw [htar'.nr k h.named]; exact h.nonroot)
      (by rw [hfile']; exact h.regular) (hkeep hsp3) (by rw [hfile']; exact hbig) hzero'
      (by rw [hfile']; exact hlow) hn' buf'
    exact ⟨s'', hagain, fun g => (hsame g).unchanged hok hok'⟩

/-! ## a file system with an archive of one member -/

/-- `cmd.tar` -/
def cmdTar : Name :=
  ⟨[0x63, 0x6D, 0x64, 0x2E, 0x74, 0x61, 0x72], by decide, by decide, by decide, by decide⟩

/-- a file `a` with one byte -/
def oneByte : Member :=
  ⟨⟨[0x61], by decide, by decide, by decide, by decide⟩, [0x41], by decide, by decide⟩

/-- a header of the member -/
def headerOf (m : Member) : Buffer := fun i =>
  if i < 100 then m.name.bytes.getD i 0
  else if 124 ≤ i then (digits m.data.length).getD (i - 124) 0 else 0

theorem headerOf_header (m : Member) : Header m (headerOf m) where
  name i hi := if_pos hi
  size i hi := by
    have hge : 124 ≤ 124 + i := by omega
    unfold headerOf
    rw [if_neg (by omega), if_pos hge, Nat.add_sub_cancel_left]

/-- 4300000 sectors -/
def largeSb : Super := ⟨4096, 4300000, 1, 1050, 1309, 256⟩

def rootInode : Inode := ⟨I_DIRECTORY, 32, 1309, 2048, 1, 1⟩

/-- the inode of the archive, which is at sector `t` -/
def tarInode (t : Nat) : Inode := ⟨I_REGULAR, 1536, t, 2048, 0, 2⟩

/-- the entries `.` and `cmd.tar` -/
def dirSect : List Byte :=
  [1, 0, 0, 0, 0x2E, 0, 0, 0, 0, 0, 0, 0, 0, 0, 0, 0,
   2, 0, 0, 0, 0x63, 0x6D, 0x64, 0x2E, 0x74, 0x61, 0x72, 0, 0, 0, 0, 0]

/-- the archive is at sector `t`, and the bits of the sector map below `b` are set -/
def tarDisk (t b : Nat) : Disk := fun i o =>
  if i = 2 then if o = 0 then 7 else 0
  else if 3 ≤ i ∧ i < 1053 then if (i - 3) * 512 + o < b / 8 then 0xFF else 0
  else if i = 1053 then (tarInode t).encode (rootInode.encode (fun _ => 0) 0) 32 o
  else if i = 1309 then dirSect.getD o 0
  else if i = t then headerOf oneByte o
  else if i = t + 1 then if o = 0 then 0x41 else 0
  else 0

def tarFs (t b : Nat) : FsState where
  disk := tarDisk t b
  sb := largeSb
  inodeTable q := if q = 0 then rootInode else .zero
  fDescTable _ := ⟨0, 0, 0, none⟩
  filp _ _ := none
  rootInode := 0

/-- the archive lies behind `/`, its bits are set, and there is room behind it -/
structure Fit (t b : Nat) : Prop where
  first : 3357 ≤ t
  byte : b % 8 = 0
  set : t + 740 ≤ b
  room : b + 3356 ≤ 4300000

section
variable {t b i k v : Nat}

theorem largeSb_ok : largeSb.Ok :=
  ⟨by decide, by decide, by decide, by decide, by decide⟩

theorem tarFs_smap (hb : b % 8 = 0) (hk : k < 4300800) : (tarFs t b).view.smap k = decide (k < b) := by
  have hsect : ¬ 3 + k / 4096 = 2 := by omega
  have hin : 3 ≤ 3 + k / 4096 ∧ 3 + k / 4096 < 1053 := by omega
  show (decide (k < 1050 * 4096) && mapBit (tarDisk t b) 3 k) = decide (k < b)
  rw [decide_eq_true (by omega), Bool.true_and]
  unfold mapBit tarDisk
  rw [if_neg hsect, if_pos hin]
  by_cases hlt : k < b
  · rw [if_pos (by omega), decide_eq_true hlt]
    have hones : ∀ j < 8, (0xFF : Byte).getLsbD j = true := by decide
    exact hones _ (Nat.mod_lt _ (by decide))
  · rw [if_neg (by omega), decide_eq_false hlt]
    exact BitVec.getLsbD_zero

theorem tarFs_entry (h : Fit t b) (hk : k < 65536) (o : Nat) (ho : o < 16) :
    entByte (tarFs t b).disk 1309 k o = if k < 2 then dirSect.getD (k * 16 + o) 0 else 0 := by
  have hfirst := h.first
  show tarDisk t b (1309 + k / 32) (k % 32 * 16 + o) = _
  unfold tarDisk
  rw [if_neg (by omega), if_neg (by omega), if_neg (by omega)]
  by_cases hk0 : k < 32
  · rw [if_pos (by omega), Nat.mod_eq_of_lt hk0]
    by_cases hk2 : k < 2
    · rw [if_pos hk2]
    · rw [if_neg hk2]
      refine List.getD_eq_default _ _ ?_
      show 32 ≤ k * 16 + o
      omega
  · rw [if_neg (by omega), if_neg (by omega), if_neg (by omega), if_neg (by omega)]

theorem tarFs_live_entry (h : Fit t b) (hk : k < 2) :
    (tarFs t b).view.entry k = (get32 (fun o => dirSect.getD (k * 16 + o) 0) 0,
      (fun i => dirSect.getD (k * 16 + (4 + i)) 0 : Key)) := by
  have hk' : k < NR_DIR_ENTRIES := hk.trans (by decide)
  have hentry : (tarFs t b).view.entry k =
      (entNr (tarFs t b).disk 1309 k, entKey (tarFs t b).disk 1309 k) := if_pos hk'
  rw [hentry]
  refine Prod.ext ?_ (funext fun i => ?_)
  · show get32 (entByte (tarFs t b).disk 1309 k) 0 = get32 (fun o => dirSect.getD (k * 16 + o) 0) 0
    refine get32_congr fun i hi => ?_
    rw [tarFs_entry h hk' (0 + i) (by omega), if_pos hk]
  · have hi := i.isLt
    exact (tarFs_entry h hk' (4 + i) (by omega)).trans (if_pos hk)

theorem tarFs_blank (h : Fit t b) (hk : ¬ k < 2) : (tarFs t b).view.entry k = blankEntry := by
  by_cases hk' : k < NR_DIR_ENTRIES
  · have hentry : (tarFs t b).view.entry k =
        (entNr (tarFs t b).disk 1309 k, entKey (tarFs t b).disk 1309 k) := if_pos hk'
    have hzero : ∀ o < 16, entByte (tarFs t b).disk 1309 k o = 0 := fun o ho =>
      (tarFs_entry h hk' o ho).trans (if_neg hk)
    rw [hentry]
    refine Prod.ext ?_ (funext fun i => ?_)
    · have hnr : get32 (entByte (tarFs t b).disk 1309 k) 0 = get32 (fun _ => 0) 0 :=
        get32_congr fun i hi => hzero _ (by omega)
      exact hnr
    · have hi := i.isLt
      exact hzero _ (by omega)
  · exact if_neg hk'

theorem tarFs_nr (h : Fit t b) : (tarFs t b).view.nr 0 = 1 ∧ (tarFs t b).view.nr 1 = 2 := by
  constructor
  · exact congrArg Prod.fst (tarFs_live_entry h (by decide : 0 < 2))
  · exact congrArg Prod.fst (tarFs_live_entry h (by decide : 1 < 2))

theorem tarFs_root : (tarFs t b).view.dir = rootInode := by
  show (if (0 : Fin nrInode) = 0 then rootInode else Inode.zero) = rootInode
  rw [if_pos rfl]

theorem tarFs_live (h : Fit t b) : (tarFs t b).view.Live k ↔ k < 2 := by
  have hlen : (tarFs t b).view.len = 2 := by
    unfold View.len
    rw [tarFs_root]
    rfl
  unfold View.Live
  rw [hlen]
  refine and_iff_left_of_imp fun hk => ?_
  obtain ⟨h0, h1⟩ := tarFs_nr h
  rcases (by omega : k = 0 ∨ k = 1) with rfl | rfl
  · rw [h0]
    decide
  · rw [h1]
    decide

theorem tarFs_imap (hv : v < 4096) : (tarFs t b).view.imap v =
    (if v / 8 = 0 then (7 : Byte) else 0).getLsbD (v % 8) := by
  show (decide (v < 4096) && mapBit (tarDisk t b) 2 v) = _
  rw [decide_eq_true hv, Bool.true_and]
  unfold mapBit tarDisk
  rw [if_pos (by omega), Nat.mod_eq_of_lt hv]

/-- the sector of the inodes -/
theorem tarFs_inodeSect {o : Nat} (ho : o < 512) : rdSect (tarFs t b).disk 1053 o =
    (tarInode t).encode (rootInode.encode (fun _ => 0) 0) 32 o := by
  have hsect : sectOf 1053 = 1053 := sectOf_of_lt (by decide)
  rw [rdSect_lt ho, hsect]
  show tarDisk t b 1053 o = _
  unfold tarDisk
  rw [if_neg (by decide), if_neg (by decide), if_pos rfl]

theorem tarFs_file (h : Fit t b) : (tarFs t b).view.file 1 = tarInode t := by
  have hroom := h.room
  have hset := h.set
  have hnum : (tarFs t b).view.file 1 = (tarFs t b).view.inode 2 :=
    congrArg (tarFs t b).view.inode (tarFs_nr h).2
  have hread : (tarFs t b).view.inode 2 = inodeOnDisk (tarFs t b) 2 := by
    show (if 1 ≤ 2 ∧ 2 ≤ 4096 then inodeOnDisk (tarFs t b) 2 else Inode.zero) = _
    rw [if_pos (by decide)]
  have hdisk : inodeOnDisk (tarFs t b) 2 = .decode (rdSect (tarFs t b).disk 1053) 32 0 2 := rfl
  rw [hnum, hread, hdisk, Inode.decode_congr fun i hi => tarFs_inodeSect (by omega)]
  refine Inode.decode_encode (p := tarInode t) ?_ ?_ ?_ ?_
  · show I_REGULAR < 2 ^ 32
    decide
  · show 1536 < 2 ^ 32
    decide
  · show t < 2 ^ 32
    omega
  · show 2048 < 2 ^ 32
    decide

/-- inode 1 is a directory -/
theorem tarFs_dir (h : Fit t b) : ((tarFs t b).view.file 0).mode = I_DIRECTORY := by
  have hnum : (tarFs t b).view.file 0 = (tarFs t b).view.inode 1 :=
    congrArg (tarFs t b).view.inode (tarFs_nr h).1
  have hread : (tarFs t b).view.inode 1 = inodeOnDisk (tarFs t b) 1 := by
    show (if 1 ≤ 1 ∧ 1 ≤ 4096 then inodeOnDisk (tarFs t b) 1 else Inode.zero) = _
    rw [if_pos (by decide)]
  have hdisk : inodeOnDisk (tarFs t b) 1 = .decode (rdSect (tarFs t b).disk 1053) 0 0 1 := rfl
  have hbytes : ∀ i < 16, rdSect (tarFs t b).disk 1053 (0 + i) =
      rootInode.encode (fun _ => 0) 0 (0 + i) := by
    intro i hi
    rw [tarFs_inodeSect (by omega), Inode.encode_other (by omega)]
  rw [hnum, hread, hdisk, Inode.decode_congr hbytes]
  decide

/-- **The sample is in order.** -/
theorem tarFs_ok (h : Fit t b) : (tarFs t b).view.Ok := by
  have hfirst := h.first
  have hset := h.set
  have hroom := h.room
  have hfile := tarFs_file h
  have hmarked : ∀ k, k < b → (tarFs t b).view.smap k = true := by
    intro k hk
    rw [tarFs_smap h.byte (by omega), decide_eq_true hk]
  have hother : ∀ q, q ≠ (0 : Fin nrInode) → ((tarFs t b).inodeTable q).cnt = 0 := by
    intro q hq
    show (if q = 0 then rootInode else Inode.zero).cnt = 0
    rw [if_neg hq]
    rfl
  -- `.` and `cmd.tar`
  have hcases : ∀ k, (tarFs t b).view.Live k → k = 0 ∨ k = 1 := by
    intro k hk
    have hlt := (tarFs_live h).mp hk
    omega
  have hregular : ∀ k, (tarFs t b).view.Live k →
      ((tarFs t b).view.file k).mode = I_REGULAR → k = 1 := by
    intro k hk hm
    rcases hcases k hk with rfl | rfl
    · rw [tarFs_dir h] at hm
      exact absurd hm (by decide)
    · rfl
  have hroot := tarFs_root (t := t) (b := b)
  refine ⟨largeSb_ok, ?_, by rw [hroot]; rfl, by rw [hroot]; rfl, by rw [hroot]; rfl,
    by rw [hroot]; rfl,
    ⟨by rw [hroot]; rfl, ?_⟩, fun k hk => ?_, fun j k hj hk he => ?_,
    fun j k hj hk he => ?_, fun k hk => ?_, ⟨?_, ?_⟩, fun q hq hc => absurd (hother q hq) hc,
    fun q r hq hr _ => ?_, fun k hk => hmarked k ?_, fun k hk hm => ?_, fun j k hj hk hne hm hm' => ?_⟩
  · rw [hroot]
    decide
  · unfold View.len
    rw [hroot]
    decide
  · exact tarFs_blank h fun hlt => hk ((tarFs_live h).mpr hlt)
  · rw [tarFs_live_entry h ((tarFs_live h).mp hj), tarFs_live_entry h ((tarFs_live h).mp hk)] at he
    rcases hcases j hj with rfl | rfl <;> rcases hcases k hk with rfl | rfl
    · rfl
    · exact absurd he (by decide)
    · exact absurd he (by decide)
    · rfl
  · obtain ⟨h0, h1⟩ := tarFs_nr h
    rcases hcases j hj with rfl | rfl <;> rcases hcases k hk with rfl | rfl
    · rfl
    · rw [h0, h1] at he
      cases he
    · rw [h0, h1] at he
      cases he
    · rfl
  · obtain ⟨h0, h1⟩ := tarFs_nr h
    rcases hcases k hk with rfl | rfl
    · rw [h0, tarFs_imap (by decide)]
      decide
    · rw [h1, tarFs_imap (by decide)]
      decide
  · rw [tarFs_imap (by decide)]
    decide
  · rw [tarFs_imap (by decide)]
    decide
  · have hzero : ∀ q, ((tarFs t b).view.table q).cnt ≠ 0 → q = 0 := fun q hq =>
      not_not.mp fun hne => hq (hother q hne)
    rw [hzero q hq, hzero r hr]
  · unfold NR_DEFAULT_FILE_SECTS at hk
    omega
  · rw [hregular k hk hm, hfile]
    refine ⟨?_, ?_, ?_, ?_, fun i h1 h2 => hmarked _ ?_⟩
    · show 1309 + 2048 ≤ t
      omega
    · show t + 2048 ≤ 4300000
      omega
    · show 1536 ≤ 2048 * 512
      decide
    · show 2048 * 512 < 2 ^ 31
      decide
    · have h1' : t ≤ i := h1
      have h2' : i < t + 2048 := h2
      show i + 1 - 1309 < b
      omega
  · exact absurd ((hregular j hj hm).trans (hregular k hk hm').symm) hne


/-- the bytes of the archive -/
theorem tarFs_data (h : Fit t b) (n i : Nat) (hn : n < 3) (hi : i < 512) :
    (tarFs t b).view.byte ((tarFs t b).view.file 1) (n * 512 + i) =
      if n = 0 then headerOf oneByte i else if n * 512 + i = 512 then 0x41 else 0 := by
  have hfirst := h.first
  have hsect : (n * 512 + i) / 512 = n := by omega
  have hoff : (n * 512 + i) % 512 = i := by omega
  have hdata : (tarFs t b).view.data (t + n) = tarDisk t b (t + n) := if_pos (by
    show 1309 + 2048 ≤ t + n
    omega)
  rw [tarFs_file h]
  unfold View.byte
  rw [hsect, hoff, show (tarInode t).startSect = t from rfl, hdata]
  unfold tarDisk
  rw [if_neg (by omega), if_neg (by omega), if_neg (by omega), if_neg (by omega)]
  rcases (by omega : n = 0 ∨ n = 1 ∨ n = 2) with rfl | rfl | rfl
  · rw [if_pos (Nat.add_zero t), if_pos rfl]
  · rw [if_neg (by omega : ¬ t + 1 = t), if_pos rfl, if_neg Nat.one_ne_zero]
    by_cases h0 : i = 0
    · rw [if_pos h0, if_pos (by omega)]
    · rw [if_neg h0, if_neg (by omega)]
  · rw [if_neg (by omega), if_neg (by omega), if_neg (by decide), if_neg (by omega)]

theorem tarFs_archive (h : Fit t b) :
    Archive ((tarFs t b).view.byte ((tarFs t b).view.file 1)) 0 [oneByte] := by
  refine ⟨⟨fun i hi => ?_, fun i hi => ?_⟩, fun i hi => ?_, fun i hi => ?_⟩
  · have hbyte := tarFs_data h 0 i (by decide) (by omega)
    rw [if_pos rfl] at hbyte
    exact hbyte.trans ((headerOf_header oneByte).name i hi)
  · have hbyte := tarFs_data h 0 (124 + i) (by decide) (by omega)
    rw [if_pos rfl] at hbyte
    exact hbyte.trans ((headerOf_header oneByte).size i hi)
  · have hi0 : i = 0 := Nat.lt_one_iff.mp hi
    subst hi0
    exact tarFs_data h 1 0 (by decide) (by decide)
  · have hbyte := tarFs_data h 2 i (by decide) hi
    rw [if_neg (by decide), if_neg (by omega)] at hbyte
    exact hbyte

/-- there are only zeros behind the device -/
theorem tarDisk_far (h : Fit t b) (hi : 4300000 ≤ i) : (tarFs t b).disk i 0 = 0 := by
  have hset := h.set
  have hroom := h.room
  show tarDisk t b i 0 = 0
  unfold tarDisk
  rw [if_neg (by omega), if_neg (by omega), if_neg (by omega), if_neg (by omega), if_neg (by omega),
    if_neg (by omega)]

/-- there is no file of the name of the member -/
theorem tarFs_absent (h : Fit t b) (k : Nat) : ¬ (tarFs t b).view.Named oneByte.name k := by
  intro hk
  have hname := hk.name
  have hlt := (tarFs_live h).mp hk.live
  rw [tarFs_live_entry h hlt] at hname
  rcases (by omega : k = 0 ∨ k = 1) with rfl | rfl
  · exact absurd hname (by decide)
  · exact absurd hname (by decide)

/-- the sectors from bit `b` on are free -/
theorem tarFs_run (h : Fit t b) : FreeRun (tarFs t b).view.smap NR_DEFAULT_FILE_SECTS b := by
  have hroom := h.room
  refine ⟨fun i hi => ?_, fun i h1 h2 => ?_⟩
  · rw [tarFs_smap h.byte (by omega), decide_eq_true hi]
  · unfold NR_DEFAULT_FILE_SECTS at h2
    rw [tarFs_smap h.byte (by omega), decide_eq_false (by omega)]

/-- **The sample has an archive.** -/
theorem tarFs_packed (h : Fit t b) : Packed (tarFs t b) 8 cmdTar 1 [oneByte] [b + 1308] where
  ok := tarFs_ok h
  named := ⟨(tarFs_live h).mpr (by decide),
    (congrArg Prod.snd (tarFs_live_entry h (by decide : 1 < 2))).trans (by decide)⟩
  nonroot := by
    rw [(tarFs_nr h).2]
    decide
  regular := by
    rw [tarFs_file h]
    rfl
  archive := tarFs_archive h
  size := by
    rw [tarFs_file h]
    show endOf 0 [oneByte] + SECTOR_SIZE ≤ 1536
    decide
  names := List.nodup_singleton _
  other m hm := by
    rw [List.mem_singleton.mp hm]
    decide
  room := by
    have hroom := h.room
    refine .inr ⟨tarFs_absent h, ?_, b, tarFs_run h, rfl, ?_, trivial⟩
    · refine Finset.card_pos.mpr ⟨3, Finset.mem_filter.mpr ⟨Finset.mem_range.mpr (by decide), ?_⟩⟩
      rw [tarFs_imap (by decide)]
      decide
    · show b + 1308 + 2048 ≤ 4300000
      omega
  spare := ⟨⟨0, 1, by decide, rfl, rfl⟩, ⟨0, 1, by decide, rfl, rfl⟩, ⟨1, 2, by decide, rfl, rfl⟩⟩

end

/-- an archive at sector 4000 -/
theorem untar_extracts_sample : Extracts (tarFs 4000 8192) 8 cmdTar [oneByte] := by
  have hfit : Fit 4000 8192 := ⟨by decide, by decide, by decide, by decide⟩
  refine untar_extracts (tarFs_packed hfit) ⟨?_, ?_⟩
  · rw [tarFs_file hfit]
    decide
  · intro e he
    rw [List.mem_singleton.mp he]
    exact .inr (by decide)

/-- **An archive far behind on the disk**: the sector of the first READ wraps, and when the byte there
is 0 nothing is extracted. -/
theorem Packed.not_extracts {s : FsState} {p : Pid} {f : Name} {k : Nat} {ms : List Member}
    {ts : List Nat}
    (h : Packed s p f k ms ts) (hms : ms ≠ [])
    (hzero : s.disk (sectOf (s.view.file k).startSect) 0 = 0) :
    ¬ Extracts s p f ms := by
  intro hext
  obtain ⟨s', huntar, -⟩ := hext (fun _ => 0) (ms.length + 1) (Nat.lt_succ_self _)
  obtain ⟨fd, x, q, s₁, hopen, hopens, -, -, hsize, hstart, halong⟩ :=
    open_tar h.ok h.named h.nonroot h.regular h.spare.spare
  have hbig : 512 ≤ (s₁.inodeTable q).size := by
    rw [hsize]
    exact (Nat.le_add_left ..).trans h.size
  set file := (hopens.ok.has_placed hopens.has).toFile hopens.ok.sb with hfile
  have hopened : OpenFile s₁ p fd x q file 0 := halong.ok.openFile halong.src
  have hmore : file.more .READ 0 512 = 1 := by
    show min (0 + 512) (s₁.inodeTable q).size / 512 - 0 / 512 = 1
    rw [Nat.zero_add, Nat.min_eq_left hbig]
  obtain ⟨s₂, buf₂, hread, hbyte⟩ : ∃ s₂ buf₂, doRdwt s₁ p .READ fd SECTOR_SIZE (fun _ => 0) =
      some (.count SECTOR_SIZE, s₂, buf₂) ∧ buf₂ 0 = 0 := by
    have hlt : file.more .READ 0 512 < 256 := by
      rw [hmore]
      decide
    have hread := doRdwt_read (fun _ => 0) hopened (Nat.zero_le _) hlt
    rw [hmore] at hread
    refine ⟨_, _, hread, ?_⟩
    show physCopy (fun _ => 0) 0 (readAt s₁.disk (sectOf (file.startSect + 0))) 0 512 (0 + 0) = 0
    rw [physCopy_mem (by decide), hopens.disk (by decide)]
    show s.disk (sectOf (s₁.inodeTable q).startSect) 0 = 0
    rw [hstart]
    exact hzero
  unfold untar at huntar
  rw [hopen] at huntar
  simp only [Option.bind_some, untarLoop, hread, ne_eq, not_true, if_false, hbyte, if_true,
    emptyTar] at huntar
  obtain ⟨s₃, -, hcount⟩ := Option.map_eq_some_iff.mp huntar
  have hlen : 0 = ms.length := Option.some.inj (congrArg Prod.fst hcount)
  exact hms (List.length_eq_zero_iff.mp hlen.symm)

/-- an archive at sector 2^22 -/
theorem untar_fails : Packed (tarFs 4194304 4195048) 8 cmdTar 1 [oneByte] [4196356] ∧
    ¬ Extracts (tarFs 4194304 4195048) 8 cmdTar [oneByte] := by
  have hfit : Fit 4194304 4195048 := ⟨by decide, by decide, by decide, by decide⟩
  refine ⟨tarFs_packed hfit, (tarFs_packed hfit).not_extracts (List.cons_ne_nil _ _) ?_⟩
  rw [tarFs_file hfit]
  have hsect : sectOf (tarInode 4194304).startSect = 4290772992 := by decide
  rw [hsect]
  exact tarDisk_far hfit (by decide)

end Noxis.Tar
