import Noxis.Fs.Seen
import Noxis.Tar.Archive

/-!
# 25-osfs11/kernel/main.c: untar

`untar` as it computes, for a process `p` of a system with the file system `s`.  A result of `none` is
an assertion that fails, or a request that does not end.

* `copyOut`          the loop over the bytes of a member
* `untarLoop`        the loop over the headers
* `Copying.copyOut`  what the inner loop does
-/

namespace Noxis.Tar
open Fs
open Ipc (Pid)

/-- `while (bytes_left)`: it has no more turns than `left / chunk + 1` -/
def copyOut (p : Pid) (fd fdout : Fin nrFiles) :
    Nat → Nat → FsState → Buffer → Option (FsState × Buffer)
  | 0, left, s, buf => if left = 0 then some (s, buf) else none
  | n + 1, left, s, buf =>
    if left = 0 then some (s, buf)
    else
      let iobytes := min CHUNK left
      let rounded := ((iobytes - 1) / SECTOR_SIZE + 1) * SECTOR_SIZE
      (doRdwt s p .READ fd rounded buf).bind fun (_, s, buf) =>
        (doRdwt s p .WRITE fdout iobytes buf).bind fun (bytes, s, buf) =>
          if bytes = .count iobytes then copyOut p fd fdout n (left - iobytes) s buf else none

/-- `while (1)`, with `i` files extracted: how many there are in the end, or `none` when a file could
not be opened; a size below 0 is not followed any further -/
def untarLoop (p : Pid) (fd : Fin nrFiles) : Nat → Nat → FsState → Buffer →
    Option (Option Nat × FsState × Buffer)
  | 0, _, _, _ => none
  | n + 1, i, s, buf =>
    (doRdwt s p .READ fd SECTOR_SIZE buf).bind fun (bytes, s, buf) =>
      if bytes ≠ .count SECTOR_SIZE then none
      else if buf 0 = 0 then some (some i, s, buf)
      else
        let fLen := octal (cstr buf 124)
        (doOpen s p (cstr buf 0) EMPTY).bind fun
          | (none, s) => (doClose s p fd).map fun s => (none, s, buf)
          | (some fdout, s) =>
            if fLen < 0 then none
            else
              (copyOut p fd fdout (fLen.toNat / CHUNK + 1) fLen.toNat s buf).bind fun (s, buf) =>
                (doClose s p fdout).bind fun s => untarLoop p fd n (i + 1) s buf

/-- `if (i)`: the first byte of the archive becomes 0 -/
def emptyTar (p : Pid) (fd : Fin nrFiles) (i : Nat) (s : FsState) (buf : Buffer) : Option FsState :=
  if i = 0 then some s
  else
    (doLseek s p fd 0 SEEK_SET).bind fun (_, s) =>
      (doRdwt s p .WRITE fd 1 (Function.update buf 0 0)).bind fun (bytes, s, _) =>
        if bytes = .count 1 then some s else none

/-- `untar`, with at most `n` turns of its loop -/
def untar (p : Pid) (n : Nat) (filename : List Byte) (buf : Buffer) (s : FsState) :
    Option (Option Nat × FsState) :=
  (doOpen s p filename O_RDWR).bind fun
    | (none, _) => none
    | (some fd, s) =>
      (untarLoop p fd n 0 s buf).bind fun
        | (none, s, _) => some (none, s)
        | (some i, s, buf) =>
          (emptyTar p fd i s buf).bind fun s => (doClose s p fd).map fun s => (some i, s)

/-! ## the archive is open -/

/-- descriptor `fd` is at `pos` in the file of the name `f`, which has the bytes `c` -/
structure Along (s : FsState) (p : Pid) (fd : Fin nrFiles) (x : Fin nrFileDesc) (q : Fin nrInode)
    (k : Nat) (f : Name) (c : Nat → Byte) (pos : Nat) : Prop where
  ok : s.view.Ok
  src : s.At p fd x q k O_RDWR pos
  name : (s.view.entry k).2 = pad f.bytes
  bytes : ∀ i < (s.inodeTable q).size, s.view.byte (s.inodeTable q) i = c i

section
variable {s s' s'' : FsState} {p : Pid} {fd fdo : Fin nrFiles} {x xo : Fin nrFileDesc}
  {q qo : Fin nrInode} {k ko : Nat} {f : Name} {c : Nat → Byte}
  {pos pos' pos'' done done' done'' n left : Nat} {buf : Buffer}

theorem Along.named (h : Along s p fd x q k f c pos) : s.view.Named f k := ⟨h.src.has.live, h.name⟩

/-- a step that keeps the file, its slot and its descriptor -/
theorem Along.step (h : Along s p fd x q k f c pos) (hok : s'.view.Ok)
    (hsame : SameFile 0 f s.view s'.view) (hroot : s'.rootInode = s.rootInode)
    (htab : s'.inodeTable q = s.inodeTable q) (hfilp : s'.filp p fd = some x)
    (hdesc : s'.fDescTable x = ⟨O_RDWR, pos', 1, some q⟩) : Along s' p fd x q k f c pos' := by
  have hnamed := (hsame.named k).mpr h.named
  have hfile := h.ok.has_file h.src.has
  have hhas : s'.view.Has q k := by
    refine ⟨?_, ?_, hnamed.live, ?_, ?_⟩
    · show q ≠ s'.rootInode
      rw [hroot]
      exact h.src.has.other
    · show (s'.inodeTable q).cnt ≠ 0
      rw [htab]
      exact h.src.has.held
    · show (s'.inodeTable q).num = s'.view.nr k
      rw [htab, hsame.nr k h.named]
      exact h.src.has.num
    · show (s'.inodeTable q).mode = I_REGULAR
      rw [htab]
      exact h.src.has.mode
  refine ⟨hok, ⟨hfilp, hdesc, h.src.rdwr, hhas⟩, hnamed.name, fun i hi => ?_⟩
  have hsize : (s.inodeTable q).size ≤ (s.inodeTable q).nrSects * 512 :=
    (h.ok.has_placed h.src.has).size
  have hdata := hsame.data k h.named (h.ok.has_ne h.src.has) (h.ok.has_regular h.src.has) i
    (Nat.zero_le i)
  rw [hfile] at hdata
  rw [htab] at hi ⊢
  exact (hdata (hi.trans_le hsize)).trans (h.bytes i hi)

/-- only the position of descriptor `x` changes -/
structure Sought (s s' : FsState) (x : Fin nrFileDesc) : Prop where
  view : s'.view = s.view
  table : s'.inodeTable = s.inodeTable
  filp : s'.filp = s.filp
  desc : ∃ e, s'.fDescTable = Function.update s.fDescTable x e

/-- the archive at another position -/
theorem Along.seek (h : Along s p fd x q k f c pos) (pos' : Nat) :
    let s' := { s with fDescTable := Function.update s.fDescTable x ⟨O_RDWR, pos', 1, some q⟩ }
    Sought s s' x ∧ Along s' p fd x q k f c pos' :=
  ⟨⟨rfl, rfl, rfl, _, rfl⟩,
    h.step h.ok (.refl 0 f s.view) rfl rfl h.src.filp (Function.update_self ..)⟩

/-- a READ of the archive -/
theorem Along.read (h : Along s p fd x q k f c pos) (hend : pos + n ≤ (s.inodeTable q).size)
    (hn : n ≤ CHUNK) (hnear : (s.inodeTable q).startSect + pos / 512 < 2 ^ 22) (buf : Buffer) :
    ∃ s' buf', doRdwt s p .READ fd n buf = some (.count n, s', buf') ∧
      (∀ i < n, buf' i = c (pos + i)) ∧ Sought s s' x ∧ Along s' p fd x q k f c (pos + n) := by
  unfold CHUNK SECTOR_SIZE at hn
  obtain ⟨buf', hdo, hbytes⟩ := h.ok.doRead h.src hend (by omega) hnear buf
  refine ⟨_, buf', hdo, fun i hi => ?_, h.seek (pos + n)⟩
  rw [hbytes i hi]
  exact h.bytes _ (by omega)

/-! ## a member is copied -/

/-- `done` bytes of the member are in the file `ko`, descriptor `fdo` is behind them -/
structure Copying (s : FsState) (p : Pid) (fd fdo : Fin nrFiles) (x xo : Fin nrFileDesc)
    (q qo : Fin nrInode) (k ko : Nat) (f : Name) (c : Nat → Byte) (pos done : Nat) : Prop where
  src : Along s p fd x q k f c pos
  out : s.At p fdo xo qo ko EMPTY done
  size : (s.inodeTable qo).size = done
  ne : k ≠ ko

/-- what has changed while the bytes from `done` on below `done'` were copied -/
structure Copied (s s' : FsState) (x xo : Fin nrFileDesc) (qo : Fin nrInode) (ko : Nat)
    (c : Nat → Byte) (pos done done' : Nat) : Prop where
  only : View.Only qo ko s.view s'.view
  filp : s'.filp = s.filp
  desc : ∀ y, y ≠ x → y ≠ xo → s'.fDescTable y = s.fDescTable y
  inode : s'.inodeTable qo = { s.inodeTable qo with size := done' }
  bytes : ∀ i, s'.view.byte (s.inodeTable qo) i =
    if done ≤ i ∧ i < done' then c (pos + (i - done)) else s.view.byte (s.inodeTable qo) i

theorem Copied.refl (h : (s.inodeTable qo).size = done) : Copied s s x xo qo ko c pos done done :=
  ⟨.refl qo ko s.view, rfl, fun _ _ _ => rfl, by rw [← h], fun i => by rw [if_neg (by omega)]⟩

theorem Copied.trans (h : Copied s s' x xo qo ko c pos done done')
    (h' : Copied s' s'' x xo qo ko c pos' done' done'')
    (hpos : done' < done'' → pos' = pos + (done' - done))
    (hle : done ≤ done') (hle' : done' ≤ done'') : Copied s s'' x xo qo ko c pos done done'' where
  only := h.only.trans h'.only
  filp := h'.filp.trans h.filp
  desc y h1 h2 := (h'.desc y h1 h2).trans (h.desc y h1 h2)
  inode := by rw [h'.inode, h.inode]
  bytes i := by
    have hsame : s''.view.byte (s'.inodeTable qo) i = s''.view.byte (s.inodeTable qo) i := by
      rw [h.inode]
      rfl
    have hsame' : s'.view.byte (s'.inodeTable qo) i = s'.view.byte (s.inodeTable qo) i := by
      rw [h.inode]
      rfl
    rw [← hsame, h'.bytes i, hsame', h.bytes i]
    by_cases h1 : done' ≤ i ∧ i < done''
    · rw [if_pos h1, if_pos (by omega), hpos (by omega)]
      congr 1
      omega
    · rw [if_neg h1]
      by_cases h2 : done ≤ i ∧ i < done'
      · rw [if_pos h2, if_pos (by omega)]
      · rw [if_neg h2, if_neg (by omega)]

theorem Copying.slots (h : Copying s p fd fdo x xo q qo k ko f c pos done) : q ≠ qo ∧ x ≠ xo := by
  have hq : q ≠ qo := h.src.ok.has_slots h.out.has h.src.src.has h.ne
  refine ⟨hq, ?_⟩
  rintro rfl
  have hdesc := h.src.src.desc.symm.trans h.out.desc
  injection hdesc with _ _ _ hin
  exact hq (Option.some.inj hin)

theorem Copying.other_name (h : Copying s p fd fdo x xo q qo k ko f c pos done) :
    (s.view.entry ko).2 ≠ pad f.bytes := fun he =>
  h.ne (h.src.ok.named_unique h.src.named ⟨h.out.has.live, he⟩)

/-- **One turn**: whole blocks are read, and the bytes of the member are written. -/
theorem Copying.turn (h : Copying s p fd fdo x xo q qo k ko f c pos done) (hn : 0 < n) (hc : n ≤ CHUNK)
    (hsrc : pos + blocks n ≤ (s.inodeTable q).size)
    (hroom : done + n ≤ (s.inodeTable qo).nrSects * 512)
    (hnear : (s.inodeTable q).startSect + pos / 512 < 2 ^ 22)
    (hnear' : (s.inodeTable qo).startSect + done / 512 < 2 ^ 22) (buf : Buffer) :
    ∃ s₁ s₂ buf', doRdwt s p .READ fd (((n - 1) / SECTOR_SIZE + 1) * SECTOR_SIZE) buf =
        some (.count (blocks n), s₁, buf') ∧
      doRdwt s₁ p .WRITE fdo n buf' = some (.count n, s₂, buf') ∧
      Copying s₂ p fd fdo x xo q qo k ko f c (pos + blocks n) (done + n) ∧
      Copied s s₂ x xo qo ko c pos done (done + n) := by
  obtain ⟨hq, hx⟩ := h.slots
  have hblocks : ((n - 1) / SECTOR_SIZE + 1) * SECTOR_SIZE = blocks n := by
    unfold SECTOR_SIZE blocks
    omega
  have hle : n ≤ blocks n ∧ blocks n ≤ CHUNK := by
    unfold CHUNK SECTOR_SIZE at hc ⊢
    unfold blocks
    omega
  obtain ⟨s₁, buf', hread, hbytes, hs1, hsrc1⟩ := h.src.read hsrc hle.2 hnear buf
  have hview := hs1.view
  have htab := hs1.table
  obtain ⟨e, hdesc1⟩ := hs1.desc
  have hout : s₁.At p fdo xo qo ko EMPTY done := by
    refine ⟨?_, ?_, by decide, hview ▸ h.out.has⟩
    · rw [hs1.filp]
      exact h.out.filp
    · rw [hdesc1, Function.update_of_ne hx.symm]
      exact h.out.desc
  have hroom1 : done + n ≤ (s₁.inodeTable qo).nrSects * 512 := by
    rw [htab]
    exact hroom
  obtain ⟨s₂, hwrite, hok2, honly, hfilp, hdesc, hinode, hbyte⟩ := hsrc1.ok.doWrite hout hroom1
    (by unfold CHUNK SECTOR_SIZE at hc; omega)
    (by rw [htab]; exact hnear') buf'
  rw [htab] at hinode hbyte
  rw [hview] at honly hbyte
  rw [h.size, max_eq_right (by omega)] at hinode
  have hsame := honly.sameFile h.src.ok h.out.has.other h.out.has.live (h.src.ok.has_regular h.out.has)
    h.other_name
  have hhas2 : s₂.view.Has qo ko := by
    refine honly.has_self h.out.has ?_ ?_
    · show Resized (s.inodeTable qo) (s₂.inodeTable qo)
      rw [hinode]
      exact ⟨rfl, rfl, rfl, rfl⟩
    · show (s₂.inodeTable qo).cnt ≠ 0
      rw [hinode]
      exact h.out.has.held
  have hroot1 : s₁.rootInode = s.rootInode := congrArg View.root hview
  have hroot2 : s₂.rootInode = s₁.rootInode := honly.root.trans hroot1.symm
  have htab2 : s₂.inodeTable q = s₁.inodeTable q := by
    rw [htab]
    exact honly.table q hq
  refine ⟨s₁, s₂, buf', ?_, hwrite, ⟨?_, ?_, ?_, h.ne⟩, honly, ?_, fun y h1 h2 => ?_, hinode,
    fun i => ?_⟩
  · rw [hblocks]
    exact hread
  · refine hsrc1.step hok2 (hview ▸ hsame) hroot2 htab2 ?_ ?_
    · rw [hfilp]
      exact hsrc1.src.filp
    · rw [hdesc, Function.update_of_ne hx]
      exact hsrc1.src.desc
  · refine ⟨?_, ?_, by decide, hhas2⟩
    · rw [hfilp]
      exact hout.filp
    · rw [hdesc, Function.update_self]
  · rw [hinode]
  · rw [hfilp, hs1.filp]
  · rw [hdesc, Function.update_of_ne h2, hdesc1, Function.update_of_ne h1]
  · rw [hbyte i]
    by_cases hin : done ≤ i ∧ i < done + n
    · rw [if_pos hin, if_pos hin, hbytes _ (by omega)]
    · rw [if_neg hin, if_neg hin]

theorem blocks_add (h : CHUNK ≤ left) : blocks CHUNK + blocks (left - CHUNK) = blocks left := by
  unfold blocks CHUNK SECTOR_SIZE at *
  omega

/-- **The loop copies the member**, whatever its size is. -/
theorem Copying.copyOut (h : Copying s p fd fdo x xo q qo k ko f c pos done) (hl : left ≤ n * CHUNK)
    (hsrc : pos + blocks left ≤ (s.inodeTable q).size)
    (hroom : done + left ≤ (s.inodeTable qo).nrSects * 512)
    (hnear : (s.inodeTable q).startSect + (pos + blocks left) / 512 < 2 ^ 22)
    (hnear' : left = 0 ∨
      (s.inodeTable qo).startSect + (done + (left - 1) / CHUNK * CHUNK) / 512 < 2 ^ 22)
    (buf : Buffer) :
    ∃ s' buf', copyOut p fd fdo n left s buf = some (s', buf') ∧
      Copying s' p fd fdo x xo q qo k ko f c (pos + blocks left) (done + left) ∧
      Copied s s' x xo qo ko c pos done (done + left) := by
  induction n generalizing s pos done left buf with
  | zero =>
    have hzero : left = 0 := by omega
    subst hzero
    exact ⟨s, buf, if_pos rfl, h, .refl h.size⟩
  | succ n ih =>
    by_cases hzero : left = 0
    · subst hzero
      exact ⟨s, buf, if_pos rfl, h, .refl h.size⟩
    have hstart := hnear'.resolve_left hzero
    have hchunk : CHUNK = 8192 := rfl
    have hmin : min CHUNK left = CHUNK ∧ CHUNK ≤ left ∨ min CHUNK left = left ∧ left ≤ CHUNK := by
      omega
    -- the blocks of this turn and of the others
    have hblocks : blocks (min CHUNK left) + blocks (left - min CHUNK left) = blocks left := by
      rcases hmin with ⟨he, hle⟩ | ⟨he, -⟩
      · rw [he]
        exact blocks_add hle
      · rw [he, Nat.sub_self]
        exact Nat.add_zero _
    have hfuel : left - min CHUNK left ≤ n * CHUNK := by
      rw [hchunk] at hl ⊢
      omega
    have hlast : left - min CHUNK left = 0 ∨ (s.inodeTable qo).startSect +
        (done + min CHUNK left + (left - min CHUNK left - 1) / CHUNK * CHUNK) / 512 < 2 ^ 22 := by
      rw [hchunk] at hstart ⊢
      omega
    obtain ⟨s₁, s₂, buf', hread, hwrite, hcopy, hcopied⟩ := h.turn (n := min CHUNK left) (by omega)
      (Nat.min_le_left ..) (by omega) (by omega) (by omega) (by omega) buf
    have hq : s₂.inodeTable q = s.inodeTable q := hcopied.only.table q h.slots.1
    have hqo := hcopied.inode
    obtain ⟨s', buf'', hdo, hcopy', hcopied'⟩ := ih hcopy
      hfuel (by rw [hq]; omega) (by rw [hqo]; show _ ≤ (s.inodeTable qo).nrSects * 512; omega)
      (by rw [hq]; omega) (by rw [hqo]; exact hlast) buf'
    have hpos : pos + blocks (min CHUNK left) + blocks (left - min CHUNK left) =
        pos + blocks left := by
      omega
    have hdone : done + min CHUNK left + (left - min CHUNK left) = done + left := by omega
    rw [hpos, hdone] at hcopy'
    rw [hdone] at hcopied'
    refine ⟨s', buf'', ?_, hcopy', hcopied.trans hcopied' (fun hlt => ?_) (by omega) (by omega)⟩
    · unfold Tar.copyOut
      rw [if_neg hzero]
      simp only [hread, Option.bind_some, hwrite, if_true, hdo]
    · -- there is another turn only when this one took a whole chunk
      have he : min CHUNK left = CHUNK := by omega
      rw [he, Nat.add_sub_cancel_left]
      rfl

/-- CLOSE of the file of the member: its entries are free then -/
theorem Copying.close (h : Copying s p fd fdo x xo q qo k ko f c pos done) :
    ∃ s', doClose s p fdo = some s' ∧ Along s' p fd x q k f c pos ∧
      View.Only qo ko s.view s'.view ∧ (∀ g, SameFile 0 g s.view s'.view) ∧
      s'.filp p fdo = none ∧ (s'.fDescTable xo).inode = none ∧ s'.inodeTable =
        Function.update s.inodeTable qo { s.inodeTable qo with cnt := (s.inodeTable qo).cnt - 1 } := by
  obtain ⟨s', hclose, hok, honly, hfilp, hdesc, htab, hdisk⟩ := h.src.ok.doClose h.out
  obtain ⟨hq, hx⟩ := h.slots
  have hfd : fd ≠ fdo := by
    rintro rfl
    exact hx (Option.some.inj (h.src.src.filp.symm.trans h.out.filp))
  have hsame := honly.same_disk h.out.has.other hdisk
  refine ⟨s', hclose, h.src.step hok (hsame f) honly.root ?_ ?_ ?_, honly, hsame, ?_, ?_, htab⟩
  · rw [htab, Function.update_of_ne hq]
  · rw [hfilp, Function.update_self, Function.update_of_ne hfd]
    exact h.src.src.filp
  · rw [hdesc, Function.update_of_ne hx]
    exact h.src.src.desc
  · rw [hfilp, Function.update_self, Function.update_self]
  · rw [hdesc, Function.update_self]

end

end Noxis.Tar
