import Noxis.Fs.Open
import Noxis.Fs.ReadWrite

/-!
# 25-osfs11/fs: the descriptor in a CLOSE, LSEEK, READ or WRITE

The `fd` of a message is any `int`, and the handlers index `filp` with it.  Here each of them is
written with the accesses that it makes first; what follows is the handler of `Fs.Open` or
`Fs.ReadWrite`, for an index that is inside and pointers that are not null.

* `Crash`          how FS goes down;
* `FdRequest.run`  the four requests;
* `guarded_iff`    **a request is handled as it should exactly when its descriptor is open**: no
                   handler rejects another one.
-/

namespace Noxis.Fs

open Ipc (Pid)

inductive Crash where
  /-- an entry outside `filp` is used -/
  | outside
  /-- a null `struct file_desc` is dereferenced -/
  | nullDesc
  /-- a null `struct inode` is dereferenced -/
  | nullInode
  /-- an assertion fails, or the disk driver does not come back -/
  | stops
  deriving DecidableEq, Repr

/-- what goes back to the caller: a value, or what the driver of a terminal answers -/
inductive Reply where
  | ret (v : Int)
  | driver (io : Io) (minor : Nat)
  deriving DecidableEq, Repr

/-! ## the code -/

/-- `fd` as an index of `filp` -/
def filpIndex (fd : Int) : Except Crash (Fin nrFiles) :=
  if h : 0 ≤ fd ∧ fd < nrFiles then .ok ⟨fd.toNat, by omega⟩ else .error .outside

/-- `pcaller->filp[fd]->…` -/
def filpDeref (s : FsState) (pcaller : Pid) (i : Fin nrFiles) : Except Crash (Fin nrFileDesc) :=
  match s.filp pcaller i with
  | none => .error .nullDesc
  | some x => .ok x

/-- `f_desc->fd_inode->…` -/
def inodeDeref (s : FsState) (x : Fin nrFileDesc) : Except Crash (Fin nrInode) :=
  match (s.fDescTable x).inode with
  | none => .error .nullInode
  | some q => .ok q

/-- `do_close`: `put_inode` has the inode of `filp[fd]` -/
def closeFd (s : FsState) (pcaller : Pid) (fd : Int) : Except Crash (Reply × FsState) := do
  let i ← filpIndex fd
  let x ← filpDeref s pcaller i
  let _ ← inodeDeref s x
  match doClose s pcaller i with
  | none => .error .stops
  | some s => .ok (.ret 0, s)

/-- `do_lseek`: the position is that of `filp[fd]`, the size that of its inode -/
def lseekFd (s : FsState) (pcaller : Pid) (fd off : Int) (whence : Nat) :
    Except Crash (Reply × FsState) := do
  let i ← filpIndex fd
  let x ← filpDeref s pcaller i
  let _ ← inodeDeref s x
  match doLseek s pcaller i off whence with
  | none => .error .stops
  | some (none, s) => .ok (.ret (-1), s)
  | some (some pos, s) => .ok (.ret pos, s)

/-- `do_rdwt`: assertions come before both dereferences -/
def rdwtFd (s : FsState) (pcaller : Pid) (io : Io) (fd : Int) (len : Nat) (buf : Buffer) :
    Except Crash (Reply × FsState) := do
  let i ← filpIndex fd
  match doRdwt s pcaller io i len buf with
  | none => .error .stops
  | some (.count n, s, _) => .ok (.ret n, s)
  | some (.driver io minor, s, _) => .ok (.driver io minor, s)

inductive FdRequest where
  | CLOSE
  | LSEEK (off : Int) (whence : Nat)
  | READ (len : Nat) (buf : Buffer)
  | WRITE (len : Nat) (buf : Buffer)

def FdRequest.run (r : FdRequest) (s : FsState) (p : Pid) (fd : Int) :
    Except Crash (Reply × FsState) :=
  match r with
  | .CLOSE => closeFd s p fd
  | .LSEEK off whence => lseekFd s p fd off whence
  | .READ len buf => rdwtFd s p .READ fd len buf
  | .WRITE len buf => rdwtFd s p .WRITE fd len buf

/-! ## what a handler owes -/

/-- `fd` is the index of an open descriptor -/
def IsOpen (s : FsState) (p : Pid) (fd : Int) : Prop :=
  ∃ (i : Fin nrFiles) (x : Fin nrFileDesc) (q : Fin nrInode),
    fd = (i.1 : Int) ∧ s.filp p i = some x ∧ (s.fDescTable x).inode = some q

/-- a bad descriptor is answered with an error and nothing changes; no access goes wrong -/
structure Guarded (r : FdRequest) (s : FsState) (p : Pid) (fd : Int) : Prop where
  rejects : ¬ IsOpen s p fd → ∃ e : Int, e < 0 ∧ r.run s p fd = .ok (.ret e, s)
  outside : r.run s p fd ≠ .error .outside
  nullDesc : r.run s p fd ≠ .error .nullDesc
  nullInode : r.run s p fd ≠ .error .nullInode

section
variable {s : FsState} {p : Pid} {i : Fin nrFiles} {x : Fin nrFileDesc} {q : Fin nrInode} {fd : Int}

/-! ## the index -/

theorem filpIndex_fin (i : Fin nrFiles) : filpIndex (i.1 : Int) = .ok i :=
  dif_pos ⟨Int.natCast_nonneg _, by exact_mod_cast i.2⟩

theorem filpIndex_outside (h : ¬ ∃ i : Fin nrFiles, fd = (i.1 : Int)) :
    filpIndex fd = .error .outside := by
  refine dif_neg fun hc => h ⟨⟨fd.toNat, by omega⟩, ?_⟩
  exact (Int.toNat_of_nonneg hc.1).symm

/-- every request starts with its index -/
theorem FdRequest.run_outside (r : FdRequest) (h : ¬ ∃ i : Fin nrFiles, fd = (i.1 : Int)) :
    r.run s p fd = .error .outside := by
  have hi := filpIndex_outside h
  cases r with
  | CLOSE =>
    show closeFd s p fd = _
    rw [closeFd, hi]
    rfl
  | LSEEK off whence =>
    show lseekFd s p fd off whence = _
    rw [lseekFd, hi]
    rfl
  | READ len buf =>
    show rdwtFd s p .READ fd len buf = _
    rw [rdwtFd, hi]
    rfl
  | WRITE len buf =>
    show rdwtFd s p .WRITE fd len buf = _
    rw [rdwtFd, hi]
    rfl

/-! ## an open descriptor -/

theorem filpDeref_some (h : s.filp p i = some x) : filpDeref s p i = .ok x := by
  unfold filpDeref
  rw [h]

theorem inodeDeref_some (h : (s.fDescTable x).inode = some q) : inodeDeref s x = .ok q := by
  unfold inodeDeref
  rw [h]

/-- the handler of `Fs.Open` -/
theorem closeFd_open (h : s.filp p i = some x) (hq : (s.fDescTable x).inode = some q) :
    closeFd s p (i.1 : Int) = match doClose s p i with
      | none => .error .stops
      | some s' => .ok (.ret 0, s') := by
  rw [closeFd, filpIndex_fin]
  show (filpDeref s p i >>= _) = _
  rw [filpDeref_some h]
  show (inodeDeref s x >>= _) = _
  rw [inodeDeref_some hq]
  rfl

theorem lseekFd_open (h : s.filp p i = some x) (hq : (s.fDescTable x).inode = some q) (off : Int)
    (whence : Nat) : lseekFd s p (i.1 : Int) off whence = match doLseek s p i off whence with
      | none => .error .stops
      | some (none, s') => .ok (.ret (-1), s')
      | some (some pos, s') => .ok (.ret pos, s') := by
  rw [lseekFd, filpIndex_fin]
  show (filpDeref s p i >>= _) = _
  rw [filpDeref_some h]
  show (inodeDeref s x >>= _) = _
  rw [inodeDeref_some hq]
  rfl

theorem rdwtFd_fin (s : FsState) (p : Pid) (io : Io) (i : Fin nrFiles) (len : Nat) (buf : Buffer) :
    rdwtFd s p io (i.1 : Int) len buf = match doRdwt s p io i len buf with
      | none => .error .stops
      | some (.count n, s', _) => .ok (.ret n, s')
      | some (.driver io minor, s', _) => .ok (.driver io minor, s') := by
  rw [rdwtFd, filpIndex_fin]
  rfl

/-- a handler that is past its dereferences does not crash at one -/
theorem rdwtFd_sound (s : FsState) (p : Pid) (io : Io) (i : Fin nrFiles) (len : Nat) (buf : Buffer)
    {c : Crash} (hc : c ≠ .stops) : rdwtFd s p io (i.1 : Int) len buf ≠ .error c := by
  rw [rdwtFd_fin]
  split
  · exact fun he => hc (Except.error.inj he).symm
  · exact nofun
  · exact nofun

theorem FdRequest.run_open (r : FdRequest) (h : IsOpen s p fd) {c : Crash} (hc : c ≠ .stops) :
    r.run s p fd ≠ .error c := by
  obtain ⟨i, x, q, rfl, hx, hq⟩ := h
  cases r with
  | CLOSE =>
    show closeFd s p i.1 ≠ _
    rw [closeFd_open hx hq]
    split
    · exact fun he => hc (Except.error.inj he).symm
    · exact nofun
  | LSEEK off whence =>
    show lseekFd s p i.1 off whence ≠ _
    rw [lseekFd_open hx hq]
    split
    · exact fun he => hc (Except.error.inj he).symm
    · exact nofun
    · exact nofun
  | READ len buf => exact rdwtFd_sound s p .READ i len buf hc
  | WRITE len buf => exact rdwtFd_sound s p .WRITE i len buf hc

/-! ## a bad one -/

/-- an entry that is null, or whose descriptor has no inode -/
theorem not_isOpen_cases (h : ¬ IsOpen s p (i.1 : Int)) :
    s.filp p i = none ∨ ∃ x, s.filp p i = some x ∧ (s.fDescTable x).inode = none := by
  cases hx : s.filp p i with
  | none => exact .inl rfl
  | some x =>
    refine .inr ⟨x, rfl, ?_⟩
    cases hq : (s.fDescTable x).inode with
    | none => rfl
    | some q => exact absurd ⟨i, x, q, rfl, hx, hq⟩ h

/-- a handler that goes from the entry to the inode stops on a bad one -/
theorem deref_bad {α : Type} {e : α} (h : ¬ IsOpen s p (i.1 : Int))
    (k : Fin nrFileDesc → Except Crash α)
    (hk : ∀ x c, inodeDeref s x = .error c → k x = .error c) :
    (filpDeref s p i >>= k) ≠ .ok e := by
  rcases not_isOpen_cases h with hx | ⟨x, hx, hq⟩
  · rw [filpDeref, hx]
    exact nofun
  · rw [filpDeref_some hx]
    show k x ≠ _
    rw [hk x .nullInode (by rw [inodeDeref, hq])]
    exact nofun

/-- READ and WRITE of a bad descriptor stop, or answer 0 -/
theorem rdwtFd_bad (io : Io) (len : Nat) (buf : Buffer) (h : ¬ IsOpen s p (i.1 : Int)) (e : Int)
    (he : e < 0) : rdwtFd s p io (i.1 : Int) len buf ≠ .ok (.ret e, s) := by
  rw [rdwtFd_fin]
  unfold doRdwt
  rcases not_isOpen_cases h with hx | ⟨x, hx, hq⟩
  · rw [hx]
    exact nofun
  · rw [hx]
    simp only [hq]
    by_cases hm : (s.fDescTable x).mode &&& O_RDWR = 0
    · rw [if_pos hm]
      intro hc
      have h0 := Except.ok.inj hc
      simp only [Prod.mk.injEq, Reply.ret.injEq] at h0
      omega
    · rw [if_neg hm]
      exact nofun

/-- **no handler answers a bad descriptor with an error** -/
theorem FdRequest.run_bad (r : FdRequest) (h : ¬ IsOpen s p fd) (e : Int) (he : e < 0) :
    r.run s p fd ≠ .ok (.ret e, s) := by
  by_cases hi : ∃ i : Fin nrFiles, fd = (i.1 : Int)
  · obtain ⟨i, rfl⟩ := hi
    cases r with
    | CLOSE =>
      show closeFd s p i.1 ≠ _
      rw [closeFd, filpIndex_fin]
      refine deref_bad h _ fun x c hq => ?_
      show (inodeDeref s x >>= _) = _
      rw [hq]
      rfl
    | LSEEK off whence =>
      show lseekFd s p i.1 off whence ≠ _
      rw [lseekFd, filpIndex_fin]
      refine deref_bad h _ fun x c hq => ?_
      show (inodeDeref s x >>= _) = _
      rw [hq]
      rfl
    | READ len buf => exact rdwtFd_bad .READ len buf h e he
    | WRITE len buf => exact rdwtFd_bad .WRITE len buf h e he
  · rw [r.run_outside hi]
    exact nofun

/-- **a request is guarded exactly when its descriptor is open** -/
theorem guarded_iff (r : FdRequest) (s : FsState) (p : Pid) (fd : Int) :
    Guarded r s p fd ↔ IsOpen s p fd := by
  constructor
  · intro h
    by_contra hbad
    obtain ⟨e, he, hrun⟩ := h.rejects hbad
    exact r.run_bad hbad e he hrun
  · intro h
    exact ⟨fun hbad => absurd h hbad, r.run_open h nofun, r.run_open h nofun, r.run_open h nofun⟩

end

/-- nothing is open -/
def noFiles : FsState where
  disk := fun _ _ => 0
  sb := ⟨0, 0, 0, 0, 0, 0⟩
  inodeTable := fun _ => .zero
  fDescTable := fun _ => ⟨0, 0, 0, none⟩
  filp := fun _ _ => none
  rootInode := 0

/-- closing the -1 that a failed `open` has returned **uses an entry in front of the table** -/
theorem guarded_fails : ¬ ∀ (r : FdRequest) (s : FsState) (p : Pid) (fd : Int), Guarded r s p fd := by
  intro h
  exact (h .CLOSE noFiles ⟨8, by decide⟩ (-1)).outside rfl

end Noxis.Fs
