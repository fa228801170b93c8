import Noxis.Tar.Install
import Noxis.Wm.Command

/-!
# The `write` command of the terminal, on the file system

`term_write` of kernel/desktop.c stores a text with an OPEN, a WRITE and a CLOSE.

* `storeText`              the three requests;
* `Files.termWriteOn`      the command, with what it prints;
* `Writes`                 what the command is for: the file has the text then, and nothing else;
* `storeText_named`        the OPEN of a file that is there is refused;
* `storeText_new`          a new file gets the text;
* `writes_iff`             **the command works exactly for a file that is not there yet**;
* `writes_fails`           `write cmd.tar hi` on a volume with that file.

The OPEN has the flags `O_CREAT | O_RDWR`, without the O_TRUNC with which untar opens the files that it
writes.
-/

namespace Noxis.Wm
open Ipc (Pid)
open Noxis.Fs (FsState Name View HasFile FreeRun doOpen doRdwt doClose pad connect truncate O_CREAT O_RDWR
  NR_DEFAULT_FILE_SECTS SECTOR_SIZE INVALID_INODE)
open Tar (Spare)

/-! ## the command -/

/-- the requests of `term_write`: what `write` returns, or `none` for an `open` that fails -/
def storeText (s : FsState) (p : Pid) (file t : List UInt8) : Option (Option Int × FsState) :=
  (doOpen s p (termPath file) (O_CREAT ||| O_RDWR)).bind fun
    | (none, s) => some (none, s)
    | (some fd, s) =>
      (doRdwt s p .WRITE fd t.length fun i => (bytes t).getD i 0).bind fun
        | (.count n, s, _) => (doClose s p fd).map fun s => (some n, s)
        -- a file is no device
        | (.driver .., _, _) => none

/-- `term_write`, with the file system behind it -/
def Files.termWriteOn (f : Files) (env : Env) (s : FsState) (p : Pid) (file t : List UInt8) :
    Option (FsState × Files) :=
  if file = [] then some (s, f.termWrite env file t)
  else
    (storeText s p file t).map fun (r, s) =>
      (s, f.termWrite { env with opens := fun _ => r.isSome, wrote := fun _ _ => r.getD (-1) } file t)

/-- a name as the terminal has it -/
def nameText (f : Name) : List UInt8 := f.bytes.map UInt8.ofBitVec

/-- **what `write f t` is for**: nothing is refused, and the file has exactly the text then -/
def Writes (s : FsState) (p : Pid) (f : Name) (t : List UInt8) : Prop :=
  ∃ s', storeText s p (nameText f) t = some (some (t.length : Int), s') ∧ HasFile s' f (bytes t)

/-- there is room for one more file, at bit `n` of the sector map, in the first 2^22 sectors -/
structure Room (s : FsState) (n : Nat) : Prop where
  number : ∃ v < 4096, s.view.imap v = false
  run : FreeRun s.view.smap NR_DEFAULT_FILE_SECTS n
  device : n + s.sb.n1stSect - 1 + NR_DEFAULT_FILE_SECTS ≤ s.sb.nrSects
  near : n + s.sb.n1stSect - 1 < 2 ^ 22

section
variable {s s' : FsState} {p : Pid} {f : Name} {t : List UInt8} {k n : Nat}

theorem bytes_nameText (f : Name) : bytes (nameText f) = f.bytes := by
  unfold bytes nameText
  rw [List.map_map]
  exact List.map_id _

/-- the path has the whole name -/
theorem termPath_nameText (f : Name) : termPath (nameText f) = f.path true := by
  have hlen := f.len
  unfold termPath pathOf
  rw [bytes_nameText, List.take_of_length_le (hlen.trans (by decide))]
  rfl

/-! ## a file that is there -/

/-- **OPEN refuses a file that is there.** -/
theorem storeText_named (hs : s.view.Ok) (hsp : Spare s p) (hk : s.view.Named f k) (t : List UInt8) :
    storeText s p (nameText f) t = some (none, s) := by
  obtain ⟨fd, hfd⟩ := hsp.freeFilp
  obtain ⟨x, hx⟩ := hsp.freeFDesc
  have hsearch := hs.search_live hk.live hk.name true
  have hne : ¬ s.view.nr k = INVALID_INODE := hk.live.2
  have hopen : doOpen s p (f.path true) (O_CREAT ||| O_RDWR) = some (none, s) := by
    unfold doOpen
    rw [if_neg (Nat.not_le.mpr (f.path_length true))]
    simp only [f.cString_path, hfd, hx, hsearch]
    rw [if_neg hne, if_pos (by decide), if_pos (by decide), if_pos (by decide)]
  unfold storeText
  rw [termPath_nameText, hopen]
  rfl

/-! ## a new file -/

/-- **A new file gets the text.** -/
theorem storeText_new (hs : s.view.Ok) (hsp : Spare s p) (hl : f.bytes.length ≤ 11)
    (hnone : ∀ k, ¬ s.view.Named f k) (hroom : Room s n) (ht : t.length < 256 * SECTOR_SIZE) :
    Writes s p f t := by
  obtain ⟨fd, hfd⟩ := hsp.freeFilp
  obtain ⟨x, hx⟩ := hsp.freeFDesc
  obtain ⟨v, q, k, s₁, hopen, hfin, hf, hk, -, -, hview, -, -⟩ := hs.doOpen_created hl hnone
    hroom.number hroom.run hroom.device hsp.slot hfd hx
    (show (O_CREAT ||| O_RDWR) &&& O_CREAT ≠ 0 by decide) true
  set s₂ := connect (truncate s₁ (O_CREAT ||| O_RDWR) q) p fd x (O_CREAT ||| O_RDWR) q with hs2
  -- the new file has no bytes
  have hfresh : s₂.inodeTable q = .fresh v (n + s.sb.n1stSect - 1) := by
    have htab : s₁.inodeTable q = .fresh v (n + s.sb.n1stSect - 1) := by
      rw [show s₁.inodeTable = _ from congrArg View.table hview]
      exact hs.created_table hf (pad f.bytes)
    have hsame : truncate s₁ (O_CREAT ||| O_RDWR) q = s₁ := if_pos (by decide)
    rw [← htab, ← hsame]
    rfl
  have hname : (s₂.view.entry k).2 = pad f.bytes := by
    have hself : (s.view.created v n q k (pad f.bytes)).entry k = (v, pad f.bytes) :=
      Function.update_self ..
    rw [hfin.only.entry, hview, hself]
  have hat : s₂.At p fd x q k (O_CREAT ||| O_RDWR) 0 := by
    refine ⟨?_, ?_, by decide, hfin.has⟩
    · rw [hfin.filp, Function.update_self, Function.update_self]
    · rw [hfin.desc, Function.update_self]
  -- the bytes are written
  have hsects : (s₂.inodeTable q).nrSects = 2048 := by
    rw [hfresh]
    rfl
  have hstart : (s₂.inodeTable q).startSect = n + s.sb.n1stSect - 1 := by
    rw [hfresh]
    rfl
  have hnear := hroom.near
  have hend : 0 + t.length ≤ (s₂.inodeTable q).nrSects * 512 := by
    rw [hsects]
    unfold SECTOR_SIZE at ht
    omega
  obtain ⟨s₃, hwrite, hok3, honly3, hfilp3, hdesc3, hinode3, hbyte3⟩ := hfin.ok.doWrite hat hend
    (by unfold SECTOR_SIZE at ht; omega) (by rw [hstart]; omega) fun i => (bytes t).getD i 0
  have hhas3 : s₃.view.Has q k := honly3.has_self hat.has
    (show Fs.Resized (s₂.inodeTable q) (s₃.inodeTable q) by rw [hinode3]; exact ⟨rfl, rfl, rfl, rfl⟩)
    (show (s₃.inodeTable q).cnt ≠ 0 by rw [hinode3]; exact hat.has.held)
  have hat3 : s₃.At p fd x q k (O_CREAT ||| O_RDWR) (0 + t.length) := by
    refine ⟨?_, ?_, by decide, hhas3⟩
    · rw [hfilp3]
      exact hat.filp
    · rw [hdesc3, Function.update_self]
  have hstores3 : s₃.view.Stores f (bytes t) k := by
    have hfile3 := hok3.has_file hhas3
    have hsize : (s₃.inodeTable q).size = (bytes t).length := by
      rw [hinode3, hfresh]
      show max 0 (0 + t.length) = _
      rw [Nat.zero_max, Nat.zero_add]
      exact (List.length_map ..).symm
    refine ⟨⟨hhas3.live, ?_⟩, hok3.has_ne hhas3, hok3.has_regular hhas3, ?_, fun i hi => ?_⟩
    · rw [honly3.entry]
      exact hname
    · rw [hfile3]
      exact hsize
    · have hlen : (bytes t).length = t.length := List.length_map ..
      rw [hfile3, show s₃.view.table q = _ from hinode3]
      exact (hbyte3 i).trans (if_pos (by omega))
  -- the file is closed
  obtain ⟨s₄, hclose, hok4, honly4, -, -, -, hdisk4⟩ := hok3.doClose hat3
  refine ⟨s₄, ?_, (hstores3.same hok3 (honly4.same_disk hhas3.other hdisk4 f)).hasFile hok4⟩
  unfold storeText
  rw [termPath_nameText, hopen, Option.bind_some]
  show ((doRdwt s₂ p .WRITE fd t.length fun i => (bytes t).getD i 0).bind _) = _
  rw [hwrite, Option.bind_some]
  show ((doClose s₃ p fd).map fun s => (some (t.length : Int), s)) = _
  rw [hclose]
  rfl

/-- the terminal says so -/
theorem Files.termWriteOn_wrote (h : Writes s p f t) (d : Files) (env : Env) :
    ∃ s', d.termWriteOn env s p (nameText f) t = some (s',
        ((d.prints [text "wrote ", termPutInt t.length, text " bytes to ", nameText f,
          [newline]]).explRefresh env.fs).1) ∧ HasFile s' f (bytes t) := by
  obtain ⟨s', hdo, hfile⟩ := h
  have hne : nameText f ≠ [] := fun he => f.pos (List.map_eq_nil_iff.mp he)
  refine ⟨s', ?_, hfile⟩
  unfold termWriteOn
  rw [if_neg hne, hdo, Option.map_some]
  unfold termWrite
  simp only [if_neg hne, Option.isSome_some, not_true, if_false, Option.getD_some, ne_eq]

/-- **`write` works for the names that no file has yet, and only for them.**  A text of a line is far
shorter than the 256 sectors. -/
theorem writes_iff (hs : s.view.Ok) (hsp : Spare s p) (hl : f.bytes.length ≤ 11)
    (hroom : (∀ k, ¬ s.view.Named f k) → ∃ n, Room s n) (ht : t.length < 256 * SECTOR_SIZE) :
    Writes s p f t ↔ ∀ k, ¬ s.view.Named f k := by
  constructor
  · rintro ⟨s', hdo, -⟩ k hk
    rw [storeText_named hs hsp hk t] at hdo
    cases hdo
  · intro hnone
    obtain ⟨n, hn⟩ := hroom hnone
    exact storeText_new hs hsp hl hnone hn ht

end

/-- `write A hi`, with a volume that has `cmd.tar` -/
theorem writes_iff_new :
    Writes (Tar.tarFs 4000 8192) 8 Tar.oneByte.name (text "hi") ↔
      ∀ k, ¬ (Tar.tarFs 4000 8192).view.Named Tar.oneByte.name k := by
  have hfit : Tar.Fit 4000 8192 := ⟨by decide, by decide, by decide, by decide⟩
  refine writes_iff (Tar.tarFs_ok hfit) (Tar.tarFs_packed hfit).spare.spare (by decide) ?_ (by decide)
  refine fun _ => ⟨8192, ⟨3, by decide, ?_⟩, Tar.tarFs_run hfit, ?_, ?_⟩
  · rw [Tar.tarFs_imap (by decide)]
    decide
  · show 8192 + 1309 - 1 + 2048 ≤ 4300000
    decide
  · show 8192 + 1309 - 1 < 2 ^ 22
    decide

/-- **`write cmd.tar hi`** is refused, since there is a `cmd.tar`. -/
theorem writes_fails : (Tar.tarFs 4000 8192).view.Ok ∧ Spare (Tar.tarFs 4000 8192) 8 ∧
    (Tar.tarFs 4000 8192).view.Named Tar.cmdTar 1 ∧
    ((Tar.tarFs 4000 8192).view.file 1).mode = Fs.I_REGULAR ∧
    ¬ Writes (Tar.tarFs 4000 8192) 8 Tar.cmdTar (text "hi") := by
  have hfit : Tar.Fit 4000 8192 := ⟨by decide, by decide, by decide, by decide⟩
  have hpacked := Tar.tarFs_packed hfit
  refine ⟨hpacked.ok, hpacked.spare.spare, hpacked.named, hpacked.regular, ?_⟩
  rintro ⟨s', hdo, -⟩
  rw [storeText_named hpacked.ok hpacked.spare.spare hpacked.named] at hdo
  cases hdo

end Noxis.Wm
