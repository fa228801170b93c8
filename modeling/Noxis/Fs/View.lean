import Noxis.Fs.RootDir
import Noxis.Fs.SectMap
import Noxis.Fs.Entries

/-!
# 25-osfs11/fs: what a state stands for

* `View`            the tables, the maps, the inodes, the entries of `/` and the data of the files
* `FsState.view`    the view of a state
* `syncInode_view`, `putBit_view`, …   what the steps of the requests do to it
-/

namespace Noxis.Fs
open Ipc (Pid)

/-! ## sectors -/

theorem Super.Ok.smapBase_eq {sb : Super} (h : sb.Ok) : sb.smapBase = 3 := by
  unfold Super.smapBase
  rw [h.imap]

theorem Super.Ok.n1stSect_eq {sb : Super} (h : sb.Ok) : sb.n1stSect = 259 + sb.nrSmapSects := by
  have h1 := h.imap
  have h2 := h.inodes
  have h3 := h.first
  omega

theorem Super.Ok.le_inodeBlk {sb : Super} (h : sb.Ok) (v : Nat) :
    3 + sb.nrSmapSects ≤ inodeBlk sb v := by
  have h1 := h.imap
  unfold inodeBlk
  omega

theorem inodeOff_lt (v : Nat) : inodeOff v + 16 ≤ 512 := by
  unfold inodeOff INODE_SIZE
  omega

/-! ## views -/

/-- inode `v` as the disk has it -/
def inodeOnDisk (s : FsState) (v : Nat) : Inode :=
  .decode (rdSect s.disk (inodeBlk s.sb v)) (inodeOff v) 0 v

/-- **what a state stands for**; an entry of `/` is a number and a name -/
@[ext]
structure View where
  sb : Super
  root : Fin nrInode
  table : Fin nrInode → Inode
  imap : Nat → Bool
  smap : Nat → Bool
  inode : Nat → Inode
  entry : Nat → Nat × Key
  data : Disk

/-- the entries that `/` has room for -/
def NR_DIR_ENTRIES : Nat := 65536

/-- an entry that was never used -/
def blankEntry : Nat × Key := (0, fun _ => 0)

def FsState.view (s : FsState) : View where
  sb := s.sb
  root := s.rootInode
  table := s.inodeTable
  imap v := decide (v < 4096) && mapBit s.disk 2 v
  smap k := decide (k < s.sb.nrSmapSects * 4096) && mapBit s.disk 3 k
  inode v := if 1 ≤ v ∧ v ≤ 4096 then inodeOnDisk s v else .zero
  entry k := if k < NR_DIR_ENTRIES then (entNr s.disk s.sb.n1stSect k, entKey s.disk s.sb.n1stSect k)
    else blankEntry
  data t := if s.sb.n1stSect + NR_DEFAULT_FILE_SECTS ≤ t then s.disk t else fun _ => 0

section
variable {s s' : FsState} {q : Fin nrInode} {d : Disk} {v k n : Nat}

/-! ## parts of the disk -/

theorem Inode.decode_congr {b b' : Buffer} {o cnt num : Nat} (h : ∀ i < 16, b (o + i) = b' (o + i)) :
    Inode.decode b o cnt num = Inode.decode b' o cnt num := by
  unfold Inode.decode
  have hw : ∀ k ≤ 12, get32 b (o + k) = get32 b' (o + k) := by
    intro k hk
    refine get32_congr fun i hi => ?_
    rw [Nat.add_assoc]
    exact h (k + i) (by omega)
  rw [show get32 b o = get32 b' o from hw 0 (by decide), hw 4 (by decide), hw 8 (by decide),
    hw 12 (by decide)]

/-- the bytes of an inode decide -/
theorem inodeOnDisk_congr (hsb : s'.sb = s.sb)
    (h : ∀ o, inodeOff v ≤ o → o < inodeOff v + 16 →
      s'.disk (sectOf (inodeBlk s.sb v)) o = s.disk (sectOf (inodeBlk s.sb v)) o) :
    inodeOnDisk s' v = inodeOnDisk s v := by
  unfold inodeOnDisk
  rw [hsb]
  refine Inode.decode_congr fun i hi => ?_
  have hoff := inodeOff_lt v
  rw [rdSect_lt (by omega), rdSect_lt (by omega)]
  exact h _ (by omega) (by omega)

/-- the disk has changed only in the sectors from `a` on below `b` -/
def SameOutside (d d' : Disk) (a b : Nat) : Prop := ∀ t, t < a ∨ b ≤ t → d' t = d t

theorem imap_same {b : Nat} (h : SameOutside s.disk d 3 b) :
    ({ s with disk := d } : FsState).view.imap = s.view.imap := by
  funext v
  show (decide (v < 4096) && mapBit d 2 v) = (decide (v < 4096) && mapBit s.disk 2 v)
  by_cases hv : v < 4096
  · rw [mapBit, mapBit, h _ (.inl (by omega))]
  · rw [decide_eq_false hv, Bool.false_and, Bool.false_and]

theorem smap_same {a b : Nat} (h : SameOutside s.disk d a b)
    (hab : b ≤ 3 ∨ 3 + s.sb.nrSmapSects ≤ a) :
    ({ s with disk := d } : FsState).view.smap = s.view.smap := by
  funext k
  show (decide (k < s.sb.nrSmapSects * 4096) && mapBit d 3 k) =
    (decide (k < s.sb.nrSmapSects * 4096) && mapBit s.disk 3 k)
  by_cases hk : k < s.sb.nrSmapSects * 4096
  · rw [mapBit, mapBit, h _ (by omega)]
  · rw [decide_eq_false hk, Bool.false_and, Bool.false_and]

theorem inode_same {a b : Nat} (hsb : s.sb.Ok) (h : SameOutside s.disk d a b)
    (hab : b ≤ 3 + s.sb.nrSmapSects ∨ s.sb.n1stSect ≤ a) :
    ({ s with disk := d } : FsState).view.inode = s.view.inode := by
  funext v
  show (if 1 ≤ v ∧ v ≤ 4096 then inodeOnDisk { s with disk := d } v else _) =
    if 1 ≤ v ∧ v ≤ 4096 then inodeOnDisk s v else _
  by_cases hv : 1 ≤ v ∧ v ≤ 4096
  · rw [if_pos hv, if_pos hv]
    refine inodeOnDisk_congr rfl fun o _ _ => ?_
    have hlo := hsb.le_inodeBlk v
    have hhi := hsb.inodeBlk_lt hv.2
    have hfar := hsb.n1stSect_lt
    rw [sectOf_of_lt (by omega)]
    exact congrFun (h _ (by omega)) o
  · rw [if_neg hv, if_neg hv]

theorem entry_same {a b : Nat} (h : SameOutside s.disk d a b)
    (hab : b ≤ s.sb.n1stSect ∨ s.sb.n1stSect + NR_DEFAULT_FILE_SECTS ≤ a) :
    ({ s with disk := d } : FsState).view.entry = s.view.entry := by
  funext k
  show (if k < NR_DIR_ENTRIES then (entNr d s.sb.n1stSect k, entKey d s.sb.n1stSect k) else _) =
    if k < NR_DIR_ENTRIES then (entNr s.disk s.sb.n1stSect k, entKey s.disk s.sb.n1stSect k) else _
  by_cases hk : k < NR_DIR_ENTRIES
  · have hbyte : entByte d s.sb.n1stSect k = entByte s.disk s.sb.n1stSect k := by
      funext o
      unfold NR_DIR_ENTRIES at hk
      unfold NR_DEFAULT_FILE_SECTS at hab
      unfold entByte
      rw [h _ (by omega)]
    rw [if_pos hk, if_pos hk, entNr, entNr, hbyte]
    unfold entKey
    rw [hbyte]
  · rw [if_neg hk, if_neg hk]

theorem data_same {a b : Nat} (h : SameOutside s.disk d a b)
    (hab : b ≤ s.sb.n1stSect + NR_DEFAULT_FILE_SECTS) :
    ({ s with disk := d } : FsState).view.data = s.view.data := by
  funext t
  show (if s.sb.n1stSect + NR_DEFAULT_FILE_SECTS ≤ t then d t else _) =
    if s.sb.n1stSect + NR_DEFAULT_FILE_SECTS ≤ t then s.disk t else _
  by_cases ht : s.sb.n1stSect + NR_DEFAULT_FILE_SECTS ≤ t
  · rw [if_pos ht, if_pos ht, h t (.inr (hab.trans ht))]
  · rw [if_neg ht, if_neg ht]

/-! ## inodes -/

theorem setInode_view (s : FsState) (q : Fin nrInode) (f : Inode → Inode) :
    (s.setInode q f).view =
      { s.view with table := Function.update s.inodeTable q (f (s.inodeTable q)) } := rfl

/-- writing an inode leaves the others -/
theorem syncInode_other (hsb : s.sb.Ok) (hn : 1 ≤ (s.inodeTable q).num ∧ (s.inodeTable q).num ≤ 4096)
    (hv : 1 ≤ v ∧ v ≤ 4096) (hne : v ≠ (s.inodeTable q).num) :
    inodeOnDisk (syncInode s q) v = inodeOnDisk s v := by
  refine inodeOnDisk_congr rfl fun o h1 h2 => ?_
  by_contra hc
  obtain ⟨hblk, h3, h4⟩ := syncInode_disk hc
  have hb1 := hsb.inodeBlk_lt hn.2
  have hb2 := hsb.inodeBlk_lt hv.2
  have hfar := hsb.n1stSect_lt
  rw [sectOf_of_lt (by omega), sectOf_of_lt (by omega)] at hblk
  unfold inodeBlk at hblk
  unfold inodeOff INODE_SIZE at h1 h2 h3 h4
  omega

/-- the words of an inode fit -/
structure Inode.Fits (p : Inode) : Prop where
  mode : p.mode < 2 ^ 32
  size : p.size < 2 ^ 32
  startSect : p.startSect < 2 ^ 32
  nrSects : p.nrSects < 2 ^ 32

/-- the inode itself -/
theorem syncInode_self (s : FsState) (q : Fin nrInode) (h : (s.inodeTable q).Fits) :
    inodeOnDisk (syncInode s q) (s.inodeTable q).num = { s.inodeTable q with cnt := 0 } := by
  unfold inodeOnDisk
  have hread : ∀ i < 16, rdSect (syncInode s q).disk (inodeBlk s.sb (s.inodeTable q).num)
      (inodeOff (s.inodeTable q).num + i) = (s.inodeTable q).encode
        (rdSect s.disk (inodeBlk s.sb (s.inodeTable q).num)) (inodeOff (s.inodeTable q).num)
          (inodeOff (s.inodeTable q).num + i) := by
    intro i hi
    have hoff := inodeOff_lt (s.inodeTable q).num
    rw [rdSect_lt (by omega)]
    exact wrSect_lt (by omega)
  rw [show (syncInode s q).sb = s.sb from rfl, Inode.decode_congr hread]
  exact Inode.decode_encode (p := { s.inodeTable q with cnt := 0 }) h.mode h.size h.startSect h.nrSects

/-- **An inode is written.** -/
theorem syncInode_view (hsb : s.sb.Ok) (hn : 1 ≤ (s.inodeTable q).num ∧ (s.inodeTable q).num ≤ 4096)
    (h : (s.inodeTable q).Fits) :
    (syncInode s q).view = { s.view with
      inode := Function.update s.view.inode (s.inodeTable q).num
        { s.inodeTable q with cnt := 0 } } := by
  have hlo := hsb.le_inodeBlk (s.inodeTable q).num
  have hhi := hsb.inodeBlk_lt hn.2
  have hfar := hsb.n1stSect_lt
  have hd : SameOutside s.disk (syncInode s q).disk (3 + s.sb.nrSmapSects) s.sb.n1stSect := by
    intro t ht
    refine wrSect_other ?_
    rw [sectOf_of_lt (by omega)]
    omega
  apply View.ext
  · rfl
  · rfl
  · rfl
  · exact imap_same (b := s.sb.n1stSect) fun t ht => hd t (by omega)
  · exact smap_same hd (.inr le_rfl)
  · funext v
    show (if 1 ≤ v ∧ v ≤ 4096 then inodeOnDisk (syncInode s q) v else Inode.zero) =
      Function.update s.view.inode (s.inodeTable q).num _ v
    by_cases hv : v = (s.inodeTable q).num
    · rw [hv, if_pos hn, syncInode_self s q h, Function.update_self]
    · rw [Function.update_of_ne hv]
      show _ = if 1 ≤ v ∧ v ≤ 4096 then inodeOnDisk s v else Inode.zero
      by_cases hr : 1 ≤ v ∧ v ≤ 4096
      · rw [if_pos hr, if_pos hr, syncInode_other hsb hn hr hv]
      · rw [if_neg hr, if_neg hr]
  · exact entry_same hd (.inl le_rfl)
  · exact data_same hd (Nat.le_add_right ..)

/-! ## maps -/

theorem putBit_view (hsb : s.sb.Ok) (hv : v < 4096) :
    ({ s with disk := putBit s.disk 2 true v } : FsState).view =
      { s.view with imap := Function.update s.view.imap v true } := by
  have hfirst := hsb.n1stSect_eq
  have hd : SameOutside s.disk (putBit s.disk 2 true v) 2 3 :=
    fun t ht => putBit_other (by omega)
  apply View.ext
  · rfl
  · rfl
  · rfl
  · funext w
    show (decide (w < 4096) && mapBit (putBit s.disk 2 true v) 2 w) =
      Function.update s.view.imap v true w
    rw [mapBit_putBit]
    by_cases hw : w = v
    · rw [hw, if_pos rfl, decide_eq_true hv, Function.update_self]
      rfl
    · rw [if_neg hw, Function.update_of_ne hw]
      rfl
  · exact smap_same hd (.inl le_rfl)
  · exact inode_same hsb hd (.inl (Nat.le_add_right ..))
  · exact entry_same hd (.inl (by omega))
  · exact data_same hd (by omega)

theorem putBits_view (hsb : s.sb.Ok) (hk : k + n ≤ s.sb.nrSmapSects * 4096) :
    ({ s with disk := putBits s.disk s.sb.smapBase true k n } : FsState).view =
      { s.view with smap := fun i => if k ≤ i ∧ i < k + n then true else s.view.smap i } := by
  have hfirst := hsb.n1stSect_eq
  rw [hsb.smapBase_eq]
  have hd : SameOutside s.disk (putBits s.disk 3 true k n) 3 (3 + s.sb.nrSmapSects) :=
    fun t ht => putBits_other fun i h1 h2 => by omega
  apply View.ext
  · rfl
  · rfl
  · rfl
  · exact imap_same hd
  · funext i
    show (decide (i < s.sb.nrSmapSects * 4096) && mapBit (putBits s.disk 3 true k n) 3 i) =
      if k ≤ i ∧ i < k + n then true else s.view.smap i
    rw [mapBit_putBits]
    by_cases hi : k ≤ i ∧ i < k + n
    · rw [if_pos hi, if_pos hi, decide_eq_true (by omega)]
      rfl
    · rw [if_neg hi, if_neg hi]
      rfl
  · exact inode_same hsb hd (.inl le_rfl)
  · exact entry_same hd (.inl (by omega))
  · exact data_same hd (by omega)

/-! ## data -/

/-- sectors of files are written -/
theorem data_view {a b : Nat} (hsb : s.sb.Ok) (h : SameOutside s.disk d a b)
    (ha : s.sb.n1stSect + NR_DEFAULT_FILE_SECTS ≤ a) :
    ({ s with disk := d } : FsState).view = { s.view with
      data := fun t => if s.sb.n1stSect + NR_DEFAULT_FILE_SECTS ≤ t then d t else fun _ => 0 } := by
  have hfirst := hsb.n1stSect_eq
  apply View.ext
  · rfl
  · rfl
  · rfl
  · exact imap_same (b := b) fun t ht => h t (by omega)
  · exact smap_same h (.inr (by omega))
  · exact inode_same hsb h (.inr (by omega))
  · exact entry_same h (.inr ha)
  · rfl

end

end Noxis.Fs
