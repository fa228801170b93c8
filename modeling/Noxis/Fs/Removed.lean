import Mathlib.Order.Interval.Finset.Nat
import Mathlib.Data.Nat.Count
import Noxis.Fs.Seen
import Noxis.Fs.Unlink

/-!
# A volume without one of its files

* `View.removed q k`   the view when entry `k` is unlinked, whose inode was in slot `q`
* `View.NoGap k`       what UNLINK of the last entry relies on: the size that it computes is the number
                       of entries in use before it, so these have to be the first ones
* `View.Ok.removed`    the volume stays in order
* `View.Ok.removed_same`   the files with other names stay
-/

namespace Noxis.Fs

/-- the map with `n` sectors less -/
def giveRun (bit : Nat → Bool) (f n : Nat) : Nat → Bool := fun i =>
  if f ≤ i ∧ i < f + n then false else bit i

/-- how many of the entries before `k` are in use -/
def View.used (w : View) (k : Nat) : Nat := Nat.count (fun j => w.nr j ≠ 0) k

/-- `i_size` of `/` when entry `k` is cleared -/
def View.sizeWithout (w : View) (k : Nat) : Nat :=
  if k + 1 = w.len then DIR_ENTRY_SIZE * w.used k else w.dir.size

theorem View.sizeWithout_congr {w w' : View} {k : Nat} (hdir : w'.dir = w.dir)
    (hentry : w'.entry = w.entry) : w'.sizeWithout k = w.sizeWithout k := by
  unfold View.sizeWithout View.used View.len View.nr
  rw [hdir, hentry]

/-- what is left of an inode -/
def Inode.gone (v : Nat) : Inode := ⟨0, 0, 0, 0, 0, v⟩

/-- the bit of the sector map that stands for the first sector of a file -/
def View.firstBit (w : View) (p : Inode) : Nat := p.startSect + 1 - w.sb.n1stSect

/-- **the view without entry `k`**, whose inode was read into slot `q` -/
def View.removed (w : View) (q : Fin nrInode) (k : Nat) : View :=
  { w with
    table := Function.update (Function.update w.table q (.gone (w.nr k))) w.root
      { w.dir with size := w.sizeWithout k }
    imap := Function.update w.imap (w.nr k) false
    smap := giveRun w.smap (w.firstBit (w.file k)) (w.file k).nrSects
    inode :=
      if k + 1 = w.len then
        Function.update (Function.update w.inode (w.nr k) (.gone (w.nr k))) ROOT_INODE
          { w.dir with size := w.sizeWithout k, cnt := 0 }
      else Function.update w.inode (w.nr k) (.gone (w.nr k))
    entry := Function.update w.entry k blankEntry }

/-- **no live entry is behind the size** that is computed when the last entry is cleared -/
def View.NoGap (w : View) (k : Nat) : Prop := k + 1 = w.len → ∀ j < k, w.Live j → j < w.used k

section
variable {w : View} {f g : Name} {q : Fin nrInode} {i j k : Nat}

theorem View.removed_dir : (w.removed q k).dir = { w.dir with size := w.sizeWithout k } :=
  Function.update_self ..

theorem View.used_le (w : View) (k : Nat) : w.used k ≤ k := Nat.count_le _

theorem View.removed_len :
    (w.removed q k).len = if k + 1 = w.len then w.used k else w.len := by
  show (w.removed q k).dir.size / DIR_ENTRY_SIZE = _
  rw [View.removed_dir]
  show w.sizeWithout k / DIR_ENTRY_SIZE = _
  unfold View.sizeWithout
  by_cases hlast : k + 1 = w.len
  · rw [if_pos hlast, if_pos hlast]
    exact Nat.mul_div_cancel_left _ (by decide)
  · rw [if_neg hlast, if_neg hlast]
    rfl

theorem View.removed_entry (hj : j ≠ k) : (w.removed q k).entry j = w.entry j :=
  Function.update_of_ne hj _ _

theorem View.removed_nr (hj : j ≠ k) : (w.removed q k).nr j = w.nr j :=
  congrArg Prod.fst (View.removed_entry hj)

/-- **Just entry `k` is gone.** -/
theorem View.removed_live (hk : w.Live k) (hgap : w.NoGap k) :
    (w.removed q k).Live j ↔ j ≠ k ∧ w.Live j := by
  have hklen := hk.1
  have hle := w.used_le k
  unfold View.Live
  rw [View.removed_len]
  constructor
  · rintro ⟨hlt, hne⟩
    have hjk : j ≠ k := by
      rintro rfl
      have hself : (w.removed q j).entry j = blankEntry := Function.update_self ..
      exact hne (congrArg Prod.fst hself)
    rw [View.removed_nr hjk] at hne
    refine ⟨hjk, ?_, hne⟩
    split at hlt <;> omega
  · rintro ⟨hjk, hlt, hne⟩
    rw [View.removed_nr hjk]
    refine ⟨?_, hne⟩
    by_cases hlast : k + 1 = w.len
    · rw [if_pos hlast]
      exact hgap hlast j (by omega) ⟨hlt, hne⟩
    · rw [if_neg hlast]
      exact hlt

/-- the inodes with other numbers stay -/
theorem View.removed_inode {v : Nat} (hv : v ≠ w.nr k) (hroot : v ≠ ROOT_INODE) :
    (w.removed q k).inode v = w.inode v := by
  show (if k + 1 = w.len then _ else _ : Nat → Inode) v = w.inode v
  by_cases hlast : k + 1 = w.len
  · rw [if_pos hlast, Function.update_of_ne hroot, Function.update_of_ne hv]
  · rw [if_neg hlast, Function.update_of_ne hv]

/-- a regular file is not `/`, and keeps its inode -/
theorem View.Ok.removed_file (h : w.Ok) (hk : w.Live k) (hj : w.Live j) (hne : j ≠ k)
    (hm : ((w.removed q k).file j).mode = I_REGULAR) : (w.removed q k).file j = w.file j := by
  have hnr : w.nr j ≠ w.nr k := fun he => hne (h.nums j k hj hk he)
  rw [View.file, View.removed_nr hne] at hm ⊢
  by_cases hroot : w.nr j = ROOT_INODE
  · -- the inode of `/` is written when the directory shrinks
    by_cases hlast : k + 1 = w.len
    · have hat : ((w.removed q k).inode ROOT_INODE).mode = w.dir.mode := by
        show ((if k + 1 = w.len then _ else _ : Nat → Inode) ROOT_INODE).mode = _
        rw [if_pos hlast, Function.update_self]
      rw [hroot, hat, h.mode] at hm
      exact absurd hm (by decide)
    · show (if k + 1 = w.len then _ else _ : Nat → Inode) (w.nr j) = w.inode (w.nr j)
      rw [if_neg hlast, Function.update_of_ne hnr]
  · exact View.removed_inode hnr hroot

/-- the slots have the numbers that they had, but slot `q` is free -/
theorem View.removed_slot (hq : q ≠ w.root) {r : Fin nrInode}
    (hr : ((w.removed q k).table r).cnt ≠ 0) : r ≠ q ∧ (w.table r).cnt ≠ 0 ∧
      ((w.removed q k).table r).num = (w.table r).num ∧
      (r ≠ w.root → (w.removed q k).table r = w.table r) := by
  by_cases hroot : r = w.root
  · subst hroot
    have hat : (w.removed q k).table w.root = { w.dir with size := w.sizeWithout k } :=
      Function.update_self ..
    rw [hat] at hr ⊢
    exact ⟨hq.symm, hr, rfl, fun hne => absurd rfl hne⟩
  · have hat : (w.removed q k).table r = Function.update w.table q (.gone (w.nr k)) r :=
      Function.update_of_ne hroot _ _
    have hrq : r ≠ q := by
      rintro rfl
      rw [hat, Function.update_self] at hr
      exact hr rfl
    rw [Function.update_of_ne hrq] at hat
    rw [hat] at hr ⊢
    exact ⟨hrq, hr, rfl, fun _ => rfl⟩

/-- **A volume without the file is in order.** -/
theorem View.Ok.removed (h : w.Ok) (hk : w.Live k) (hroot : w.nr k ≠ ROOT_INODE)
    (hreg : (w.file k).mode = I_REGULAR) (hq : q ≠ w.root) (hgap : w.NoGap k)
    (hidle : ∀ r, r ≠ q → (w.table r).cnt ≠ 0 → (w.table r).num ≠ w.nr k) :
    (w.removed q k).Ok := by
  have hdir := View.removed_dir (w := w) (q := q) (k := k)
  have hlive : ∀ j, (w.removed q k).Live j ↔ j ≠ k ∧ w.Live j :=
    fun j => View.removed_live hk hgap
  have hkp := h.placed k hk hreg
  have hfirst := hkp.first
  have himap : ∀ v, v ≠ w.nr k → (w.removed q k).imap v = w.imap v :=
    fun v hv => Function.update_of_ne hv _ _
  -- the sectors of the other files
  have hmarked : ∀ j, w.Live j → j ≠ k → (w.file j).mode = I_REGULAR → ∀ t, (w.file j).Covers t →
      (w.removed q k).smap (t + 1 - w.sb.n1stSect) = true := by
    intro j hj hne hm t ht
    have hjp := h.placed j hj hm
    have hap := h.apart j k hj hk hne hm hreg t ht
    have hjf := hjp.first
    have hset := hjp.marked t ht.1 ht.2
    have h1 := ht.1
    unfold Inode.Covers at hap
    show giveRun w.smap (w.firstBit (w.file k)) (w.file k).nrSects (t + 1 - w.sb.n1stSect) = true
    unfold giveRun View.firstBit
    rw [if_neg (by omega)]
    exact hset
  refine ⟨h.sb, ?_, ?_, ?_, ?_, ?_, ⟨?_, ?_⟩, fun j hj => ?_, fun i j hi hj he => ?_,
    fun i j hi hj he => ?_, fun j hj => ?_, ⟨?_, ?_⟩, fun r hr hc => ?_, fun r r' hr hr' he => ?_,
    fun b hb => ?_, fun j hj hm => ?_, fun i j hi hj hne hm hm' => ?_⟩
  · rw [hdir]
    exact h.held
  · rw [hdir]
    exact h.num
  · rw [hdir]
    exact h.mode
  · rw [hdir]
    exact h.start
  · rw [hdir]
    exact h.sects
  · rw [hdir]
    show w.sizeWithout k % DIR_ENTRY_SIZE = 0
    unfold View.sizeWithout
    split
    · exact Nat.mul_mod_right ..
    · exact h.size.1
  · rw [View.removed_len]
    have hle := h.size.2
    have hused := w.used_le k
    have hlt := hk.1
    split <;> omega
  · by_cases hjk : j = k
    · rw [hjk]
      exact Function.update_self ..
    · rw [View.removed_entry hjk]
      exact h.blank j fun hl => hj ((hlive j).mpr ⟨hjk, hl⟩)
  · obtain ⟨hik, hli⟩ := (hlive i).mp hi
    obtain ⟨hjk, hlj⟩ := (hlive j).mp hj
    rw [View.removed_entry hik, View.removed_entry hjk] at he
    exact h.names i j hli hlj he
  · obtain ⟨hik, hli⟩ := (hlive i).mp hi
    obtain ⟨hjk, hlj⟩ := (hlive j).mp hj
    rw [View.removed_nr hik, View.removed_nr hjk] at he
    exact h.nums i j hli hlj he
  · obtain ⟨hjk, hlj⟩ := (hlive j).mp hj
    rw [View.removed_nr hjk, himap _ fun he => hjk (h.nums j k hlj hk he)]
    exact h.alloc j hlj
  · rw [himap 0 hk.2.symm]
    exact h.reserved.1
  · rw [himap ROOT_INODE hroot.symm]
    exact h.reserved.2
  · obtain ⟨hrq, hc', -, hsame⟩ := View.removed_slot hq hc
    rw [hsame hr]
    obtain ⟨h1, h2, h3, h4⟩ := h.memory r hr hc'
    have hne := hidle r hrq hc'
    refine ⟨h1, h2, (himap _ hne).trans h3, (View.removed_inode hne fun he => ?_).trans h4⟩
    exact hr (h.single r w.root hc' h.held (he.trans h.num.symm))
  · obtain ⟨-, hc, hn, -⟩ := View.removed_slot hq hr
    obtain ⟨-, hc', hn', -⟩ := View.removed_slot hq hr'
    rw [hn, hn'] at he
    exact h.single r r' hc hc' he
  · show giveRun w.smap (w.firstBit (w.file k)) (w.file k).nrSects b = true
    unfold giveRun View.firstBit
    rw [if_neg (by omega)]
    exact h.marked b hb
  · obtain ⟨hjk, hlj⟩ := (hlive j).mp hj
    have hfile := h.removed_file hk hlj hjk hm
    rw [hfile] at hm ⊢
    have hp := h.placed j hlj hm
    exact ⟨hp.first, hp.last, hp.size, hp.int, fun t h1 h2 => hmarked j hlj hjk hm t ⟨h1, h2⟩⟩
  · obtain ⟨hik, hli⟩ := (hlive i).mp hi
    obtain ⟨hjk, hlj⟩ := (hlive j).mp hj
    have hfile := h.removed_file hk hli hik hm
    have hfile' := h.removed_file hk hlj hjk hm'
    rw [hfile] at hm ⊢
    rw [hfile'] at hm' ⊢
    exact h.apart i j hli hlj hne hm hm'

/-- **The files with other names stay.** -/
theorem View.Ok.removed_same (h : w.Ok) (hk : w.Named f k) (hgap : w.NoGap k) (hg : g ≠ f) :
    SameFile 0 g w (w.removed q k) := by
  have hne : ∀ j, w.Named g j → j ≠ k := by
    rintro j hj rfl
    exact hg (Name.pad_inj (hj.name.symm.trans hk.name))
  refine ⟨fun j => ?_, fun j hj => View.removed_nr (hne j hj), fun j hj hr => ?_,
    fun _ _ _ _ _ _ _ => rfl⟩
  · constructor
    · rintro ⟨hl, hn⟩
      obtain ⟨hjk, hlj⟩ := (View.removed_live hk.live hgap).mp hl
      exact ⟨hlj, (congrArg Prod.snd (View.removed_entry hjk)).symm.trans hn⟩
    · intro hj
      have hjk := hne j hj
      exact ⟨(View.removed_live hk.live hgap).mpr ⟨hjk, hj.live⟩,
        (congrArg Prod.snd (View.removed_entry hjk)).trans hj.name⟩
  · have hjk := hne j hj
    rw [View.file, View.removed_nr hjk]
    exact View.removed_inode (fun he => hjk (h.nums j k hj.live hk.live he)) hr

/-- the name is free again -/
theorem View.Ok.removed_none (h : w.Ok) (hk : w.Named f k) (hgap : w.NoGap k) (j : Nat) :
    ¬ (w.removed q k).Named f j := by
  rintro ⟨hl, hn⟩
  obtain ⟨hjk, hlj⟩ := (View.removed_live hk.live hgap).mp hl
  have hname : (w.entry j).2 = pad f.bytes := (congrArg Prod.snd (View.removed_entry hjk)).symm.trans hn
  exact hjk (h.named_unique ⟨hlj, hname⟩ hk)

end

end Noxis.Fs
