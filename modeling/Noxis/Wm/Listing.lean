import Mathlib.Data.List.Lex
import Mathlib.Data.List.TakeWhile
import Mathlib.Data.Prod.Lex
import Noxis.Lib.StableSort
import Noxis.Wm.Selection

/-!
# The list of the root directory

`expl_refresh` of kernel/desktop.c reads the root directory into the list of the Files window.

* `rawEntries`, `readRoot`   the directory, and what one `read` gives of it;
* `fill_list`                the first loop takes the entries that are listed;
* `sortEntries_list`         the second one sorts them in a stable way;
* `Lists`                    what the list is to be;
* `lists_iff`                **it is that when the 64 entries are among the first 96 of the directory**;
* `lists_fails`              a file behind 96 removed ones.
-/

namespace Noxis.Wm

/-! ## the bytes of the directory -/

/-- a `struct dir_entry` -/
def rawEntry (raw : List Byte) (o : Nat) : DirEntry where
  inodeNr := (BitVec.ofNat 32 (get32 (fun a => raw.getD a 0) o)).toInt
  name := (raw.drop (o + 4)).take 12

/-- the whole entries, as the loop takes them with `i + 16 <= got` -/
def rawEntries (raw : List Byte) : List DirEntry :=
  (List.range (raw.length / 16)).map fun k => rawEntry raw (k * 16)

def explRawMax : Nat := wmExplMaxEntries * 16 + 512

/-- what `read (fd, expl_raw, sizeof (expl_raw))` gives of the directory -/
def readRoot (content : List Byte) : Dir :=
  if content.take explRawMax = [] then .notRead else .entries (rawEntries (content.take explRawMax))

/-- an entry that is listed -/
def DirEntry.Listed (de : DirEntry) : Prop := 0 < de.inodeNr ∧ de.name.head? ≠ some 0x2E

instance (de : DirEntry) : Decidable de.Listed := inferInstanceAs (Decidable (_ ∧ _))

/-! ## what the list is to be -/

/-- the entries of the list -/
def Files.listing (f : Files) : List Entry := (List.range f.desk.expl.nEntries.toNat).map f.entries

/-- the entries of the directory that the list is for -/
def wanted (l : List DirEntry) : List DirEntry :=
  (l.filter fun de => de.Listed).take wmExplMaxEntries

/-- an entry of the list has the data of its file -/
structure Describes (fs : Fs) (de : DirEntry) (e : Entry) : Prop where
  inode : e.inode = de.inodeNr
  name : e.name = de.name.takeWhile (· ≠ 0)
  stat : ∀ mode size, fs.stat (0x2F :: e.name) = some (mode, size) →
    e.size = size ∧ e.kind = kindOf mode

/-- directories before the other kinds, and names in the order of `strcmp` -/
def Before (s t : Entry) : Prop :=
  (t.kind = .dir → s.kind = .dir) ∧ ((s.kind = .dir ↔ t.kind = .dir) → strcmp s.name t.name ≤ 0)

/-- the same place in the order -/
def Alike (s t : Entry) : Prop := (s.kind = .dir ↔ t.kind = .dir) ∧ strcmp s.name t.name = 0

instance (s t : Entry) : Decidable (Alike s t) := inferInstanceAs (Decidable (_ ∧ _))

/-- **the list of a directory**: the entries of the directory, in order, and those that are alike as
they come -/
structure Lists (fs : Fs) (content : List Byte) (f : Files) : Prop where
  filled : ∃ l, List.Forall₂ (Describes fs) (wanted (rawEntries content)) l ∧ f.listing.Perm l ∧
    ∀ e ∈ l, (f.listing.filter fun t => Alike t e) = l.filter fun t => Alike t e
  sorted : f.listing.Pairwise Before

/-- **the condition**: the list is full with the first 96 entries of the directory, or none of the
others is listed -/
def Whole (content : List Byte) : Prop :=
  wmExplMaxEntries ≤ (((rawEntries content).take 96).filter fun de => de.Listed).length ∨
    ∀ de ∈ (rawEntries content).drop 96, ¬ de.Listed

/-! ## the read -/

section
variable {raw : List Byte} {o k n : Nat}

theorem getD_take {a : Nat} (h : a < n) : (raw.take n).getD a 0 = raw.getD a 0 := by
  rw [List.getD_eq_getElem?_getD, List.getD_eq_getElem?_getD, List.getElem?_take_of_lt h]

/-- an entry that is read is the entry of the directory -/
theorem rawEntry_take (h : o + 16 ≤ n) : rawEntry (raw.take n) o = rawEntry raw o := by
  have hword : get32 (fun a => (raw.take n).getD a 0) o = get32 (fun a => raw.getD a 0) o :=
    get32_congr fun i hi => getD_take (by omega)
  unfold rawEntry
  rw [hword, List.drop_take, List.take_take, Nat.min_eq_left (by omega)]

/-- **One read** gives 96 entries. -/
theorem rawEntries_take (content : List Byte) :
    rawEntries (content.take explRawMax) = (rawEntries content).take 96 := by
  have hlen : (content.take explRawMax).length / 16 = min 96 (content.length / 16) := by
    rw [List.length_take, show explRawMax = 1536 from rfl]
    omega
  unfold rawEntries
  rw [hlen, ← List.map_take, List.take_range]
  refine List.map_congr_left fun k hk => ?_
  have hlt := List.mem_range.mp hk
  exact rawEntry_take (by rw [show explRawMax = 1536 from rfl]; omega)

end

/-! ## the order -/

/-- the characters that `strcmp` compares -/
def charsOf (name : List Byte) : List Int := name.map BitVec.toInt ++ [0]

/-- what the order of the list depends on -/
def Entry.order (e : Entry) : Nat ×ₗ List Int :=
  toLex (if e.kind = .dir then 0 else 1, charsOf e.name)

/-- a string has no zero in it -/
def Entry.Terminated (e : Entry) : Prop := 0 ∉ e.name

theorem toInt_ne {a b : Byte} (h : a ≠ b) : a.toInt ≠ b.toInt := BitVec.toInt_inj.not.mpr h

theorem toInt_head {a : Byte} {s : List Byte} (h : 0 ∉ a :: s) : a.toInt ≠ 0 :=
  toInt_ne (b := 0) fun he => h (List.mem_cons.mpr (.inl he.symm))

/-- with equal heads the tails decide -/
theorem lex_tail {α : Type} [Preorder α] (a : α) (p : Prop) : p ↔ a < a ∨ a = a ∧ p :=
  ⟨fun h => .inr ⟨rfl, h⟩, fun h => h.elim (fun hlt => absurd hlt (lt_irrefl a)) And.right⟩

theorem cons_le {a b : Int} {s t : List Int} : a :: s ≤ b :: t ↔ a < b ∨ a = b ∧ s ≤ t := by
  rw [← not_lt, ← not_lt (a := t), List.cons_lt_cons_iff]
  by_cases hlt : t < s
  · rw [iff_true_intro hlt, and_true, not_true, and_false, or_false]
    omega
  · rw [iff_false_intro hlt, and_false, or_false, not_false_iff, and_true]
    omega

theorem strcmp_le {s t : List Byte} (hs : 0 ∉ s) (ht : 0 ∉ t) :
    strcmp s t ≤ 0 ↔ charsOf s ≤ charsOf t := by
  induction s generalizing t with
  | nil =>
    cases t with
    | nil => exact iff_of_true (le_refl 0) (le_refl _)
    | cons b t =>
      have hb := toInt_head ht
      show -b.toInt ≤ 0 ↔ [0] ≤ b.toInt :: charsOf t
      rw [cons_le]
      omega
  | cons a s ih =>
    have ha := toInt_head hs
    cases t with
    | nil =>
      show a.toInt ≤ 0 ↔ a.toInt :: charsOf s ≤ [0]
      rw [cons_le]
      omega
    | cons b t =>
      have hrest := ih (fun h => hs (List.mem_cons_of_mem _ h)) (fun h => ht (List.mem_cons_of_mem _ h))
      show strcmp (a :: s) (b :: t) ≤ 0 ↔ a.toInt :: charsOf s ≤ b.toInt :: charsOf t
      rw [cons_le, strcmp]
      by_cases hab : a = b
      · rw [if_pos hab, hrest, hab]
        exact lex_tail b.toInt _
      · have hne := toInt_ne hab
        rw [if_neg hab]
        omega

theorem strcmp_eq {s t : List Byte} (hs : 0 ∉ s) (ht : 0 ∉ t) : strcmp s t = 0 → s = t := by
  induction s generalizing t with
  | nil =>
    cases t with
    | nil => exact fun _ => rfl
    | cons b t =>
      have hb := toInt_head ht
      intro h
      have hzero : -b.toInt = 0 := h
      omega
  | cons a s ih =>
    have ha := toInt_head hs
    cases t with
    | nil => exact fun h => absurd h ha
    | cons b t =>
      rw [strcmp]
      by_cases hab : a = b
      · rw [if_pos hab, hab]
        intro h
        rw [ih (fun h => hs (List.mem_cons_of_mem _ h)) (fun h => ht (List.mem_cons_of_mem _ h)) h]
      · have hne := toInt_ne hab
        rw [if_neg hab]
        omega

/-- **The comparison** of the sort. -/
theorem compare_le {t key : Entry} (ht : t.Terminated) (hk : key.Terminated) :
    t.compare key ≤ 0 ↔ t.order ≤ key.order := by
  have hnames := strcmp_le ht hk
  unfold Entry.compare Entry.order
  rw [Prod.Lex.toLex_le_toLex]
  simp only
  by_cases h1 : t.kind = .dir
  · by_cases h2 : key.kind = .dir
    · rw [if_pos h1, if_pos h2, if_pos h1, if_pos h2, if_pos (Int.sub_self 0), hnames]
      exact lex_tail _ _
    · rw [if_pos h1, if_neg h2, if_pos h1, if_neg h2, if_neg (by decide)]
      exact iff_of_true (by decide) (.inl Nat.one_pos)
  · by_cases h2 : key.kind = .dir
    · rw [if_neg h1, if_pos h2, if_neg h1, if_pos h2, if_neg (by decide)]
      exact iff_of_false (by decide) (by omega)
    · rw [if_neg h1, if_neg h2, if_neg h1, if_neg h2, if_pos (Int.sub_self 1), hnames]
      exact lex_tail _ _

/-! ## the sort -/

/-- the first `n` elements of an array -/
def firstOf (a : Nat → Entry) (n : Nat) : List Entry := (List.range n).map a

theorem firstOf_succ (a : Nat → Entry) (n : Nat) : firstOf a (n + 1) = firstOf a n ++ [a n] := by
  unfold firstOf
  rw [List.range_succ, List.map_append]
  rfl

theorem firstOf_congr {a b : Nat → Entry} {n : Nat} (h : ∀ m < n, a m = b m) :
    firstOf a n = firstOf b n :=
  List.map_congr_left fun m hm => h m (List.mem_range.mp hm)

/-- the order of the list -/
def InOrder (s t : Entry) : Prop := s.order ≤ t.order

instance : DecidableRel InOrder := fun s t => inferInstanceAs (Decidable (s.order ≤ t.order))

instance : Std.Total InOrder := ⟨fun s t => le_total s.order t.order⟩

instance : IsTrans Entry InOrder := ⟨fun _ _ _ h h' => le_trans h h'⟩

section
variable {a : Nat → Entry} {key : Entry} {i j k m n : Nat}

/-- the inner loop leaves what is behind the key -/
theorem insertEntry_behind (hm : j < m) : (insertEntry key j a).1 m = a m := by
  induction j generalizing a with
  | zero => exact Function.update_of_ne (by omega) _ _
  | succ j ih =>
    rw [insertEntry]
    split_ifs
    · exact Function.update_of_ne (by omega) _ _
    · exact (ih (by omega)).trans (Function.update_of_ne (by omega) _ _)

/-- **The inner loop** puts the key behind the last entry that is not above it. -/
theorem insertEntry_list (hk : key.Terminated) (ha : ∀ m < j, (a m).Terminated) :
    firstOf (insertEntry key j a).1 (j + 1) =
      (List.orderedInsert (fun s t => InOrder t s) key (firstOf a j).reverse).reverse := by
  induction j generalizing a with
  | zero =>
    show [Function.update a 0 key 0] = [key]
    rw [Function.update_self]
  | succ j ih =>
    rw [firstOf_succ a j, List.reverse_append, insertEntry]
    show _ = (List.orderedInsert _ key (a j :: (firstOf a j).reverse)).reverse
    rw [List.orderedInsert_cons, if_congr (compare_le (ha j (Nat.lt_succ_self j)) hk) rfl rfl]
    by_cases hle : (a j).order ≤ key.order
    · have hin : InOrder (a j) key := hle
      rw [if_pos hle, if_pos hin, firstOf_succ]
      simp only [Function.update_self]
      rw [firstOf_congr fun m hm => Function.update_of_ne (by omega) key a, firstOf_succ,
        List.reverse_cons, List.reverse_cons, List.reverse_reverse]
    · have hin : ¬ InOrder (a j) key := hle
      rw [if_neg hle, if_neg hin, List.reverse_cons, firstOf_succ]
      have hshift : ∀ m < j, Function.update a (j + 1) (a j) m = a m :=
        fun m hm => Function.update_of_ne (by omega) _ _
      have hrest := ih (a := Function.update a (j + 1) (a j)) fun m hm => by
        rw [hshift m hm]
        exact ha m (Nat.lt_succ_of_lt hm)
      simp only
      rw [hrest, firstOf_congr hshift, insertEntry_behind (Nat.lt_succ_self j), Function.update_self]

/-- **The outer loop** sorts, and what is sorted before stays in order. -/
theorem sortEntries_list {l : List Entry} (ha : ∀ m < i + k, (a m).Terminated)
    (hl : firstOf a i = stableSort InOrder l) :
    firstOf (sortEntries k i a).1 (i + k) =
      stableSort InOrder (l ++ (List.range' i k).map a) := by
  induction k generalizing i a l with
  | zero =>
    show firstOf a i = stableSort InOrder (l ++ [])
    rw [hl, List.append_nil]
  | succ k ih =>
    have hins := insertEntry_list (ha i (by omega)) fun m (hm : m < i) => ha m (by omega)
    rw [sortEntries]
    simp only
    set b := (insertEntry (a i) i a).1 with hb
    have hbehind : ∀ m, i < m → b m = a m := fun m hm => insertEntry_behind hm
    have hterm : ∀ m < i + 1 + k, (b m).Terminated := by
      intro m hm
      by_cases him : i < m
      · rw [hbehind m him]
        exact ha m (by omega)
      · have hmem : b m ∈ firstOf b (i + 1) :=
          List.mem_map_of_mem (List.mem_range.mpr (by omega))
        rw [hins, List.mem_reverse, List.mem_orderedInsert, List.mem_reverse] at hmem
        rcases hmem with he | hmem
        · rw [he]
          exact ha i (by omega)
        · obtain ⟨m', hm', he⟩ := List.mem_map.mp hmem
          rw [← he]
          exact ha m' (by have := List.mem_range.mp hm'; omega)
    have hsorted : firstOf b (i + 1) = stableSort InOrder (l ++ [a i]) := by
      rw [hins, stableSort_concat, hl]
    have hrest := ih hterm hsorted
    have hsame : (List.range' (i + 1) k).map b = (List.range' (i + 1) k).map a :=
      List.map_congr_left fun m hm => hbehind m (by have := (List.mem_range'_1.mp hm).1; omega)
    rw [Nat.add_assoc, Nat.add_comm 1 k, hsame, List.append_assoc] at hrest
    rw [List.range'_succ, List.map_cons]
    exact hrest

/-- the whole array is sorted -/
theorem sortEntries_all (ha : ∀ m < n, (a m).Terminated) :
    firstOf (sortEntries (n - 1) 1 a).1 n = stableSort InOrder (firstOf a n) := by
  cases n with
  | zero => rfl
  | succ n =>
    have hall := sortEntries_list (i := 1) (k := n) (a := a) (l := [a 0])
      (fun m hm => ha m (by omega)) rfl
    have hfirst : firstOf a (n + 1) = [a 0] ++ (List.range' 1 n).map a := by
      unfold firstOf
      rw [List.range_eq_range', List.range'_succ]
      rfl
    rw [hfirst, Nat.add_sub_cancel]
    rwa [Nat.add_comm 1 n] at hall

/-! ## the entries that are taken -/

theorem newEntry_describes (fs : Fs) {de : DirEntry} (hlen : de.name.length ≤ 12) :
    Describes fs de (newEntry fs de) ∧ (newEntry fs de).Terminated := by
  have hwhile : (de.name.takeWhile (· ≠ 0)).length ≤ 12 :=
    (List.takeWhile_prefix _).length_le.trans hlen
  have hname : entryName de.name = de.name.takeWhile (· ≠ 0) := List.take_of_length_le hwhile
  have hpath : pathOf (entryName de.name) = 0x2F :: de.name.takeWhile (· ≠ 0) := by
    rw [hname]
    exact congrArg (List.cons _) (List.take_of_length_le hwhile)
  have hzero : 0 ∉ entryName de.name := by
    rw [hname]
    intro h0
    have hne := List.mem_takeWhile_imp h0
    simp at hne
  unfold newEntry
  simp only [hpath]
  cases hstat : fs.stat (0x2F :: de.name.takeWhile (· ≠ 0)) with
  | none =>
    refine ⟨⟨rfl, hname, fun mode size h => ?_⟩, hzero⟩
    rw [show (_ : Entry).name = _ from hname, hstat] at h
    cases h
  | some st =>
    obtain ⟨mode', size'⟩ := st
    refine ⟨⟨rfl, hname, fun mode size h => ?_⟩, hzero⟩
    rw [show (_ : Entry).name = _ from hname, hstat] at h
    cases h
    exact ⟨rfl, rfl⟩

/-- **The first loop** takes the listed entries, as far as there is room. -/
theorem fill_list (fs : Fs) (l : List DirEntry) (hn : n ≤ wmExplMaxEntries) :
    firstOf (fill fs l n a).2.1 (fill fs l n a).1 = firstOf a n ++
      ((l.filter fun de => de.Listed).take (wmExplMaxEntries - n)).map (newEntry fs) := by
  induction l generalizing n a with
  | nil =>
    rw [List.filter_nil, List.take_nil, List.map_nil, List.append_nil]
    rfl
  | cons de l ih =>
    rw [fill]
    by_cases hroom : n < wmExplMaxEntries
    · rw [if_pos hroom]
      by_cases hskip : de.inodeNr ≤ 0 ∨ de.name.head? = some 0x2E
      · have hout : ¬ de.Listed := by
          unfold DirEntry.Listed
          rcases hskip with h | h
          · exact fun hl => absurd hl.1 (not_lt.mpr h)
          · exact fun hl => hl.2 h
        rw [if_pos hskip, ih hn, List.filter_cons_of_neg (by simpa using hout)]
      · have hin : de.Listed := by
          obtain ⟨h1, h2⟩ := not_or.mp hskip
          exact ⟨not_le.mp h1, h2⟩
        have hnext := ih (a := Function.update a n (newEntry fs de))
          (show n + 1 ≤ wmExplMaxEntries from hroom)
        have hsame : firstOf (Function.update a n (newEntry fs de)) n = firstOf a n :=
          firstOf_congr fun m hm => Function.update_of_ne (by omega) _ _
        rw [firstOf_succ, hsame, Function.update_self, List.append_assoc] at hnext
        rw [if_neg hskip, List.filter_cons_of_pos (by simpa using hin),
          show wmExplMaxEntries - n = wmExplMaxEntries - (n + 1) + 1 by omega, List.take_succ_cons,
          List.map_cons]
        exact hnext
    · rw [if_neg hroom, show wmExplMaxEntries - n = 0 by omega, List.take_zero, List.map_nil,
        List.append_nil]

end

/-! ## expl_refresh -/

section
variable {f : Files} {fs : Fs} {content : List Byte}

theorem mem_of_wanted {l : List DirEntry} {de : DirEntry} (h : de ∈ wanted l) : de ∈ l :=
  List.mem_of_mem_filter (List.mem_of_mem_take h)

theorem wmExplScrollToCursor_listing (f : Files) (stray : Int) :
    (f.wmExplScrollToCursor stray).listing = f.listing := by
  unfold Files.wmExplScrollToCursor Files.wmExplVisibleRows
  simp only
  split_ifs <;> rfl

/-- every entry that is listed has a name that ends -/
theorem wanted_terminated (fs : Fs) {l : List DirEntry} (hnames : ∀ de ∈ l, de.name.length ≤ 12) :
    ∀ e ∈ (wanted l).map (newEntry fs), e.Terminated := by
  intro e he
  obtain ⟨de, hde, rfl⟩ := List.mem_map.mp he
  exact (newEntry_describes fs (hnames de (mem_of_wanted hde))).2

/-- **The list** is sorted. -/
theorem explRefresh_listing {l : List DirEntry} (hd : fs.dir = .entries l)
    (hnames : ∀ de ∈ l, de.name.length ≤ 12) :
    (f.explRefresh fs).1.listing = stableSort InOrder ((wanted l).map (newEntry fs)) := by
  have hfill := fill_list fs l (a := f.entries) (Nat.zero_le wmExplMaxEntries)
  rw [Nat.sub_zero] at hfill
  have hlist : firstOf (fill fs l 0 f.entries).2.1 (fill fs l 0 f.entries).1 =
      (wanted l).map (newEntry fs) := hfill
  have hterm : ∀ m < (fill fs l 0 f.entries).1, ((fill fs l 0 f.entries).2.1 m).Terminated := by
    intro m hm
    refine wanted_terminated fs hnames _ ?_
    rw [← hlist]
    exact List.mem_map_of_mem (List.mem_range.mpr hm)
  have hsort := sortEntries_all hterm
  rw [hlist] at hsort
  unfold Files.explRefresh
  rw [hd]
  exact (wmExplScrollToCursor_listing _ fs.stray).trans hsort

theorem rawEntries_name (raw : List Byte) : ∀ de ∈ rawEntries raw, de.name.length ≤ 12 := by
  intro de hde
  obtain ⟨k, -, rfl⟩ := List.mem_map.mp hde
  exact List.length_take_le ..

/-- the entries that are listed of those that are read -/
theorem explRefresh_root (h : fs.dir = readRoot content) : (f.explRefresh fs).1.listing =
    stableSort InOrder ((wanted ((rawEntries content).take 96)).map (newEntry fs)) := by
  rw [← rawEntries_take]
  unfold readRoot at h
  by_cases hraw : content.take explRawMax = []
  · rw [if_pos hraw] at h
    rw [hraw]
    unfold Files.explRefresh
    rw [h]
    rfl
  · rw [if_neg hraw] at h
    exact explRefresh_listing h (rawEntries_name _)

/-- the entries that are read, and the others -/
theorem listed_split (content : List Byte) : ((rawEntries content).filter fun de => de.Listed) =
    (((rawEntries content).take 96).filter fun de => de.Listed) ++
      ((rawEntries content).drop 96).filter fun de => de.Listed := by
  rw [← List.filter_append, List.take_append_drop]

/-- nothing is missed -/
theorem Whole.wanted (h : Whole content) :
    wanted ((rawEntries content).take 96) = wanted (rawEntries content) := by
  unfold Wm.wanted
  rw [listed_split]
  rcases h with hfull | hnone
  · exact (List.take_append_of_le_length hfull).symm
  · rw [show (((rawEntries content).drop 96).filter fun de => decide de.Listed) = [] from
      List.filter_eq_nil_iff.mpr fun de hde => by simpa using hnone de hde, List.append_nil]

theorem InOrder.before {s t : Entry} (hs : s.Terminated) (ht : t.Terminated) (h : InOrder s t) :
    Before s t := by
  unfold InOrder Entry.order at h
  rw [Prod.Lex.toLex_le_toLex] at h
  simp only at h
  refine ⟨fun hdir => ?_, fun hkind => (strcmp_le hs ht).mpr ?_⟩
  · by_contra hne
    rw [if_neg hne, if_pos hdir] at h
    omega
  · rw [if_congr hkind rfl rfl] at h
    exact (lex_tail _ _).mpr h

theorem Alike.order {s t : Entry} (hs : s.Terminated) (ht : t.Terminated) (h : Alike s t) :
    s.order = t.order := by
  unfold Entry.order
  rw [strcmp_eq hs ht h.2, if_congr h.1 rfl rfl]

/-- **The list is that of the directory** exactly when the read reaches far enough. -/
theorem lists_iff (f : Files) (h : fs.dir = readRoot content) :
    Lists fs content (f.explRefresh fs).1 ↔ Whole content := by
  have hlisting := explRefresh_root (f := f) h
  constructor
  · rintro ⟨⟨l, hl, hperm, -⟩, -⟩
    by_contra hw
    obtain ⟨hfew, hmore⟩ := not_or.mp hw
    obtain ⟨de, hde, hlisted⟩ : ∃ de ∈ (rawEntries content).drop 96, de.Listed := by
      by_contra hnone
      exact hmore fun de hde hin => hnone ⟨de, hde, hin⟩
    have hmiss : 0 < (((rawEntries content).drop 96).filter fun de => de.Listed).length :=
      List.length_pos_of_mem (List.mem_filter.mpr ⟨hde, decide_eq_true hlisted⟩)
    -- the list is shorter than it is to be
    have hlen := hperm.length_eq
    rw [hlisting, (stableSort_perm InOrder _).length_eq, ← hl.length_eq, List.length_map] at hlen
    unfold wanted at hlen
    rw [List.length_take, List.length_take, listed_split, List.length_append] at hlen
    omega
  · intro hw
    rw [hw.wanted] at hlisting
    have hterm : ∀ e ∈ (wanted (rawEntries content)).map (newEntry fs), e.Terminated :=
      wanted_terminated fs (rawEntries_name content)
    refine ⟨⟨(wanted (rawEntries content)).map (newEntry fs), ?_, ?_, fun e he => ?_⟩, ?_⟩
    · refine List.forall₂_map_right_iff.mpr (List.forall₂_same.mpr fun de hde => ?_)
      exact (newEntry_describes fs (rawEntries_name content de (mem_of_wanted hde))).1
    · rw [hlisting]
      exact stableSort_perm InOrder _
    · rw [hlisting]
      refine stableSort_filter InOrder fun s hs t ht hse hte => ?_
      have hs' := Alike.order (hterm s hs) (hterm e he) (of_decide_eq_true hse)
      have ht' := Alike.order (hterm t ht) (hterm e he) (of_decide_eq_true hte)
      exact (hs'.trans ht'.symm).le
    · rw [hlisting]
      refine (stableSort_pairwise InOrder _).imp_of_mem fun {s t} hs ht hst => ?_
      have hperm := stableSort_perm InOrder ((wanted (rawEntries content)).map (newEntry fs))
      exact InOrder.before (hterm s (hperm.mem_iff.mp hs)) (hterm t (hperm.mem_iff.mp ht)) hst

end

/-- a file system with this directory, of regular files -/
def rootOf (content : List Byte) : Fs where
  dir := readRoot content
  stat := fun _ => some (0x8000, 5)
  file := fun _ => none
  unlinked := fun _ => false
  stray := 0

/-- an entry of the directory with inode number 2 and the name `f` -/
def fEntry : List Byte := [2, 0, 0, 0, 0x66] ++ List.replicate 11 0

/-- a directory of one file -/
theorem lists_iff_one : Lists (rootOf fEntry) fEntry (noFiles.explRefresh (rootOf fEntry)).1 ↔
    Whole fEntry :=
  lists_iff noFiles rfl

/-- 96 entries of files that are removed, and one of a file that is there -/
def holes : List Byte := List.replicate 1536 0 ++ fEntry

theorem rawEntry_free (n o : Nat) : ¬ (rawEntry (List.replicate n 0) o).Listed := by
  have hzero : get32 (fun a => (List.replicate n (0 : Byte)).getD a 0) o = 0 := by
    have hbyte : ∀ a, (List.replicate n (0 : Byte)).getD a 0 = 0 := by
      intro a
      rw [List.getD_eq_getElem?_getD, List.getElem?_replicate]
      split_ifs <;> rfl
    unfold get32
    simp only [hbyte]
    rfl
  intro h
  have hpos := h.1
  unfold rawEntry at hpos
  rw [hzero] at hpos
  exact lt_irrefl _ hpos

theorem not_whole_holes : ¬ Whole holes := by
  have hread : (rawEntries holes).take 96 = rawEntries (List.replicate 1536 0) := by
    rw [← rawEntries_take]
    exact congrArg rawEntries (List.take_left' List.length_replicate)
  have hlast : (rawEntries holes).drop 96 = [rawEntry holes 1536] := by
    have hlen : holes.length = 1552 := by
      unfold holes
      rw [List.length_append, List.length_replicate]
      rfl
    unfold rawEntries
    rw [hlen, show 1552 / 16 = 96 + 1 from rfl, List.range_succ, List.map_append]
    exact List.drop_left' (by rw [List.length_map, List.length_range])
  have hnone : ((rawEntries (List.replicate 1536 0)).filter fun de => de.Listed) = [] := by
    refine List.filter_eq_nil_iff.mpr fun de hde => ?_
    obtain ⟨k, -, rfl⟩ := List.mem_map.mp hde
    exact fun h => rawEntry_free 1536 (k * 16) (of_decide_eq_true h)
  unfold Whole
  rw [hread, hlast, hnone, List.forall_mem_singleton]
  rintro (hfull | hfree)
  · exact absurd hfull (by decide)
  · exact hfree (by decide +kernel)

/-- **The file is not listed.** -/
theorem lists_fails : ¬ Lists (rootOf holes) holes (noFiles.explRefresh (rootOf holes)).1 := by
  rw [lists_iff noFiles rfl]
  exact not_whole_holes

end Noxis.Wm
