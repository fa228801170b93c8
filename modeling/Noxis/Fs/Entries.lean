import Mathlib.Data.List.TakeWhile
import Noxis.Fs.Dir

/-!
# Entries of the root directory

The entries of the directory are numbered through all its sectors, 32 to a sector.

* `entNr d a k`, `entKey d a k`   the inode number and the name of entry `k`, the directory being at
                                  sector `a` of the disk `d`
* `Name`               a name of 1 to 12 characters
* `searchFile_spec`    `search_file` returns the number of the first entry with the name
* `freeInSects_spec`   where `new_dir_entry` puts an entry
* `nrInSects_spec`     which entry `do_unlink` clears
-/

namespace Noxis.Fs

/-- byte `o` of entry `k` -/
def entByte (d : Disk) (a k o : Nat) : Byte := d (a + k / 32) (k % 32 * 16 + o)

def entNr (d : Disk) (a k : Nat) : Nat := get32 (entByte d a k) 0

/-- the 12 bytes of a name -/
abbrev Key : Type := Fin 12 → Byte

def entKey (d : Disk) (a k : Nat) : Key := fun i => entByte d a k (4 + i)

/-- a name with zeros behind it -/
def pad (filename : List Byte) : Key := fun i => filename.getD i 0

/-! ## names -/

/-- a name of 1 to MAX_FILENAME_LEN characters -/
structure Name where
  bytes : List Byte
  pos : bytes ≠ []
  len : bytes.length ≤ 12
  noNul : 0 ∉ bytes
  noSlash : slash ∉ bytes
  deriving DecidableEq

/-- with or without the `/` before it -/
def Name.path (f : Name) (rooted : Bool) : List Byte := if rooted then slash :: f.bytes else f.bytes

theorem stripName_self (l : List Byte) (n : Nat) (hl : l.length ≤ n) (hs : slash ∉ l) :
    stripName n l = some l := by
  induction l generalizing n with
  | nil => cases n <;> rfl
  | cons c l ih =>
    cases n with
    | zero => exact absurd hl (by simp)
    | succ n =>
      have hc : c ≠ slash := fun h => hs (h ▸ List.mem_cons_self ..)
      rw [stripName, if_neg hc,
        ih n (Nat.le_of_succ_le_succ hl) fun h => hs (List.mem_cons_of_mem _ h)]
      rfl

/-- a name is the beginning of what it is taken from -/
theorem stripName_prefix {n : Nat} {l r : List Byte} (h : stripName n l = some r) :
    r <+: l ∧ r.length ≤ n := by
  induction l generalizing n r with
  | nil =>
    have hr : r = [] := by
      cases n <;> exact (Option.some.inj h).symm
    rw [hr]
    exact ⟨List.nil_prefix, Nat.zero_le _⟩
  | cons c l ih =>
    cases n with
    | zero =>
      rw [← Option.some.inj h]
      exact ⟨List.nil_prefix, le_rfl⟩
    | succ n =>
      rw [stripName] at h
      by_cases hc : c = slash
      · rw [if_pos hc] at h
        cases h
      · rw [if_neg hc] at h
        obtain ⟨r', hr', rfl⟩ := Option.map_eq_some_iff.mp h
        obtain ⟨h1, h2⟩ := ih hr'
        exact ⟨List.prefix_cons_inj c |>.mpr h1, Nat.succ_le_succ h2⟩

/-- the name of a path that is a C string -/
theorem stripPath_spec {path filename : List Byte} (h : stripPath (cString path) = some filename) :
    filename.length ≤ 12 ∧ 0 ∉ filename := by
  unfold stripPath at h
  obtain ⟨hpre, hlen⟩ := stripName_prefix h
  refine ⟨hlen, fun h0 => ?_⟩
  have hsub : ∀ {l : List Byte}, filename <+: l → (∀ c ∈ l, c ∈ cString path) →
    (0 : Byte) ∈ cString path :=
    fun hp hl => hl 0 (hp.subset h0)
  have hin : (0 : Byte) ∈ cString path := by
    by_cases hs : (cString path).head? = some slash
    · rw [if_pos hs] at hpre
      exact hsub hpre fun c hc => List.mem_of_mem_tail hc
    · rw [if_neg hs] at hpre
      exact hsub hpre fun c hc => hc
  have hne := List.mem_takeWhile_imp hin
  exact absurd hne (by decide)

theorem Name.stripPath_path (f : Name) (rooted : Bool) : stripPath (f.path rooted) = some f.bytes := by
  have hlen : f.bytes.length ≤ MAX_FILENAME_LEN := f.len
  unfold stripPath Name.path
  cases rooted with
  | true =>
    rw [if_pos rfl, List.head?_cons, if_pos rfl, List.tail_cons]
    exact stripName_self f.bytes _ hlen f.noSlash
  | false =>
    have hhead : f.bytes.head? ≠ some slash := fun h => f.noSlash (List.mem_of_mem_head? h)
    show stripName _ (if f.bytes.head? = some slash then f.bytes.tail else f.bytes) = _
    rw [if_neg hhead]
    exact stripName_self f.bytes _ hlen f.noSlash

theorem Name.cString_path (f : Name) (rooted : Bool) : cString (f.path rooted) = f.path rooted := by
  have hne : ∀ c ∈ f.path rooted, decide (c ≠ 0) = true := by
    intro c hc
    apply decide_eq_true
    rintro rfl
    cases rooted with
    | true =>
      rcases List.mem_cons.mp hc with h | h
      · exact absurd h (by decide)
      · exact f.noNul h
    | false => exact f.noNul hc
  exact List.takeWhile_eq_self_iff.mpr hne

/-- different names differ in their 12 bytes -/
theorem Name.pad_inj {f g : Name} (h : pad f.bytes = pad g.bytes) : f = g := by
  have hget : ∀ i < 12, f.bytes.getD i 0 = g.bytes.getD i 0 := fun i hi => congrFun h ⟨i, hi⟩
  -- the shorter one would have a 0 where the other one has a character
  have hlen : ∀ f g : Name, (∀ i < 12, f.bytes.getD i 0 = g.bytes.getD i 0) →
      ¬ f.bytes.length < g.bytes.length := by
    intro f g hget hlt
    have hg := hget f.bytes.length (Nat.lt_of_lt_of_le hlt g.len)
    rw [List.getD_eq_default _ _ le_rfl, List.getD_eq_getElem _ _ hlt] at hg
    exact g.noNul (hg ▸ List.getElem_mem hlt)
  have heq : f.bytes.length = g.bytes.length := by
    have h1 := hlen f g hget
    have h2 := hlen g f fun i hi => (hget i hi).symm
    omega
  have hbytes : f.bytes = g.bytes := by
    apply List.ext_getElem heq
    intro i h1 h2
    have hi := hget i (Nat.lt_of_lt_of_le h1 f.len)
    rwa [List.getD_eq_getElem _ _ h1, List.getD_eq_getElem _ _ h2] at hi
  cases f
  cases g
  cases hbytes
  rfl

/-- no name is blank -/
theorem Name.pad_ne_zero (f : Name) : pad f.bytes 0 ≠ 0 := by
  intro h
  have hlt : 0 < f.bytes.length := List.length_pos_iff.mpr f.pos
  have hget : f.bytes.getD 0 0 = 0 := h
  rw [List.getD_eq_getElem _ _ hlt] at hget
  exact f.noNul (hget ▸ List.getElem_mem hlt)

/-! ## search_file -/

section
variable {d : Disk} {a i j k m n nr o : Nat} {filename : List Byte}

theorem rdSect_entry (hi : a + i < 2 ^ 22) (hj : j < 32) (ho : o < 16) :
    rdSect d (a + i) (j * 16 + o) = entByte d a (32 * i + j) o := by
  rw [rdSect_lt (by omega), sectOf_of_lt hi]
  unfold entByte
  rw [show (32 * i + j) / 32 = i by omega, show (32 * i + j) % 32 = j by omega]

theorem entryNr_entry (hi : a + i < 2 ^ 22) (hj : j < 32) :
    entryNr (rdSect d (a + i)) j = entNr d a (32 * i + j) := by
  have hbyte : ∀ o < 4, rdSect d (a + i) (j * 16 + o) = entByte d a (32 * i + j) (0 + o) := by
    intro o ho
    rw [Nat.zero_add]
    exact rdSect_entry hi hj (by omega)
  show get32 (rdSect d (a + i)) (j * 16) = get32 (entByte d a (32 * i + j)) 0
  unfold get32
  rw [show rdSect d (a + i) (j * 16) = entByte d a (32 * i + j) 0 from hbyte 0 (by omega),
    hbyte 1 (by omega), hbyte 2 (by omega), hbyte 3 (by omega)]

theorem entryIs_entry (hi : a + i < 2 ^ 22) (hj : j < 32) :
    entryIs (rdSect d (a + i)) j filename = true ↔ entKey d a (32 * i + j) = pad filename := by
  have hbyte : ∀ k < 12, rdSect d (a + i) (j * DIR_ENTRY_SIZE + 4 + k) =
      entByte d a (32 * i + j) (4 + k) := by
    intro k hk
    rw [Nat.add_assoc]
    exact rdSect_entry hi hj (by omega)
  unfold entryIs
  rw [List.all_eq_true]
  constructor
  · intro h
    funext k
    have hk := of_decide_eq_true (h k.val (List.mem_range.mpr k.isLt))
    rw [hbyte k.val k.isLt] at hk
    exact hk
  · intro h k hk
    apply decide_eq_true
    rw [hbyte k (List.mem_range.mp hk)]
    exact congrFun h ⟨k, List.mem_range.mp hk⟩

/-- the search has passed the entries from `k₀` on: it has found the first one with the name, or it
stands at entry `k₁` -/
def Searched (d : Disk) (a nr : Nat) (filename : List Byte) (k₀ k₁ : Nat) : Nat ⊕ Nat → Prop
  | .inl v => ∃ k, k₀ ≤ k ∧ k < k₁ ∧ k ≤ nr ∧ entKey d a k = pad filename ∧
      (∀ x, k₀ ≤ x → x < k → entKey d a x ≠ pad filename) ∧ v = entNr d a k
  | .inr m => (∀ x, k₀ ≤ x → x < k₁ → x ≤ nr → entKey d a x ≠ pad filename) ∧
      m ≤ k₁ ∧ (nr < m ∨ m = k₁)

theorem searchSect_spec (hi : a + i < 2 ^ 22) (c : Nat) (hj : j + c = 32) (hm : 32 * i + j ≤ nr) :
    Searched d a nr filename (32 * i + j) (32 * i + 32)
      (searchSect (rdSect d (a + i)) filename nr c j (32 * i + j)) := by
  induction c generalizing j with
  | zero =>
    have hend : 32 * i + j = 32 * i + 32 := by omega
    exact ⟨fun x h1 h2 => absurd h1 (by omega), hend.le, .inr hend⟩
  | succ c ih =>
    rw [searchSect]
    by_cases he : entryIs (rdSect d (a + i)) j filename = true
    · rw [if_pos he]
      refine ⟨32 * i + j, le_rfl, by omega, hm, (entryIs_entry hi (by omega)).mp he,
        fun x h1 h2 => absurd h1 (by omega), entryNr_entry hi (by omega)⟩
    · rw [if_neg he]
      have hne : entKey d a (32 * i + j) ≠ pad filename := fun h =>
        he ((entryIs_entry hi (by omega)).mpr h)
      by_cases hlt : nr < 32 * i + j + 1
      · rw [if_pos hlt]
        refine ⟨fun x h1 h2 h3 => ?_, by omega, .inl hlt⟩
        rw [show x = 32 * i + j by omega]
        exact hne
      · rw [if_neg hlt]
        have hnext := ih (j := j + 1) (by omega) (by omega)
        rw [← Nat.add_assoc] at hnext
        -- the entry that was looked at is not the one
        have hstep : ∀ x, 32 * i + j ≤ x → x ≠ 32 * i + j → 32 * i + j + 1 ≤ x := by
          intro x h1 h2
          omega
        cases hs : searchSect (rdSect d (a + i)) filename nr c (j + 1) (32 * i + j + 1) with
        | inl v =>
          rw [hs] at hnext
          obtain ⟨k, h1, h2, h3, h4, h5, h6⟩ := hnext
          refine ⟨k, by omega, h2, h3, h4, fun x hx1 hx2 => ?_, h6⟩
          by_cases hx : x = 32 * i + j
          · rw [hx]
            exact hne
          · exact h5 x (hstep x hx1 hx) hx2
        | inr m =>
          rw [hs] at hnext
          refine ⟨fun x hx1 hx2 hx3 => ?_, hnext.2⟩
          by_cases hx : x = 32 * i + j
          · rw [hx]
            exact hne
          · exact hnext.1 x (hstep x hx1 hx) hx2 hx3

end

section
variable {s : FsState}

/-- `search_file` looks at entry `k`: it looks at one entry more than there are, if that one is in a
sector that it reads -/
def FsState.Looks (s : FsState) (k : Nat) : Prop :=
  k ≤ s.nrDirEntries ∧ k < 32 * ((s.root.size + 511) / 512)

/-- the number of entry `k` of the root directory -/
def FsState.nr (s : FsState) (k : Nat) : Nat := entNr s.disk s.root.startSect k

/-- the name of entry `k` -/
def FsState.key (s : FsState) (k : Nat) : Key := entKey s.disk s.root.startSect k

theorem searchSects_spec (filename : List Byte) {blks i : Nat} (c : Nat) (hc : i + c = blks)
    (hb : s.root.startSect + blks ≤ 2 ^ 22) (hi : 32 * i ≤ s.nrDirEntries ∨ c = 0) :
    let r := searchSects s filename c i (32 * i)
    (∃ k, 32 * i ≤ k ∧ k ≤ s.nrDirEntries ∧ k < 32 * blks ∧ s.key k = pad filename ∧
      (∀ x, 32 * i ≤ x → x < k → s.key x ≠ pad filename) ∧ r = s.nr k) ∨
    (∀ x, 32 * i ≤ x → x ≤ s.nrDirEntries → x < 32 * blks → s.key x ≠ pad filename) ∧ r = 0 := by
  induction c generalizing i with
  | zero => exact .inr ⟨fun x h1 _ h3 => absurd h1 (by omega), rfl⟩
  | succ c ih =>
    intro r
    have hle : 32 * i ≤ s.nrDirEntries := hi.resolve_right (by omega)
    have hsect : Searched s.disk s.root.startSect s.nrDirEntries filename (32 * i + 0) (32 * i + 32)
        (searchSect (rdSect s.disk (s.root.startSect + i)) filename s.nrDirEntries perSect 0
          (32 * i)) :=
      searchSect_spec (by omega) 32 (Nat.zero_add 32) hle
    rw [Nat.add_zero] at hsect
    have hr : r = match searchSect (rdSect s.disk (s.root.startSect + i)) filename s.nrDirEntries
        perSect 0 (32 * i) with
      | .inl inodeNr => inodeNr
      | .inr m => if s.nrDirEntries < m then 0 else searchSects s filename c (i + 1) m := rfl
    rw [hr]
    cases hs : searchSect (rdSect s.disk (s.root.startSect + i)) filename s.nrDirEntries perSect 0
        (32 * i) with
    | inl v =>
      rw [hs] at hsect
      obtain ⟨k, h1, h2, h3, h4, h5, h6⟩ := hsect
      exact .inl ⟨k, h1, h3, by omega, h4, h5, h6⟩
    | inr m =>
      rw [hs] at hsect
      obtain ⟨hnone, hm, hend⟩ := hsect
      show (∃ k, _ ∧ _ ∧ _ ∧ _ ∧ _ ∧ (if s.nrDirEntries < m then 0 else _) = _) ∨
        _ ∧ (if s.nrDirEntries < m then 0 else _) = 0
      by_cases hlt : s.nrDirEntries < m
      · rw [if_pos hlt]
        exact .inr ⟨fun x h1 h2 _ => hnone x h1 (by omega) h2, rfl⟩
      · rw [if_neg hlt, hend.resolve_left hlt]
        have hnext := ih (i := i + 1) (by omega) (.inl (by omega))
        rw [Nat.mul_succ] at hnext
        rcases hnext with ⟨k, h1, h2, h3, h4, h5, h6⟩ | ⟨h1, h2⟩
        · refine .inl ⟨k, by omega, h2, h3, h4, fun x hx1 hx2 => ?_, h6⟩
          by_cases hx : x < 32 * i + 32
          · exact hnone x hx1 hx (by omega)
          · exact h5 x (by omega) hx2
        · refine .inr ⟨fun x hx1 hx2 hx3 => ?_, h2⟩
          by_cases hx : x < 32 * i + 32
          · exact hnone x hx1 hx hx2
          · exact h1 x (by omega) hx2 hx3

/-- **search_file.**  It returns the number of the first entry with the name, or 0. -/
theorem searchFile_name {path filename : List Byte}
    (hb : s.root.startSect + (s.root.size + 511) / 512 ≤ 2 ^ 22)
    (hp : stripPath path = some filename) (hne : filename ≠ []) :
    (∃ k, s.Looks k ∧ s.key k = pad filename ∧ (∀ x < k, s.key x ≠ pad filename) ∧
      searchFile s path = s.nr k) ∨
    (∀ k, s.Looks k → s.key k ≠ pad filename) ∧ searchFile s path = 0 := by
  have hsearch : searchFile s path = searchSects s filename ((s.root.size + 511) / 512) 0 0 := by
    unfold searchFile
    rw [hp]
    cases filename with
    | nil => exact absurd rfl hne
    | cons c l => rfl
  have hspec := searchSects_spec (s := s) (i := 0) filename
    ((s.root.size + 511) / 512) (Nat.zero_add _) hb (.inl (Nat.zero_le _))
  rw [hsearch]
  rcases hspec with ⟨k, -, h2, h3, h4, h5, h6⟩ | ⟨h1, h2⟩
  · exact .inl ⟨k, ⟨h2, h3⟩, h4, fun x hx => h5 x (Nat.zero_le _) hx, h6⟩
  · exact .inr ⟨fun k hk => h1 k (Nat.zero_le _) hk.1 hk.2, h2⟩

theorem searchFile_spec (hb : s.root.startSect + (s.root.size + 511) / 512 ≤ 2 ^ 22) (f : Name)
    (rooted : Bool) :
    (∃ k, s.Looks k ∧ s.key k = pad f.bytes ∧ (∀ x < k, s.key x ≠ pad f.bytes) ∧
      searchFile s (f.path rooted) = s.nr k) ∨
    (∀ k, s.Looks k → s.key k ≠ pad f.bytes) ∧ searchFile s (f.path rooted) = 0 :=
  searchFile_name hb (f.stripPath_path rooted) f.pos

/-! ## new_dir_entry -/

/-- the first free entry in a sector, or the end of the directory -/
theorem freeInSect_spec {d : Disk} {a i j : Nat} (nr : Nat) (hi : a + i < 2 ^ 22) (c : Nat)
    (hj : j + c = 32) (hm : 32 * i + j ≤ nr)
    (hfull : ∀ x, 32 * i ≤ x → x < 32 * i + j → entNr d a x ≠ 0) :
    let r := freeInSect (rdSect d (a + i)) nr c j (32 * i + j)
    (nr < r.2.1 ∨ r.2.2 = true) ∧ r.1 < 32 ∧ 32 * i + r.1 ≤ nr ∧
      (r.2.2 = true ↔ 32 * i + r.1 < nr) ∧ (r.2.2 = true → entNr d a (32 * i + r.1) = 0) ∧
      (∀ x, 32 * i ≤ x → x < 32 * i + r.1 → entNr d a x ≠ 0) ∨
    r.2.1 = 32 * i + 32 ∧ ¬ nr < r.2.1 ∧ r.2.2 = false ∧
      ∀ x, 32 * i ≤ x → x < 32 * i + 32 → entNr d a x ≠ 0 := by
  induction c generalizing j with
  | zero =>
    have hend : 32 * i + j = 32 * i + 32 := by omega
    rw [hend] at hfull hm
    exact .inr ⟨hend, by show ¬ nr < 32 * i + j; omega, rfl, hfull⟩
  | succ c ih =>
    intro r
    have hr : r = if nr < 32 * i + j + 1 then (j, 32 * i + j + 1, false)
        else if entryNr (rdSect d (a + i)) j = 0 then (j, 32 * i + j + 1, true)
        else freeInSect (rdSect d (a + i)) nr c (j + 1) (32 * i + j + 1) := rfl
    rw [hr]
    by_cases hlt : nr < 32 * i + j + 1
    · rw [if_pos hlt]
      refine .inl ⟨.inl hlt, by show j < 32; omega, hm, ?_, nofun, hfull⟩
      exact iff_of_false nofun (by show ¬ 32 * i + j < nr; omega)
    · rw [if_neg hlt, entryNr_entry hi (by omega)]
      by_cases h0 : entNr d a (32 * i + j) = 0
      · rw [if_pos h0]
        refine .inl ⟨.inr rfl, by show j < 32; omega, hm, ?_, fun _ => h0, hfull⟩
        exact iff_of_true rfl (by show 32 * i + j < nr; omega)
      · rw [if_neg h0]
        refine ih (j := j + 1) (by omega) (by omega) fun x h1 h2 => ?_
        by_cases hx : x = 32 * i + j
        · rw [hx]
          exact h0
        · exact hfull x h1 (by omega)

/-- **Where a new entry goes**: to the first free entry, or to the end of the directory. -/
theorem freeInSects_spec {i : Nat} (c : Nat) (hc : i + c = s.nrDirEntries / 32 + 1)
    (hb : s.root.startSect + s.nrDirEntries / 32 < 2 ^ 22) (hi : 32 * i ≤ s.nrDirEntries)
    (hfull : ∀ x < 32 * i, s.nr x ≠ 0) :
    ∃ k ≤ s.nrDirEntries, (∀ x < k, s.nr x ≠ 0) ∧ (k < s.nrDirEntries → s.nr k = 0) ∧
      freeInSects s c i (32 * i) = (k / 32, k % 32, decide (k < s.nrDirEntries)) := by
  induction c generalizing i with
  | zero => omega
  | succ c ih =>
    have hsect := freeInSect_spec (d := s.disk) (a := s.root.startSect) (i := i) (j := 0)
      s.nrDirEntries (by omega) 32 (Nat.zero_add 32) hi fun x h1 h2 => absurd h1 (by omega)
    simp only at hsect
    have hr : freeInSects s (c + 1) i (32 * i) =
        let r := freeInSect (rdSect s.disk (s.root.startSect + i)) s.nrDirEntries 32 0 (32 * i + 0)
        if s.nrDirEntries < r.2.1 ∨ r.2.2 then (i, r.1, r.2.2)
        else freeInSects s c (i + 1) r.2.1 := rfl
    rw [hr]
    generalize freeInSect (rdSect s.disk (s.root.startSect + i)) s.nrDirEntries 32 0 (32 * i + 0) = r
      at hsect ⊢
    obtain ⟨j, m, found⟩ := r
    simp only at hsect ⊢
    rcases hsect with ⟨hstop, hj, hle, hfound, hfree, hbefore⟩ | ⟨hm, hgo, hnot, hall⟩
    · rw [if_pos hstop]
      refine ⟨32 * i + j, hle, fun x hx => ?_, fun hx => hfree (hfound.mpr hx), ?_⟩
      · by_cases hxi : x < 32 * i
        · exact hfull x hxi
        · exact hbefore x (by omega) hx
      · have hdec : found = decide (32 * i + j < s.nrDirEntries) :=
          Bool.eq_iff_iff.mpr (hfound.trans decide_eq_true_iff.symm)
        rw [show (32 * i + j) / 32 = i by omega, show (32 * i + j) % 32 = j by omega, hdec]
    · rw [if_neg (by rw [hnot]; exact fun hc => hc.elim hgo nofun), hm]
      refine ih (i := i + 1) (by omega) (by omega) fun x hx => ?_
      by_cases hxi : x < 32 * i
      · exact hfull x hxi
      · exact hall x (by omega) (by omega)

/-! ## do_unlink -/

/-- the search for an entry passes no entry with the number -/
theorem nrInSect_spec {d : Disk} {a i j k v : Nat} (nr : Nat) (hi : a + i < 2 ^ 22) (c : Nat)
    (size : Nat) (hj : j + c = 32) (hk : 32 * i + j ≤ k) (hnr : k < nr) (hv : entNr d a k = v) :
    let r := nrInSect (rdSect d (a + i)) nr v c j (32 * i + j) size
    r.2.2.2 = true ∨ 32 * i + 32 ≤ k ∧ r.2.1 = 32 * i + 32 := by
  induction c generalizing j size with
  | zero =>
    have hend : 32 * i + j = 32 * i + 32 := by omega
    exact .inr ⟨hend ▸ hk, hend⟩
  | succ c ih =>
    intro r
    have hr : r = if nr < 32 * i + j + 1 then (j, 32 * i + j + 1, size, false)
        else if entryNr (rdSect d (a + i)) j = v then (j, 32 * i + j + 1, size, true)
        else nrInSect (rdSect d (a + i)) nr v c (j + 1) (32 * i + j + 1)
          (if entryNr (rdSect d (a + i)) j ≠ INVALID_INODE then size + DIR_ENTRY_SIZE else size) := rfl
    rw [hr, if_neg (by omega), entryNr_entry hi (by omega)]
    by_cases he : entNr d a (32 * i + j) = v
    · rw [if_pos he]
      exact .inl rfl
    · rw [if_neg he]
      refine ih (j := j + 1) _ (by omega) ?_
      have hne : k ≠ 32 * i + j := fun hc => he (hc ▸ hv)
      omega

/-- **The entry that `do_unlink` clears is found**, when there is one with the number. -/
theorem nrInSects_spec {i k v : Nat} (c size : Nat) (hc : i + c = s.nrDirEntries / 32 + 1)
    (hb : s.root.startSect + s.nrDirEntries / 32 < 2 ^ 22) (hi : 32 * i ≤ k) (hk : k < s.nrDirEntries)
    (hv : s.nr k = v) :
    ∃ r, nrInSects s v c i (32 * i) size = some r ∧ r.1 ≤ s.nrDirEntries / 32 := by
  induction c generalizing i size with
  | zero => omega
  | succ c ih =>
    have hsect := nrInSect_spec (d := s.disk) (a := s.root.startSect) (i := i) (j := 0)
      s.nrDirEntries (by omega) 32 size (Nat.zero_add 32) hi hk hv
    simp only at hsect
    have hr : nrInSects s v (c + 1) i (32 * i) size =
        let r := nrInSect (rdSect s.disk (s.root.startSect + i)) s.nrDirEntries v 32 0 (32 * i + 0) size
        if r.2.2.2 then some (i, r.1, r.2.1, r.2.2.1)
        else if s.nrDirEntries < r.2.1 then none
        else nrInSects s v c (i + 1) r.2.1 r.2.2.1 := rfl
    rw [hr]
    generalize
      nrInSect (rdSect s.disk (s.root.startSect + i)) s.nrDirEntries v 32 0 (32 * i + 0) size = r
      at hsect ⊢
    obtain ⟨j, m, size', found⟩ := r
    simp only at hsect ⊢
    by_cases hf : found = true
    · rw [if_pos hf]
      exact ⟨_, rfl, by show i ≤ _; omega⟩
    · obtain ⟨hle, hm⟩ := hsect.resolve_left hf
      rw [if_neg hf, if_neg (by omega), hm]
      exact ih (i := i + 1) _ (by omega) (by omega)

end

end Noxis.Fs
