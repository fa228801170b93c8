import Mathlib.Data.List.TakeWhile
import Noxis.Fixes.Ascii

/-!
# 25-osfs11: vsprintf

`i2a` and `vsprintf` of lib/vsprintf.c, for any format and arguments, and when the numbers that they
and `int_to_ascii` of 23-fixes print are exact.

* `i2a`             the digits, with `%` and `/` that round to zero
* `Printer.step`    a character of the format
* `step_directive`  a directive with its flag and width
* `printed_iff`     **which numbers are printed exactly**
-/

namespace Noxis.Tty
open Signed Numeral Fixes

theorem natAbs_tdiv_lt {base : Nat} {val : Int} (hb : 2 ≤ base) (h : val.tdiv base ≠ 0) :
    (val.tdiv base).natAbs < val.natAbs := by
  have hpos : 0 < val.natAbs := by
    rw [Int.natAbs_pos]
    intro h0
    rw [h0, Int.zero_tdiv] at h
    exact h rfl
  rw [Int.natAbs_tdiv, Int.natAbs_natCast]
  exact Nat.div_lt_self hpos hb

/-- `i2a` -/
def i2a (base : Nat) (hb : 2 ≤ base) (val : Int) : List Char :=
  let m := val.tmod base
  let q := val.tdiv base
  (if _h : q ≠ 0 then i2a base hb q else []) ++
    [if m < 10 then Signed.chr (m + 48) else Signed.chr (m - 10 + 65)]
termination_by val.natAbs
decreasing_by exact natAbs_tdiv_lt hb _h

/-- where in the format it is: in the text, behind a %, or at the width, with `cs` and `align_nr` -/
inductive Mode where
  | text
  | flag
  | width (cs : Char) (alignNr : Int)
  deriving DecidableEq, Repr

/-- `p_next_arg`, as a number of arguments, and what is in `buf` -/
structure Printer where
  mode : Mode
  arg : Nat
  out : List Char
  deriving DecidableEq, Repr

/-- what a conversion writes to `inner_buf`; a `%s` has room there -/
def innerBuf (strAt : BitVec 32 → List Char) (arg : BitVec 32) (c : Char) : List Char :=
  if c = 'c' then [Signed.chr arg.toInt]
  else if c = 'x' then i2a 16 (by decide) arg.toInt
  else if c = 'd' then
    let m := arg.toInt
    if m < 0 then '-' :: i2a 10 (by decide) (int (m * -1)) else i2a 10 (by decide) m
  else if c = 's' then strAt arg
  else []

/-- the copy to `buf`, aligned with `cs`; the string ends at its NUL -/
def aligned (cs : Char) (alignNr : Int) (l : List Char) : List Char :=
  let s := l.takeWhile (· ≠ NUL)
  List.replicate (alignNr - s.length).toNat cs ++ s

section
variable (strAt : BitVec 32 → List Char) (args : Nat → BitVec 32)

def Printer.convert (p : Printer) (cs : Char) (alignNr : Int) (c : Char) : Printer where
  mode := .text
  arg := if c ∈ ['c', 'x', 'd', 's'] then p.arg + 1 else p.arg
  out := p.out ++ aligned cs alignNr (innerBuf strAt (args p.arg) c)

/-- `align_nr *= 10; align_nr += *fmt - '0'` -/
def widen (alignNr : Int) (c : Char) : Int := int (int (alignNr * 10) + (c.toNat - 48))

/-- a digit of the width, or the conversion -/
def Printer.width (p : Printer) (cs : Char) (alignNr : Int) (c : Char) : Printer :=
  if '0' ≤ c ∧ c ≤ '9' then { p with mode := .width cs (widen alignNr c) }
  else p.convert strAt args cs alignNr c

/-- a character of the format -/
def Printer.step (p : Printer) (c : Char) : Printer :=
  match p.mode with
  | .text => if c = '%' then { p with mode := .flag } else { p with out := p.out ++ [c] }
  | .flag =>
    if c = '%' then { p with mode := .text, out := p.out ++ [c] }
    else if c = '0' then { p with mode := .width '0' 0 }
    else p.width strAt args ' ' 0 c
  | .width cs alignNr => p.width strAt args cs alignNr c

/-- `vsprintf`, for a format that does not end in a directive -/
def vsprintf (fmt : List Char) : List Char :=
  (fmt.foldl (Printer.step strAt args) { mode := .text, arg := 0, out := [] }).out

end

/-! ## i2a -/

section
variable {base : Nat} {hb : 2 ≤ base} {m : Nat} {val : Int}

/-- the character of a remainder -/
def remChar (m : Int) : Char := if m < 10 then Signed.chr (m + 48) else Signed.chr (m - 10 + 65)

theorem i2a_last (h : val.tdiv base = 0) : i2a base hb val = [remChar (val.tmod base)] := by
  rw [i2a, dif_neg (not_not.mpr h)]
  rfl

theorem i2a_step (h : val.tdiv base ≠ 0) :
    i2a base hb val = i2a base hb (val.tdiv base) ++ [remChar (val.tmod base)] := by
  rw [i2a, dif_pos h]
  rfl

theorem remChar_eq {d : Nat} (h : d < 16) : remChar d = HEX.getD d '?' := by
  interval_cases d <;> rfl

/-- a number that is not negative, in the digits of `cs` -/
theorem i2a_natCast (cs : List Char) (hcs : 2 ≤ cs.length)
    (hdigit : ∀ d < cs.length, remChar d = cs.getD d '?') (m : Nat) :
    i2a cs.length hcs m = numeral cs m := by
  induction m using Nat.strong_induction_on with
  | _ m ih =>
    have hdiv : (m : Int).tdiv cs.length = ((m / cs.length : Nat) : Int) := (Int.ofNat_tdiv _ _).symm
    have hmod : (m : Int).tmod cs.length = ((m % cs.length : Nat) : Int) := (Int.ofNat_tmod _ _).symm
    have hchar : remChar ((m : Int).tmod cs.length) = cs.getD (m % cs.length) '?' := by
      rw [hmod]
      exact hdigit _ (Nat.mod_lt _ (by omega))
    rcases Nat.lt_or_ge m cs.length with hlt | hge
    · rw [i2a_last (by rw [hdiv, Nat.div_eq_of_lt hlt]; rfl), hchar, Nat.mod_eq_of_lt hlt,
        numeral_of_lt hlt]
    · have hq : m / cs.length ≠ 0 := by
        rw [Nat.div_ne_zero_iff]
        omega
      rw [i2a_step (by rw [hdiv]; omega), hchar, hdiv, ih _ (Nat.div_lt_self (by omega) hcs),
        numeral_step hcs hge]

theorem i2a_ten (m : Nat) : i2a 10 (by decide) m = numeral DEC m := by
  refine i2a_natCast DEC (by decide) (fun d hd => ?_) m
  have hd : d < 10 := hd
  interval_cases d <;> rfl

theorem i2a_sixteen (m : Nat) : i2a 16 (by decide) m = numeral HEX m :=
  i2a_natCast HEX (by decide) (fun _ hd => remChar_eq hd) m

/-- the character of a remainder that is not positive -/
theorem toNat_remChar_neg {d : Nat} (h : d < 16) : (remChar (-d)).toNat = 48 - d := by
  interval_cases d <;> rfl

theorem remChar_low {m : Int} (h : -16 < m) (h' : m < 16) : 33 ≤ (remChar m).toNat := by
  interval_cases m <;> decide

/-- the codes that `i2a` uses -/
theorem i2a_low (hb16 : base ≤ 16) {c : Char} (h : c ∈ i2a base hb val) : 33 ≤ c.toNat := by
  have hrem (val : Int) : 33 ≤ (remChar (val.tmod base)).toNat := by
    have h1 := Int.lt_tmod_of_pos val (b := base) (by omega)
    have h2 := Int.tmod_lt_of_pos val (b := base) (by omega)
    exact remChar_low (by omega) (by omega)
  induction hk : val.natAbs using Nat.strong_induction_on generalizing val with
  | _ k ih =>
    by_cases hq : val.tdiv base = 0
    · rw [i2a_last hq, List.mem_singleton] at h
      rw [h]
      exact hrem val
    · rw [i2a_step hq, List.mem_append, List.mem_singleton] at h
      rcases h with h | h
      · exact ih _ (hk ▸ natAbs_tdiv_lt hb hq) h rfl
      · rw [h]
        exact hrem val

/-- a negative number has a character below the digits -/
theorem exists_low (hb16 : base ≤ 16) (hm : 0 < m) : ∃ c ∈ i2a base hb (-m), c.toNat < 48 := by
  induction m using Nat.strong_induction_on with
  | _ m ih =>
    have hdiv : (-(m : Int)).tdiv base = -((m / base : Nat) : Int) := by
      rw [Int.neg_tdiv, Int.ofNat_tdiv]
    by_cases hq : m / base = 0
    · have hlt : m < base := by
        rw [Nat.div_eq_zero_iff] at hq
        omega
      have hmod : (-(m : Int)).tmod base = -(m : Int) := by
        rw [Int.neg_tmod, ← Int.ofNat_tmod, Nat.mod_eq_of_lt hlt]
      refine ⟨remChar (-m), ?_, ?_⟩
      · rw [i2a_last (by rw [hdiv, hq]; rfl), hmod]
        exact List.mem_singleton_self _
      · rw [toNat_remChar_neg (by omega)]
        omega
    · obtain ⟨c, hc, hlow⟩ := ih _ (Nat.div_lt_self hm (by omega)) (Nat.pos_of_ne_zero hq)
      refine ⟨c, ?_, hlow⟩
      rw [i2a_step (by rw [hdiv]; omega), hdiv]
      exact List.mem_append_left _ hc

end

/-! ## a directive -/

section
variable {strAt : BitVec 32 → List Char} {args : Nat → BitVec 32} {p : Printer} {ds : List Char}
  {cs c : Char}

/-- the characters are digits -/
def Digits (ds : List Char) : Prop := ∀ c ∈ ds, '0' ≤ c ∧ c ≤ '9'

/-- the flag: a width that begins with 0 is filled with zeros -/
def fill (ds : List Char) : Char := if ds.head? = some '0' then '0' else ' '

theorem fill_zero (ds : List Char) : fill ('0' :: ds) = '0' := if_pos rfl

theorem fill_of_ne (h : c ≠ '0') (ds : List Char) : fill (c :: ds) = ' ' :=
  if_neg fun he => h (Option.some.inj he)

theorem width_digits (n : Int) (hm : p.mode = .width cs n) (hd : Digits ds) :
    ds.foldl (Printer.step strAt args) p = { p with mode := .width cs (ds.foldl widen n) } := by
  induction ds generalizing p n with
  | nil =>
    show p = { p with mode := .width cs n }
    rw [← hm]
  | cons d ds ih =>
    have hstep : p.step strAt args d = { p with mode := .width cs (widen n d) } := by
      unfold Printer.step
      rw [hm]
      exact if_pos (hd d List.mem_cons_self)
    rw [List.foldl_cons, hstep, ih (widen n d) rfl fun c hc => hd c (List.mem_cons_of_mem _ hc)]
    rfl

/-- **a directive**: %, flag and width, and the conversion -/
theorem step_directive (hm : p.mode = .text) (hd : Digits ds) (hc : ¬ ('0' ≤ c ∧ c ≤ '9'))
    (hp : c ≠ '%') : ('%' :: ds ++ [c]).foldl (Printer.step strAt args) p =
      p.convert strAt args (fill ds) (ds.foldl widen 0) c := by
  have hflag : p.step strAt args '%' = { p with mode := .flag } := by
    unfold Printer.step
    rw [hm]
    rfl
  have hend (q : Printer) (cs : Char) (n : Int) (hq : q.mode = .width cs n) :
      q.step strAt args c = q.convert strAt args cs n c := by
    unfold Printer.step
    rw [hq]
    exact if_neg hc
  rw [List.cons_append, List.foldl_cons, hflag, List.foldl_append]
  cases ds with
  | nil =>
    show (if c = '%' then _ else if c = '0' then _ else _) = _
    have h0 : c ≠ '0' := by
      intro h
      rw [h] at hc
      exact hc (by decide)
    rw [if_neg hp, if_neg h0]
    exact if_neg hc
  | cons d ds =>
    have hds : Digits ds := fun c hc => hd c (List.mem_cons_of_mem _ hc)
    obtain ⟨hlow, hhigh⟩ := hd d List.mem_cons_self
    have hfirst : ({ p with mode := .flag } : Printer).step strAt args d =
        { p with mode := .width (fill (d :: ds)) (widen 0 d) } := by
      show (if d = '%' then _ else if d = '0' then _ else _) = _
      have hpercent : d ≠ '%' := by
        intro h
        rw [h] at hlow
        exact absurd hlow (by decide)
      rw [if_neg hpercent]
      by_cases h0 : d = '0'
      · rw [if_pos h0, h0, fill_zero]
        rfl
      · rw [if_neg h0, fill_of_ne h0]
        exact if_pos ⟨hlow, hhigh⟩
    show (ds.foldl (Printer.step strAt args)
      (({ p with mode := .flag } : Printer).step strAt args d)).step strAt args c = _
    rw [hfirst, width_digits _ rfl hds]
    exact hend _ _ _ rfl

end

/-! ## the numbers that are printed -/

section
variable {c cs : Char} {n : Int} {l ds : List Char}

theorem fill_cases (ds : List Char) : fill ds = '0' ∨ fill ds = ' ' := by
  unfold fill
  split
  · exact .inl rfl
  · exact .inr rfl

theorem mem_aligned (h : c ∈ aligned cs n l) : c = cs ∨ c ∈ l := by
  unfold aligned at h
  rcases List.mem_append.mp h with h | h
  · exact .inl (List.eq_of_mem_replicate h)
  · exact .inr (List.takeWhile_subset _ h)

theorem mem_aligned_of_mem (h : c ∈ l) (hl : NUL ∉ l) : c ∈ aligned cs n l := by
  have htake : l.takeWhile (· ≠ NUL) = l := by
    rw [List.takeWhile_eq_self_iff]
    exact fun d hd => decide_eq_true fun h => hl (h ▸ hd)
  unfold aligned
  rw [htake]
  exact List.mem_append_right _ h

theorem nul_notMem_i2a {base : Nat} {hb : 2 ≤ base} (hb16 : base ≤ 16) (val : Int) :
    NUL ∉ i2a base hb val := fun h => absurd (i2a_low hb16 h) (by decide)

/-- `%d`, but for the least `int` -/
theorem innerBuf_d (strAt : BitVec 32 → List Char) {v : BitVec 32} (h : v.toInt ≠ -2 ^ 31) :
    innerBuf strAt v 'd' = decimal v.toInt := by
  have hlow := BitVec.le_toInt v
  have hhigh := BitVec.toInt_lt (x := v)
  show (if v.toInt < 0 then '-' :: i2a 10 _ (int (v.toInt * -1)) else i2a 10 _ v.toInt) = _
  unfold decimal
  by_cases hneg : v.toInt < 0
  · have hint : int (v.toInt * -1) = (v.toInt.natAbs : Int) := by
      rw [int_of_range (by omega) (by omega)]
      omega
    rw [if_pos hneg, if_pos hneg, hint, i2a_ten]
  · have hnat : i2a 10 (by decide) v.toInt = numeral DEC v.toInt.natAbs := by
      rw [← i2a_ten]
      congr 1
      omega
    rw [if_neg hneg, if_neg hneg, hnat]

/-- of the least `int` the digits are below the characters of digits -/
theorem paren_mem_innerBuf (strAt : BitVec 32 → List Char) {v : BitVec 32} (h : v.toInt = -2 ^ 31) :
    '(' ∈ innerBuf strAt v 'd' ∧ NUL ∉ innerBuf strAt v 'd' := by
  have hinner : innerBuf strAt v 'd' = '-' :: i2a 10 (by decide) (-2 ^ 31) := by
    show (if v.toInt < 0 then '-' :: i2a 10 _ (int (v.toInt * -1)) else i2a 10 _ v.toInt) = _
    rw [h]
    rfl
  rw [hinner, List.mem_cons, List.mem_cons]
  constructor
  · right
    rw [i2a_step (by decide)]
    exact List.mem_append_right _ (List.mem_singleton.mpr (by decide))
  · rintro (h | h)
    · exact absurd h (by decide)
    · exact nul_notMem_i2a (by decide) _ h

/-- `%x`, as long as the sign bit is not set -/
theorem innerBuf_x (strAt : BitVec 32 → List Char) {v : BitVec 32} (h : v.toNat < 2 ^ 31) :
    innerBuf strAt v 'x' = numeral HEX v.toNat := by
  show i2a 16 _ v.toInt = _
  rw [← i2a_sixteen, BitVec.toInt_eq_toNat_of_lt (by omega)]

theorem low_mem_innerBuf (strAt : BitVec 32 → List Char) {v : BitVec 32} (h : 2 ^ 31 ≤ v.toNat) :
    (∃ c ∈ innerBuf strAt v 'x', 33 ≤ c.toNat ∧ c.toNat < 48) ∧ NUL ∉ innerBuf strAt v 'x' := by
  have hneg : v.toInt = -((2 ^ 32 - v.toNat : Nat) : Int) := by
    rw [BitVec.toInt_eq_toNat_cond, if_neg (by omega)]
    have := v.isLt
    omega
  have hpos : 0 < 2 ^ 32 - v.toNat := by
    have := v.isLt
    omega
  show (∃ c ∈ i2a 16 _ v.toInt, _) ∧ NUL ∉ i2a 16 _ v.toInt
  refine ⟨?_, nul_notMem_i2a (by decide) _⟩
  rw [hneg]
  have hex : ∃ c ∈ i2a 16 (by decide) (-((2 ^ 32 - v.toNat : Nat) : Int)), c.toNat < 48 :=
    exists_low (by decide) hpos
  obtain ⟨c, hc, hlow⟩ := hex
  exact ⟨c, hc, i2a_low (by decide) hc, hlow⟩

theorem paren_notMem_decimal (n : Int) : '(' ∉ decimal n :=
  notMem_decimal (by decide) (by decide) n

theorem low_of_mem_numeral {m : Nat} (h : c ∈ numeral HEX m) : 48 ≤ c.toNat := by
  have hall : HEX.all (fun c => decide (48 ≤ c.toNat)) = true := rfl
  exact of_decide_eq_true (List.all_eq_true.mp hall c (mem_of_mem_numeral (by decide) h))

theorem aligned_d_iff (strAt : BitVec 32 → List Char) (v : BitVec 32) (ds : List Char) (n : Int) :
    aligned (fill ds) n (innerBuf strAt v 'd') = aligned (fill ds) n (decimal v.toInt) ↔
      v.toInt ≠ -2 ^ 31 := by
  constructor
  · intro heq hmin
    obtain ⟨hparen, hnul⟩ := paren_mem_innerBuf strAt hmin
    have hmem : '(' ∈ aligned (fill ds) n _ := mem_aligned_of_mem hparen hnul
    rw [heq] at hmem
    rcases mem_aligned hmem with h | h
    · rcases fill_cases ds with hf | hf
      · exact absurd (h.trans hf) (by decide)
      · exact absurd (h.trans hf) (by decide)
    · exact paren_notMem_decimal _ h
  · intro h
    rw [innerBuf_d strAt h]

theorem aligned_x_iff (strAt : BitVec 32 → List Char) (v : BitVec 32) (ds : List Char) (n : Int) :
    aligned (fill ds) n (innerBuf strAt v 'x') = aligned (fill ds) n (numeral HEX v.toNat) ↔
      v.toNat < 2 ^ 31 := by
  constructor
  · intro heq
    by_contra hge
    obtain ⟨⟨c, hc, hlow, hhigh⟩, hnul⟩ := low_mem_innerBuf strAt (Nat.le_of_not_lt hge)
    have hmem : c ∈ aligned (fill ds) n _ := mem_aligned_of_mem hc hnul
    rw [heq] at hmem
    rcases mem_aligned hmem with h | h
    · rcases fill_cases ds with hf | hf
      · rw [h, hf] at hhigh
        exact absurd hhigh (by decide)
      · rw [h, hf] at hlow
        exact absurd hlow (by decide)
    · have := low_of_mem_numeral h
      omega
  · intro h
    rw [innerBuf_x strAt h]

/-- `int_to_ascii` of 23-fixes -/
theorem intToAscii_iff {b : Str} (h : Signed.Fits n) (hb : 12 ≤ b.mem.length) :
    (str (intToAscii n b).mem 0 = decimal n ∧ parseInt (str (intToAscii n b).mem 0) = n) ↔
      n ≠ -2 ^ 31 := by
  have hlen : (asciiOf n).length + 1 ≤ b.mem.length := by
    have := length_asciiOf_le h
    omega
  rw [str_asciiOf h hlen]
  constructor
  · rintro ⟨-, hparse⟩ hmin
    rw [hmin] at hparse
    exact absurd hparse (by decide)
  · intro hne
    have heq : asciiOf n = decimal n := if_neg hne
    rw [heq]
    exact ⟨rfl, parseInt_decimal n⟩

end

/-- **The numbers**: `int_to_ascii` writes, and `%d` prints, the numeral of every number but the
least `int`; `%x` prints that of every word without the sign bit, and of no other one.  This holds
in any format, with any flag and width. -/
theorem printed_iff (n : Int) (b : Str) (hn : Signed.Fits n) (hb : 12 ≤ b.mem.length)
    (strAt : BitVec 32 → List Char) (args : Nat → BitVec 32) (p : Printer) (hp : p.mode = .text)
    (ds : List Char) (hds : Digits ds) :
    ((str (intToAscii n b).mem 0 = decimal n ∧ parseInt (str (intToAscii n b).mem 0) = n) ↔
      n ≠ -2 ^ 31) ∧
    ((('%' :: ds ++ ['d']).foldl (Printer.step strAt args) p).out =
        p.out ++ aligned (fill ds) (ds.foldl widen 0) (decimal (args p.arg).toInt) ↔
      (args p.arg).toInt ≠ -2 ^ 31) ∧
    ((('%' :: ds ++ ['x']).foldl (Printer.step strAt args) p).out =
        p.out ++ aligned (fill ds) (ds.foldl widen 0) (numeral HEX (args p.arg).toNat) ↔
      (args p.arg).toNat < 2 ^ 31) := by
  refine ⟨intToAscii_iff hn hb, ?_, ?_⟩
  · rw [step_directive hp hds (by decide) (by decide), ← aligned_d_iff strAt (args p.arg) ds]
    exact List.append_right_inj _
  · rw [step_directive hp hds (by decide) (by decide), ← aligned_x_iff strAt (args p.arg) ds]
    exact List.append_right_inj _

theorem printed_iff_start :
    ((str (intToAscii 7 ⟨List.replicate 12 NUL, []⟩).mem 0 = decimal 7 ∧
        parseInt (str (intToAscii 7 ⟨List.replicate 12 NUL, []⟩).mem 0) = 7) ↔ (7 : Int) ≠ -2 ^ 31) ∧
    ((['%', 'd'].foldl (Printer.step (fun _ => []) fun _ => 7) ⟨.text, 0, []⟩).out =
        [] ++ aligned (fill []) 0 (decimal (7 : BitVec 32).toInt) ↔ (7 : BitVec 32).toInt ≠ -2 ^ 31) ∧
    ((['%', 'x'].foldl (Printer.step (fun _ => []) fun _ => 7) ⟨.text, 0, []⟩).out =
        [] ++ aligned (fill []) 0 (numeral HEX (7 : BitVec 32).toNat) ↔
      (7 : BitVec 32).toNat < 2 ^ 31) :=
  printed_iff 7 ⟨List.replicate 12 NUL, []⟩ (by decide) (by decide) (fun _ => []) (fun _ => 7)
    ⟨.text, 0, []⟩ rfl [] fun _ hc => absurd hc List.not_mem_nil

/-- the least `int`, and -1 to the base 16 -/
theorem printed_fails :
    str (intToAscii (-2 ^ 31) ⟨List.replicate 12 NUL, []⟩).mem 0 ≠ decimal (-2 ^ 31) ∧
    (∀ strAt, vsprintf strAt (fun _ => 0x80000000) ['%', 'd'] ≠ decimal (-2 ^ 31)) ∧
    ∀ strAt, vsprintf strAt (fun _ => 0xFFFFFFFF) ['%', 'x'] ≠ numeral HEX 0xFFFFFFFF := by
  refine ⟨fun h => ?_, fun strAt h => ?_, fun strAt h => ?_⟩
  · rw [str_asciiOf (by decide) (by decide)] at h
    exact paren_notMem_decimal (-2 ^ 31) (h ▸ by decide)
  · obtain ⟨hparen, hnul⟩ := paren_mem_innerBuf strAt (v := 0x80000000) (by decide)
    have hmem : '(' ∈ aligned ' ' 0 _ := mem_aligned_of_mem hparen hnul
    have hmem : '(' ∈ vsprintf strAt (fun _ => 0x80000000) ['%', 'd'] := hmem
    rw [h] at hmem
    exact paren_notMem_decimal _ hmem
  · obtain ⟨⟨c, hc, -, hlow⟩, hnul⟩ := low_mem_innerBuf strAt (v := 0xFFFFFFFF) (by decide)
    have hmem : c ∈ aligned ' ' 0 _ := mem_aligned_of_mem hc hnul
    have hmem : c ∈ vsprintf strAt (fun _ => 0xFFFFFFFF) ['%', 'x'] := hmem
    rw [h] at hmem
    have := low_of_mem_numeral hmem
    omega

end Noxis.Tty
