import Mathlib.Data.List.Induction
import Noxis.Fixes.Shell
import Noxis.Lib.Numeral
import Noxis.Lib.Signed

/-!
# 23-fixes: int_to_ascii and hex_to_ascii

The conversions of libc/string.c, on the memory from a buffer on, with all the offsets that they
store to.

* `Str`               the memory, and what was stored
* `intToAscii`        a signed number
* `hexToAscii`        appends a number to the base 16
* `intToAscii_spec`   what it leaves, and how far it stores
* `hexToAscii_spec`   the same for a string that is there before
-/

namespace Noxis.Fixes
open Signed Numeral

/-- the memory from the start of a buffer on, and the offsets that were stored to -/
structure Str where
  mem : List Char
  written : List Nat

def Str.store (b : Str) (i : Nat) (c : Char) : Str :=
  { mem := b.mem.set i c, written := b.written ++ [i] }

/-- `append` -/
def Str.append (b : Str) (n : Char) : Str :=
  let len := strlen b.mem
  (b.store len n).store (len + 1) NUL

/-- the loop of `reverse` -/
def reverseLoop : (fuel : Nat) → Str → (i j : Nat) → Str
  | 0, b, _, _ => b
  | fuel + 1, b, i, j =>
    if i < j then
      let c := b.mem.getD i NUL
      reverseLoop fuel ((b.store i (b.mem.getD j NUL)).store j c) (i + 1) (j - 1)
    else b

/-- `reverse`; each turn takes two characters, so the length is fuel enough -/
def Str.reverse (b : Str) : Str := reverseLoop (strlen b.mem) b 0 (strlen b.mem - 1)

/-- a digit of `hex_to_ascii` -/
def hexDigit (tmp : Nat) : Char :=
  if tmp ≥ 0xA then Signed.chr (tmp - 0xA + 97) else Signed.chr (tmp + 48)

/-- a turn of the loop of `hex_to_ascii`, with `zeros` -/
def hexTurn (n : BitVec 32) (s : Str × Bool) (i : Nat) : Str × Bool :=
  let tmp := (n.sshiftRight i &&& 0xF).toNat
  if tmp = 0 ∧ s.2 = false then s else (s.1.append (hexDigit tmp), true)

/-- `hex_to_ascii` -/
def hexToAscii (n : BitVec 32) (b : Str) : Str :=
  let b := (b.append '0').append 'x'
  let (b, _) := [28, 24, 20, 16, 12, 8, 4].foldl (hexTurn n) (b, false)
  b.append (hexDigit (n &&& 0xF).toNat)

theorem tdiv_ten_lt {n : Int} (h : n.tdiv 10 > 0) : (n.tdiv 10).toNat < n.toNat := by
  by_cases hn : 0 ≤ n
  · rw [Int.tdiv_eq_ediv_of_nonneg hn] at *
    omega
  · have hneg : (-n).tdiv 10 = -n.tdiv 10 := Int.neg_tdiv n 10
    rw [Int.tdiv_eq_ediv_of_nonneg (by omega)] at hneg
    omega

/-- `do { str[i++] = n % 10 + '0'; } while ((n /= 10) > 0)` -/
def digitLoop (b : Str) (i : Nat) (n : Int) : Str × Nat :=
  let b := b.store i (Signed.chr (n.tmod 10 + 48))
  if n.tdiv 10 > 0 then digitLoop b (i + 1) (n.tdiv 10) else (b, i + 1)
termination_by n.toNat
decreasing_by exact tdiv_ten_lt ‹_›

/-- `int_to_ascii` -/
def intToAscii (n : Int) (b : Str) : Str :=
  let sign := n
  let n := if sign < 0 then int (-n) else n
  let (b, i) := digitLoop b 0 n
  let (b, i) := if sign < 0 then (b.store i '-', i + 1) else (b, i)
  (b.store i NUL).reverse

/-! ## stores in a row -/

/-- the characters `l` from the offset `i` on -/
def Str.put (b : Str) (i : Nat) : List Char → Str
  | [] => b
  | c :: l => (b.store i c).put (i + 1) l

section
variable {b : Str} {t l : List Char} {i k : Nat} {n : Int}

theorem Str.put_append (b : Str) (i : Nat) (l l' : List Char) :
    b.put i (l ++ l') = (b.put i l).put (i + l.length) l' := by
  induction l generalizing b i with
  | nil => rfl
  | cons c l ih =>
    show (b.store i c).put (i + 1) (l ++ l') = _
    rw [ih, List.length_cons, show i + (l.length + 1) = i + 1 + l.length by omega]
    rfl

theorem Str.store_mem {pre post : List Char} {a : Char} (h : b.mem = pre ++ a :: post) (c : Char) :
    (b.store pre.length c).mem = pre ++ c :: post := by
  show b.mem.set _ c = _
  rw [h, List.set_append_right _ _ (Nat.le_refl _), Nat.sub_self]
  rfl

theorem Str.put_mem {pre mid post : List Char} (h : b.mem = pre ++ mid ++ post)
    (hl : l.length = mid.length) : (b.put pre.length l).mem = pre ++ l ++ post := by
  induction l generalizing b pre mid with
  | nil =>
    rw [List.length_eq_zero_iff.mp hl.symm] at h
    exact h
  | cons c l ih =>
    cases mid with
    | nil => cases hl
    | cons a mid =>
      rw [List.append_assoc] at h
      have hstore : (b.store pre.length c).mem = pre ++ [c] ++ mid ++ post := by
        rw [Str.store_mem h c]
        simp
      have hnext := ih hstore (Nat.succ.inj hl)
      rw [List.length_append, List.length_singleton] at hnext
      show ((b.store pre.length c).put (pre.length + 1) l).mem = _
      rw [hnext]
      simp

theorem Str.put_written (b : Str) (i : Nat) (l : List Char) :
    (b.put i l).written = b.written ++ List.range' i l.length := by
  induction l generalizing b i with
  | nil => exact (List.append_nil _).symm
  | cons c l ih =>
    show ((b.store i c).put (i + 1) l).written = _
    rw [ih, List.length_cons, List.range'_succ]
    show (b.written ++ [i]) ++ _ = _
    rw [List.append_assoc]
    rfl

/-! ## reverse -/

theorem getD_append_length (pre post : List Char) (a : Char) :
    (pre ++ a :: post).getD pre.length NUL = a := by
  rw [List.getD_append_right _ _ _ _ (Nat.le_refl _), Nat.sub_self]
  rfl

theorem reverseLoop_done {fuel j : Nat} (h : ¬ i < j) : reverseLoop fuel b i j = b := by
  cases fuel with
  | zero => rfl
  | succ fuel => exact if_neg h

/-- the part `mid` is turned round, and nothing is stored behind it -/
theorem reverseLoop_spec (mid : List Char) : ∀ (fuel : Nat) (b : Str) (pre post : List Char),
    b.mem = pre ++ mid ++ post → mid.length ≤ fuel →
    (reverseLoop fuel b pre.length (pre.length + mid.length - 1)).mem = pre ++ mid.reverse ++ post ∧
    ∃ w, (reverseLoop fuel b pre.length (pre.length + mid.length - 1)).written = b.written ++ w ∧
      ∀ k ∈ w, k < pre.length + mid.length := by
  induction mid using List.bidirectionalRec with
  | nil =>
    intro fuel b pre post h hfuel
    rw [reverseLoop_done (by rw [List.length_nil]; omega)]
    exact ⟨h, [], (List.append_nil _).symm, fun k hk => absurd hk List.not_mem_nil⟩
  | singleton a =>
    intro fuel b pre post h hfuel
    rw [reverseLoop_done (by rw [List.length_singleton]; omega)]
    exact ⟨h, [], (List.append_nil _).symm, fun k hk => absurd hk List.not_mem_nil⟩
  | cons_append a mid z ih =>
    intro fuel b pre post h hfuel
    rw [List.length_cons, List.length_append, List.length_singleton] at hfuel ⊢
    obtain ⟨fuel, rfl⟩ : ∃ f, fuel = f + 1 := ⟨fuel - 1, by omega⟩
    have hlast : (pre ++ z :: mid).length = pre.length + (mid.length + 1 + 1) - 1 := by
      rw [List.length_append, List.length_cons]
      omega
    have hlast' : (pre ++ a :: mid).length = pre.length + (mid.length + 1 + 1) - 1 := by
      rw [List.length_append, List.length_cons]
      omega
    have hfirst : b.mem = pre ++ a :: (mid ++ z :: post) := by
      rw [h]
      simp
    have ha : b.mem.getD pre.length NUL = a := by
      rw [hfirst]
      exact getD_append_length _ _ _
    have hz : b.mem.getD (pre.length + (mid.length + 1 + 1) - 1) NUL = z := by
      have hassoc : pre ++ a :: (mid ++ z :: post) = (pre ++ a :: mid) ++ z :: post := by simp
      rw [hfirst, ← hlast', hassoc]
      exact getD_append_length _ _ _
    have hstore : (b.store pre.length z).mem = (pre ++ z :: mid) ++ z :: post := by
      rw [Str.store_mem hfirst z]
      simp
    have hswap : ((b.store pre.length z).store (pre.length + (mid.length + 1 + 1) - 1) a).mem =
        pre ++ [z] ++ mid ++ (a :: post) := by
      rw [← hlast, Str.store_mem hstore a]
      simp
    obtain ⟨hmem, w, hw, hlt⟩ := ih fuel _ _ _ hswap (by omega)
    rw [List.length_append, List.length_singleton] at hmem hw hlt
    have hstep : reverseLoop (fuel + 1) b pre.length (pre.length + (mid.length + 1 + 1) - 1) =
        reverseLoop fuel ((b.store pre.length z).store (pre.length + (mid.length + 1 + 1) - 1) a)
          (pre.length + 1) (pre.length + 1 + mid.length - 1) := by
      have hj : pre.length + (mid.length + 1 + 1) - 1 - 1 = pre.length + 1 + mid.length - 1 := by omega
      rw [reverseLoop, if_pos (by omega), ha, hz, hj]
    rw [hstep]
    refine ⟨?_, [pre.length] ++ [pre.length + (mid.length + 1 + 1) - 1] ++ w, ?_, fun k hk => ?_⟩
    · rw [hmem]
      simp
    · rw [hw]
      simp [Str.store]
    · rw [List.mem_append, List.mem_append, List.mem_singleton, List.mem_singleton] at hk
      rcases hk with (rfl | rfl) | hk
      · omega
      · omega
      · have := hlt k hk
        omega

/-- a string in front of its NUL -/
theorem takeWhile_append_nul {post : List Char} (ht : NUL ∉ t) :
    (t ++ NUL :: post).takeWhile (· ≠ NUL) = t := by
  have hne (c : Char) (hc : c ∈ t) : decide (c ≠ NUL) = true := decide_eq_true fun h => ht (h ▸ hc)
  rw [List.takeWhile_append_of_pos hne, List.takeWhile_cons_of_neg (by decide), List.append_nil]

theorem strlen_append_nul {post : List Char} (ht : NUL ∉ t) :
    strlen (t ++ NUL :: post) = t.length := by
  rw [strlen_eq, takeWhile_append_nul ht]

/-- `reverse` of a string -/
theorem Str.reverse_spec {post : List Char} (h : b.mem = t ++ NUL :: post) (ht : NUL ∉ t) :
    b.reverse.mem = t.reverse ++ NUL :: post ∧
    ∃ w, b.reverse.written = b.written ++ w ∧ ∀ k ∈ w, k < t.length := by
  have hlen : strlen b.mem = t.length := by
    rw [h]
    exact strlen_append_nul ht
  have hspec := reverseLoop_spec t t.length b [] (NUL :: post) h (le_refl _)
  rw [List.length_nil, Nat.zero_add] at hspec
  unfold Str.reverse
  rw [hlen]
  exact hspec

/-! ## int_to_ascii -/

theorem chr_digit {d : Nat} (h : d < 10) : Signed.chr (d + 48) = DEC.getD d '?' := by
  interval_cases d <;> rfl

/-- the digits of a number that is not negative, the last one first -/
theorem digitLoop_eq (m : Nat) (b : Str) (i : Nat) : digitLoop b i m =
    (b.put i (numeral DEC m).reverse, i + (numeral DEC m).length) := by
  induction m using Nat.strong_induction_on generalizing b i with
  | _ m ih =>
    have hdiv : (m : Int).tdiv 10 = ((m / 10 : Nat) : Int) := (Int.ofNat_tdiv m 10).symm
    have hmod : (m : Int).tmod 10 = ((m % 10 : Nat) : Int) := (Int.ofNat_tmod m 10).symm
    have hchr : Signed.chr ((m : Int).tmod 10 + 48) = DEC.getD (m % 10) '?' := by
      rw [hmod]
      exact chr_digit (Nat.mod_lt _ (by decide))
    rw [digitLoop, hchr, hdiv]
    rcases Nat.lt_or_ge m 10 with hlt | hge
    · have hnum : numeral DEC m = [DEC.getD m '?'] := numeral_of_lt hlt
      rw [if_neg (by omega), hnum, Nat.mod_eq_of_lt hlt]
      rfl
    · have hnum : numeral DEC m = numeral DEC (m / 10) ++ [DEC.getD (m % 10) '?'] :=
        numeral_step (by decide) hge
      rw [if_pos (by omega), ih (m / 10) (by omega), hnum, List.reverse_append, List.length_append,
        List.length_singleton, Nat.add_right_comm, Nat.add_assoc]
      rfl

/-- what `int_to_ascii` writes; it does not make the least `int` positive -/
def asciiOf (n : Int) : List Char := if n = -2 ^ 31 then ['-', '('] else decimal n

/-- a character that is no digit and not the sign -/
theorem notMem_decimal {c : Char} (hsign : c ≠ '-') (hdigit : c ∉ DEC) (n : Int) : c ∉ decimal n := by
  have hnum (m : Nat) : c ∉ numeral DEC m := fun h => hdigit (mem_of_mem_numeral (by decide) h)
  unfold decimal
  split
  · rw [List.mem_cons, not_or]
    exact ⟨hsign, hnum _⟩
  · exact hnum _

theorem nul_notMem_asciiOf (n : Int) : NUL ∉ asciiOf n := by
  unfold asciiOf
  split
  · decide
  · exact notMem_decimal (by decide) (by decide) n

theorem intToAscii_neg (h : n < 0) (b : Str) : intToAscii n b =
    (((digitLoop b 0 (int (-n))).1.store (digitLoop b 0 (int (-n))).2 '-').store
      ((digitLoop b 0 (int (-n))).2 + 1) NUL).reverse := by
  unfold intToAscii
  simp only [if_pos h]

theorem intToAscii_nonneg (h : ¬ n < 0) (b : Str) : intToAscii n b =
    ((digitLoop b 0 n).1.store (digitLoop b 0 n).2 NUL).reverse := by
  unfold intToAscii
  simp only [if_neg h]

/-- the stores before the string is turned round -/
theorem intToAscii_put (h : Signed.Fits n) (b : Str) :
    intToAscii n b = (b.put 0 ((asciiOf n).reverse ++ [NUL])).reverse := by
  unfold asciiOf decimal
  by_cases hmin : n = -2 ^ 31
  · subst hmin
    have hint : int (-(-2 ^ 31)) = -2 ^ 31 := by decide
    have hloop : digitLoop b 0 (-2 ^ 31) = (b.store 0 '(', 1) := by
      rw [digitLoop, if_neg (by decide)]
      rfl
    rw [intToAscii_neg (by decide), hint, hloop]
    rfl
  · rw [if_neg hmin]
    by_cases hneg : n < 0
    · have hint : int (-n) = (n.natAbs : Int) := by
        rw [int_of_range (by have := h.1; omega) (by have := h.1; omega)]
        omega
      rw [if_pos hneg, intToAscii_neg hneg, hint, digitLoop_eq, List.reverse_cons, List.append_assoc,
        Str.put_append, List.length_reverse, Nat.zero_add]
      rfl
    · have hint : n = (n.natAbs : Int) := by omega
      rw [if_neg hneg, intToAscii_nonneg hneg, hint, digitLoop_eq, Int.natAbs_natCast,
        Str.put_append, List.length_reverse, Nat.zero_add]
      rfl

/-- **int_to_ascii**: the string that it leaves, and the offsets that it stores to -/
theorem intToAscii_spec (h : Signed.Fits n) (hb : (asciiOf n).length + 1 ≤ b.mem.length) :
    (intToAscii n b).mem = asciiOf n ++ NUL :: b.mem.drop ((asciiOf n).length + 1) ∧
    ∃ w, (intToAscii n b).written = b.written ++ List.range ((asciiOf n).length + 1) ++ w ∧
      ∀ k ∈ w, k < (asciiOf n).length := by
  rw [intToAscii_put h]
  have hlen : ((asciiOf n).reverse ++ [NUL]).length = (asciiOf n).length + 1 := by
    rw [List.length_append, List.length_reverse, List.length_singleton]
  have hsplit : b.mem = [] ++ b.mem.take ((asciiOf n).length + 1) ++
      b.mem.drop ((asciiOf n).length + 1) := (List.take_append_drop _ _).symm
  have hput := Str.put_mem hsplit (l := (asciiOf n).reverse ++ [NUL])
    (by rw [hlen, List.length_take_of_le hb])
  rw [List.length_nil, List.nil_append, List.append_assoc] at hput
  have hwritten := Str.put_written b 0 ((asciiOf n).reverse ++ [NUL])
  rw [hlen, ← List.range_eq_range'] at hwritten
  obtain ⟨hmem, w, hw, hlt⟩ := Str.reverse_spec (b := b.put 0 ((asciiOf n).reverse ++ [NUL])) hput
    (fun hnul => nul_notMem_asciiOf n (List.mem_reverse.mp hnul))
  rw [List.reverse_reverse] at hmem
  rw [List.length_reverse] at hlt
  exact ⟨hmem, w, by rw [hw, hwritten], hlt⟩

theorem str_asciiOf (h : Signed.Fits n) (hb : (asciiOf n).length + 1 ≤ b.mem.length) :
    str (intToAscii n b).mem 0 = asciiOf n := by
  rw [(intToAscii_spec h hb).1]
  exact takeWhile_append_nul (nul_notMem_asciiOf n)

/-- it stores up to the NUL and not behind it -/
theorem intToAscii_inside (h : Signed.Fits n) (hb : (asciiOf n).length + 1 ≤ b.mem.length)
    (size : Nat) : (∀ k ∈ (intToAscii n ⟨b.mem, []⟩).written, k < size) ↔
      (asciiOf n).length + 1 ≤ size := by
  obtain ⟨-, w, hw, hlt⟩ := intToAscii_spec (b := ⟨b.mem, []⟩) h hb
  rw [hw]
  constructor
  · intro hall
    have hlast := List.mem_range.mpr (Nat.lt_succ_self (asciiOf n).length)
    exact hall _ (List.mem_append_left _ (List.mem_append_right _ hlast))
  · intro hle k hk
    rw [List.nil_append, List.mem_append, List.mem_range] at hk
    rcases hk with hk | hk
    · omega
    · have := hlt k hk
      omega

/-- how long a signed numeral is -/
theorem length_decimal_le (hk : 0 < k) : (decimal n).length ≤ k + 1 ↔
    -(10 : Int) ^ k < n ∧ n < 10 ^ (k + 1) := by
  have hneg : (numeral DEC n.natAbs).length ≤ k ↔ n.natAbs < 10 ^ k := length_numeral_le (by decide) hk
  have hpos : (numeral DEC n.natAbs).length ≤ k + 1 ↔ n.natAbs < 10 ^ (k + 1) :=
    length_numeral_le (by decide) (Nat.succ_pos k)
  have h1 : ((10 ^ k : Nat) : Int) = 10 ^ k := by push_cast; rfl
  have h2 : ((10 ^ (k + 1) : Nat) : Int) = 10 ^ (k + 1) := by push_cast; rfl
  unfold decimal
  rw [← h1, ← h2]
  split
  · rw [List.length_cons]
    omega
  · omega

theorem length_asciiOf_le (h : Signed.Fits n) : (asciiOf n).length ≤ 11 := by
  obtain ⟨hlow, hhigh⟩ := h
  unfold asciiOf
  split
  · decide
  · exact (length_decimal_le (k := 10) (by decide)).mpr ⟨by omega, by omega⟩

/-! ## hex_to_ascii -/

/-- the characters `l`, one after the other -/
def Str.appendAll (b : Str) (l : List Char) : Str := l.foldl Str.append b

def HEXLOW : List Char := DEC ++ ['a', 'b', 'c', 'd', 'e', 'f']

theorem hexDigit_eq {d : Nat} (h : d < 16) : hexDigit d = HEXLOW.getD d '?' := by
  interval_cases d <;> rfl

/-- the digit of a shift; the sign bit comes in above it -/
theorem nibble_eq (v : BitVec 32) (i : Nat) (h : i ≤ 28) :
    (v.sshiftRight i &&& 0xF).toNat = v.toNat / 2 ^ i % 16 := by
  have hmask : v.sshiftRight i &&& 0xF = (v >>> i) &&& 0xF := by
    apply BitVec.eq_of_getLsbD_eq
    intro j hj
    rw [BitVec.getLsbD_and, BitVec.getLsbD_and, BitVec.getLsbD_sshiftRight, BitVec.getLsbD_ushiftRight]
    by_cases hj4 : j < 4
    · rw [if_pos (by omega), decide_eq_false (by omega)]
      rfl
    · have hf : (0xF : BitVec 32).getLsbD j = false := by
        rw [show (0xF : BitVec 32) = BitVec.ofNat 32 (2 ^ 4 - 1) from rfl, BitVec.getLsbD_ofNat,
          Nat.testBit_two_pow_sub_one, decide_eq_false hj4, Bool.and_false]
      rw [hf, Bool.and_false, Bool.and_false]
  rw [hmask, BitVec.toNat_and, BitVec.toNat_ushiftRight, Nat.shiftRight_eq_div_pow]
  exact Nat.and_two_pow_sub_one_eq_mod _ 4

/-- what the turns have appended, when `v` is what is left of the number -/
def hexPart (v : Nat) : List Char := if v = 0 then [] else numeral HEXLOW v

theorem numeral_hexPart (v : Nat) :
    numeral HEXLOW v = hexPart (v / 16) ++ [hexDigit (v % 16)] := by
  rw [hexDigit_eq (Nat.mod_lt _ (by decide))]
  unfold hexPart
  rcases Nat.lt_or_ge v 16 with h | h
  · have hnum : numeral HEXLOW v = [HEXLOW.getD v '?'] := numeral_of_lt h
    rw [if_pos (by omega), hnum, Nat.mod_eq_of_lt h]
    rfl
  · rw [if_neg (by omega)]
    exact numeral_step (by decide) h

theorem hexTurn_eq (v : BitVec 32) (b : Str) (i : Nat) (h : i ≤ 28) :
    hexTurn v (b.appendAll (hexPart (v.toNat / 2 ^ (i + 4))), decide (v.toNat / 2 ^ (i + 4) ≠ 0)) i =
      (b.appendAll (hexPart (v.toNat / 2 ^ i)), decide (v.toNat / 2 ^ i ≠ 0)) := by
  have hdiv : v.toNat / 2 ^ (i + 4) = v.toNat / 2 ^ i / 16 := by
    rw [Nat.pow_add, ← Nat.div_div_eq_div_mul]
  unfold hexTurn
  rw [nibble_eq v i h, hdiv]
  generalize v.toNat / 2 ^ i = m
  dsimp only
  by_cases hm : m = 0
  · subst hm
    rfl
  · rw [if_neg (by rw [decide_eq_false_iff_not]; omega)]
    have hpart : hexPart m = hexPart (m / 16) ++ [hexDigit (m % 16)] := by
      rw [← numeral_hexPart]
      exact if_neg hm
    rw [hpart, decide_eq_true hm]
    unfold Str.appendAll
    rw [List.foldl_append]
    rfl

/-- the first `m` turns -/
theorem hexTurns_eq (v : BitVec 32) (b : Str) {m : Nat} (hm : m ≤ 7) :
    ((List.range m).map fun k => 28 - 4 * k).foldl (hexTurn v) (b, false) =
      (b.appendAll (hexPart (v.toNat / 2 ^ (32 - 4 * m))),
        decide (v.toNat / 2 ^ (32 - 4 * m) ≠ 0)) := by
  induction m with
  | zero =>
    have h0 : v.toNat / 2 ^ (32 - 4 * 0) = 0 := Nat.div_eq_of_lt v.isLt
    rw [h0]
    rfl
  | succ m ih =>
    have hturn := hexTurn_eq v b (28 - 4 * m) (by omega)
    rw [show 28 - 4 * m + 4 = 32 - 4 * m by omega] at hturn
    rw [List.range_succ, List.map_append, List.foldl_append, ih (by omega),
      show 32 - 4 * (m + 1) = 28 - 4 * m by omega]
    exact hturn

/-- `hex_to_ascii` appends the numeral, behind 0x -/
theorem hexToAscii_eq (v : BitVec 32) (b : Str) :
    hexToAscii v b = b.appendAll ('0' :: 'x' :: numeral HEXLOW v.toNat) := by
  have hturns := hexTurns_eq v ((b.append '0').append 'x') (le_refl 7)
  have hlast : (v &&& 0xF).toNat = v.toNat % 16 := by
    rw [BitVec.toNat_and]
    exact Nat.and_two_pow_sub_one_eq_mod _ 4
  have hpos : [28, 24, 20, 16, 12, 8, 4] = (List.range 7).map fun k => 28 - 4 * k := by decide
  unfold hexToAscii
  dsimp only
  rw [hlast, hpos, hturns, numeral_hexPart]
  unfold Str.appendAll
  rw [List.foldl_cons, List.foldl_cons, List.foldl_append]
  rfl

theorem append_spec {pre post : List Char} {a : Char} (h : b.mem = pre ++ NUL :: a :: post)
    (hpre : NUL ∉ pre) (c : Char) : (b.append c).mem = pre ++ [c] ++ NUL :: post ∧
    (b.append c).written = b.written ++ [pre.length, pre.length + 1] := by
  have hlen : strlen b.mem = pre.length := by
    rw [h]
    exact strlen_append_nul hpre
  have h1 : (b.store pre.length c).mem = (pre ++ [c]) ++ a :: post := by
    rw [Str.store_mem h c]
    simp
  have h2 := Str.store_mem h1 NUL
  rw [List.length_append, List.length_singleton] at h2
  unfold Str.append
  rw [hlen]
  refine ⟨h2, ?_⟩
  show (b.written ++ [pre.length]) ++ [pre.length + 1] = _
  rw [List.append_assoc]
  rfl

/-- a string is appended, with its NUL -/
theorem appendAll_spec {pre post : List Char} (l : List Char) (hl : NUL ∉ l)
    (h : b.mem = pre ++ NUL :: post) (hpre : NUL ∉ pre) (hroom : l.length ≤ post.length) :
    (b.appendAll l).mem = pre ++ l ++ NUL :: post.drop l.length ∧
    (b.appendAll l).written = b.written ++
      (List.range' pre.length l.length).flatMap fun k => [k, k + 1] := by
  induction l generalizing b pre post with
  | nil =>
    refine ⟨?_, (List.append_nil _).symm⟩
    rw [List.append_nil]
    exact h
  | cons c l ih =>
    rw [List.mem_cons, not_or] at hl
    cases post with
    | nil => cases hroom
    | cons a post =>
      obtain ⟨hmem, hw⟩ := append_spec h hpre c
      have hpre' : NUL ∉ pre ++ [c] := by
        rw [List.mem_append, List.mem_singleton, not_or]
        exact ⟨hpre, hl.1⟩
      obtain ⟨hmem', hw'⟩ := ih hl.2 hmem hpre' (Nat.le_of_succ_le_succ hroom)
      rw [List.length_append, List.length_singleton] at hw'
      refine ⟨?_, ?_⟩
      · show ((b.append c).appendAll l).mem = _
        rw [hmem']
        simp
      · show ((b.append c).appendAll l).written = _
        rw [hw', hw, List.length_cons, List.range'_succ, List.flatMap_cons, List.append_assoc]

/-- what was stored stays in the trace -/
theorem mem_written_appendAll {k : Nat} (l : List Char) (h : k ∈ b.written) :
    k ∈ (b.appendAll l).written := by
  induction l generalizing b with
  | nil => exact h
  | cons c l ih =>
    refine ih ?_
    show k ∈ (b.written ++ [_]) ++ [_]
    exact List.mem_append_left _ (List.mem_append_left _ h)

theorem nul_notMem_hex (v : Nat) : NUL ∉ '0' :: 'x' :: numeral HEXLOW v := by
  rw [List.mem_cons, List.mem_cons]
  rintro (h | h | h)
  · exact absurd h (by decide)
  · exact absurd h (by decide)
  · exact absurd (mem_of_mem_numeral (by decide) h) (by decide)

theorem length_hex_le (v : BitVec 32) : (numeral HEXLOW v.toNat).length ≤ 8 :=
  (length_numeral_le (by decide) (by decide)).mpr v.isLt

theorem exists_split (mem : List Char) (h : strlen mem < mem.length) :
    ∃ pre post, mem = pre ++ NUL :: post ∧ NUL ∉ pre := by
  induction mem with
  | nil => cases h
  | cons c mem ih =>
    by_cases hc : c = NUL
    · exact ⟨[], mem, by rw [hc]; rfl, List.not_mem_nil⟩
    · rw [strlen_eq, line_cons mem hc, List.length_cons, List.length_cons] at h
      obtain ⟨pre, post, rfl, hpre⟩ := ih (Nat.lt_of_succ_lt_succ h)
      refine ⟨c :: pre, post, rfl, ?_⟩
      rw [List.mem_cons, not_or]
      exact ⟨Ne.symm hc, hpre⟩

/-- **hex_to_ascii** in a buffer of 12 bytes: it stays inside exactly if there is room behind the
string that was there -/
theorem hexToAscii_inside (v : BitVec 32) (mem : List Char) (hmem : 24 ≤ mem.length) :
    (∀ k ∈ (hexToAscii v ⟨mem, []⟩).written, k < 12) ↔
      strlen mem + 2 + (numeral HEXLOW v.toNat).length + 1 ≤ 12 := by
  have hlen := length_hex_le v
  rw [hexToAscii_eq]
  rcases Nat.lt_or_ge (strlen mem) 12 with hlt | hge
  · obtain ⟨pre, post, rfl, hpre⟩ := exists_split mem (by omega)
    rw [strlen_append_nul hpre] at hlt ⊢
    rw [List.length_append, List.length_cons] at hmem
    obtain ⟨-, hw⟩ := appendAll_spec (b := ⟨pre ++ NUL :: post, []⟩) _ (nul_notMem_hex v.toNat) rfl hpre
      (by rw [List.length_cons, List.length_cons]; omega)
    rw [hw, List.nil_append, List.length_cons, List.length_cons]
    constructor
    · intro hall
      have hlast := hall (pre.length + ((numeral HEXLOW v.toNat).length + 1) + 1) (List.mem_flatMap.mpr
        ⟨pre.length + ((numeral HEXLOW v.toNat).length + 1),
          List.mem_range'_1.mpr ⟨by omega, by omega⟩, by simp⟩)
      omega
    · intro hle k hk
      obtain ⟨j, hj, hk⟩ := List.mem_flatMap.mp hk
      have hj := (List.mem_range'_1.mp hj).2
      rw [List.mem_cons, List.mem_singleton] at hk
      omega
  · constructor
    · intro hall
      have hfirst : strlen mem ∈ ((⟨mem, []⟩ : Str).append '0').written := by
        show strlen mem ∈ [strlen mem, strlen mem + 1]
        exact List.mem_cons_self
      have := hall _ (mem_written_appendAll ('x' :: numeral HEXLOW v.toNat) hfirst)
      omega
    · omega

end

end Noxis.Fixes
