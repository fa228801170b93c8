import Mathlib.Data.List.GetD
import Mathlib.Data.Nat.Digits.Lemmas

/-!
# Numerals

* `digits b n`        the digits of `n` to the base `b`, the highest first
* `numeral cs n`      `n` in the digit characters `cs`
* `decimal n`         a signed number
* `parse_numeral`, `parseInt_decimal`   what is written can be read
-/

namespace Noxis.Numeral

/-! ## digits -/

/-- the digits, the highest first; 0 has one -/
def digits (b n : Nat) : List Nat := if n = 0 then [0] else (Nat.digits b n).reverse

/-- the number of a list of digits -/
def value (b : Nat) (l : List Nat) : Nat := l.foldl (fun v d => v * b + d) 0

section
variable {b n d k : Nat}

theorem digits_of_lt (h : n < b) : digits b n = [n] := by
  unfold digits
  by_cases h0 : n = 0
  · rw [if_pos h0, h0]
  · rw [if_neg h0, Nat.digits_of_lt b n h0 h]
    rfl

/-- the last digit is the remainder -/
theorem digits_step (hb : 2 ≤ b) (h : b ≤ n) : digits b n = digits b (n / b) ++ [n % b] := by
  have hdiv : n / b ≠ 0 := by
    rw [Nat.div_ne_zero_iff]
    omega
  unfold digits
  rw [if_neg (by omega), if_neg hdiv, Nat.digits_def' hb (by omega), List.reverse_cons]

theorem lt_of_mem_digits (hb : 2 ≤ b) (h : d ∈ digits b n) : d < b := by
  unfold digits at h
  split at h
  · rw [List.mem_singleton] at h
    omega
  · exact Nat.digits_lt_base hb (List.mem_reverse.mp h)

theorem value_append (l : List Nat) (d : Nat) : value b (l ++ [d]) = value b l * b + d := by
  unfold value
  rw [List.foldl_append]
  rfl

theorem value_digits (hb : 2 ≤ b) (n : Nat) : value b (digits b n) = n := by
  induction n using Nat.strong_induction_on with
  | _ n ih =>
    rcases Nat.lt_or_ge n b with h | h
    · rw [digits_of_lt h]
      show 0 * b + n = n
      rw [Nat.zero_mul, Nat.zero_add]
    · rw [digits_step hb h, value_append, ih (n / b) (Nat.div_lt_self (by omega) hb)]
      exact Nat.div_add_mod' n b

/-- how long a numeral is -/
theorem length_digits_le (hb : 2 ≤ b) (hk : 0 < k) : (digits b n).length ≤ k ↔ n < b ^ k := by
  unfold digits
  split
  · rename_i h0
    rw [h0]
    exact ⟨fun _ => Nat.pow_pos (by omega), fun _ => hk⟩
  · rw [List.length_reverse]
    exact Nat.digits_length_le_iff hb n

end

/-! ## characters -/

def DEC : List Char := ['0', '1', '2', '3', '4', '5', '6', '7', '8', '9']
def HEX : List Char := DEC ++ ['A', 'B', 'C', 'D', 'E', 'F']

/-- the numeral of `n` in the digit characters `cs`; their number is the base -/
def numeral (cs : List Char) (n : Nat) : List Char := (digits cs.length n).map (cs.getD · '?')

/-- the number that a numeral stands for -/
def parse (cs : List Char) (l : List Char) : Nat := value cs.length (l.map cs.idxOf)

/-- a signed number to the base 10 -/
def decimal (n : Int) : List Char :=
  if n < 0 then '-' :: numeral DEC n.natAbs else numeral DEC n.natAbs

/-- the number that a signed numeral stands for -/
def parseInt : List Char → Int
  | '-' :: l => -parse DEC l
  | l => parse DEC l

section
variable {cs : List Char} {n d k : Nat}

theorem numeral_of_lt (h : n < cs.length) : numeral cs n = [cs.getD n '?'] := by
  unfold numeral
  rw [digits_of_lt h]
  rfl

theorem numeral_step (hb : 2 ≤ cs.length) (h : cs.length ≤ n) :
    numeral cs n = numeral cs (n / cs.length) ++ [cs.getD (n % cs.length) '?'] := by
  unfold numeral
  rw [digits_step hb h, List.map_append]
  rfl

theorem length_numeral_le (hb : 2 ≤ cs.length) (hk : 0 < k) :
    (numeral cs n).length ≤ k ↔ n < cs.length ^ k := by
  unfold numeral
  rw [List.length_map, length_digits_le hb hk]

theorem mem_of_mem_numeral {c : Char} (hb : 2 ≤ cs.length) (h : c ∈ numeral cs n) : c ∈ cs := by
  obtain ⟨d, hd, rfl⟩ := List.mem_map.mp h
  have hlt := lt_of_mem_digits hb hd
  rw [List.getD_eq_getElem _ _ hlt]
  exact List.getElem_mem hlt

/-- **a numeral can be read**, if the characters are different -/
theorem parse_numeral (hcs : cs.Nodup) (hb : 2 ≤ cs.length) (n : Nat) :
    parse cs (numeral cs n) = n := by
  unfold parse numeral
  rw [List.map_map]
  have hid : ∀ d ∈ digits cs.length n, (cs.idxOf ∘ fun d => cs.getD d '?') d = d := by
    intro d hd
    have hlt := lt_of_mem_digits hb hd
    show cs.idxOf (cs.getD d '?') = d
    rw [List.getD_eq_getElem _ _ hlt]
    exact hcs.idxOf_getElem d hlt
  rw [List.map_congr_left hid, List.map_id', value_digits hb]

theorem parseInt_decimal (n : Int) : parseInt (decimal n) = n := by
  have hparse : parse DEC (numeral DEC n.natAbs) = n.natAbs :=
    parse_numeral (by decide) (by decide) _
  unfold decimal
  by_cases h : n < 0
  · rw [if_pos h]
    show -((parse DEC (numeral DEC n.natAbs) : Nat) : Int) = n
    omega
  · rw [if_neg h]
    have hmem {c : Char} (hc : c ∈ numeral DEC n.natAbs) : c ≠ '-' := by
      intro hm
      exact absurd (mem_of_mem_numeral (by decide) hc) (hm ▸ by decide)
    unfold parseInt
    split
    · rename_i l hl
      exact absurd rfl (hmem (hl ▸ List.mem_cons_self))
    · omega

end
end Noxis.Numeral
