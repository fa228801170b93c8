import Noxis.Mm.Args
import Noxis.Wm.Command

/-!
# Dotted quads: three parsers and a printer

`parse_ip` of 23-fixes/drivers/shell.c, `term_parse_ip` of 25-osfs11/kernel/desktop.c, the literal
parser in `net_do_resolve` of 25-osfs11/net/main.c, and `ip_to_str` of 25-osfs11/net/net.c.

* `parseIp`, `termParseIp`    the first two, which have one body
* `netLiteral`                the third, which runs on behind an error
* `IsQuad`                    four numbers of one to three digits, with single dots between them
* `parseIp_iff`               what is accepted, and as what
* `netLiteral_eq`             the third does what the first does
* `quads_agree`               all of it, and the way back from the printer
* `dottedQuad_eq`             the network task's model has the same parser
-/

namespace Noxis.Wm
open Net (isDigit dotChar)
open Mm (CStr)

/-! ## parse_ip and term_parse_ip -/

/-- `while (*s >= '0' && *s <= '9')`: `v`, `digits` and `s` behind it; `none` is `return -1` -/
def digitLoop : List Byte → Nat → Nat → Option (Nat × Nat × List Byte)
  | [], v, digits => some (v, digits, [])
  | c :: s, v, digits =>
    if isDigit c then
      let v := v * 10 + (c.toNat - 0x30)
      let digits := digits + 1
      if digits > 3 ∨ v > 255 then none else digitLoop s v digits
    else some (v, digits, c :: s)

/-- `*s`, which is 0 at the end of the string -/
def head (s : List Byte) : Byte := s.headD 0

/-- `ip << 8 | v` -/
def shiftIn (ip : BitVec 32) (v : Nat) : BitVec 32 := ip <<< 8 ||| BitVec.ofNat 32 v

/-- the last turns of `for (part = 0; part < 4; part++)`: `ip` and `s` behind it -/
def partLoop : Nat → BitVec 32 → List Byte → Option (BitVec 32 × List Byte)
  | 0, ip, s => some (ip, s)
  | left + 1, ip, s =>
    (digitLoop s 0 0).bind fun (v, digits, s) =>
      if digits = 0 then none
      else
        let ip := shiftIn ip v
        if left ≠ 0 then if head s ≠ dotChar then none else partLoop left ip s.tail
        else partLoop left ip s

/-- the body of both; a null pointer is `none` -/
def parseQuad (s : Option CStr) : Option (BitVec 32) :=
  s.bind fun s =>
    (partLoop 4 0 s.bytes).bind fun (ip, s) => if head s ≠ 0 then none else some ip

def parseIp (s : Option CStr) : Option (BitVec 32) := parseQuad s

def termParseIp (s : Option CStr) : Option (BitVec 32) := parseQuad s

/-! ## the literal parser of net_do_resolve -/

/-- the loop over the digits: `ok`, `v`, `digits` and `p` behind it -/
def literalDigits : List Byte → Nat → Nat → Bool × Nat × Nat × List Byte
  | [], v, digits => (true, v, digits, [])
  | c :: p, v, digits =>
    if isDigit c then
      let v := v * 10 + (c.toNat - 0x30)
      let digits := digits + 1
      if digits > 3 ∨ v > 255 then (false, v, digits, p) else literalDigits p v digits
    else (true, v, digits, c :: p)

/-- the last turns of `for (part = 0; part < 4 && ok; part++)`, as long as `ok` -/
def literalParts : Nat → BitVec 32 → List Byte → Bool × BitVec 32 × List Byte
  | 0, acc, p => (true, acc, p)
  | left + 1, acc, p =>
    let (ok, v, digits, p) := literalDigits p 0 0
    let ok := if digits = 0 then false else ok
    let acc := shiftIn acc v
    let (ok, p) := if left ≠ 0 then if head p ≠ dotChar then (false, p) else (ok, p.tail) else (ok, p)
    if ok then literalParts left acc p else (false, acc, p)

/-- the address that is accepted as it is; `none` goes on to DNS -/
def netLiteral (name : CStr) : Option (BitVec 32) :=
  let (ok, acc, p) := literalParts 4 0 name.bytes
  if ok ∧ head p = 0 then some acc else none

/-! ## what a dotted quad is -/

/-- the number that digits stand for, behind the number `v` -/
def numberFrom (v : Nat) (f : List Byte) : Nat := f.foldl (fun v c => v * 10 + (c.toNat - 0x30)) v

/-- one to three digits, for a number up to 255 -/
structure IsField (f : List Byte) : Prop where
  digits : ∀ c ∈ f, isDigit c = true
  pos : 1 ≤ f.length
  short : f.length ≤ 3
  max : numberFrom 0 f ≤ 255

/-- **`s` is a dotted quad for `ip`** -/
def IsQuad (s : List Byte) (ip : BitVec 32) : Prop :=
  ∃ a b c d, IsField a ∧ IsField b ∧ IsField c ∧ IsField d ∧
    s = a ++ dotChar :: (b ++ dotChar :: (c ++ dotChar :: d)) ∧
    ip.toNat = ((numberFrom 0 a * 256 + numberFrom 0 b) * 256 + numberFrom 0 c) * 256 + numberFrom 0 d

/-- no digit comes next -/
def NoDigit (s : List Byte) : Prop := ∀ c ∈ s.head?, isDigit c = false

variable {s s' f : List Byte} {v v' digits digits' left : Nat} {ip ip' : BitVec 32}

theorem numberFrom_cons (v : Nat) (c : Byte) (f : List Byte) :
    numberFrom v (c :: f) = numberFrom (v * 10 + (c.toNat - 0x30)) f := by
  unfold numberFrom
  rw [List.foldl_cons]

theorem le_numberFrom (v : Nat) (f : List Byte) : v ≤ numberFrom v f := by
  induction f generalizing v with
  | nil => exact le_rfl
  | cons c f ih =>
    rw [numberFrom_cons]
    have := ih (v * 10 + (c.toNat - 0x30))
    omega

/-! ## the loop over the digits -/

/-- the digits of a field are all taken -/
theorem digitLoop_append (hf : ∀ c ∈ f, isDigit c = true) (hs : NoDigit s)
    (hd : digits + f.length ≤ 3) (hv : numberFrom v f ≤ 255) :
    digitLoop (f ++ s) v digits = some (numberFrom v f, digits + f.length, s) := by
  induction f generalizing v digits with
  | nil =>
    cases s with
    | nil => rfl
    | cons c s =>
      rw [List.nil_append, digitLoop, if_neg (by rw [hs c rfl]; exact Bool.false_ne_true)]
      rfl
  | cons c f ih =>
    have hle := le_numberFrom (v * 10 + (c.toNat - 0x30)) f
    rw [numberFrom_cons] at hv
    rw [List.length_cons] at hd
    rw [List.cons_append, digitLoop, if_pos (hf c List.mem_cons_self)]
    simp only
    rw [if_neg (by omega), ih (fun b hb => hf b (List.mem_cons_of_mem c hb)) (by omega) hv,
      numberFrom_cons, List.length_cons, Nat.add_right_comm digits 1, Nat.add_assoc]

/-- what the loop takes -/
theorem of_digitLoop (h : digitLoop s v digits = some (v', digits', s')) :
    ∃ f, s = f ++ s' ∧ (∀ c ∈ f, isDigit c = true) ∧ NoDigit s' ∧ v' = numberFrom v f ∧
      digits' = digits + f.length ∧ (f = [] ∨ digits' ≤ 3 ∧ v' ≤ 255) := by
  induction s generalizing v digits with
  | nil =>
    obtain ⟨rfl, rfl, rfl⟩ : v = v' ∧ digits = digits' ∧ [] = s' := by
      simpa [digitLoop] using h
    exact ⟨[], rfl, by simp, by simp [NoDigit], rfl, rfl, .inl rfl⟩
  | cons c s ih =>
    rw [digitLoop] at h
    by_cases hc : isDigit c = true
    · rw [if_pos hc] at h
      simp only at h
      by_cases hbig : digits + 1 > 3 ∨ v * 10 + (c.toNat - 0x30) > 255
      · rw [if_pos hbig] at h
        exact absurd h (by simp)
      · rw [if_neg hbig] at h
        obtain ⟨f, rfl, hf, hs', hv, hd, hmax⟩ := ih h
        refine ⟨c :: f, rfl, ?_, hs', hv, by rw [hd, List.length_cons]; omega, .inr ?_⟩
        · exact List.forall_mem_cons.mpr ⟨hc, hf⟩
        · rcases hmax with rfl | hmax
          · have hv0 : v' = v * 10 + (c.toNat - 0x30) := hv
            have hd0 : digits' = digits + 1 := hd
            omega
          · exact hmax
    · rw [if_neg hc] at h
      obtain ⟨rfl, rfl, rfl⟩ : v = v' ∧ digits = digits' ∧ c :: s = s' := by simpa using h
      refine ⟨[], rfl, by simp, ?_, rfl, rfl, .inl rfl⟩
      rintro b ⟨rfl⟩
      exact Bool.not_eq_true _ ▸ hc

/-- **one number**: the loop, and `digits == 0` behind it -/
theorem digitLoop_iff :
    digitLoop s 0 0 = some (v, digits, s') ∧ digits ≠ 0 ↔
      ∃ f, IsField f ∧ s = f ++ s' ∧ NoDigit s' ∧ v = numberFrom 0 f ∧ digits = f.length := by
  constructor
  · rintro ⟨h, h0⟩
    obtain ⟨f, hs, hf, hs', hv, hd, hmax⟩ := of_digitLoop h
    rw [Nat.zero_add] at hd
    have hne : f ≠ [] := by
      rintro rfl
      exact h0 hd
    have hpos := List.length_pos_iff.mpr hne
    obtain ⟨h3, h255⟩ := hmax.resolve_left hne
    exact ⟨f, ⟨hf, hpos, by omega, by omega⟩, hs, hs', hv, hd⟩
  · rintro ⟨f, hf, rfl, hs', rfl, rfl⟩
    have hpos := hf.pos
    refine ⟨?_, by omega⟩
    rw [digitLoop_append hf.digits hs' (by rw [Nat.zero_add]; exact hf.short) hf.max, Nat.zero_add]

/-! ## the loop over the parts -/

/-- **one part** -/
theorem partLoop_succ {r : BitVec 32 × List Byte} :
    partLoop (left + 1) ip s = some r ↔ ∃ f t, IsField f ∧ s = f ++ t ∧ NoDigit t ∧
      (if left ≠ 0 then
          if head t ≠ dotChar then none else partLoop left (shiftIn ip (numberFrom 0 f)) t.tail
        else partLoop left (shiftIn ip (numberFrom 0 f)) t) = some r := by
  rw [partLoop, Option.bind_eq_some_iff]
  constructor
  · rintro ⟨⟨v, digits, t⟩, hloop, hr⟩
    simp only at hr
    by_cases h0 : digits = 0
    · rw [if_pos h0] at hr
      exact absurd hr (by simp)
    · rw [if_neg h0] at hr
      obtain ⟨f, hf, hs, ht, rfl, -⟩ := digitLoop_iff.mp ⟨hloop, h0⟩
      exact ⟨f, t, hf, hs, ht, hr⟩
  · rintro ⟨f, t, hf, hs, ht, hr⟩
    obtain ⟨hloop, h0⟩ := digitLoop_iff.mpr ⟨f, hf, hs, ht, rfl, rfl⟩
    refine ⟨_, hloop, ?_⟩
    simp only
    rw [if_neg h0]
    exact hr

theorem partLoop_last :
    partLoop 1 ip s = some (ip', s') ↔
      ∃ f, IsField f ∧ s = f ++ s' ∧ NoDigit s' ∧ ip' = shiftIn ip (numberFrom 0 f) := by
  rw [partLoop_succ]
  constructor
  · rintro ⟨f, t, hf, hs, ht, hr⟩
    rw [if_neg (by simp), partLoop] at hr
    obtain ⟨rfl, rfl⟩ := Prod.mk.inj (Option.some.inj hr)
    exact ⟨f, hf, hs, ht, rfl⟩
  · rintro ⟨f, hf, hs, ht, rfl⟩
    exact ⟨f, s', hf, hs, ht, rfl⟩

theorem noDigit_dot (t : List Byte) : NoDigit (dotChar :: t) := by
  rintro c ⟨rfl⟩
  decide

/-- a part with a dot behind it -/
theorem partLoop_dot :
    partLoop (left + 2) ip s = some (ip', s') ↔
      ∃ f t, IsField f ∧ s = f ++ dotChar :: t ∧
        partLoop (left + 1) (shiftIn ip (numberFrom 0 f)) t = some (ip', s') := by
  rw [partLoop_succ]
  constructor
  · rintro ⟨f, t, hf, hs, -, hr⟩
    rw [if_pos (by omega)] at hr
    by_cases hdot : head t ≠ dotChar
    · rw [if_pos hdot] at hr
      exact absurd hr (by simp)
    · rw [if_neg hdot] at hr
      cases t with
      | nil => exact absurd (not_not.mp hdot) (by decide)
      | cons c t =>
        obtain rfl : c = dotChar := not_not.mp hdot
        exact ⟨f, t, hf, hs, hr⟩
  · rintro ⟨f, t, hf, hs, hr⟩
    refine ⟨f, dotChar :: t, hf, hs, noDigit_dot t, ?_⟩
    rw [if_pos (by omega), if_neg (show ¬ head (dotChar :: t) ≠ dotChar from not_not.mpr rfl)]
    exact hr

theorem toNat_shiftIn (hip : ip.toNat < 2 ^ 24) (hv : v ≤ 255) :
    (shiftIn ip v).toNat = ip.toNat * 256 + v := by
  have hmod : ip.toNat * 2 ^ 8 % 2 ^ 32 = ip.toNat * 2 ^ 8 := Nat.mod_eq_of_lt (by omega)
  unfold shiftIn
  rw [BitVec.toNat_or, BitVec.toNat_shiftLeft, BitVec.toNat_ofNat,
    Nat.mod_eq_of_lt (show v < 2 ^ 32 by omega), Nat.shiftLeft_eq, hmod, ← Nat.shiftLeft_eq,
    ← Nat.shiftLeft_add_eq_or_of_lt (show v < 2 ^ 8 by omega), Nat.shiftLeft_eq]

theorem toNat_quad {a b c d : Nat} (ha : a ≤ 255) (hb : b ≤ 255) (hc : c ≤ 255) (hd : d ≤ 255) :
    (shiftIn (shiftIn (shiftIn (shiftIn 0 a) b) c) d).toNat =
      ((a * 256 + b) * 256 + c) * 256 + d := by
  have h1 : (shiftIn 0 a).toNat = a := by
    rw [toNat_shiftIn (by decide) ha]
    exact Nat.zero_add a
  have h2 : (shiftIn (shiftIn 0 a) b).toNat = a * 256 + b := by
    rw [toNat_shiftIn (by omega) hb, h1]
  have h3 : (shiftIn (shiftIn (shiftIn 0 a) b) c).toNat = (a * 256 + b) * 256 + c := by
    rw [toNat_shiftIn (by omega) hc, h2]
  rw [toNat_shiftIn (by omega) hd, h3]

/-- the end of a C string is where its zero is -/
theorem head_eq_zero (h : ∀ b ∈ s, b ≠ 0) : head s = 0 ↔ s = [] := by
  cases s with
  | nil => exact ⟨fun _ => rfl, fun _ => rfl⟩
  | cons c s => exact ⟨fun hc => absurd hc (h c List.mem_cons_self), fun hc => absurd hc (by simp)⟩

/-- **What is accepted, and as what.** -/
theorem parseIp_iff (s : CStr) (ip : BitVec 32) :
    parseIp (some s) = some ip ↔ IsQuad s.bytes ip := by
  have hend : parseIp (some s) = some ip ↔ partLoop 4 0 s.bytes = some (ip, []) := by
    unfold parseIp parseQuad
    rw [Option.bind_some, Option.bind_eq_some_iff]
    constructor
    · rintro ⟨⟨ip', t⟩, hloop, ht⟩
      simp only at ht
      obtain ⟨a, t1, ha, hs1, h1⟩ := partLoop_dot.mp hloop
      obtain ⟨b, t2, hb, hs2, h2⟩ := partLoop_dot.mp h1
      obtain ⟨c, t3, hc, hs3, h3⟩ := partLoop_dot.mp h2
      obtain ⟨d, hd, hs4, -, -⟩ := partLoop_last.mp h3
      have hmem : ∀ b ∈ t, b ≠ 0 := fun b hb => s.ne b (by simp [hs1, hs2, hs3, hs4, hb])
      by_cases h0 : head t ≠ 0
      · rw [if_pos h0] at ht
        exact absurd ht (by simp)
      · rw [if_neg h0] at ht
        rw [hloop, Option.some.inj ht, (head_eq_zero hmem).mp (not_not.mp h0)]
    · intro h
      exact ⟨_, h, rfl⟩
  rw [hend]
  unfold IsQuad
  constructor
  · intro h
    obtain ⟨a, t1, ha, hs1, h1⟩ := partLoop_dot.mp h
    obtain ⟨b, t2, hb, hs2, h2⟩ := partLoop_dot.mp h1
    obtain ⟨c, t3, hc, hs3, h3⟩ := partLoop_dot.mp h2
    obtain ⟨d, hd, hs4, -, hip⟩ := partLoop_last.mp h3
    refine ⟨a, b, c, d, ha, hb, hc, hd, ?_, ?_⟩
    · rw [hs1, hs2, hs3, hs4, List.append_nil]
    · rw [hip, toNat_quad ha.max hb.max hc.max hd.max]
  · rintro ⟨a, b, c, d, ha, hb, hc, hd, hs, hip⟩
    refine partLoop_dot.mpr ⟨a, _, ha, hs, partLoop_dot.mpr ⟨b, _, hb, rfl,
      partLoop_dot.mpr ⟨c, _, hc, rfl, partLoop_last.mpr ⟨d, hd, ?_, ?_, ?_⟩⟩⟩⟩
    · rw [List.append_nil]
    · simp [NoDigit]
    · exact BitVec.eq_of_toNat_eq (by rw [hip, toNat_quad ha.max hb.max hc.max hd.max])

/-! ## the third parser -/

theorem literalDigits_some {r : Nat × Nat × List Byte} (h : digitLoop s v digits = some r) :
    literalDigits s v digits = (true, r) := by
  induction s generalizing v digits with
  | nil => rw [literalDigits, ← Option.some.inj h]
  | cons c s ih =>
    rw [digitLoop] at h
    rw [literalDigits]
    by_cases hc : isDigit c = true
    · rw [if_pos hc] at h ⊢
      simp only at h ⊢
      by_cases hbig : digits + 1 > 3 ∨ v * 10 + (c.toNat - 0x30) > 255
      · rw [if_pos hbig] at h
        exact absurd h (by simp)
      · rw [if_neg hbig] at h ⊢
        exact ih h
    · rw [if_neg hc] at h ⊢
      rw [← Option.some.inj h]

theorem literalDigits_none (h : digitLoop s v digits = none) :
    (literalDigits s v digits).1 = false := by
  induction s generalizing v digits with
  | nil => exact absurd h (by simp [digitLoop])
  | cons c s ih =>
    rw [digitLoop] at h
    rw [literalDigits]
    by_cases hc : isDigit c = true
    · rw [if_pos hc] at h ⊢
      simp only at h ⊢
      by_cases hbig : digits + 1 > 3 ∨ v * 10 + (c.toNat - 0x30) > 255
      · rw [if_pos hbig]
      · rw [if_neg hbig] at h ⊢
        exact ih h
    · rw [if_neg hc] at h
      exact absurd h (by simp)

theorem literalParts_some {r : BitVec 32 × List Byte} (h : partLoop left ip s = some r) :
    literalParts left ip s = (true, r) := by
  induction left generalizing ip s with
  | zero => rw [literalParts, ← Option.some.inj h]
  | succ left ih =>
    rw [partLoop, Option.bind_eq_some_iff] at h
    obtain ⟨⟨v, digits, t⟩, hloop, hr⟩ := h
    simp only at hr
    rw [literalParts, literalDigits_some hloop]
    simp only
    by_cases h0 : digits = 0
    · rw [if_pos h0] at hr
      exact absurd hr (by simp)
    · rw [if_neg h0] at hr ⊢
      by_cases hl : left ≠ 0
      · rw [if_pos hl] at hr ⊢
        by_cases hdot : head t ≠ dotChar
        · rw [if_pos hdot] at hr
          exact absurd hr (by simp)
        · rw [if_neg hdot] at hr ⊢
          exact ih hr
      · rw [if_neg hl] at hr ⊢
        exact ih hr

/-- an error in the digits lasts to the end of the turn -/
theorem failed_turn (left : Nat) (t : List Byte) :
    ¬ (if left ≠ 0 then if head t ≠ dotChar then (false, t) else (false, t.tail)
      else (false, t)).1 = true := by
  split_ifs <;> exact not_false

theorem literalParts_none (h : partLoop left ip s = none) : (literalParts left ip s).1 = false := by
  induction left generalizing ip s with
  | zero => exact absurd h (by simp [partLoop])
  | succ left ih =>
    rw [partLoop] at h
    rw [literalParts]
    obtain hloop | ⟨⟨v, digits, t⟩, hloop⟩ := Option.eq_none_or_eq_some (digitLoop s 0 0)
    · have hok := literalDigits_none hloop
      generalize literalDigits s 0 0 = d at hok
      obtain ⟨ok, v, digits, t⟩ := d
      obtain rfl : ok = false := hok
      simp only [ite_self]
      rw [if_neg (failed_turn left t)]
    · rw [hloop, Option.bind_some] at h
      rw [literalDigits_some hloop]
      simp only at h ⊢
      by_cases h0 : digits = 0
      · rw [if_pos h0, if_neg (failed_turn left t)]
      · rw [if_neg h0] at h ⊢
        by_cases hl : left ≠ 0
        · rw [if_pos hl] at h ⊢
          by_cases hdot : head t ≠ dotChar
          · rw [if_pos hdot]
            rfl
          · rw [if_neg hdot] at h ⊢
            exact ih h
        · rw [if_neg hl] at h ⊢
          exact ih h

/-- **The third parser does what the first does.** -/
theorem netLiteral_eq (name : CStr) : netLiteral name = parseIp (some name) := by
  unfold netLiteral parseIp parseQuad
  rw [Option.bind_some]
  obtain hloop | ⟨⟨acc, t⟩, hloop⟩ := Option.eq_none_or_eq_some (partLoop 4 0 name.bytes)
  · have hok := literalParts_none hloop
    generalize literalParts 4 0 name.bytes = r at hok
    obtain ⟨ok, acc, t⟩ := r
    obtain rfl : ok = false := hok
    rw [hloop]
    simp
  · rw [literalParts_some hloop, hloop, Option.bind_some]
    simp only
    by_cases h0 : head t = 0
    · rw [if_neg (not_not.mpr h0)]
      exact if_pos ⟨trivial, h0⟩
    · rw [if_pos h0]
      exact if_neg fun hc => h0 hc.2

/-! ## the printer -/

/-- one number as `ip_to_str` writes it -/
def decimal (v : Nat) : List Byte :=
  (if v ≥ 100 then [BitVec.ofNat 8 (0x30 + v / 100)] else []) ++
    ((if v ≥ 10 then [BitVec.ofNat 8 (0x30 + v / 10 % 10)] else []) ++ [BitVec.ofNat 8 (0x30 + v % 10)])

theorem toNat_digit (d : Nat) (h : d < 10) : (BitVec.ofNat 8 (0x30 + d)).toNat = 0x30 + d := by
  rw [BitVec.toNat_ofNat, Nat.mod_eq_of_lt (by omega)]

theorem isDigit_digit (d : Nat) (h : d < 10) : isDigit (BitVec.ofNat 8 (0x30 + d)) = true := by
  unfold isDigit
  rw [toNat_digit d h, decide_eq_true_eq]
  omega

/-- each number is a field, and is read back -/
theorem decimal_spec (v : Nat) (h : v < 256) : IsField (decimal v) ∧ numberFrom 0 (decimal v) = v := by
  have hlen : 1 ≤ (decimal v).length ∧ (decimal v).length ≤ 3 := by
    unfold decimal
    split_ifs <;> simp
  have hdigits : ∀ c ∈ decimal v, isDigit c = true := by
    intro c hc
    simp only [decimal, List.mem_append, List.mem_ite_nil_right, List.mem_singleton] at hc
    obtain ⟨-, rfl⟩ | ⟨-, rfl⟩ | rfl := hc
    · exact isDigit_digit _ (by omega)
    · exact isDigit_digit _ (by omega)
    · exact isDigit_digit _ (by omega)
  have hnum : numberFrom 0 (decimal v) = v := by
    have h1 := toNat_digit (v / 100)
    have h2 := toNat_digit (v / 10 % 10)
    have h3 := toNat_digit (v % 10) (by omega)
    unfold decimal
    by_cases h100 : v ≥ 100
    · rw [if_pos h100, if_pos (by omega)]
      show ((0 * 10 + (_ - 0x30)) * 10 + (_ - 0x30)) * 10 + (_ - 0x30) = v
      rw [h1 (by omega), h2 (by omega), h3]
      omega
    · rw [if_neg h100]
      by_cases h10 : v ≥ 10
      · rw [if_pos h10]
        show (0 * 10 + (_ - 0x30)) * 10 + (_ - 0x30) = v
        rw [h2 (by omega), h3]
        omega
      · rw [if_neg h10]
        show 0 * 10 + (_ - 0x30) = v
        rw [h3]
        omega
  exact ⟨⟨hdigits, hlen.1, hlen.2, by omega⟩, hnum⟩

theorem bytes_ipToStr (ip : BitVec 32) :
    bytes (ipToStr ip) =
      decimal (ip.toNat / 2 ^ 24 % 256) ++ dotChar :: (decimal (ip.toNat / 2 ^ 16 % 256) ++
        dotChar :: (decimal (ip.toNat / 2 ^ 8 % 256) ++
          dotChar :: decimal (ip.toNat / 2 ^ 0 % 256))) := by
  have hnum : ∀ v, bytes ((if v ≥ 100 then [UInt8.ofNat (0x30 + v / 100)] else []) ++
      ((if v ≥ 10 then [UInt8.ofNat (0x30 + v / 10 % 10)] else []) ++ [UInt8.ofNat (0x30 + v % 10)])) =
      decimal v := by
    intro v
    unfold bytes decimal
    rw [List.map_append, List.map_append, apply_ite (List.map UInt8.toBitVec),
      apply_ite (List.map UInt8.toBitVec)]
    rfl
  have hone : ∀ i, bytes ((if i ≠ 0 then [0x2E] else []) ++
      ((if ip.toNat / 2 ^ (24 - 8 * i) % 256 ≥ 100 then
          [UInt8.ofNat (0x30 + ip.toNat / 2 ^ (24 - 8 * i) % 256 / 100)] else []) ++
        ((if ip.toNat / 2 ^ (24 - 8 * i) % 256 ≥ 10 then
            [UInt8.ofNat (0x30 + ip.toNat / 2 ^ (24 - 8 * i) % 256 / 10 % 10)] else []) ++
          [UInt8.ofNat (0x30 + ip.toNat / 2 ^ (24 - 8 * i) % 256 % 10)]))) =
      (if i ≠ 0 then [dotChar] else []) ++ decimal (ip.toNat / 2 ^ (24 - 8 * i) % 256) := by
    intro i
    rw [← hnum, bytes, List.map_append, apply_ite (List.map UInt8.toBitVec)]
    rfl
  have hsplit : bytes (ipToStr ip) = (List.range 4).flatMap fun i =>
      (if i ≠ 0 then [dotChar] else []) ++ decimal (ip.toNat / 2 ^ (24 - 8 * i) % 256) := by
    show ((List.range 4).flatMap _).map UInt8.toBitVec = _
    rw [List.map_flatMap]
    exact List.flatMap_congr fun i _ => hone i
  rw [hsplit]
  show decimal _ ++ (dotChar :: decimal _ ++ (dotChar :: decimal _ ++ (dotChar :: decimal _ ++ []))) = _
  rw [List.append_nil]
  rfl

theorem isQuad_ipToStr (ip : BitVec 32) : IsQuad (bytes (ipToStr ip)) ip := by
  have hip := ip.isLt
  have hfield : ∀ i, IsField (decimal (ip.toNat / 2 ^ i % 256)) ∧
      numberFrom 0 (decimal (ip.toNat / 2 ^ i % 256)) = ip.toNat / 2 ^ i % 256 :=
    fun i => decimal_spec _ (Nat.mod_lt _ (by decide))
  refine ⟨_, _, _, _, (hfield 24).1, (hfield 16).1, (hfield 8).1, (hfield 0).1, bytes_ipToStr ip, ?_⟩
  rw [(hfield 24).2, (hfield 16).2, (hfield 8).2, (hfield 0).2]
  omega

theorem isDigit_ne {c : Byte} (h : isDigit c = true) : c ≠ 0 := by
  rintro rfl
  exact absurd h (by decide)

theorem IsQuad.ne {s : List Byte} (h : IsQuad s ip) : ∀ c ∈ s, c ≠ 0 := by
  obtain ⟨a, b, c, d, ha, hb, hc, hd, rfl, -⟩ := h
  have hdot : dotChar ≠ 0 := by decide
  simp only [List.forall_mem_append, List.forall_mem_cons]
  exact ⟨fun x hx => isDigit_ne (ha.digits x hx), hdot, fun x hx => isDigit_ne (hb.digits x hx), hdot,
    fun x hx => isDigit_ne (hc.digits x hx), hdot, fun x hx => isDigit_ne (hd.digits x hx)⟩

/-- what `ip_to_str` leaves in `out` -/
def printed (ip : BitVec 32) : CStr := ⟨bytes (ipToStr ip), (isQuad_ipToStr ip).ne⟩

/-- **The three parsers agree, they accept the dotted quads and nothing else, and they read back what
`ip_to_str` prints.** -/
theorem quads_agree :
    (∀ s : CStr, termParseIp (some s) = parseIp (some s) ∧ netLiteral s = parseIp (some s) ∧
      ∀ ip, parseIp (some s) = some ip ↔ IsQuad s.bytes ip) ∧
    ∀ ip, parseIp (some (printed ip)) = some ip ∧ termParseIp (some (printed ip)) = some ip ∧
      netLiteral (printed ip) = some ip := by
  have hback : ∀ ip, parseIp (some (printed ip)) = some ip :=
    fun ip => (parseIp_iff (printed ip) ip).mpr (isQuad_ipToStr ip)
  refine ⟨fun s => ⟨rfl, netLiteral_eq s, parseIp_iff s⟩, fun ip => ⟨hback ip, hback ip, ?_⟩⟩
  rw [netLiteral_eq]
  exact hback ip

/-- `out` has sixteen bytes -/
theorem printed_fits (ip : BitVec 32) : (printed ip).strlen < 16 := by
  obtain ⟨a, b, c, d, ha, hb, hc, hd, hs, -⟩ := isQuad_ipToStr ip
  have h1 := ha.short
  have h2 := hb.short
  have h3 := hc.short
  have h4 := hd.short
  have hlen := congrArg List.length hs
  simp only [List.length_append, List.length_cons] at hlen
  show (bytes (ipToStr ip)).length < 16
  omega

/-! ## the network task's model -/

theorem takeNumber_eq (s : List Byte) (v digits : Nat) :
    Net.takeNumber v digits s = (digitLoop s v digits).bind fun r =>
      if r.2.1 = 0 then none else some (r.1, r.2.2) := by
  induction s generalizing v digits with
  | nil => rfl
  | cons c s ih =>
    rw [Net.takeNumber, digitLoop]
    by_cases hc : isDigit c = true
    · rw [if_pos hc, if_pos hc]
      simp only
      by_cases hbig : digits + 1 > 3 ∨ v * 10 + (c.toNat - 0x30) > 255
      · rw [if_pos hbig, if_pos hbig]
        rfl
      · rw [if_neg hbig, if_neg hbig]
        exact ih ..
    · rw [if_neg hc, if_neg hc]
      rfl

theorem takeNumber_iff :
    Net.takeNumber 0 0 s = some (v, s') ↔
      ∃ f, IsField f ∧ s = f ++ s' ∧ NoDigit s' ∧ v = numberFrom 0 f := by
  rw [takeNumber_eq, Option.bind_eq_some_iff]
  constructor
  · rintro ⟨⟨w, digits, t⟩, hloop, hr⟩
    simp only at hr
    by_cases h0 : digits = 0
    · rw [if_pos h0] at hr
      exact absurd hr (by simp)
    · rw [if_neg h0] at hr
      obtain ⟨rfl, rfl⟩ := Prod.mk.inj (Option.some.inj hr)
      obtain ⟨f, hf, hs, ht, hw, -⟩ := digitLoop_iff.mp ⟨hloop, h0⟩
      exact ⟨f, hf, hs, ht, hw⟩
  · rintro ⟨f, hf, hs, ht, hw⟩
    obtain ⟨hloop, h0⟩ := digitLoop_iff.mpr ⟨f, hf, hs, ht, hw, rfl⟩
    exact ⟨_, hloop, if_neg h0⟩

theorem takeParts_iff {n : Nat} :
    Net.takeParts (left + 1) n s = some v ↔
      ∃ f t, IsField f ∧ s = dotChar :: (f ++ t) ∧ NoDigit t ∧
        Net.takeParts left (n * 256 + numberFrom 0 f) t = some v := by
  cases s with
  | nil => simp [Net.takeParts]
  | cons c s =>
    rw [Net.takeParts]
    by_cases hc : c = dotChar
    · rw [if_pos hc, Option.bind_eq_some_iff]
      constructor
      · rintro ⟨⟨w, t⟩, hw, hr⟩
        obtain ⟨f, hf, rfl, ht, rfl⟩ := takeNumber_iff.mp hw
        exact ⟨f, t, hf, by rw [hc], ht, hr⟩
      · rintro ⟨f, t, hf, hs, ht, hr⟩
        exact ⟨_, takeNumber_iff.mpr ⟨f, hf, (List.cons.inj hs).2, ht, rfl⟩, hr⟩
    · rw [if_neg hc]
      constructor
      · intro h
        exact absurd h (by simp)
      · rintro ⟨f, t, -, hs, -⟩
        exact absurd (List.cons.inj hs).1 hc

theorem takeParts_zero {n : Nat} : Net.takeParts 0 n s = some v ↔ s = [] ∧ n = v := by
  rw [Net.takeParts]
  by_cases hs : s = []
  · rw [if_pos hs]
    simp [hs]
  · rw [if_neg hs]
    simp [hs]

/-- **The network task's model has this parser**, which `term_ping` is modelled with too. -/
theorem dottedQuad_eq (s : CStr) : Net.dottedQuad s.bytes = parseIp (some s) := by
  refine Option.ext fun ip => ?_
  rw [parseIp_iff]
  unfold Net.dottedQuad
  rw [Option.bind_eq_some_iff]
  constructor
  · rintro ⟨⟨v, t⟩, hv, hr⟩
    obtain ⟨n, hn, rfl⟩ := Option.map_eq_some_iff.mp hr
    obtain ⟨a, ha, hs, -, rfl⟩ := takeNumber_iff.mp hv
    obtain ⟨b, t2, hb, rfl, -, h2⟩ := takeParts_iff.mp hn
    obtain ⟨c, t3, hc, rfl, -, h3⟩ := takeParts_iff.mp h2
    obtain ⟨d, t4, hd, rfl, -, h4⟩ := takeParts_iff.mp h3
    obtain ⟨rfl, rfl⟩ := takeParts_zero.mp h4
    refine ⟨a, b, c, d, ha, hb, hc, hd, by rw [hs, List.append_nil], ?_⟩
    have h1 := ha.max
    have h2 := hb.max
    have h3 := hc.max
    have h4 := hd.max
    rw [BitVec.toNat_ofNat]
    exact Nat.mod_eq_of_lt (by simp only; omega)
  · rintro ⟨a, b, c, d, ha, hb, hc, hd, hs, hip⟩
    have hof : BitVec.ofNat 32 ip.toNat = ip := (BitVec.ofNat_toNat 32 ip).trans (BitVec.setWidth_eq ip)
    refine ⟨_, takeNumber_iff.mpr ⟨a, ha, hs, noDigit_dot _, rfl⟩,
      Option.map_eq_some_iff.mpr ⟨ip.toNat, ?_, hof⟩⟩
    refine takeParts_iff.mpr ⟨b, _, hb, rfl, noDigit_dot _, takeParts_iff.mpr ⟨c, _, hc, rfl,
      noDigit_dot _, takeParts_iff.mpr ⟨d, [], hd, by rw [List.append_nil], by simp [NoDigit],
      takeParts_zero.mpr ⟨rfl, hip.symm⟩⟩⟩⟩

end Noxis.Wm
