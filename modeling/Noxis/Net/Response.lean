import Noxis.Lib.Labels
import Noxis.Net.Dns

/-!
# 25-osfs11/net/dns.c: how a response is read

Here every read of a byte is checked against the length of the payload, and a loop that has no end is
a fault too.

* `udpInput`, `dnsInput`   the functions of the source, with their faults;
* `Response`               what RFC 1035 calls a response, in the parts that it is made of;
* `Response.bytes`         its bytes;
* `reads_response`         **no payload leads to a fault, and a response gives its first address**.
-/

namespace Noxis.Net.Dns
open Labels

/-! ## reading -/

inductive Fault where
  /-- a read outside of the payload -/
  | outside
  | endless
  deriving DecidableEq, Repr

abbrev Parse := Except Fault

theorem ok_bind {α β : Type} (a : α) (f : α → Parse β) : (Except.ok a >>= f) = f a := rfl

/-- `p[i]` -/
def byteAt (p : List Byte) (i : Nat) : Parse Nat :=
  match p[i]? with
  | none => .error .outside
  | some b => .ok b.toNat

/-- `(p[i] << 8) | p[i + 1]` -/
def wordAt (p : List Byte) (i : Nat) : Parse Nat := do
  let hi ← byteAt p i
  let lo ← byteAt p (i + 1)
  .ok (hi * 256 + lo)

/-- `dns_skip_name`, with the turns that are left -/
def dnsSkipName (p : List Byte) : Nat → Nat → Parse Nat
  | 0, _ => .error .endless
  | n + 1, off =>
    if off < p.length then do
      let c ← byteAt p off
      if c = 0 then .ok (off + 1)
      else if c / 64 = 3 then .ok (if off + 2 < p.length then off + 2 else p.length)
      else dnsSkipName p n (off + 1 + c)
    else .ok p.length

/-- a turn goes one byte further at least -/
def skipName (p : List Byte) (off : Nat) : Parse Nat := dnsSkipName p (p.length + 1) off

def skipQuestions (p : List Byte) : Nat → Nat → Parse Nat
  | 0, off => .ok off
  | n + 1, off =>
    if off < p.length then do
      let off ← skipName p off
      skipQuestions p n (off + 4)
    else .ok off

def findA (p : List Byte) : Nat → Nat → Parse Answer
  | 0, _ => .ok .failed
  | n + 1, off =>
    if off + 12 ≤ p.length then do
      let off ← skipName p off
      if off + 10 > p.length then .ok .ignored
      else do
        let type ← wordAt p off
        let rdlen ← wordAt p (off + 8)
        let off := off + 10
        if type = 1 ∧ rdlen = 4 ∧ off + 4 ≤ p.length then do
          let hi ← wordAt p off
          let lo ← wordAt p (off + 2)
          .ok (.address (BitVec.ofNat 32 (hi * 65536 + lo)))
        else findA p n (off + rdlen)
    else .ok .failed

def dnsInput (p : List Byte) : Parse Answer :=
  if p.length < 12 then .ok .ignored
  else do
    let id ← wordAt p 0
    if id ≠ DNS_QUERY_ID then .ok .ignored
    else do
      let flags ← wordAt p 2
      if flags &&& 0x8000 = 0 then .ok .ignored
      else if flags &&& 0x000F ≠ 0 then .ok .failed
      else do
        let an ← wordAt p 6
        if an = 0 then .ok .failed
        else do
          let qd ← wordAt p 4
          let off ← skipQuestions p qd 12
          findA p an off

/-- the payload of the datagram is cut where the UDP header says -/
def udpInput (pkt : List Byte) : Parse Answer :=
  if pkt.length < 8 then .ok .ignored
  else do
    let dport ← wordAt pkt 2
    let total ← wordAt pkt 4
    let clen := (total + 2 ^ 16 - 8) % 2 ^ 16
    let clen := if clen > pkt.length - 8 then pkt.length - 8 else clen
    if dport = DNS_LOCAL_PORT then dnsInput ((pkt.drop 8).take clen) else .ok .ignored

/-! ## responses -/

/-- how a name ends: with the root, or in a name that has been written before -/
inductive NameEnd where
  | root
  | pointer (at_ : Fin 0x4000)

structure WireName where
  labels : List (List Byte)
  valid : ∀ l ∈ labels, IsLabel l
  finish : NameEnd

structure Question where
  name : WireName
  qtype : BitVec 16
  qclass : BitVec 16

structure Record where
  name : WireName
  type : BitVec 16
  class_ : BitVec 16
  ttl : BitVec 32
  rdata : List Byte
  short : rdata.length < 2 ^ 16

/-- a number of two bytes, the higher one first -/
def be16 (v : Nat) : List Byte := [BitVec.ofNat 8 (v / 256), BitVec.ofNat 8 v]

def NameEnd.bytes : NameEnd → List Byte
  | .root => [0]
  | .pointer k => be16 (0xC000 + k.val)

def WireName.bytes (w : WireName) : List Byte := encode w.labels ++ w.finish.bytes

def Question.bytes (q : Question) : List Byte :=
  q.name.bytes ++ be16 q.qtype.toNat ++ be16 q.qclass.toNat

def Record.bytes (r : Record) : List Byte :=
  r.name.bytes ++ (be16 r.type.toNat ++ (be16 r.class_.toNat ++ (be16 (r.ttl.toNat / 65536) ++
    (be16 r.ttl.toNat ++ (be16 r.rdata.length ++ r.rdata)))))

/-- the parts of a response, with the authority and additional records as they are in `more` -/
structure Parts where
  flags : BitVec 16
  questions : List Question
  answers : List Record
  nscount : BitVec 16
  arcount : BitVec 16
  more : List Byte

def Parts.bytes (m : Parts) : List Byte :=
  be16 DNS_QUERY_ID ++ (be16 m.flags.toNat ++ (be16 m.questions.length ++ (be16 m.answers.length ++
    (be16 m.nscount.toNat ++ (be16 m.arcount.toNat ++ (m.questions.flatMap Question.bytes ++
      (m.answers.flatMap Record.bytes ++ m.more)))))))

/-- a response to the query, in one datagram -/
structure Response extends Parts where
  /-- the bit QR -/
  response : 0x8000 ≤ flags.toNat
  questionCount : questions.length < 2 ^ 16
  answerCount : answers.length < 2 ^ 16
  short : toParts.bytes.length + 8 < 2 ^ 16

/-- the four bytes of an address -/
def addressOf (rdata : List Byte) : BitVec 32 :=
  BitVec.ofNat 32 (rdata.foldl (fun v b => v * 256 + b.toNat) 0)

def Record.IsA (r : Record) : Prop := r.type.toNat = 1 ∧ r.rdata.length = 4

instance (r : Record) : Decidable r.IsA := inferInstanceAs (Decidable (_ ∧ _))

/-- the address of the first A record -/
def firstA (rs : List Record) : Answer :=
  match rs.find? fun r => decide r.IsA with
  | some r => .address (addressOf r.rdata)
  | none => .failed

/-- **What a response says**: the first address, unless there is none or the server has failed. -/
def Response.answer (m : Response) : Answer :=
  if m.flags.toNat % 16 ≠ 0 then .failed else firstA m.answers

/-! ## no read is outside -/

section
variable {d : Datagram} {p : List Byte} {off i : Nat}

/-- `p` is what the datagram has from byte 8 on -/
def Payload (d : Datagram) (p : List Byte) : Prop := ∀ i (h : i < p.length), p[i].toNat = d.byte (8 + i)

theorem byteAt_eq (hp : Payload d p) (hi : i < p.length) : byteAt p i = .ok (d.byte (8 + i)) := by
  unfold byteAt
  rw [List.getElem?_eq_getElem hi]
  exact congrArg Except.ok (hp i hi)

theorem wordAt_eq (hp : Payload d p) (hi : i + 1 < p.length) : wordAt p i = .ok (d.word (8 + i)) := by
  unfold wordAt
  rw [byteAt_eq hp (by omega), byteAt_eq hp hi]
  rfl

/-- **The name is skipped within its turns**, and no byte behind the payload is read. -/
theorem dnsSkipName_eq (hp : Payload d p) {n n' : Nat} (hn : p.length - off < n)
    (hn' : p.length - off ≤ n') :
    dnsSkipName p n off = .ok (Net.dnsSkipName d p.length n' off) := by
  induction n generalizing off n' with
  | zero => exact absurd hn (Nat.not_lt_zero _)
  | succ n ih =>
    rw [dnsSkipName]
    by_cases hoff : off < p.length
    · obtain ⟨n', rfl⟩ : ∃ m, n' = m + 1 := ⟨n' - 1, by omega⟩
      rw [if_pos hoff, byteAt_eq hp hoff, Net.dnsSkipName, if_pos hoff]
      show (if d.byte (8 + off) = 0 then _ else _) = _
      simp only
      split_ifs
      · rfl
      · rfl
      · rfl
      · exact ih (by omega) (by omega)
    · rw [if_neg hoff]
      cases n' with
      | zero => rfl
      | succ n' =>
        rw [Net.dnsSkipName, if_neg hoff]

theorem skipName_eq (hp : Payload d p) (off : Nat) :
    skipName p off = .ok (Net.dnsSkipName d p.length p.length off) :=
  dnsSkipName_eq hp (by omega) (by omega)

theorem skipQuestions_eq (hp : Payload d p) (n off : Nat) :
    skipQuestions p n off = .ok (Net.skipQuestions d p.length n off) := by
  induction n generalizing off with
  | zero => rfl
  | succ n ih =>
    rw [skipQuestions, Net.skipQuestions, skipName_eq hp]
    by_cases hoff : off < p.length
    · rw [if_pos hoff, if_pos hoff]
      exact ih _
    · rw [if_neg hoff, if_neg hoff]

theorem findA_eq (hp : Payload d p) (n off : Nat) :
    findA p n off = .ok (Net.findA d p.length n off) := by
  induction n generalizing off with
  | zero => rfl
  | succ n ih =>
    rw [findA, Net.findA, skipName_eq hp]
    by_cases hoff : off + 12 ≤ p.length
    · rw [if_pos hoff, if_pos hoff]
      simp only
      generalize Net.dnsSkipName d p.length p.length off = o
      show (if o + 10 > p.length then _ else _) = _
      by_cases ho : o + 10 > p.length
      · rw [if_pos ho, if_pos ho]
      · rw [if_neg ho, if_neg ho, wordAt_eq hp (by omega), wordAt_eq hp (by omega)]
        show (if d.word (8 + o) = 1 ∧ d.word (8 + (o + 8)) = 4 ∧ o + 10 + 4 ≤ p.length then _
          else _) = _
        by_cases ha : d.word (8 + o) = 1 ∧ d.word (8 + (o + 8)) = 4 ∧ o + 10 + 4 ≤ p.length
        · rw [if_pos ha, wordAt_eq hp (by omega), wordAt_eq hp (by omega)]
          exact congrArg Except.ok (if_pos ha).symm
        · rw [if_neg ha, ih]
          exact congrArg Except.ok (if_neg ha).symm
    · rw [if_neg hoff, if_neg hoff]

/-- **A payload is read without a fault**, with the answer of the unchecked reader. -/
theorem dnsInput_eq (hp : Payload d p) : dnsInput p = .ok (Net.dnsInput d p.length) := by
  unfold dnsInput Net.dnsInput
  by_cases hlen : p.length < 12
  · rw [if_pos hlen, if_pos hlen]
  rw [if_neg hlen, if_neg hlen, wordAt_eq hp (by omega), wordAt_eq hp (by omega),
    wordAt_eq hp (by omega), wordAt_eq hp (by omega)]
  show (if d.word 8 ≠ _ then _ else if d.word 10 &&& _ = _ then _ else if d.word 10 &&& _ ≠ _ then _
    else if d.word 14 = 0 then _ else _) = _
  by_cases h1 : d.word 8 ≠ DNS_QUERY_ID
  · rw [if_pos h1, if_pos h1]
  rw [if_neg h1, if_neg h1]
  by_cases h2 : d.word 10 &&& 0x8000 = 0
  · rw [if_pos h2, if_pos h2]
  rw [if_neg h2, if_neg h2]
  by_cases h3 : d.word 10 &&& 0x000F ≠ 0
  · rw [if_pos h3, if_pos h3]
  rw [if_neg h3, if_neg h3]
  by_cases h4 : d.word 14 = 0
  · rw [if_pos h4, if_pos h4]
  rw [if_neg h4, if_neg h4]
  show (skipQuestions p (d.word 12) 12 >>= _) = _
  rw [skipQuestions_eq hp]
  exact findA_eq hp _ _

/-- the payload that the UDP header gives -/
theorem payload_drop (d : Datagram) (n : Nat) : Payload d ((d.bytes.drop 8).take n) := by
  intro i hi
  have hlt : 8 + i < d.bytes.length := by
    rw [List.length_take, List.length_drop] at hi
    omega
  rw [List.getElem_take, List.getElem_drop]
  unfold Datagram.byte
  rw [List.getD_eq_getElem _ _ hlt]

/-- **A datagram is read without a fault.** -/
theorem udpInput_eq (d : Datagram) : udpInput d.bytes = .ok (Net.udpInput d) := by
  have hbyte : ∀ i < d.bytes.length, byteAt d.bytes i = .ok (d.byte i) := by
    intro i hi
    unfold byteAt Datagram.byte
    rw [List.getElem?_eq_getElem hi, List.getD_eq_getElem _ _ hi]
  have hword : ∀ i, i + 1 < d.bytes.length → wordAt d.bytes i = .ok (d.word i) := by
    intro i hi
    unfold wordAt
    rw [hbyte i (by omega), hbyte (i + 1) hi]
    rfl
  unfold udpInput Net.udpInput
  simp only
  by_cases hlen : d.bytes.length < 8
  · rw [if_pos hlen, if_pos hlen]
  rw [if_neg hlen, if_neg hlen, hword 2 (by omega), hword 4 (by omega)]
  simp only [bind, Except.bind]
  generalize hc : (if (d.word 4 + 2 ^ 16 - 8) % 2 ^ 16 > d.bytes.length - 8 then d.bytes.length - 8
    else (d.word 4 + 2 ^ 16 - 8) % 2 ^ 16) = clen
  have hle : clen ≤ d.bytes.length - 8 := by
    rw [← hc]
    split_ifs <;> omega
  by_cases hport : d.word 2 = DNS_LOCAL_PORT
  · rw [if_pos hport, if_pos hport, dnsInput_eq (payload_drop d clen), List.length_take,
      List.length_drop, Nat.min_eq_left hle]
  · rw [if_neg hport, if_neg hport]

end

/-! ## a response is understood -/

section
variable {pre rest : List Byte}

theorem byteAt_append (pre : List Byte) (b : Byte) (rest : List Byte) :
    byteAt (pre ++ b :: rest) pre.length = .ok b.toNat := by
  unfold byteAt
  rw [List.getElem?_append_right (le_refl _), Nat.sub_self]
  rfl

theorem wordAt_be16 (pre rest : List Byte) {v : Nat} (hv : v < 2 ^ 16) :
    wordAt (pre ++ (be16 v ++ rest)) pre.length = .ok v := by
  have hhi : byteAt (pre ++ (be16 v ++ rest)) pre.length = .ok (v / 256) := by
    have hb := byteAt_append pre (BitVec.ofNat 8 (v / 256)) (BitVec.ofNat 8 v :: rest)
    rw [BitVec.toNat_ofNat, Nat.mod_eq_of_lt (by omega)] at hb
    exact hb
  have hlo : byteAt (pre ++ (be16 v ++ rest)) (pre.length + 1) = .ok (v % 256) := by
    have hb := byteAt_append (pre ++ [BitVec.ofNat 8 (v / 256)]) (BitVec.ofNat 8 v) rest
    rw [BitVec.toNat_ofNat, List.append_assoc, List.length_append] at hb
    exact hb
  unfold wordAt
  rw [hhi, hlo]
  show Except.ok (v / 256 * 256 + v % 256) = _
  rw [Nat.div_add_mod']

/-- a word that is found behind what is known to be there -/
theorem wordAt_of_eq {p : List Byte} {o v : Nat} (hp : p = pre ++ (be16 v ++ rest))
    (ho : o = pre.length) (hv : v < 2 ^ 16) : wordAt p o = .ok v := by
  rw [hp, ho]
  exact wordAt_be16 pre rest hv

theorem NameEnd.length_pos (e : NameEnd) : 0 < e.bytes.length := by
  cases e with
  | root => exact Nat.one_pos
  | pointer k => exact Nat.two_pos

/-- the end of a name -/
theorem dnsSkipName_end (pre rest : List Byte) (e : NameEnd) (n : Nat) :
    dnsSkipName (pre ++ (e.bytes ++ rest)) (n + 1) pre.length =
      .ok (pre.length + e.bytes.length) := by
  have hlen : (pre ++ (e.bytes ++ rest)).length = pre.length + (e.bytes.length + rest.length) := by
    rw [List.length_append, List.length_append]
  have hoff : pre.length < (pre ++ (e.bytes ++ rest)).length := by
    have hpos := e.length_pos
    omega
  rw [dnsSkipName, if_pos hoff]
  cases e with
  | root =>
    have hb : byteAt (pre ++ (NameEnd.root.bytes ++ rest)) pre.length = .ok 0 :=
      byteAt_append pre 0 rest
    rw [hb]
    rfl
  | pointer k =>
    have hk := k.isLt
    have hval : (BitVec.ofNat 8 ((0xC000 + k.val) / 256)).toNat = (0xC000 + k.val) / 256 := by
      rw [BitVec.toNat_ofNat]
      exact Nat.mod_eq_of_lt (by omega)
    have hb : byteAt (pre ++ ((NameEnd.pointer k).bytes ++ rest)) pre.length =
        .ok ((0xC000 + k.val) / 256) := by
      rw [← hval]
      exact byteAt_append pre _ _
    have h2 : (NameEnd.pointer k).bytes.length = 2 := rfl
    rw [hb]
    show (if (0xC000 + k.val) / 256 = 0 then _
      else if (0xC000 + k.val) / 256 / 64 = 3 then _ else _) = _
    rw [if_neg (by omega), if_pos (by omega)]
    congr 1
    split_ifs <;> omega

/-- the labels of a name, and its end -/
theorem dnsSkipName_labels (pre rest : List Byte) {ls : List (List Byte)} (h : ∀ l ∈ ls, IsLabel l)
    (e : NameEnd) {n : Nat} (hn : ls.length < n) :
    dnsSkipName (pre ++ (encode ls ++ (e.bytes ++ rest))) n pre.length =
      .ok (pre.length + (encode ls).length + e.bytes.length) := by
  induction ls generalizing pre n with
  | nil =>
    obtain ⟨n, rfl⟩ : ∃ m, n = m + 1 := ⟨n - 1, by omega⟩
    exact dnsSkipName_end pre rest e n
  | cons l ls ih =>
    obtain ⟨hl, hls⟩ := List.forall_mem_cons.mp h
    obtain ⟨n, rfl⟩ : ∃ m, n = m + 1 := ⟨n - 1, by omega⟩
    have hoff : pre.length < (pre ++ (encode (l :: ls) ++ (e.bytes ++ rest))).length := by
      rw [List.length_append, encode_cons, List.cons_append, List.length_cons]
      omega
    have hb : byteAt (pre ++ (encode (l :: ls) ++ (e.bytes ++ rest))) pre.length = .ok l.length := by
      rw [← hl.toNat]
      exact byteAt_append pre _ _
    have hmove : pre ++ (encode (l :: ls) ++ (e.bytes ++ rest)) =
        (pre ++ BitVec.ofNat 8 l.length :: l) ++ (encode ls ++ (e.bytes ++ rest)) := by
      rw [encode_cons]
      simp only [List.cons_append, List.append_assoc]
    have hnext := ih (pre ++ BitVec.ofNat 8 l.length :: l) hls (Nat.lt_of_succ_lt_succ hn)
    have hpre : (pre ++ BitVec.ofNat 8 l.length :: l).length = pre.length + 1 + l.length := by
      rw [List.length_append, List.length_cons]
      omega
    obtain ⟨hpos, hle⟩ := hl
    rw [dnsSkipName, if_pos hoff, hb]
    show (if l.length = 0 then _ else if l.length / 64 = 3 then _ else _) = _
    rw [if_neg (by omega), if_neg (by omega), hmove, ← hpre, hnext, hpre, encode_cons]
    congr 1
    rw [List.length_cons, List.length_append]
    omega

theorem length_encode_le (ls : List (List Byte)) : ls.length ≤ (encode ls).length := by
  induction ls with
  | nil => exact le_refl 0
  | cons l ls ih =>
    rw [encode_cons, List.length_cons, List.length_cons, List.length_append]
    omega

/-- **A name is skipped**, however it is compressed. -/
theorem skipName_name (pre rest : List Byte) (w : WireName) :
    skipName (pre ++ (w.bytes ++ rest)) pre.length = .ok (pre.length + w.bytes.length) := by
  have hfuel : w.labels.length < (pre ++ (w.bytes ++ rest)).length + 1 := by
    have hle := length_encode_le w.labels
    rw [List.length_append, List.length_append, WireName.bytes, List.length_append]
    omega
  have hskip := dnsSkipName_labels pre rest w.valid w.finish hfuel
  unfold skipName
  rw [WireName.bytes] at hskip ⊢
  rw [List.append_assoc]
  rw [List.append_assoc] at hskip
  rw [hskip, List.length_append, Nat.add_assoc]

theorem length_be16 (v : Nat) : (be16 v).length = 2 := rfl

/-- **The questions are skipped.** -/
theorem skipQuestions_bytes (pre rest : List Byte) (qs : List Question) :
    skipQuestions (pre ++ (qs.flatMap Question.bytes ++ rest)) qs.length pre.length =
      .ok (pre.length + (qs.flatMap Question.bytes).length) := by
  induction qs generalizing pre with
  | nil => rfl
  | cons q qs ih =>
    have hname : pre ++ ((q :: qs).flatMap Question.bytes ++ rest) = pre ++ (q.name.bytes ++
        (be16 q.qtype.toNat ++ be16 q.qclass.toNat ++ (qs.flatMap Question.bytes ++ rest))) := by
      rw [List.flatMap_cons, Question.bytes]
      simp only [List.append_assoc]
    have hmove : pre ++ ((q :: qs).flatMap Question.bytes ++ rest) =
        (pre ++ q.bytes) ++ (qs.flatMap Question.bytes ++ rest) := by
      rw [List.flatMap_cons]
      simp only [List.append_assoc]
    have hlen : q.bytes.length = q.name.bytes.length + 4 := by
      rw [Question.bytes, List.length_append, List.length_append, length_be16, length_be16]
    have hoff : pre.length < (pre ++ ((q :: qs).flatMap Question.bytes ++ rest)).length := by
      rw [hmove, List.length_append, List.length_append, hlen]
      omega
    have hskip := skipName_name pre (be16 q.qtype.toNat ++ be16 q.qclass.toNat ++
      (qs.flatMap Question.bytes ++ rest)) q.name
    rw [← hname] at hskip
    rw [List.length_cons, skipQuestions, if_pos hoff, hskip]
    show skipQuestions _ qs.length (pre.length + q.name.bytes.length + 4) = _
    rw [hmove, Nat.add_assoc, ← hlen, ← List.length_append, ih, List.flatMap_cons]
    congr 1
    rw [List.length_append, List.length_append]
    omega

/-- what stands before the data of a record -/
def Record.head (r : Record) : List Byte :=
  r.name.bytes ++ (be16 r.type.toNat ++ (be16 r.class_.toNat ++ (be16 (r.ttl.toNat / 65536) ++
    (be16 r.ttl.toNat ++ be16 r.rdata.length))))

theorem Record.bytes_eq (r : Record) : r.bytes = r.head ++ r.rdata := by
  unfold Record.bytes Record.head
  simp only [List.append_assoc]

theorem Record.length_head (r : Record) : r.head.length = r.name.bytes.length + 10 := by
  unfold Record.head
  simp only [List.length_append, length_be16]

theorem WireName.length_pos (w : WireName) : 0 < w.bytes.length := by
  have hpos := w.finish.length_pos
  rw [WireName.bytes, List.length_append]
  omega

/-- the two words of an address -/
theorem address_words (pre rest : List Byte) {rdata : List Byte} (h : rdata.length = 4) :
    ∃ hi lo, wordAt (pre ++ (rdata ++ rest)) pre.length = .ok hi ∧
      wordAt (pre ++ (rdata ++ rest)) (pre.length + 2) = .ok lo ∧
      BitVec.ofNat 32 (hi * 65536 + lo) = addressOf rdata := by
  match rdata, h with
  | [a, b, c, d], _ =>
    have hbyte (i : Nat) (x : Byte) (hx : ([a, b, c, d] ++ rest)[i]? = some x) :
        byteAt (pre ++ ([a, b, c, d] ++ rest)) (pre.length + i) = .ok x.toNat := by
      unfold byteAt
      rw [List.getElem?_append_right (Nat.le_add_right _ _), Nat.add_sub_cancel_left, hx]
    refine ⟨a.toNat * 256 + b.toNat, c.toNat * 256 + d.toNat, ?_, ?_, ?_⟩
    · unfold wordAt
      rw [show byteAt _ pre.length = _ from hbyte 0 a rfl, hbyte 1 b rfl]
      rfl
    · unfold wordAt
      rw [hbyte 2 c rfl, show byteAt _ (pre.length + 2 + 1) = _ from hbyte 3 d rfl]
      rfl
    · refine congrArg (BitVec.ofNat 32) ?_
      simp only [List.foldl_cons, List.foldl_nil]
      omega

theorem firstA_cons_pos {r : Record} (hr : r.IsA) (rs : List Record) :
    firstA (r :: rs) = .address (addressOf r.rdata) := by
  unfold firstA
  rw [List.find?_cons_of_pos (by exact decide_eq_true hr)]

theorem firstA_cons_neg {r : Record} (hr : ¬ r.IsA) (rs : List Record) :
    firstA (r :: rs) = firstA rs := by
  unfold firstA
  rw [List.find?_cons_of_neg (by simpa using hr)]

/-- **The answers are searched**: behind a record that is no address stands the next one. -/
theorem findA_bytes (pre more : List Byte) (rs : List Record) :
    findA (pre ++ (rs.flatMap Record.bytes ++ more)) rs.length pre.length = .ok (firstA rs) := by
  induction rs generalizing pre with
  | nil => rfl
  | cons r rs ih =>
    obtain ⟨p, hp⟩ : ∃ p, p = pre ++ ((r :: rs).flatMap Record.bytes ++ more) := ⟨_, rfl⟩
    have hdata : p = (pre ++ r.head) ++ (r.rdata ++ (rs.flatMap Record.bytes ++ more)) := by
      rw [hp, List.flatMap_cons, Record.bytes_eq]
      simp only [List.append_assoc]
    have hnext : p = (pre ++ r.bytes) ++ (rs.flatMap Record.bytes ++ more) := by
      rw [hdata, Record.bytes_eq]
      simp only [List.append_assoc]
    have hhead := r.length_head
    have hname := r.name.length_pos
    have hlen : p.length = pre.length + r.head.length + r.rdata.length +
        ((rs.flatMap Record.bytes).length + more.length) := by
      rw [hdata]
      simp only [List.length_append, Nat.add_assoc]
    rw [← hp, List.length_cons, findA]
    by_cases hoff : pre.length + 12 ≤ p.length
    · have hskip : skipName p pre.length = .ok (pre.length + r.name.bytes.length) := by
        rw [hdata, Record.head]
        simp only [List.append_assoc]
        exact skipName_name pre _ r.name
      have htype : wordAt p (pre.length + r.name.bytes.length) = .ok r.type.toNat := by
        have hword : p = (pre ++ r.name.bytes) ++ (be16 r.type.toNat ++ (be16 r.class_.toNat ++
            (be16 (r.ttl.toNat / 65536) ++ (be16 r.ttl.toNat ++ (be16 r.rdata.length ++ (r.rdata ++
              (rs.flatMap Record.bytes ++ more))))))) := by
          rw [hdata, Record.head]
          simp only [List.append_assoc]
        exact wordAt_of_eq hword List.length_append.symm r.type.isLt
      have hrdlen : wordAt p (pre.length + r.name.bytes.length + 8) = .ok r.rdata.length := by
        have hword : p = (pre ++ (r.name.bytes ++ (be16 r.type.toNat ++ (be16 r.class_.toNat ++
            (be16 (r.ttl.toNat / 65536) ++ be16 r.ttl.toNat))))) ++ (be16 r.rdata.length ++ (r.rdata ++
              (rs.flatMap Record.bytes ++ more))) := by
          rw [hdata, Record.head]
          simp only [List.append_assoc]
        refine wordAt_of_eq hword ?_ r.short
        simp only [List.length_append, length_be16, Nat.add_assoc]
      have hstart : pre.length + r.name.bytes.length + 10 = (pre ++ r.head).length := by
        rw [List.length_append, hhead, Nat.add_assoc]
      rw [if_pos hoff, hskip]
      show (if pre.length + r.name.bytes.length + 10 > p.length then _ else _) = _
      rw [if_neg (by omega), htype, hrdlen]
      simp only [bind, Except.bind]
      rw [hstart]
      by_cases hr : r.IsA
      · obtain ⟨ht, hd⟩ := hr
        obtain ⟨hi, lo, hhi, hlo, haddr⟩ :=
          address_words (pre ++ r.head) (rs.flatMap Record.bytes ++ more) hd
        rw [← hdata] at hhi hlo
        have hroom : (pre ++ r.head).length + 4 ≤ p.length := by
          rw [List.length_append]
          omega
        rw [if_pos ⟨ht, hd, hroom⟩, hhi, hlo, firstA_cons_pos ⟨ht, hd⟩]
        exact congrArg (fun a => Except.ok (Answer.address a)) haddr
      · rw [if_neg fun h => hr ⟨h.1, h.2.1⟩, firstA_cons_neg hr, ← ih (pre ++ r.bytes), ← hnext]
        have hlast : (pre ++ r.bytes).length = (pre ++ r.head).length + r.rdata.length := by
          rw [Record.bytes_eq, ← List.append_assoc, List.length_append]
        rw [hlast]
    · -- a record of eleven bytes is the last one, and it has no data
      have hrs : rs.flatMap Record.bytes = [] := List.length_eq_zero_iff.mp (by omega)
      have hnil : rs = [] := by
        cases rs with
        | nil => rfl
        | cons r' rs =>
          have h0 := congrArg List.length hrs
          rw [List.flatMap_cons, Record.bytes_eq, List.length_append, List.length_append,
            r'.length_head, List.length_nil] at h0
          omega
      have hr : ¬ r.IsA := fun h => by
        have hd := h.2
        omega
      rw [if_neg hoff, firstA_cons_neg hr, hnil]
      rfl

theorem qr_ne_zero {v : Nat} (h : 0x8000 ≤ v) (hv : v < 2 ^ 16) : v &&& 0x8000 ≠ 0 := by
  have hbit : v.testBit 15 = true := by
    rw [Nat.testBit_eq_decide_div_mod_eq]
    exact decide_eq_true (by omega)
  have hand := Nat.and_two_pow v 15
  rw [hbit] at hand
  intro h0
  exact absurd (hand.symm.trans h0) (by decide)

theorem rcode_eq (v : Nat) : v &&& 0x000F = v % 16 := Nat.and_two_pow_sub_one_eq_mod v 4

/-- **A response gives its answer.** -/
theorem dnsInput_bytes (m : Response) : dnsInput m.bytes = .ok m.answer := by
  obtain ⟨p, hp⟩ : ∃ p, p = m.bytes := ⟨_, rfl⟩
  obtain ⟨qs, hqs⟩ : ∃ qs, qs = m.questions.flatMap Question.bytes := ⟨_, rfl⟩
  obtain ⟨tail, htail⟩ : ∃ tail, tail = m.answers.flatMap Record.bytes ++ m.more := ⟨_, rfl⟩
  obtain ⟨head, hhead⟩ : ∃ head, head = be16 DNS_QUERY_ID ++ (be16 m.flags.toNat ++
    (be16 m.questions.length ++ (be16 m.answers.length ++ (be16 m.nscount.toNat ++
      be16 m.arcount.toNat)))) := ⟨_, rfl⟩
  have hbytes : p = head ++ (qs ++ tail) := by
    rw [hp, hhead, hqs, htail, Parts.bytes]
    simp only [List.append_assoc]
  have h12 : head.length = 12 := by
    rw [hhead]
    rfl
  have hlen : ¬ p.length < 12 := by
    rw [hbytes, List.length_append, h12]
    omega
  have hid : wordAt p 0 = .ok DNS_QUERY_ID := by
    refine wordAt_of_eq (hp.trans (List.nil_append _).symm) rfl (by decide)
  have hflags : wordAt p 2 = .ok m.flags.toNat := wordAt_of_eq (hp.trans rfl) rfl m.flags.isLt
  have hqd : wordAt p 4 = .ok m.questions.length := by
    have hword : p = (be16 DNS_QUERY_ID ++ be16 m.flags.toNat) ++ (be16 m.questions.length ++
        (be16 m.answers.length ++ (be16 m.nscount.toNat ++ (be16 m.arcount.toNat ++
          (m.questions.flatMap Question.bytes ++ (m.answers.flatMap Record.bytes ++ m.more)))))) := by
      rw [hp, Parts.bytes, List.append_assoc]
    exact wordAt_of_eq hword rfl m.questionCount
  have han : wordAt p 6 = .ok m.answers.length := by
    have hword : p = (be16 DNS_QUERY_ID ++ (be16 m.flags.toNat ++ be16 m.questions.length)) ++
        (be16 m.answers.length ++ (be16 m.nscount.toNat ++ (be16 m.arcount.toNat ++
          (m.questions.flatMap Question.bytes ++ (m.answers.flatMap Record.bytes ++ m.more))))) := by
      rw [hp, Parts.bytes, List.append_assoc, List.append_assoc]
    exact wordAt_of_eq hword rfl m.answerCount
  have hskip : skipQuestions p m.questions.length 12 = .ok (head ++ qs).length := by
    have h := skipQuestions_bytes head tail m.questions
    rw [← hqs, ← hbytes, h12] at h
    rw [h, List.length_append, h12]
  have hfind : findA p m.answers.length (head ++ qs).length = .ok (firstA m.answers) := by
    have h := findA_bytes (head ++ qs) m.more m.answers
    rwa [← htail, List.append_assoc, ← hbytes] at h
  unfold dnsInput Response.answer
  rw [← hp, if_neg hlen, hid, hflags, han, hqd]
  simp only [bind, Except.bind]
  rw [if_neg (not_not.mpr rfl), if_neg (qr_ne_zero m.response m.flags.isLt), rcode_eq]
  by_cases hrcode : m.flags.toNat % 16 ≠ 0
  · rw [if_pos hrcode, if_pos hrcode]
  rw [if_neg hrcode, if_neg hrcode]
  cases han0 : m.answers with
  | nil => rfl
  | cons r rs =>
    rw [if_neg (by rw [List.length_cons]; omega), hskip, ← han0]
    exact hfind

/-- the datagram that brings a payload to the port of the resolver -/
def datagramOf (sport : Nat) (sum : Nat) (payload : List Byte) : List Byte :=
  be16 sport ++ (be16 DNS_LOCAL_PORT ++ (be16 (8 + payload.length) ++ (be16 sum ++ payload)))

/-- a datagram to the port of the resolver hands on what is behind its header -/
theorem udpInput_cut {pkt : List Byte} {total : Nat} (hlen : pkt.length = total)
    (htotal : 8 ≤ total ∧ total < 2 ^ 16) (hport : wordAt pkt 2 = .ok DNS_LOCAL_PORT)
    (hword : wordAt pkt 4 = .ok total) : udpInput pkt = dnsInput ((pkt.drop 8).take (total - 8)) := by
  have hclen : (if (total + 2 ^ 16 - 8) % 2 ^ 16 > pkt.length - 8 then pkt.length - 8
      else (total + 2 ^ 16 - 8) % 2 ^ 16) = total - 8 := by
    rw [if_neg (by omega)]
    omega
  unfold udpInput
  rw [if_neg (by omega), hport, hword]
  rw [ok_bind, ok_bind, if_pos rfl, hclen]

theorem udpInput_payload (sport sum : Nat) {payload : List Byte} (h : payload.length + 8 < 2 ^ 16) :
    udpInput (datagramOf sport sum payload) = dnsInput payload := by
  obtain ⟨pkt, hpkt⟩ : ∃ pkt, pkt = datagramOf sport sum payload := ⟨_, rfl⟩
  obtain ⟨total, ht⟩ : ∃ total, total = 8 + payload.length := ⟨_, rfl⟩
  have hhead : pkt = (be16 sport ++ (be16 DNS_LOCAL_PORT ++ (be16 total ++ be16 sum))) ++ payload := by
    rw [hpkt, datagramOf, ht]
    simp only [List.append_assoc]
  have hlen : pkt.length = total := by
    rw [hhead, ht]
    simp only [List.length_append, length_be16]
  have hport : wordAt pkt 2 = .ok DNS_LOCAL_PORT := wordAt_of_eq (hpkt.trans rfl) rfl (by decide)
  have htotal : wordAt pkt 4 = .ok total := by
    have hword :
        pkt = (be16 sport ++ be16 DNS_LOCAL_PORT) ++ (be16 total ++ (be16 sum ++ payload)) := by
      rw [hhead]
      simp only [List.append_assoc]
    exact wordAt_of_eq hword rfl (by omega)
  have hcut : (pkt.drop 8).take payload.length = payload := by
    have hdrop : pkt.drop 8 = payload := by
      rw [hhead]
      exact List.drop_left' rfl
    rw [hdrop, List.take_length]
  rw [← hpkt, udpInput_cut hlen (by omega) hport htotal, show total - 8 = payload.length by omega, hcut]

end

/-! ## every payload -/

/-- a parse that ends, with every read inside of the payload -/
def Safe {α : Type} (m : Parse α) : Prop := ∃ a, m = .ok a

section
variable {α β : Type} {p : List Byte} {i : Nat}

theorem Safe.bind {m : Parse α} {f : α → Parse β} (h : Safe m) (hf : ∀ a, Safe (f a)) :
    Safe (m >>= f) := by
  obtain ⟨a, rfl⟩ := h
  exact hf a

theorem byteAt_safe (hi : i < p.length) : Safe (byteAt p i) := by
  refine ⟨p[i].toNat, ?_⟩
  unfold byteAt
  rw [List.getElem?_eq_getElem hi]

theorem wordAt_safe (hi : i + 1 < p.length) : Safe (wordAt p i) :=
  (byteAt_safe (by omega)).bind fun _ => (byteAt_safe hi).bind fun _ => ⟨_, rfl⟩

theorem dnsSkipName_safe {n off : Nat} (hn : p.length - off < n) : Safe (dnsSkipName p n off) := by
  induction n generalizing off with
  | zero => exact absurd hn (Nat.not_lt_zero _)
  | succ n ih =>
    rw [dnsSkipName]
    by_cases hoff : off < p.length
    · rw [if_pos hoff]
      refine (byteAt_safe hoff).bind fun c => ?_
      split_ifs
      · exact ⟨_, rfl⟩
      · exact ⟨_, rfl⟩
      · exact ⟨_, rfl⟩
      · exact ih (by omega)
    · exact ⟨_, if_neg hoff⟩

theorem skipQuestions_safe (n off : Nat) : Safe (skipQuestions p n off) := by
  induction n generalizing off with
  | zero => exact ⟨_, rfl⟩
  | succ n ih =>
    rw [skipQuestions]
    by_cases hoff : off < p.length
    · rw [if_pos hoff]
      exact (dnsSkipName_safe (by omega)).bind fun o => ih (o + 4)
    · exact ⟨_, if_neg hoff⟩

theorem findA_safe (n off : Nat) : Safe (findA p n off) := by
  induction n generalizing off with
  | zero => exact ⟨_, rfl⟩
  | succ n ih =>
    rw [findA]
    by_cases hoff : off + 12 ≤ p.length
    · rw [if_pos hoff]
      refine (dnsSkipName_safe (by omega)).bind fun o => ?_
      by_cases ho : o + 10 > p.length
      · exact ⟨_, if_pos ho⟩
      · rw [if_neg ho]
        refine (wordAt_safe (by omega)).bind fun type => (wordAt_safe (by omega)).bind fun rdlen => ?_
        by_cases ha : type = 1 ∧ rdlen = 4 ∧ o + 10 + 4 ≤ p.length
        · rw [if_pos ha]
          exact (wordAt_safe (by omega)).bind fun _ => (wordAt_safe (by omega)).bind fun _ => ⟨_, rfl⟩
        · rw [if_neg ha]
          exact ih _
    · exact ⟨_, if_neg hoff⟩

theorem dnsInput_safe (p : List Byte) : Safe (dnsInput p) := by
  unfold dnsInput
  by_cases hlen : p.length < 12
  · exact ⟨_, if_pos hlen⟩
  rw [if_neg hlen]
  refine (wordAt_safe (by omega)).bind fun id => ?_
  split_ifs
  · exact ⟨_, rfl⟩
  refine (wordAt_safe (by omega)).bind fun flags => ?_
  split_ifs
  · exact ⟨_, rfl⟩
  · exact ⟨_, rfl⟩
  refine (wordAt_safe (by omega)).bind fun an => ?_
  split_ifs
  · exact ⟨_, rfl⟩
  exact (wordAt_safe (by omega)).bind fun qd =>
    (skipQuestions_safe qd 12).bind fun off => findA_safe an off

theorem udpInput_safe (pkt : List Byte) : Safe (udpInput pkt) := by
  unfold udpInput
  by_cases hlen : pkt.length < 8
  · exact ⟨_, if_pos hlen⟩
  rw [if_neg hlen]
  refine (wordAt_safe (by omega)).bind fun dport => (wordAt_safe (by omega)).bind fun total => ?_
  by_cases hport : dport = DNS_LOCAL_PORT
  · rw [if_pos hport]
    exact dnsInput_safe _
  · rw [if_neg hport]
    exact ⟨.ignored, rfl⟩

/-- **Responses are read safely, and understood**: no byte behind a payload is read, and a response
with any questions, records and pointers gives its first address. -/
theorem reads_response :
    (∀ pkt, Safe (udpInput pkt)) ∧ (∀ p, Safe (dnsInput p)) ∧
      ∀ m : Response, dnsInput m.bytes = .ok m.answer ∧
        ∀ sport sum, udpInput (datagramOf sport sum m.bytes) = .ok m.answer := by
  refine ⟨udpInput_safe, dnsInput_safe, fun m => ⟨dnsInput_bytes m, fun sport sum => ?_⟩⟩
  rw [udpInput_payload sport sum m.short]
  exact dnsInput_bytes m

end

end Noxis.Net.Dns
