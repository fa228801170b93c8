import Noxis.Net.Response

/-!
# 25-osfs11/net/dns.c: how a query is written

Here the query keeps the bytes that have been written when the name does not fit.

* `dnsQueryBuild`        the query for a name, in a buffer of `cap` bytes;
* `dnsQueryBuild_iff`    when there is a query, and which one;
* `query_roundTrip`      **the query stays in its buffer, and both readers give the name back**;
* `accepts_iff`          the buffer of `dns_resolve` is right for a name exactly if it is no valid
                         one of 141 to 200 bytes;
* `accepts_fails`        a name of 141 bytes is refused.
-/

namespace Noxis.Net.Dns
open Labels

/-- a name is a string of C: no byte of it is 0 -/
structure HostName where
  bytes : List Byte
  ne : ∀ b ∈ bytes, b ≠ 0

/-- the query, or what has been written of it at a `return -1` -/
abbrev Build := Except (List Byte) (List Byte)

def written : Build → List Byte
  | .ok q => q
  | .error q => q

/-- the turns that are left of the loop from `i` on, with `label`; `p` is `q.length` -/
def putLabels (name : HostName) (cap : Nat) : Nat → Nat → Nat → List Byte → Build
  | 0, _, _, q => .ok q
  | n + 1, i, label, q =>
    let nlen := name.bytes.length
    let c := name.bytes.getD i 0
    if c = 0x2E ∨ c = 0 then
      if i = label ∨ i - label > 63 then .error q
      else
        let q := q ++ BitVec.ofNat 8 (i - label) :: (name.bytes.drop label).take (i - label)
        if q.length + nlen + 6 > cap then .error q else putLabels name cap n (i + 1) (i + 1) q
    else if q.length + nlen + 6 > cap then .error q
    else putLabels name cap n (i + 1) label q

/-- the type A and the class IN -/
def queryTail : List Byte := [0x00, 0x01, 0x00, 0x01]

/-- `dns_query_build` -/
def dnsQueryBuild (name : HostName) (cap : Nat) : Build :=
  let nlen := name.bytes.length
  if nlen = 0 ∨ nlen > 200 then .error []
  else do
    let q ← putLabels name cap (nlen + 1) 0 0 queryHeader
    .ok (q ++ 0 :: queryTail)

/-! ## names -/

/-- what stands between the dots -/
def HostName.labels (name : HostName) : List (List Byte) := name.bytes.splitOn 0x2E

/-- the names that the resolver is documented to take -/
structure HostName.Valid (name : HostName) : Prop where
  pos : 0 < name.bytes.length
  short : name.bytes.length ≤ 200
  labels : ∀ l ∈ name.labels, IsLabel l

/-- every label has a byte for its length, and every one but the last has its dot -/
theorem length_encode_splitOn (l : List Byte) : (encode (l.splitOn 0x2E)).length = l.length + 1 := by
  induction l with
  | nil =>
    rw [List.splitOn_nil]
    rfl
  | cons c l ih =>
    rw [List.splitOn_cons_eq_if_modifyHead]
    by_cases hc : (c == 0x2E) = true
    · rw [if_pos hc, encode_cons, List.nil_append, List.length_cons, ih, List.length_cons]
    · rw [if_neg hc]
      obtain ⟨h, t, ht⟩ := List.exists_cons_of_ne_nil (List.splitOn_ne_nil (0x2E : Byte) l)
      rw [ht, encode_cons, List.length_cons, List.length_append] at ih
      rw [ht, List.modifyHead_cons, encode_cons, List.length_cons, List.length_append, List.length_cons,
        List.length_cons]
      omega

/-! ## the loop -/

section
variable {name : HostName} {cap : Nat} {q out : List Byte}

/-- **No byte is written behind the buffer**: what is behind a dot has been checked before. -/
theorem putLabels_written {n i label : Nat} (hi : label ≤ i) (hn : i + n ≤ name.bytes.length + 1)
    (hq : i = 0 ∧ q.length ≤ cap ∨ q.length + name.bytes.length + 6 ≤ cap) :
    (written (putLabels name cap n i label q)).length ≤ cap := by
  induction n generalizing i label q with
  | zero =>
    show q.length ≤ cap
    omega
  | succ n ih =>
    rw [putLabels]
    simp only
    by_cases hc : name.bytes.getD i 0 = 0x2E ∨ name.bytes.getD i 0 = 0
    · rw [if_pos hc]
      by_cases hlab : i = label ∨ i - label > 63
      · rw [if_pos hlab]
        show q.length ≤ cap
        omega
      · rw [if_neg hlab]
        have hput : (q ++ BitVec.ofNat 8 (i - label) ::
            (name.bytes.drop label).take (i - label)).length ≤ q.length + 1 + (i - label) := by
          rw [List.length_append, List.length_cons, List.length_take]
          omega
        generalize q ++ BitVec.ofNat 8 (i - label) :: (name.bytes.drop label).take (i - label) = q'
          at hput ⊢
        by_cases hcap : q'.length + name.bytes.length + 6 > cap
        · rw [if_pos hcap]
          show q'.length ≤ cap
          omega
        · rw [if_neg hcap]
          exact ih (le_refl _) (by omega) (.inr (by omega))
    · rw [if_neg hc]
      by_cases hcap : q.length + name.bytes.length + 6 > cap
      · rw [if_pos hcap]
        show q.length ≤ cap
        omega
      · rw [if_neg hcap]
        exact ih (by omega) (by omega) (.inr (by omega))

theorem getD_nil {before cur : List Byte} (hname : name.bytes = before ++ (cur ++ [])) :
    name.bytes.getD (before.length + cur.length) 0 = 0 := by
  refine List.getD_eq_default _ _ ?_
  rw [hname, List.append_nil, List.length_append]

theorem getD_cons {before cur rest : List Byte} {c : Byte}
    (hname : name.bytes = before ++ (cur ++ c :: rest)) :
    name.bytes.getD (before.length + cur.length) 0 = c ∧ c ≠ 0 := by
  constructor
  · rw [hname, ← List.append_assoc, ← List.length_append]
    unfold List.getD
    rw [List.getElem?_append_right (le_refl _), Nat.sub_self]
    rfl
  · refine name.ne c ?_
    rw [hname]
    exact List.mem_append_right _ (List.mem_append_right _ List.mem_cons_self)

/-- behind a dot the next label begins -/
theorem bytes_next {before cur rest : List Byte} {c : Byte}
    (hname : name.bytes = before ++ (cur ++ c :: rest)) :
    name.bytes = (before ++ (cur ++ [c])) ++ ([] ++ rest) ∧
      (before ++ (cur ++ [c])).length = before.length + cur.length + 1 := by
  constructor
  · rw [hname]
    simp only [List.append_assoc, List.singleton_append, List.nil_append]
  · rw [List.length_append, List.length_append, List.length_singleton, Nat.add_assoc]

/-- the bytes of a label that goes into the query -/
theorem putLabel_ok {before cur rest : List Byte} (hname : name.bytes = before ++ (cur ++ rest)) :
    q ++ BitVec.ofNat 8 (before.length + cur.length - before.length) ::
      (name.bytes.drop before.length).take (before.length + cur.length - before.length) =
        q ++ encode [cur] := by
  rw [hname, List.drop_left, Nat.add_sub_cancel_left, List.take_left, encode_cons, encode_nil,
    List.append_nil]

/-- **The loop succeeds exactly if the labels that are left are valid and the query has room**: the last
check is the strictest one. -/
theorem putLabels_iff {before cur rest : List Byte} (hname : name.bytes = before ++ (cur ++ rest))
    (hcur : (0x2E : Byte) ∉ cur) :
    putLabels name cap (rest.length + 1) (before.length + cur.length) before.length q = .ok out ↔
      (∀ l ∈ (cur ++ rest).splitOn 0x2E, IsLabel l) ∧
        (q ++ encode ((cur ++ rest).splitOn 0x2E)).length + name.bytes.length + 6 ≤ cap ∧
          out = q ++ encode ((cur ++ rest).splitOn 0x2E) := by
  have hlabel : (before.length + cur.length = before.length ∨
      before.length + cur.length - before.length > 63) ↔ ¬ IsLabel cur := by
    unfold IsLabel
    omega
  induction rest generalizing before cur q with
  | nil =>
    rw [putLabels]
    simp only
    rw [getD_nil hname, if_pos (.inr rfl), putLabel_ok hname, List.append_nil,
      List.splitOn_eq_singleton hcur]
    by_cases hl : IsLabel cur
    · rw [if_neg fun h => hlabel.mp h hl]
      by_cases hcap : (q ++ encode [cur]).length + name.bytes.length + 6 > cap
      · rw [if_pos hcap]
        exact iff_of_false (by rintro ⟨⟩) fun h => by omega
      · rw [if_neg hcap]
        refine ⟨fun h => ⟨?_, by omega, (Except.ok.inj h).symm⟩, fun h => by rw [h.2.2]; rfl⟩
        exact List.forall_mem_singleton.mpr hl
    · rw [if_pos (hlabel.mpr hl)]
      exact iff_of_false (by rintro ⟨⟩) fun h => hl (List.forall_mem_singleton.mp h.1)
  | cons c rest ih =>
    obtain ⟨hat, hne⟩ := getD_cons hname
    rw [putLabels]
    simp only
    rw [hat]
    by_cases hdot : c = 0x2E
    · have hencode : q ++ encode (cur :: rest.splitOn 0x2E) =
          (q ++ encode [cur]) ++ encode (rest.splitOn 0x2E) := by
        rw [List.append_assoc, ← encode_append]
        rfl
      rw [if_pos (.inl hdot), putLabel_ok hname, hdot, List.splitOn_append_cons_self_of_not_mem hcur,
        hencode, List.forall_mem_cons]
      by_cases hl : IsLabel cur
      · rw [if_neg fun h => hlabel.mp h hl]
        by_cases hcap : (q ++ encode [cur]).length + name.bytes.length + 6 > cap
        · rw [if_pos hcap]
          refine iff_of_false (by rintro ⟨⟩) fun h => ?_
          have hroom := h.2.1
          rw [List.length_append] at hroom
          omega
        · obtain ⟨hnext, hlen⟩ := bytes_next hname
          have hih := ih (q := q ++ encode [cur]) hnext List.not_mem_nil (by unfold IsLabel; simp)
          rw [hlen] at hih
          rw [if_neg hcap]
          exact hih.trans ⟨fun h => ⟨⟨hl, h.1⟩, h.2⟩, fun h => ⟨h.1.2, h.2⟩⟩
      · rw [if_pos (hlabel.mpr hl)]
        exact iff_of_false (by rintro ⟨⟩) fun h => hl h.1.1
    · rw [if_neg fun h => h.elim hdot hne]
      have hmove : cur ++ c :: rest = (cur ++ [c]) ++ rest := by
        rw [List.append_assoc, List.singleton_append]
      by_cases hcap : q.length + name.bytes.length + 6 > cap
      · rw [if_pos hcap]
        refine iff_of_false (by rintro ⟨⟩) fun h => ?_
        have hroom := h.2.1
        rw [List.length_append] at hroom
        omega
      · have hcur' : (0x2E : Byte) ∉ cur ++ [c] := by
          intro h
          rcases List.mem_append.mp h with h | h
          · exact hcur h
          · exact hdot (List.mem_singleton.mp h).symm
        rw [if_neg hcap, hmove, List.length_cons]
        have hih := ih (q := q) (hname.trans (by rw [hmove])) hcur'
          (by unfold IsLabel; omega)
        rw [List.length_append, List.length_singleton, ← Nat.add_assoc] at hih
        exact hih

/-! ## the query -/

/-- **There is a query exactly for a valid name, twice of which and 19 bytes go into the buffer.** -/
theorem dnsQueryBuild_iff (name : HostName) (cap : Nat) :
    dnsQueryBuild name cap = .ok out ↔
      name.Valid ∧ 2 * name.bytes.length + 19 ≤ cap ∧
        out = queryHeader ++ encode name.labels ++ 0 :: queryTail := by
  have hlen : (queryHeader ++ encode name.labels).length = 13 + name.bytes.length := by
    rw [List.length_append, HostName.labels, length_encode_splitOn]
    show 12 + _ = _
    omega
  have hloop : ∀ q, putLabels name cap (name.bytes.length + 1) 0 0 queryHeader = .ok q ↔ _ :=
    fun q => putLabels_iff (show name.bytes = [] ++ ([] ++ name.bytes) from rfl) List.not_mem_nil
  unfold dnsQueryBuild
  simp only
  by_cases hn : name.bytes.length = 0 ∨ name.bytes.length > 200
  · rw [if_pos hn]
    refine iff_of_false (by rintro ⟨⟩) fun h => ?_
    have hpos := h.1.pos
    have hle := h.1.short
    omega
  · rw [if_neg hn]
    constructor
    · intro h
      cases hq : putLabels name cap (name.bytes.length + 1) 0 0 queryHeader with
      | error q =>
        rw [hq] at h
        exact absurd h (by rintro ⟨⟩)
      | ok q =>
        rw [hq] at h
        obtain ⟨hl, hroom, rfl⟩ := (hloop q).mp hq
        rw [List.nil_append] at hl hroom h
        change (queryHeader ++ encode name.labels).length + _ + 6 ≤ cap at hroom
        exact ⟨⟨by omega, by omega, hl⟩, by omega, (Except.ok.inj h).symm⟩
    · rintro ⟨hv, hroom, rfl⟩
      have hq := (hloop (queryHeader ++ encode name.labels)).mpr ⟨hv.labels, by
        change (queryHeader ++ encode name.labels).length + _ + 6 ≤ cap
        omega, rfl⟩
      rw [hq]
      rfl

/-- the length of a query -/
theorem length_query (h : dnsQueryBuild name cap = .ok out) : out.length = name.bytes.length + 18 := by
  obtain ⟨-, -, rfl⟩ := (dnsQueryBuild_iff name cap).mp h
  rw [List.length_append, List.length_append, HostName.labels, length_encode_splitOn]
  show 12 + _ + 5 = _
  omega

/-- **The query stays in its buffer, and both readers give the name back**: its labels, joined by dots,
are the name, and a name is skipped to the type. -/
theorem query_roundTrip (name : HostName) {cap : Nat} (hcap : 12 ≤ cap) :
    (written (dnsQueryBuild name cap)).length ≤ cap ∧
      ∀ q, dnsQueryBuild name cap = .ok q → q.length ≤ cap ∧
        (∃ ls, decode q.length (q.drop 12) = some (ls, queryTail) ∧
          [0x2E].intercalate ls = name.bytes) ∧
        ∃ off, skipName q 12 = .ok off ∧ q.drop off = queryTail := by
  have hok : ∀ q, dnsQueryBuild name cap = .ok q → q.length ≤ cap := by
    intro q hq
    obtain ⟨-, hroom, -⟩ := (dnsQueryBuild_iff name cap).mp hq
    have hlen := length_query hq
    omega
  refine ⟨?_, fun q hq => ⟨hok q hq, ?_⟩⟩
  · cases hq : dnsQueryBuild name cap with
    | ok q => exact hok q hq
    | error q =>
      unfold dnsQueryBuild at hq
      simp only at hq
      by_cases hn : name.bytes.length = 0 ∨ name.bytes.length > 200
      · rw [if_pos hn] at hq
        rw [← Except.error.inj hq]
        exact Nat.zero_le cap
      · rw [if_neg hn] at hq
        have hle :
            (written (putLabels name cap (name.bytes.length + 1) 0 0 queryHeader)).length ≤ cap :=
          putLabels_written (le_refl 0) (by omega) (.inl ⟨rfl, hcap⟩)
        cases hl : putLabels name cap (name.bytes.length + 1) 0 0 queryHeader with
        | ok q' =>
          rw [hl] at hq
          exact absurd hq (by rintro ⟨⟩)
        | error q' =>
          rw [hl] at hq hle
          rw [← Except.error.inj hq]
          exact hle
  · obtain ⟨hv, -, rfl⟩ := (dnsQueryBuild_iff name cap).mp hq
    have hlabels :
        name.labels.length < (queryHeader ++ encode name.labels ++ 0 :: queryTail).length := by
      have hle := length_encode_le name.labels
      rw [List.length_append, List.length_append]
      show _ < 12 + _ + 5
      omega
    refine ⟨⟨name.labels, ?_, List.intercalate_splitOn _⟩,
      12 + ((encode name.labels).length + 1), ?_, ?_⟩
    · have hdrop : (queryHeader ++ encode name.labels ++ 0 :: queryTail).drop 12 =
          encode name.labels ++ 0 :: queryTail := by
        rw [List.append_assoc]
        exact List.drop_left' rfl
      rw [hdrop]
      exact decode_encode queryTail hv.labels hlabels
    · have hskip := skipName_name queryHeader queryTail ⟨name.labels, hv.labels, .root⟩
      rw [WireName.bytes, List.length_append, List.append_assoc] at hskip
      rw [List.append_assoc]
      exact hskip
    · have hmove : queryHeader ++ encode name.labels ++ 0 :: queryTail =
          (queryHeader ++ (encode name.labels ++ [0])) ++ queryTail := by
        simp only [List.append_assoc, List.singleton_append]
      rw [hmove]
      refine List.drop_left' ?_
      rw [List.length_append, List.length_append]
      rfl

/-- the name of two labels `a.b` -/
def nameAB : HostName := ⟨[0x61, 0x2E, 0x62], by decide⟩

theorem query_roundTrip_ab : ∃ q, dnsQueryBuild nameAB 25 = .ok q ∧ q.length ≤ 25 ∧
    (∃ ls, decode q.length (q.drop 12) = some (ls, queryTail) ∧ [0x2E].intercalate ls = nameAB.bytes) ∧
      ∃ off, skipName q 12 = .ok off ∧ q.drop off = queryTail := by
  have hq : dnsQueryBuild nameAB 25 = .ok (queryHeader ++ [1, 0x61, 1, 0x62] ++ 0 :: queryTail) := rfl
  exact ⟨_, hq, (query_roundTrip nameAB (by decide)).2 _ hq⟩

/-! ## the buffer of the resolver -/

theorem putName_eq (q : List Byte) {before cur rest : List Byte}
    (hname : name.bytes = before ++ (cur ++ rest)) :
    putName name.bytes.length rest cur q =
      (putLabels name 300 (rest.length + 1) (before.length + cur.length) before.length q).toOption := by
  have hlabel : (before.length + cur.length = before.length ∨
      before.length + cur.length - before.length > 63) ↔ (cur.length = 0 ∨ cur.length > 63) := by
    omega
  induction rest generalizing before cur q with
  | nil =>
    rw [putLabels]
    simp only
    rw [getD_nil hname, if_pos (.inr rfl), putLabel_ok hname, putName, putLabel]
    by_cases hl : cur.length = 0 ∨ cur.length > 63
    · rw [if_pos hl, if_pos (hlabel.mpr hl)]
      rfl
    · rw [if_neg hl, if_neg (mt hlabel.mp hl), Option.bind_some, fitsCap, encode_cons, encode_nil,
        List.append_nil]
      split_ifs <;> rfl
  | cons c rest ih =>
    obtain ⟨hat, hne⟩ := getD_cons hname
    rw [putLabels]
    simp only
    rw [hat, putName]
    by_cases hdot : c = 0x2E
    · rw [if_pos hdot, if_pos (.inl hdot), putLabel_ok hname, putLabel]
      by_cases hl : cur.length = 0 ∨ cur.length > 63
      · rw [if_pos hl, if_pos (hlabel.mpr hl)]
        rfl
      · obtain ⟨hnext, hlen⟩ := bytes_next hname
        have hih := ih (q := q ++ encode [cur]) hnext (by simp)
        rw [hlen] at hih
        rw [if_neg hl, if_neg (mt hlabel.mp hl), Option.bind_some, fitsCap, encode_cons, encode_nil,
          List.append_nil]
        rw [encode_cons, encode_nil, List.append_nil] at hih
        split_ifs
        · rfl
        · exact hih
    · have hmove : name.bytes = before ++ ((cur ++ [c]) ++ rest) := by
        rw [hname, List.append_assoc, List.singleton_append]
      have hih := ih (q := q) hmove (by omega)
      rw [List.length_append, List.length_singleton, ← Nat.add_assoc] at hih
      rw [if_neg hdot, if_neg fun h => h.elim hdot hne, fitsCap]
      split_ifs
      · rfl
      · exact hih

/-- the query of a lookup -/
theorem dnsQueryBuild_eq (name : HostName) :
    Net.dnsQueryBuild name.bytes = (dnsQueryBuild name 300).toOption := by
  unfold Net.dnsQueryBuild dnsQueryBuild
  simp only
  by_cases hn : name.bytes.length = 0 ∨ name.bytes.length > 200
  · rw [if_pos hn, if_pos hn]
    rfl
  · rw [if_neg hn, if_neg hn]
    have hloop := putName_eq queryHeader (show name.bytes = [] ++ ([] ++ name.bytes) from rfl)
    rw [hloop]
    change _ = (putLabels name 300 (name.bytes.length + 1) 0 0 queryHeader >>= _).toOption
    cases putLabels name 300 (name.bytes.length + 1) 0 0 queryHeader <;> rfl

/-- **The names that the resolver takes** are the valid ones, save where the name and the query, which
has it too, do not fit the buffer together. -/
theorem accepts_iff (name : HostName) :
    ((∃ q, dnsQueryBuild name 300 = .ok q) ↔ name.Valid) ↔
      ¬ (name.Valid ∧ 141 ≤ name.bytes.length) := by
  have hok : (∃ q, dnsQueryBuild name 300 = .ok q) ↔ name.Valid ∧ name.bytes.length ≤ 140 := by
    refine ⟨fun ⟨q, hq⟩ => ?_, fun h => ⟨_, (dnsQueryBuild_iff name 300).mpr ⟨h.1, by omega, rfl⟩⟩⟩
    obtain ⟨hv, hroom, -⟩ := (dnsQueryBuild_iff name 300).mp hq
    exact ⟨hv, by omega⟩
  rw [hok]
  refine ⟨fun h hlong => ?_, fun h => ⟨fun hv => hv.1, fun hv => ⟨hv, ?_⟩⟩⟩
  · have hshort := (h.mpr hlong.1).2
    omega
  · by_contra hlong
    exact h ⟨hv, by omega⟩

/-- 141 bytes in three labels -/
def longName : HostName where
  bytes := List.replicate 63 0x61 ++ 0x2E :: (List.replicate 63 0x61 ++ 0x2E :: List.replicate 13 0x61)
  ne := by
    intro b hb
    simp only [List.mem_append, List.mem_cons, List.mem_replicate] at hb
    rcases hb with ⟨-, rfl⟩ | rfl | ⟨-, rfl⟩ | rfl | ⟨-, rfl⟩ <;> decide

theorem accepts_fails : ¬ ∀ name : HostName, (∃ q, dnsQueryBuild name 300 = .ok q) ↔ name.Valid := by
  intro h
  have hlabels : longName.labels =
      [List.replicate 63 0x61, List.replicate 63 0x61, List.replicate 13 0x61] := by
    have hjoin : longName.bytes = [0x2E].intercalate
        [List.replicate 63 0x61, List.replicate 63 0x61, List.replicate 13 0x61] := rfl
    unfold HostName.labels
    rw [hjoin]
    exact List.splitOn_intercalate _ (by decide) (by simp)
  have hlen : longName.bytes.length = 141 := rfl
  have hvalid : longName.Valid := by
    refine ⟨by omega, by omega, ?_⟩
    rw [hlabels]
    decide
  exact (accepts_iff longName).mp (h longName) ⟨hvalid, by omega⟩

end

end Noxis.Net.Dns
