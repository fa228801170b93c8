import Noxis.Net.Ip

/-!
# 25-osfs11/net/dns.c: answers and their queries

* `dnsQueryBuild`    the query for a name;
* `udpInput`         what a datagram makes of the resolver's one result slot;
* `dnsResolve`       a lookup, polling until the slot is filled;
* `IsResponse`       a datagram that answers the query for a name;
* `answers_iff`      every lookup takes such a datagram, in every history, exactly if no other one that
                     can arrive during a lookup is taken for an answer;
* `answers_fails`    a late answer is the address of another name.
-/

namespace Noxis.Net

def NET_DNS : BitVec 32 := 0x0A000203
/-- `3 * HZ` -/
def DNS_TIMEOUT : Nat := 3 * 100
def DNS_PORT : Nat := 53
def DNS_LOCAL_PORT : Nat := 0x1234
def DNS_QUERY_ID : Nat := 0x1234

/-- a UDP datagram that `ip_input` hands on, with the address that it came from -/
structure Datagram where
  src : BitVec 32
  bytes : List Byte
  short : bytes.length < 2 ^ 16

/-- `pkt[i]` -/
def Datagram.byte (d : Datagram) (i : Nat) : Nat := (d.bytes.getD i 0).toNat

/-- `(pkt[i] << 8) | pkt[i + 1]` -/
def Datagram.word (d : Datagram) (i : Nat) : Nat := d.byte i * 256 + d.byte (i + 1)

/-! ## the query -/

/-- a label of `name` goes into the query -/
def putLabel (q label : List Byte) : Option (List Byte) :=
  if label.length = 0 ∨ label.length > 63 then none
  else some (q ++ BitVec.ofNat 8 label.length :: label)

/-- `if (p + nlen + 6 > cap) return -1` -/
def fitsCap (nlen : Nat) (q : List Byte) : Option (List Byte) :=
  if q.length + nlen + 6 > 300 then none else some q

/-- the loop over the name, with the label that is being read -/
def putName (nlen : Nat) : List Byte → List Byte → List Byte → Option (List Byte)
  | [], label, q => (putLabel q label).bind (fitsCap nlen)
  | c :: name, label, q =>
    if c = 0x2E then ((putLabel q label).bind (fitsCap nlen)).bind (putName nlen name [])
    else (fitsCap nlen q).bind (putName nlen name (label ++ [c]))

def queryHeader : List Byte :=
  [BitVec.ofNat 8 (DNS_QUERY_ID / 256), BitVec.ofNat 8 DNS_QUERY_ID, 0x01, 0x00, 0x00, 0x01, 0x00, 0x00,
   0x00, 0x00, 0x00, 0x00]

/-- `dns_query_build` -/
def dnsQueryBuild (name : List Byte) : Option (List Byte) :=
  if name.length = 0 ∨ name.length > 200 then none
  else (putName name.length name [] queryHeader).map (· ++ [0x00, 0x00, 0x01, 0x00, 0x01])

/-! ## datagrams -/

/-- `dns_skip_name` on the payload from byte 8 on; each turn goes at least one byte further, so `len`
turns are enough -/
def dnsSkipName (d : Datagram) (len : Nat) : Nat → Nat → Nat
  | 0, _ => len
  | n + 1, off =>
    if off < len then
      let c := d.byte (8 + off)
      if c = 0 then off + 1
      else if c / 64 = 3 then if off + 2 < len then off + 2 else len
      else dnsSkipName d len n (off + 1 + c)
    else len

/-- the questions -/
def skipQuestions (d : Datagram) (len : Nat) : Nat → Nat → Nat
  | 0, off => off
  | n + 1, off => if off < len then skipQuestions d len n (dnsSkipName d len len off + 4) else off

/-- what a datagram says: nothing, that there is no address, or an address -/
inductive Answer where
  | ignored
  | failed
  | address (ip : BitVec 32)
  deriving DecidableEq, Repr

/-- the answers: the first A record wins -/
def findA (d : Datagram) (len : Nat) : Nat → Nat → Answer
  | 0, _ => .failed
  | n + 1, off =>
    if off + 12 ≤ len then
      let off := dnsSkipName d len len off
      if off + 10 > len then .ignored
      else
        let type := d.word (8 + off)
        let rdlen := d.word (8 + off + 8)
        let off := off + 10
        if type = 1 ∧ rdlen = 4 ∧ off + 4 ≤ len then
          .address (BitVec.ofNat 32 (d.word (8 + off) * 65536 + d.word (8 + off + 2)))
        else findA d len n (off + rdlen)
    else .failed

/-- `dns_input` on the payload from byte 8 on -/
def dnsInput (d : Datagram) (len : Nat) : Answer :=
  if len < 12 then .ignored
  else if d.word 8 ≠ DNS_QUERY_ID then .ignored
  else if d.word 10 &&& 0x8000 = 0 then .ignored
  else if d.word 10 &&& 0x000F ≠ 0 then .failed
  else if d.word 14 = 0 then .failed
  else findA d len (d.word 14) (skipQuestions d len (d.word 12) 12)

/-- `udp_input`; the address that the datagram came from is not a parameter of it -/
def udpInput (d : Datagram) : Answer :=
  let len := d.bytes.length
  if len < 8 then .ignored
  else
    let clen := (d.word 4 + 2 ^ 16 - 8) % 2 ^ 16
    let clen := if clen > len - 8 then len - 8 else clen
    if d.word 2 = DNS_LOCAL_PORT then dnsInput d clen else .ignored

/-! ## lookups -/

/-- `dns_done`, `dns_ok` and `dns_result` -/
structure Slot where
  done : Bool
  ok : Bool
  result : BitVec 32

def Slot.input (g : Slot) (d : Datagram) : Slot :=
  match udpInput d with
  | .ignored => g
  | .failed => { g with done := true, ok := false }
  | .address ip => ⟨true, true, ip⟩

/-- a turn of the loop: what `net_poll` brings, and `get_ticks` after it -/
structure Poll where
  arrivals : List Datagram
  now : Nat

/-- the loop; `none` is a lookup that still polls.  The second query does not touch the slot. -/
def pollLoop (deadline : Nat) : Slot → List Poll → Slot × Option (Option (BitVec 32))
  | g, [] => (g, if g.done then some (if g.ok then some g.result else none) else none)
  | g, p :: polls =>
    if g.done then (g, some (if g.ok then some g.result else none))
    else
      let g := p.arrivals.foldl Slot.input g
      if p.now > deadline then (g, some none) else pollLoop deadline g polls

/-- a call of `dns_resolve`, and the datagrams that can arrive while it runs -/
structure Lookup where
  name : List Byte
  /-- `net_ready` -/
  ready : Bool
  /-- `udp_send` gives 0 -/
  sent : Bool
  /-- `get_ticks` when the query is sent -/
  start : Nat
  arrives : Datagram → Prop

/-- the query goes out -/
def Lookup.Asks (c : Lookup) : Prop :=
  c.ready = true ∧ (dnsQueryBuild c.name).isSome = true ∧ c.sent = true

instance Lookup.decidableAsks (c : Lookup) : Decidable c.Asks := inferInstanceAs (Decidable (_ ∧ _))

/-- `dns_resolve` -/
def dnsResolve (c : Lookup) (g : Slot) (polls : List Poll) : Slot × Option (Option (BitVec 32)) :=
  if ¬ c.ready then (g, some none)
  else if (dnsQueryBuild c.name).isNone then (g, some none)
  else
    let g : Slot := ⟨false, false, 0⟩
    if ¬ c.sent then (g, some none)
    else pollLoop ((c.start + DNS_TIMEOUT) % 2 ^ 32) g polls

/-! ## whose answer it is -/

/-- the datagram comes from the name server's address and port, and carries the id and the question of
the query for `name` -/
structure IsResponse (name : List Byte) (d : Datagram) : Prop where
  src : d.src = NET_DNS
  port : d.word 0 = DNS_PORT
  id : d.word 8 = DNS_QUERY_ID
  question : ∃ q, dnsQueryBuild name = some q ∧ (q.drop 12).IsPrefix (d.bytes.drop 20)

/-- what happens around a call: datagrams before it, while nobody asks, and its polls -/
structure Schedule where
  before : List Datagram
  polls : List Poll

/-- any delay, duplication, loss and order of what can arrive -/
def Schedule.Drawn (s : Schedule) (c : Lookup) : Prop :=
  ∀ p ∈ s.polls, ∀ d ∈ p.arrivals, c.arrives d

/-- along a history every address that a lookup gives comes from a response to its own query -/
def Answered : Slot → List (Lookup × Schedule) → Prop
  | _, [] => True
  | g, (c, s) :: h =>
    let r := dnsResolve c (s.before.foldl Slot.input g) s.polls
    (∀ ip, r.2 = some (some ip) →
      ∃ p ∈ s.polls, ∃ d ∈ p.arrivals, IsResponse c.name d ∧ udpInput d = .address ip) ∧
    (r.2 ≠ none → Answered r.1 h)

variable {g : Slot} {c : Lookup} {ip : BitVec 32}

/-! ## the slot -/

/-- the slot holds what a datagram of `l` said, or what it held before -/
theorem foldl_input (l : List Datagram) (g : Slot) (h : (l.foldl Slot.input g).done = true)
    (hok : (l.foldl Slot.input g).ok = true) :
    (g.done = true ∧ g.ok = true ∧ (l.foldl Slot.input g).result = g.result) ∨
      ∃ d ∈ l, udpInput d = .address (l.foldl Slot.input g).result := by
  induction l generalizing g with
  | nil => exact .inl ⟨h, hok, rfl⟩
  | cons d l ih =>
    rw [List.foldl_cons] at h hok ⊢
    rcases ih (g.input d) h hok with ⟨hd, ho, hr⟩ | ⟨d', hd', hip⟩
    · cases hu : udpInput d with
      | ignored =>
        have hg : g.input d = g := by
          unfold Slot.input
          rw [hu]
        rw [hg] at hd ho hr ⊢
        exact .inl ⟨hd, ho, hr⟩
      | failed =>
        have hno : (g.input d).ok = false := by
          unfold Slot.input
          rw [hu]
        rw [hno] at ho
        exact absurd ho (by decide)
      | address ip =>
        refine .inr ⟨d, List.mem_cons_self, ?_⟩
        have hres : (g.input d).result = ip := by
          unfold Slot.input
          rw [hu]
        rw [hu, hr, hres]
    · exact .inr ⟨d', List.mem_cons_of_mem d hd', hip⟩

/-- **the address comes from a datagram that arrived during the loop** -/
theorem pollLoop_address (deadline : Nat) (polls : List Poll) (g : Slot)
    (h : (pollLoop deadline g polls).2 = some (some ip)) :
    (g.done = true ∧ g.ok = true ∧ g.result = ip) ∨
      ∃ p ∈ polls, ∃ d ∈ p.arrivals, udpInput d = .address ip := by
  have hdone : ∀ g : Slot, some (if g.ok then some g.result else none) = some (some ip) →
      g.ok = true ∧ g.result = ip := by
    intro g hg
    cases hok : g.ok with
    | false =>
      rw [hok] at hg
      exact absurd hg (by simp)
    | true =>
      rw [hok] at hg
      exact ⟨rfl, Option.some.inj (Option.some.inj hg)⟩
  induction polls generalizing g with
  | nil =>
    cases hd : g.done with
    | false =>
      unfold pollLoop at h
      rw [hd] at h
      exact absurd h (by simp)
    | true =>
      unfold pollLoop at h
      rw [hd] at h
      obtain ⟨hok, hr⟩ := hdone g h
      exact .inl ⟨rfl, hok, hr⟩
  | cons p polls ih =>
    unfold pollLoop at h
    cases hd : g.done with
    | true =>
      rw [if_pos hd] at h
      obtain ⟨hok, hr⟩ := hdone g h
      exact .inl ⟨rfl, hok, hr⟩
    | false =>
      rw [if_neg (by simp [hd])] at h
      simp only at h
      by_cases hnow : p.now > deadline
      · rw [if_pos hnow] at h
        exact absurd h (by simp)
      · rw [if_neg hnow] at h
        rcases ih _ h with ⟨hd', hok', hr'⟩ | ⟨p', hp', hrest⟩
        · rcases foldl_input p.arrivals g hd' hok' with ⟨hc, -⟩ | ⟨d, hmem, hu⟩
          · rw [hd] at hc
            exact absurd hc (by decide)
          · exact .inr ⟨p, List.mem_cons_self, d, hmem, hr' ▸ hu⟩
        · exact .inr ⟨p', List.mem_cons_of_mem p hp', hrest⟩

theorem dnsResolve_asks (hc : c.Asks) (g : Slot) (polls : List Poll) :
    dnsResolve c g polls =
      pollLoop ((c.start + DNS_TIMEOUT) % 2 ^ 32) ⟨false, false, 0⟩ polls := by
  obtain ⟨hr, hq, hs⟩ := hc
  unfold dnsResolve
  rw [if_neg (not_not.mpr hr),
    if_neg (by rw [Option.isNone_iff_eq_none]; exact Option.isSome_iff_ne_none.mp hq)]
  exact if_neg (not_not.mpr hs)

theorem dnsResolve_not_asks (hc : ¬ c.Asks) (g : Slot) (polls : List Poll) :
    (dnsResolve c g polls).2 = some none := by
  unfold dnsResolve
  by_cases hr : c.ready = true
  · rw [if_neg (not_not.mpr hr)]
    by_cases hq : (dnsQueryBuild c.name).isNone = true
    · rw [if_pos hq]
    · rw [if_neg hq]
      by_cases hs : c.sent = true
      · refine absurd ⟨hr, ?_, hs⟩ hc
        rw [Option.isSome_iff_ne_none]
        rwa [Option.isNone_iff_eq_none] at hq
      · simp only [if_pos hs]
  · rw [if_pos hr]

/-- a lookup takes the address of a datagram that arrived while it polled -/
theorem dnsResolve_address {polls : List Poll} (h : (dnsResolve c g polls).2 = some (some ip)) :
    c.Asks ∧ ∃ p ∈ polls, ∃ d ∈ p.arrivals, udpInput d = .address ip := by
  by_cases hc : c.Asks
  · refine ⟨hc, ?_⟩
    rw [dnsResolve_asks hc] at h
    rcases pollLoop_address _ _ _ h with ⟨hd, -⟩ | hex
    · exact absurd hd (by decide)
    · exact hex
  · rw [dnsResolve_not_asks hc] at h
    exact absurd h (by simp)

/-- an address that arrives alone is taken -/
theorem dnsResolve_alone (hc : c.Asks) {d : Datagram} (hd : udpInput d = .address ip) (g : Slot) :
    (dnsResolve c g [⟨[d], 0⟩]).2 = some (some ip) := by
  rw [dnsResolve_asks hc]
  have hin : [d].foldl Slot.input ⟨false, false, 0⟩ = ⟨true, true, ip⟩ := by
    show Slot.input _ d = _
    unfold Slot.input
    rw [hd]
  unfold pollLoop
  simp only [hin]
  rfl

/-! ## histories -/

/-- **DNS answers belong to their queries**, in every history of lookups from `calls`, exactly if
every datagram that can arrive during a lookup, and that is taken for an address, is a response to its
query. -/
theorem answers_iff (calls : Lookup → Prop) :
    (∀ (g : Slot) (h : List (Lookup × Schedule)), (∀ x ∈ h, calls x.1 ∧ x.2.Drawn x.1) →
      Answered g h) ↔
    ∀ c, calls c → c.Asks → ∀ d, c.arrives d → ∀ ip, udpInput d = .address ip →
      IsResponse c.name d := by
  constructor
  · intro h c hc hask d hd ip hip
    have hdrawn : ∀ x ∈ [(c, (⟨[], [⟨[d], 0⟩]⟩ : Schedule))], calls x.1 ∧ x.2.Drawn x.1 := by
      intro x hx
      rw [List.mem_singleton.mp hx]
      refine ⟨hc, fun p hp d' hd' => ?_⟩
      rw [List.mem_singleton.mp hp] at hd'
      rw [List.mem_singleton.mp hd']
      exact hd
    obtain ⟨hans, -⟩ := h ⟨false, false, 0⟩ _ hdrawn
    obtain ⟨p, hp, d', hd', hresp, -⟩ := hans ip (dnsResolve_alone hask hip _)
    rw [List.mem_singleton.mp hp] at hd'
    rw [List.mem_singleton.mp hd'] at hresp
    exact hresp
  · intro hresp g h
    induction h generalizing g with
    | nil => exact fun _ => trivial
    | cons x h ih =>
      intro hdrawn
      obtain ⟨⟨hx, hxd⟩, hrest⟩ := List.forall_mem_cons.mp hdrawn
      refine ⟨fun ip hip => ?_, fun _ => ih _ hrest⟩
      obtain ⟨hask, p, hp, d, hd, hu⟩ := dnsResolve_address hip
      exact ⟨p, hp, d, hd, hresp x.1 hx hask d (hxd p hp d hd) ip hu, hu⟩

/-! ## a late answer -/

/-- the answer of the name server to the query for `a`: 10.0.2.99 -/
def answerA : Datagram where
  src := NET_DNS
  bytes := [0x00, 0x35, 0x12, 0x34, 0x00, 0x33, 0x00, 0x00,
    0x12, 0x34, 0x81, 0x80, 0x00, 0x01, 0x00, 0x01, 0x00, 0x00, 0x00, 0x00,
    0x01, 0x61, 0x00, 0x00, 0x01, 0x00, 0x01,
    0xC0, 0x0C, 0x00, 0x01, 0x00, 0x01, 0x00, 0x00, 0x00, 0x3C, 0x00, 0x04, 0x0A, 0x00, 0x02, 0x63]
  short := by decide

/-- the lookup of a name with one letter -/
def lookupOf (letter : Byte) : Lookup := ⟨[letter], true, true, 0, fun d => d = answerA⟩

/-- `a` times out, and its answer arrives during the lookup of `b` -/
theorem answers_fails :
    ¬ ∀ (g : Slot) (h : List (Lookup × Schedule)),
      (∀ x ∈ h, (x.1 = lookupOf 0x61 ∨ x.1 = lookupOf 0x62) ∧ x.2.Drawn x.1) → Answered g h := by
  rw [answers_iff fun c => c = lookupOf 0x61 ∨ c = lookupOf 0x62]
  intro h
  have hu : udpInput answerA = .address 0x0A000263 := by decide
  obtain ⟨q, hq, hpre⟩ := (h (lookupOf 0x62) (.inr rfl) (by decide) answerA rfl _ hu).question
  have hb : dnsQueryBuild (lookupOf 0x62).name = some (queryHeader ++ [0x01, 0x62] ++
    [0x00, 0x00, 0x01, 0x00, 0x01]) := by decide
  rw [Option.some.inj (hq.symm.trans hb)] at hpre
  exact absurd hpre (by decide)

end Noxis.Net
