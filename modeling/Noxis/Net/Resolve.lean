import Noxis.Net.Query

/-!
# 25-osfs11/net/arp.c, net.c: a lookup over the whole stack

* `Stack`                the network task: its ARP cache, its outstanding request, its result slot;
* `Stack.netPoll`        what a poll makes of the frames that have arrived;
* `Stack.dnsResolve`     a lookup, with the frames that its polls bring;
* `dnsResolve_eq`        the lookup of `Net.dnsResolve`, which gets the datagrams in these frames;
* `expected`             what a lookup of a valid name should give;
* `resolves_iff`         the code never gives an address; **with the header check of `ip_input` the
                         right way round, a lookup gives what it should exactly if the next hop is
                         cached**.
-/

namespace Noxis.Net.Dns

def ET_ARP : Nat := 0x0806
/-- `HZ / 2` -/
def ARP_RETRY_TICKS : Nat := 100 / 2
def MAX_TICKS : Nat := 0x7FFFABCD

/-- a frame that the card has received, without its Ethernet header -/
inductive Frame where
  | arp (pkt : Buffer) (len : Nat)
  | ip (pkt : Buffer) (len : Nat)
  /-- any other ethertype -/
  | other

structure Stack where
  host : Host
  /-- `host_mac` -/
  mac : Mac
  /-- `nic_present` -/
  nic : Bool
  pending : Bool
  pendingIp : Nat
  pendingSince : Nat
  slot : Slot
  /-- what has gone to the card -/
  out : List EthSend

/-! ## sending -/

/-- `eth_send`: with the card there, `ne2000_send` takes every frame of this length -/
def Stack.ethSend (s : Stack) (e : EthSend) : Stack × Bool :=
  if ¬ s.nic then (s, false)
  else if e.plen > 1500 then (s, false)
  else ({ s with out := s.out ++ [e] }, true)

def broadcast : Mac := fun _ => 0xFF

/-- the packet of `arp_send` -/
def arpPacket (s : Stack) (op tip : Nat) (tha : Mac) : Buffer :=
  let pkt : Buffer := fun a =>
    if a = 0 then 0x00 else if a = 1 then 0x01 else if a = 2 then 0x08 else if a = 3 then 0x00
    else if a = 4 then 6 else if a = 5 then 4
    else if a = 6 then BitVec.ofNat 8 (op / 256) else if a = 7 then BitVec.ofNat 8 op
    else if h : 8 ≤ a ∧ a < 14 then s.mac ⟨a - 8, by omega⟩
    else if h : 18 ≤ a ∧ a < 24 then tha ⟨a - 18, by omega⟩ else 0
  put32 (put32 pkt 14 (htonl32 s.host.ip.toNat)) 24 (htonl32 tip)

def Stack.arpSend (s : Stack) (op tip : Nat) (tha : Mac) : Stack :=
  (s.ethSend ⟨broadcast, ET_ARP, arpPacket s op tip tha, 28⟩).1

/-- `arp_lookup` on a miss -/
def Stack.arpMiss (s : Stack) (now ip : Nat) : Stack :=
  if ¬ s.pending ∨ (now + 2 ^ 32 - s.pendingSince) % 2 ^ 32 > ARP_RETRY_TICKS then
    { s.arpSend 1 ip (fun _ => 0) with pending := true, pendingIp := ip, pendingSince := now }
  else s

/-- `ip_send`: what `Net.ipSend` builds goes to `eth_send`, and stays in the static buffer -/
def Stack.ipSend (s : Stack) (now : Nat) (dst : BitVec 32) (proto : Byte) (payload : Buffer)
    (plen : Nat) : Stack × Bool :=
  match Net.ipSend s.host dst proto payload plen with
  | some e => Stack.ethSend { s with host := { s.host with pkt := e.payload } } e
  | none =>
    if 1480 < plen then (s, false) else (s.arpMiss now (ipNextHop s.host dst).toNat, false)

/-- the packet of `udp_send` -/
def udpPacket (sport dport : Nat) (payload : List Byte) : List Byte :=
  be16 sport ++ (be16 dport ++ (be16 (8 + payload.length) ++ (be16 0 ++ payload)))

def Stack.udpSend (s : Stack) (now : Nat) (dst : BitVec 32) (sport dport : Nat)
    (payload : List Byte) : Stack × Bool :=
  if payload.length > 1472 then (s, false)
  else s.ipSend now dst IP_PROTO_UDP (fun i => (udpPacket sport dport payload).getD i 0)
    (8 + payload.length)

/-! ## receiving -/

/-- `arp_learn` -/
def arpLearn (table : Fin ARP_TABLE_MAX → ArpEntry) (ip : Nat) (mac : Mac) :
    Fin ARP_TABLE_MAX → ArpEntry :=
  if ip = 0 then table
  else
    match (List.finRange ARP_TABLE_MAX).find? fun i => decide ((table i).ip = ip) with
    | some i => Function.update table i ⟨(table i).ip, mac⟩
    | none =>
      let victim := ((List.finRange ARP_TABLE_MAX).find? fun i => decide ((table i).ip = 0)).getD
        ⟨0, arpTable_pos⟩
      Function.update table victim ⟨ip, mac⟩

/-- `arp_input` from `arp_learn` on -/
def Stack.arpTaught (s : Stack) (op sip tip : Nat) (sha : Mac) : Stack :=
  let s := { s with host := { s.host with arpTable := arpLearn s.host.arpTable sip sha } }
  if op = 1 ∧ tip = s.host.ip.toNat then s.arpSend 2 sip sha
  else if op = 2 ∧ sip = s.pendingIp then { s with pending := false }
  else s

def Stack.arpInput (s : Stack) (pkt : Buffer) (len : Nat) : Stack :=
  if len < 28 then s
  else if pkt 0 ≠ 0x00 ∨ pkt 1 ≠ 0x01 then s
  else if pkt 2 ≠ 0x08 ∨ pkt 3 ≠ 0x00 then s
  else if pkt 4 ≠ 6 ∨ pkt 5 ≠ 4 then s
  else
    s.arpTaught ((pkt 6).toNat * 256 + (pkt 7).toNat) (ntohl32 (get32 pkt 14)) (ntohl32 (get32 pkt 24))
      (fun i => pkt (8 + i))

/-- `icmp_input`; an echo reply sets the flags of the ping only -/
def Stack.icmpInput (s : Stack) (now : Nat) (pkt : Buffer) (len src : Nat) : Stack :=
  if len < 8 then s
  else if pkt 0 = 8 ∧ pkt 1 = 0 then
    let reply := Function.update (Function.update (Function.update pkt 0 0) 2 0) 3 0
    let c := checksum reply len
    let reply := Function.update reply 2 (BitVec.ofNat 8 (c / 256))
    let reply := Function.update reply 3 (BitVec.ofNat 8 c)
    (s.ipSend now (BitVec.ofNat 32 src) IP_PROTO_ICMP reply len).1
  else s

/-- the arguments of `udp_input` -/
def datagram (d : Dispatch) : Datagram where
  src := BitVec.ofNat 32 d.src
  bytes := (List.range (d.len % 2 ^ 16)).map d.payload
  short := by
    rw [List.length_map, List.length_range]
    exact Nat.mod_lt _ (by decide)

/-- a turn of the loop of `net_poll`, where `ip_input` compares the checksum with `want` -/
def Stack.input (want now : Nat) (s : Stack) : Frame → Stack
  | .arp pkt len => s.arpInput pkt len
  | .ip pkt len =>
    match ipInputWith want s.host pkt len with
    | none => s
    | some d =>
      if d.proto = IP_PROTO_ICMP then s.icmpInput now d.payload d.len d.src
      else { s with slot := s.slot.input (datagram d) }
  | .other => s

def Stack.netPoll (want : Nat) (s : Stack) (now : Nat) (frames : List Frame) : Stack :=
  frames.foldl (Stack.input want now) s

/-! ## the lookup -/

/-- a turn of the loop of `dns_resolve`: what its poll brings, and `get_ticks` in its two tests -/
structure Turn where
  frames : List Frame
  now : Nat
  again : Nat

/-- the loop; `none` is a lookup that still polls -/
def Stack.resolveLoop (want : Nat) (query : List Byte) (deadline : Nat) :
    Stack → Bool → List Turn → Stack × Option (Option (BitVec 32))
  | s, _, [] => (s, if s.slot.done then some (if s.slot.ok then some s.slot.result else none) else none)
  | s, resent, t :: turns =>
    if s.slot.done then (s, some (if s.slot.ok then some s.slot.result else none))
    else
      let s := s.netPoll want t.now t.frames
      if t.now > deadline then (s, some none)
      else if ¬ resent ∧ t.again ≥ deadline - DNS_TIMEOUT / 2 then
        let s := (s.udpSend t.again NET_DNS DNS_LOCAL_PORT DNS_PORT query).1
        Stack.resolveLoop want query deadline s true turns
      else Stack.resolveLoop want query deadline s resent turns

/-- the result slot is empty -/
def Stack.asking (s : Stack) : Stack := { s with slot := ⟨false, false, 0⟩ }

/-- `dns_resolve`, called at `start` -/
def Stack.dnsResolve (want : Nat) (s : Stack) (name : HostName) (start : Fin MAX_TICKS)
    (turns : List Turn) : Stack × Option (Option (BitVec 32)) :=
  if ¬ s.nic then (s, some none)
  else
    match dnsQueryBuild name 300 with
    | .error _ => (s, some none)
    | .ok query =>
      let r := s.asking.udpSend start NET_DNS DNS_LOCAL_PORT DNS_PORT query
      if r.2 = false then (r.1, some none)
      else r.1.resolveLoop want query (start.val + DNS_TIMEOUT) false turns

/-! ## what should come of it -/

/-- what a frame brings to `udp_input` -/
def Frame.datagram (want : Nat) (h : Host) : Frame → Option Datagram
  | .ip pkt len =>
    (ipInputWith want h pkt len).bind fun d =>
      if d.proto = IP_PROTO_ICMP then none else some (Dns.datagram d)
  | _ => none

/-- what has been said last -/
def later (a : Answer) : Answer → Answer
  | .ignored => a
  | b => b

/-- what the frames of a poll say: the datagrams in the packets to this host whose header sums up to all
ones -/
def heard (h : Host) (frames : List Frame) : Answer :=
  (frames.filterMap (Frame.datagram 0 h)).foldl (fun a d => later a (Net.udpInput d)) .ignored

/-- **What a lookup of a valid name should give**: the first answer, unless the time is up before. -/
def expected (h : Host) (start : Nat) : List Turn → Option (Option (BitVec 32))
  | [] => none
  | t :: turns =>
    if t.now > start + DNS_TIMEOUT then some none
    else
      match heard h t.frames with
      | .ignored => expected h start turns
      | .failed => some none
      | .address ip => some (some ip)

/-- the next hop to the name server is in the ARP cache -/
def Stack.Cached (s : Stack) : Prop := (Net.arpLookup s.host (ipNextHop s.host NET_DNS)).isSome = true

instance (s : Stack) : Decidable s.Cached := inferInstanceAs (Decidable (_ = true))

/-! ## sending and ARP leave the slot alone -/

/-- the slot and the own address are as before -/
def Keeps (s s' : Stack) : Prop := s'.slot = s.slot ∧ s'.host.ip = s.host.ip

section
variable {s s' s'' : Stack} {now : Nat} {dst : BitVec 32} {proto : Byte} {payload : Buffer} {plen : Nat}

theorem Keeps.refl (s : Stack) : Keeps s s := ⟨rfl, rfl⟩

theorem Keeps.trans (h : Keeps s s') (h' : Keeps s' s'') : Keeps s s'' :=
  ⟨h'.1.trans h.1, h'.2.trans h.2⟩

theorem ethSend_keeps (s : Stack) (e : EthSend) : Keeps s (s.ethSend e).1 := by
  unfold Stack.ethSend
  split_ifs <;> exact ⟨rfl, rfl⟩

theorem arpSend_keeps (s : Stack) (op tip : Nat) (tha : Mac) : Keeps s (s.arpSend op tip tha) :=
  ethSend_keeps s _

theorem arpMiss_keeps (s : Stack) (now ip : Nat) : Keeps s (s.arpMiss now ip) := by
  unfold Stack.arpMiss
  split_ifs
  · exact arpSend_keeps s 1 ip _
  · exact Keeps.refl s

theorem ipSend_keeps : Keeps s (s.ipSend now dst proto payload plen).1 := by
  unfold Stack.ipSend
  cases Net.ipSend s.host dst proto payload plen with
  | some e => exact Keeps.trans ⟨rfl, rfl⟩ (ethSend_keeps _ e)
  | none =>
    simp only
    split_ifs
    · exact Keeps.refl s
    · exact arpMiss_keeps s _ _

theorem udpSend_keeps {sport dport : Nat} {data : List Byte} :
    Keeps s (s.udpSend now dst sport dport data).1 := by
  unfold Stack.udpSend
  split_ifs
  · exact Keeps.refl s
  · exact ipSend_keeps

theorem arpTaught_keeps (s : Stack) (op sip tip : Nat) (sha : Mac) :
    Keeps s (s.arpTaught op sip tip sha) := by
  unfold Stack.arpTaught
  simp only
  split_ifs
  · exact Keeps.trans ⟨rfl, rfl⟩ (arpSend_keeps _ 2 sip sha)
  · exact ⟨rfl, rfl⟩
  · exact ⟨rfl, rfl⟩

theorem arpInput_keeps (s : Stack) (pkt : Buffer) (len : Nat) : Keeps s (s.arpInput pkt len) := by
  unfold Stack.arpInput
  split_ifs
  · exact Keeps.refl s
  · exact Keeps.refl s
  · exact Keeps.refl s
  · exact Keeps.refl s
  · exact arpTaught_keeps s _ _ _ _

theorem icmpInput_keeps (s : Stack) (now : Nat) (pkt : Buffer) (len src : Nat) :
    Keeps s (s.icmpInput now pkt len src) := by
  unfold Stack.icmpInput
  split_ifs
  · exact Keeps.refl s
  · exact ipSend_keeps
  · exact Keeps.refl s

/-! ## what a poll brings -/

/-- `ip_input` reads no more of the host than its address -/
theorem ipInputWith_congr {want : Nat} {h h' : Host} (hip : h'.ip = h.ip) (pkt : Buffer) (len : Nat) :
    ipInputWith want h' pkt len = ipInputWith want h pkt len := by
  unfold ipInputWith
  rw [hip]

theorem datagram_congr {want : Nat} {h h' : Host} (hip : h'.ip = h.ip) :
    Frame.datagram want h' = Frame.datagram want h := by
  funext f
  cases f with
  | ip pkt len =>
    unfold Frame.datagram
    simp only
    rw [ipInputWith_congr hip]
  | arp pkt len => rfl
  | other => rfl

theorem input_slot (want now : Nat) (s : Stack) (f : Frame) :
    (s.input want now f).slot = ((f.datagram want s.host).toList).foldl Slot.input s.slot ∧
      (s.input want now f).host.ip = s.host.ip := by
  cases f with
  | arp pkt len => exact arpInput_keeps s pkt len
  | other => exact ⟨rfl, rfl⟩
  | ip pkt len =>
    unfold Stack.input Frame.datagram
    simp only
    generalize ipInputWith want s.host pkt len = r
    cases r with
    | none => exact ⟨rfl, rfl⟩
    | some d =>
      rw [Option.bind_some]
      simp only
      split_ifs
      · exact icmpInput_keeps s now d.payload d.len d.src
      · exact ⟨rfl, rfl⟩

/-- **A poll hands the datagrams on to the slot**, and only they change it. -/
theorem netPoll_slot (want now : Nat) (s : Stack) (frames : List Frame) :
    (s.netPoll want now frames).slot =
        (frames.filterMap (Frame.datagram want s.host)).foldl Slot.input s.slot ∧
      (s.netPoll want now frames).host.ip = s.host.ip := by
  induction frames generalizing s with
  | nil => exact ⟨rfl, rfl⟩
  | cons f frames ih =>
    obtain ⟨hslot, hip⟩ := input_slot want now s f
    obtain ⟨hslot', hip'⟩ := ih (s.input want now f)
    refine ⟨?_, hip'.trans hip⟩
    show ((s.input want now f).netPoll want now frames).slot = _
    rw [hslot', hslot, datagram_congr hip, ← List.foldl_append]
    congr 1
    cases hd : f.datagram want s.host with
    | none => rw [List.filterMap_cons_none hd]; rfl
    | some d => rw [List.filterMap_cons_some hd]; rfl

/-! ## the lookup of the resolver -/

def Turn.poll (want : Nat) (h : Host) (t : Turn) : Poll :=
  ⟨t.frames.filterMap (Frame.datagram want h), t.now⟩

theorem resolveLoop_eq (want : Nat) (query : List Byte) (deadline : Nat) {h : Host} (turns : List Turn)
    (hip : s.host.ip = h.ip) (resent : Bool) :
    (s.resolveLoop want query deadline resent turns).2 =
      (pollLoop deadline s.slot (turns.map (Turn.poll want h))).2 := by
  induction turns generalizing s resent with
  | nil => rfl
  | cons t turns ih =>
    obtain ⟨hslot, hip'⟩ := netPoll_slot want t.now s t.frames
    rw [datagram_congr hip] at hslot
    rw [Stack.resolveLoop, List.map_cons, pollLoop]
    by_cases hd : s.slot.done = true
    · rw [if_pos hd, if_pos hd]
    · rw [if_neg hd, if_neg hd]
      simp only
      show _ = (if t.now > deadline then _ else _ : Slot × Option (Option (BitVec 32))).2
      by_cases hnow : t.now > deadline
      · rw [if_pos hnow, if_pos hnow]
      · rw [if_neg hnow, if_neg hnow]
        show _ = (pollLoop deadline
          ((t.frames.filterMap (Frame.datagram want h)).foldl Slot.input s.slot) _).2
        rw [← hslot]
        split_ifs
        · obtain ⟨hk, hk'⟩ : Keeps _ ((s.netPoll want t.now t.frames).udpSend t.again NET_DNS
              DNS_LOCAL_PORT DNS_PORT query).1 := udpSend_keeps
          rw [ih (hk'.trans (hip'.trans hip)), hk]
        · exact ih (hip'.trans hip) resent

/-- with the next hop cached, and only then, the query goes out -/
theorem udpSend_sent (hnic : s.nic = true) {query : List Byte} (hlen : query.length ≤ 1472)
    (sport dport : Nat) :
    (s.udpSend now dst sport dport query).2 = (Net.arpLookup s.host (ipNextHop s.host dst)).isSome := by
  unfold Stack.udpSend Stack.ipSend Net.ipSend
  rw [if_neg (by omega), if_neg (by omega)]
  cases Net.arpLookup s.host (ipNextHop s.host dst) with
  | none =>
    simp only [Option.map_none]
    rw [if_neg (by omega)]
    rfl
  | some mac =>
    simp only [Option.map_some]
    unfold Stack.ethSend
    rw [if_neg (not_not.mpr hnic), if_neg (by simp only; omega)]
    rfl

theorem query_sent {name : HostName} {query : List Byte} (hnic : s.nic = true)
    (hq : dnsQueryBuild name 300 = .ok query) (now : Nat) :
    (s.asking.udpSend now NET_DNS DNS_LOCAL_PORT DNS_PORT query).2 = decide s.Cached := by
  have hlen : query.length ≤ 1472 := by
    obtain ⟨-, hroom, -⟩ := (dnsQueryBuild_iff name 300).mp hq
    have hall := length_query hq
    omega
  rw [udpSend_sent (s := s.asking) hnic hlen]
  exact (Bool.decide_eq_true).symm

/-- the clock of the kernel does not wrap behind a lookup -/
theorem deadline_eq (start : Fin MAX_TICKS) :
    (start.val + DNS_TIMEOUT) % 2 ^ 32 = start.val + DNS_TIMEOUT := by
  have hstart : start.val < 0x7FFFABCD := start.isLt
  refine Nat.mod_eq_of_lt ?_
  unfold DNS_TIMEOUT
  omega

/-- the call of the resolver -/
def Stack.lookup (s : Stack) (name : HostName) (start : Fin MAX_TICKS) : Lookup :=
  ⟨name.bytes, s.nic, decide s.Cached, start, fun _ => True⟩

theorem lookup_asks {name : HostName} {start : Fin MAX_TICKS} :
    (s.lookup name start).Asks ↔ s.nic = true ∧ (∃ q, dnsQueryBuild name 300 = .ok q) ∧ s.Cached := by
  have hquery : (Net.dnsQueryBuild name.bytes).isSome = true ↔ ∃ q, dnsQueryBuild name 300 = .ok q := by
    rw [dnsQueryBuild_eq]
    cases dnsQueryBuild name 300 with
    | error q => exact iff_of_false Bool.false_ne_true (by rintro ⟨q', ⟨⟩⟩)
    | ok q => exact iff_of_true rfl ⟨q, rfl⟩
  unfold Lookup.Asks
  show _ ∧ (Net.dnsQueryBuild name.bytes).isSome = true ∧ decide s.Cached = true ↔ _
  rw [hquery, decide_eq_true_iff]
  exact Iff.rfl

/-- **The lookup is that of the resolver**, with the datagrams in the frames; the query is sent if the
next hop is cached. -/
theorem dnsResolve_eq (want : Nat) (s : Stack) (name : HostName) (start : Fin MAX_TICKS)
    (turns : List Turn) :
    (s.dnsResolve want name start turns).2 =
      (Net.dnsResolve (s.lookup name start) s.slot (turns.map (Turn.poll want s.host))).2 := by
  unfold Stack.dnsResolve
  by_cases hasks : (s.lookup name start).Asks
  · obtain ⟨hnic, ⟨query, hq⟩, hc⟩ := lookup_asks.mp hasks
    have hsent := query_sent hnic hq start
    obtain ⟨hk, hk'⟩ : Keeps _ (s.asking.udpSend start.val NET_DNS DNS_LOCAL_PORT DNS_PORT query).1 :=
      udpSend_keeps
    rw [dnsResolve_asks hasks, if_neg (not_not.mpr hnic), hq]
    simp only
    rw [if_neg (by rw [hsent, decide_eq_true hc]; decide), resolveLoop_eq want query _ turns hk', hk]
    show _ = (pollLoop ((start.val + DNS_TIMEOUT) % 2 ^ 32) _ _).2
    rw [deadline_eq]
    rfl
  · rw [dnsResolve_not_asks hasks]
    by_cases hnic : s.nic = true
    · rw [if_neg (not_not.mpr hnic)]
      cases hq : dnsQueryBuild name 300 with
      | error q => rfl
      | ok query =>
        have hc : ¬ s.Cached := fun hc => hasks (lookup_asks.mpr ⟨hnic, ⟨query, hq⟩, hc⟩)
        have hsent := query_sent hnic hq start
        simp only
        rw [if_pos (by rw [hsent, decide_eq_false hc])]
    · rw [if_pos hnic]

end

/-! ## the answer -/

/-- the slot holds an answer -/
def Says (g : Slot) : Answer → Prop
  | .ignored => g.done = false
  | .failed => g.done = true ∧ g.ok = false
  | .address ip => g.done = true ∧ g.ok = true ∧ g.result = ip

theorem Says.input {g : Slot} {a : Answer} (h : Says g a) (d : Datagram) :
    Says (g.input d) (later a (Net.udpInput d)) := by
  unfold Slot.input
  cases Net.udpInput d with
  | ignored => exact h
  | failed => exact ⟨rfl, rfl⟩
  | address ip => exact ⟨rfl, rfl, rfl⟩

theorem Says.foldl {g : Slot} {a : Answer} (h : Says g a) (ds : List Datagram) :
    Says (ds.foldl Slot.input g) (ds.foldl (fun a d => later a (Net.udpInput d)) a) := by
  induction ds generalizing g a with
  | nil => exact h
  | cons d ds ih => exact ih (h.input d)

/-- the loop stops at an answer -/
theorem pollLoop_done {deadline : Nat} {g : Slot} (h : g.done = true) (polls : List Poll) :
    (pollLoop deadline g polls).2 = some (if g.ok then some g.result else none) := by
  cases polls with
  | nil =>
    show (if g.done then _ else _ : Option (Option (BitVec 32))) = _
    rw [if_pos h]
  | cons p polls =>
    unfold pollLoop
    rw [if_pos h]

/-- **The loop of the resolver gives what it should.** -/
theorem pollLoop_expected (h : Host) (start : Nat) (turns : List Turn) {g : Slot}
    (hg : g.done = false) :
    (pollLoop (start + DNS_TIMEOUT) g (turns.map (Turn.poll 0 h))).2 = expected h start turns := by
  induction turns generalizing g with
  | nil =>
    show (if g.done then _ else _ : Option (Option (BitVec 32))) = _
    rw [hg]
    rfl
  | cons t turns ih =>
    have hsays : Says ((t.poll 0 h).arrivals.foldl Slot.input g) (heard h t.frames) :=
      (show Says g .ignored from hg).foldl _
    rw [List.map_cons, pollLoop, expected, if_neg (by rw [hg]; decide)]
    simp only
    change (if t.now > _ then _ else _ : Slot × Option (Option (BitVec 32))).2 = _
    by_cases hnow : t.now > start + DNS_TIMEOUT
    · rw [if_pos hnow, if_pos hnow]
    · rw [if_neg hnow, if_neg hnow]
      cases ha : heard h t.frames with
      | ignored =>
        rw [ha] at hsays
        exact ih hsays
      | failed =>
        rw [ha] at hsays
        rw [pollLoop_done hsays.1, hsays.2]
        rfl
      | address ip =>
        rw [ha] at hsays
        rw [pollLoop_done hsays.1, hsays.2.1, hsays.2.2]
        rfl

/-- **Lookups**, for a name that the resolver takes, with the card there.  Whatever arrives, the code
gives no address, as `ip_input` drops every packet.  Where `ip_input` compares the checksum with 0,
every lookup gives what it should exactly if the next hop is cached before it. -/
theorem resolves_iff (s : Stack) (name : HostName) (up : s.nic = true)
    (valid : ∃ q, dnsQueryBuild name 300 = .ok q) :
    (∀ (start : Fin MAX_TICKS) turns ip, expected s.host start turns = some (some ip) →
      (s.dnsResolve 0xFFFF name start turns).2 ≠ some (some ip)) ∧
    ((∀ (start : Fin MAX_TICKS) turns,
      (s.dnsResolve 0 name start turns).2 = expected s.host start turns) ↔ s.Cached) := by
  refine ⟨fun start turns ip _ hr => ?_, fun h => ?_, fun hc start turns => ?_⟩
  · rw [dnsResolve_eq] at hr
    obtain ⟨-, p, hp, d, hd, -⟩ := dnsResolve_address hr
    obtain ⟨t, -, rfl⟩ := List.mem_map.mp hp
    obtain ⟨f, -, hf⟩ := List.mem_filterMap.mp hd
    cases f with
    | ip pkt len =>
      have hdrop : ipInputWith 0xFFFF s.host pkt len = none := ipInput_drops s.host pkt len
      unfold Frame.datagram at hf
      simp only at hf
      rw [hdrop] at hf
      cases hf
    | arp pkt len => cases hf
    | other => cases hf
  · by_contra hc
    have hasks : ¬ (s.lookup name ⟨0, by decide⟩).Asks := fun hasks => hc (lookup_asks.mp hasks).2.2
    have hres := h ⟨0, by decide⟩ []
    rw [dnsResolve_eq, dnsResolve_not_asks hasks] at hres
    cases hres
  · rw [dnsResolve_eq, dnsResolve_asks (lookup_asks.mpr ⟨up, valid, hc⟩)]
    show (pollLoop ((start.val + DNS_TIMEOUT) % 2 ^ 32) _ _).2 = _
    rw [deadline_eq]
    exact pollLoop_expected s.host start turns rfl

/-! ## a cold cache -/

/-- what a datagram says is in its bytes -/
theorem udpInput_congr {d d' : Datagram} (h : d.bytes = d'.bytes) :
    Net.udpInput d = Net.udpInput d' := by
  have hd := udpInput_eq d
  rw [h, udpInput_eq d'] at hd
  exact (Except.ok.inj hd).symm

/-- **A datagram that a host sends is heard.** -/
theorem heard_sent {server h : Host} {mac : Mac} {d : Datagram} (hlen : d.bytes.length ≤ 1480)
    (harp : Net.arpLookup server (ipNextHop server h.ip) = some mac) (pkt : Buffer) (n : Nat) :
    heard h [.arp pkt n,
      .ip (sent server h.ip IP_PROTO_UDP (fun i => d.bytes.getD i 0) d.bytes.length)
        (20 + d.bytes.length)] = Net.udpInput d := by
  obtain ⟨e, he, r, hr, hproto, -, hrlen, hbytes⟩ : Delivered (ipInputWith 0) server h IP_PROTO_UDP
      (fun i => d.bytes.getD i 0) d.bytes.length := delivered_zero (.inr rfl) hlen harp
  rw [ipSend_some hlen harp] at he
  obtain rfl := Option.some.inj he
  have hdata : (datagram r).bytes = d.bytes := by
    show (List.range (r.len % 2 ^ 16)).map r.payload = _
    rw [hrlen, Nat.mod_eq_of_lt (by omega)]
    refine List.ext_getElem (by rw [List.length_map, List.length_range]) fun i hi hi' => ?_
    rw [List.getElem_map, List.getElem_range, hbytes i hi']
    exact List.getD_eq_getElem _ _ hi'
  have hframe : Frame.datagram 0 h (.ip (sent server h.ip IP_PROTO_UDP (fun i => d.bytes.getD i 0)
      d.bytes.length) (20 + d.bytes.length)) = some (datagram r) := by
    unfold Frame.datagram
    simp only
    rw [hr, Option.bind_some, hproto, if_neg (by decide)]
  unfold heard
  rw [List.filterMap_cons_none rfl, List.filterMap_cons_some hframe, List.filterMap_nil,
    ← udpInput_congr hdata]
  show later .ignored (Net.udpInput (datagram r)) = _
  cases Net.udpInput (datagram r) <;> rfl

/-- 10.0.2.3, which has the entry of 10.0.2.15 -/
def nameServer : Host :=
  { ip := NET_DNS, mask := 0xFFFFFF00, gw := 0x0A000202
    arpTable := fun _ => ⟨0x0A00020F, someMac⟩, pkt := fun _ => 0 }

/-- the network task right after boot -/
def coldStack : Stack where
  host :=
    { ip := 0x0A00020F, mask := 0xFFFFFF00, gw := 0x0A000202
      arpTable := fun _ => ⟨0, fun _ => 0⟩, pkt := fun _ => 0 }
  mac := someMac
  nic := true
  pending := false
  pendingIp := 0
  pendingSince := 0
  slot := ⟨false, false, 0⟩
  out := []

theorem letterA_ne : ∀ b ∈ ([0x61] : List Byte), b ≠ 0 := by decide

def nameA : HostName := ⟨[0x61], letterA_ne⟩

/-- both replies of the name server, in the first poll -/
def bothReplies : Turn where
  frames := [.arp (arpPacket { coldStack with host := nameServer } 2 0x0A00020F someMac) 28,
    .ip (sent nameServer 0x0A00020F IP_PROTO_UDP (fun i => answerA.bytes.getD i 0) answerA.bytes.length)
      (20 + answerA.bytes.length)]
  now := 1
  again := 1

theorem expected_bothReplies : expected coldStack.host 0 [bothReplies] = some (some 0x0A000263) := by
  have hheard : heard coldStack.host bothReplies.frames = .address 0x0A000263 := by
    have hu : Net.udpInput answerA = .address 0x0A000263 := by decide
    obtain ⟨mac, hmac⟩ : ∃ mac, Net.arpLookup nameServer (ipNextHop nameServer coldStack.host.ip) =
        some mac := Option.isSome_iff_exists.mp (by decide)
    rw [← hu]
    exact heard_sent (by decide) hmac _ _
  unfold expected
  rw [if_neg (by decide), hheard]

theorem resolves_iff_cold : (∃ q, dnsQueryBuild nameA 300 = .ok q) ∧
    (coldStack.dnsResolve 0xFFFF nameA ⟨0, by decide⟩ [bothReplies]).2 ≠ some (some 0x0A000263) := by
  have hq : ∃ q, dnsQueryBuild nameA 300 = .ok q := ⟨_, rfl⟩
  exact ⟨hq, (resolves_iff coldStack nameA rfl hq).1 ⟨0, by decide⟩ _ _ expected_bothReplies⟩

/-- the name server answers at once, and the lookup has given up before -/
theorem resolves_fails :
    ¬ ∀ (s : Stack) (name : HostName) (start : Fin MAX_TICKS) (turns : List Turn) ip, s.nic = true →
      (∃ q, dnsQueryBuild name 300 = .ok q) → expected s.host start turns = some (some ip) →
        (s.dnsResolve 0xFFFF name start turns).2 = some (some ip) := by
  intro h
  have hq : ∃ q, dnsQueryBuild nameA 300 = .ok q := ⟨_, rfl⟩
  have hres := h coldStack nameA ⟨0, by decide⟩ [bothReplies] _ rfl hq expected_bothReplies
  have hasks : ¬ (coldStack.lookup nameA ⟨0, by decide⟩).Asks := fun hasks =>
    absurd (lookup_asks.mp hasks).2.2 (by decide)
  rw [dnsResolve_eq, dnsResolve_not_asks hasks] at hres
  cases hres

end Noxis.Net.Dns
