import Noxis.Fixes.Ip
import Noxis.Net.Frame

/-!
# 23-fixes/net: arp.c, the ICMP part of ip.c, net_poll

The state of the network code with EFLAGS.IF beside it: `ne2000_send` ends with `sti`, so whoever
transmits a frame leaves the interrupts on.

* `NetState`     the statics of the four files, `tick` and IF;
* `netPoll`      takes the received frames out of the software ring and answers them;
* `Speaks`       read off the frames alone: one of them is answered, or the lookup that follows
                 finds its address or asks for it;
* `speaks_iff`   **the poll and the lookup after it transmit, or find the address, exactly then**.
-/

namespace Noxis.Fixes

open Net (Mac Host EthSend Dispatch ArpEntry Nic)

def ETHERTYPE_ARP : Nat := 0x0806
def ICMP_ID : Nat := 0xBEAF

/-- `nic.swRing` is the software ring; `card_present` and `nic_present` are set together, and are
`nic.nicPresent` -/
structure NetState where
  host : Host
  nic : Nic
  pending : Bool
  pendingIp : Nat
  pendingSince : BitVec 32
  pingGotReply : Bool
  pingReplySeq : Nat
  pingReplyFrom : Nat
  /-- the static buffer of `net_poll` -/
  buf : Buffer
  tick : BitVec 32
  ifOn : Bool

/-! ## sending -/

/-- the `cli` and `sti` of `ne2000_send` are reached when the card is given a frame -/
def NetState.ethSend (s : NetState) (e : EthSend) : NetState :=
  let r := Net.ethSend .fixes s.nic e.dst (BitVec.ofNat 16 e.ethertype) e.payload e.plen
  { s with nic := r.1, ifOn := s.ifOn || r.2.isSome }

def BROADCAST : Mac := fun _ => 0xFF

def putMac (b : Buffer) (o : Nat) (m : Mac) : Buffer := fun a =>
  if h : a - o < 6 ∧ o ≤ a then m ⟨a - o, h.1⟩ else b a

def macAt (b : Buffer) (o : Nat) : Mac := fun i => b (o + i)

/-- htype, ptype, hlen, plen and op -/
def arpHeader (op : Nat) : Buffer := fun a =>
  if a = 0 then 0x00 else if a = 1 then 0x01
  else if a = 2 then 0x08 else if a = 3 then 0x00
  else if a = 4 then 6 else if a = 5 then 4
  else if a = 6 then BitVec.ofNat 8 (op / 256) else if a = 7 then BitVec.ofNat 8 op
  else 0

def NetState.sendPacket (s : NetState) (op tip : Nat) (tha : Mac) : NetState :=
  let pkt := putMac (arpHeader op) 8 s.nic.hostMac
  let pkt := put32 pkt 14 (Net.htonl32 s.host.ip.toNat)
  let pkt := putMac pkt 18 tha
  let pkt := put32 pkt 24 (Net.htonl32 tip)
  s.ethSend ⟨BROADCAST, ETHERTYPE_ARP, pkt, 28⟩

/-- no request is in flight, or it is more than half a second old -/
def NetState.mayAsk (s : NetState) : Bool := !s.pending || 25#32 < s.tick - s.pendingSince

/-- `arp_lookup`: `none` is the return value -1 -/
def NetState.arpLookup (s : NetState) (ip : BitVec 32) : Option Mac × NetState :=
  match Net.arpLookup s.host ip with
  | some mac => (some mac, s)
  | none =>
    if s.mayAsk then
      (none, { s.sendPacket 1 ip.toNat (fun _ => 0) with
        pending := true, pendingIp := ip.toNat, pendingSince := s.tick })
    else (none, s)

/-- `ip_send` -/
def NetState.ipSend (s : NetState) (dst : BitVec 32) (proto : Byte) (payload : Buffer) (plen : Nat) :
    NetState :=
  if 1480 < plen then s
  else
    let (mac, s) := s.arpLookup (Net.ipNextHop s.host dst)
    match mac with
    | none => s
    | some _ =>
      match Fixes.ipSend s.host dst proto payload plen with
      | none => s
      | some e => { s with host := { s.host with pkt := e.payload } }.ethSend e

/-! ## ARP frames -/

/-- a known address gets the new MAC; a new one goes to a free slot, or to slot 0 -/
def learn (t : Fin Net.ARP_TABLE_MAX → ArpEntry) (ip : Nat) (mac : Mac) :
    Fin Net.ARP_TABLE_MAX → ArpEntry :=
  if ip = 0 then t
  else
    match (List.finRange Net.ARP_TABLE_MAX).find? fun i => decide ((t i).ip = ip) with
    | some i => Function.update t i ⟨(t i).ip, mac⟩
    | none =>
      let free := (List.finRange Net.ARP_TABLE_MAX).find? fun i => decide ((t i).ip = 0)
      let victim := free.getD ⟨0, Net.arpTable_pos⟩
      Function.update t victim ⟨ip, mac⟩

structure ArpPacket where
  op : Nat
  sip : Nat
  sha : Mac
  tip : Nat

/-- the packet that passes the checks of `arp_input` -/
def arpPacket (pkt : Buffer) (len : Nat) : Option ArpPacket :=
  if len < 28 then none
  else if pkt 0 ≠ 0x00 ∨ pkt 1 ≠ 0x01 then none
  else if pkt 2 ≠ 0x08 ∨ pkt 3 ≠ 0x00 then none
  else if pkt 4 ≠ 6 ∨ pkt 5 ≠ 4 then none
  else some ⟨(pkt 6).toNat * 256 + (pkt 7).toNat, Net.ntohl32 (get32 pkt 14), macAt pkt 8,
    Net.ntohl32 (get32 pkt 24)⟩

def NetState.learn (s : NetState) (p : ArpPacket) : NetState :=
  { s with host := { s.host with arpTable := Fixes.learn s.host.arpTable p.sip p.sha } }

/-- `arp_input` -/
def NetState.arpInput (s : NetState) (pkt : Buffer) (len : Nat) : NetState :=
  match arpPacket pkt len with
  | none => s
  | some p =>
    let s := s.learn p
    if p.op = 1 ∧ p.tip = s.host.ip.toNat then s.sendPacket 2 p.sip p.sha
    else if p.op = 2 ∧ p.sip = s.pendingIp then { s with pending := false }
    else s

/-! ## ICMP -/

/-- an echo request comes back as a reply, with a new checksum -/
def echoReply (pkt : Buffer) (n : Nat) : Buffer :=
  let reply := Function.update (Function.update (Function.update pkt 0 0) 2 0) 3 0
  let csum := checksumFinal reply n
  Function.update (Function.update reply 2 (BitVec.ofNat 8 (csum / 256))) 3 (BitVec.ofNat 8 csum)

/-- `icmp_input` -/
def NetState.icmpInput (s : NetState) (d : Dispatch) : NetState :=
  if d.len < 8 then s
  else if d.payload 0 = 8 ∧ d.payload 1 = 0 then
    let n := if 1480 < d.len then 1480 else d.len
    s.ipSend (BitVec.ofNat 32 d.src) Net.IP_PROTO_ICMP (echoReply d.payload n) n
  else if d.payload 0 = 0 ∧ d.payload 1 = 0 then
    if (d.payload 4).toNat * 256 + (d.payload 5).toNat = ICMP_ID then
      { s with
        pingReplySeq := (d.payload 6).toNat * 256 + (d.payload 7).toNat
        pingReplyFrom := d.src
        pingGotReply := true }
    else s
  else s

/-- `ip_input` -/
def NetState.ipInput (s : NetState) (pkt : Buffer) (len : Nat) : NetState :=
  match Fixes.ipInput s.host pkt len with
  | none => s
  | some d => s.icmpInput d

/-- the 16 bytes of an echo request, with the first bytes of "noxis-ping" -/
def echoRequest (seq : Nat) : Buffer :=
  let req : List Byte := [8, 0, 0, 0, BitVec.ofNat 8 (ICMP_ID / 256), BitVec.ofNat 8 ICMP_ID,
    BitVec.ofNat 8 (seq / 256), BitVec.ofNat 8 seq, 0x6E, 0x6F, 0x78, 0x69, 0x73, 0x2D, 0x70, 0x69]
  let csum := checksumFinal (fun i => req.getD i 0) 16
  Function.update (Function.update (fun i => req.getD i 0) 2 (BitVec.ofNat 8 (csum / 256))) 3
    (BitVec.ofNat 8 csum)

/-- `icmp_ping` -/
def NetState.icmpPing (s : NetState) (dst : BitVec 32) (seq : Nat) : NetState :=
  s.ipSend dst Net.IP_PROTO_ICMP (echoRequest seq) 16

/-! ## net_poll -/

def etherType (buf : Buffer) : Nat := (buf 12).toNat * 256 + (buf 13).toNat

/-- the payload of the frame in `buf` -/
def etherPayload (buf : Buffer) : Buffer := fun i => buf (14 + i)

/-- what `net_poll` does with a frame of `len` bytes -/
def NetState.dispatch (s : NetState) (len : Nat) : NetState :=
  if etherType s.buf = ETHERTYPE_ARP then s.arpInput (etherPayload s.buf) (len - 14)
  else if etherType s.buf = Net.ET_IPV4 then s.ipInput (etherPayload s.buf) (len - 14)
  else s

/-- `f` in front of what the buffer had -/
def taken (buf : Buffer) (f : List Byte) : Buffer := physCopy buf 0 (fun i => f.getD i 0) 0 f.length

/-- `ne2000_recv` of the frame `f`, with `fs` behind it -/
def NetState.recv (s : NetState) (f : List Byte) (fs : List (List Byte)) : NetState :=
  { s with nic := { s.nic with swRing := fs }, buf := taken s.buf f }

/-- the loop of `net_poll` over the ring; a frame under 14 bytes ends it -/
def NetState.pollLoop : List (List Byte) → NetState → NetState
  | [], s => s
  | f :: fs, s =>
    if f.length < 14 then s.recv f fs
    else pollLoop fs ((s.recv f fs).dispatch f.length)

def NetState.netPoll (s : NetState) : NetState := pollLoop s.nic.swRing s

/-! ## what no call changes, and who transmits -/

/-- the card stays, `sti` is not taken back, no tick passes, and the routes are the same -/
structure NetState.Keeps (s t : NetState) : Prop where
  present : t.nic.nicPresent = s.nic.nicPresent
  on : s.ifOn = true → t.ifOn = true
  tick : t.tick = s.tick
  hop : ∀ dst, Net.ipNextHop t.host dst = Net.ipNextHop s.host dst

section
variable {s t u : NetState} {f : List Byte} {fs : List (List Byte)}

theorem NetState.Keeps.refl (s : NetState) : s.Keeps s := ⟨rfl, id, rfl, fun _ => rfl⟩

theorem NetState.Keeps.trans (h : s.Keeps t) (h' : t.Keeps u) : s.Keeps u :=
  ⟨h'.present.trans h.present, fun hs => h'.on (h.on hs), h'.tick.trans h.tick,
    fun dst => (h'.hop dst).trans (h.hop dst)⟩

theorem ethSend_present (s : Nic) (e : EthSend) :
    (Net.ethSend .fixes s e.dst (BitVec.ofNat 16 e.ethertype) e.payload e.plen).1.nicPresent =
      s.nicPresent :=
  (Net.step_same .fixes s (.send e.dst (BitVec.ofNat 16 e.ethertype) e.payload e.plen)).2

theorem NetState.ethSend_keeps (s : NetState) (e : EthSend) : s.Keeps (s.ethSend e) := by
  refine ⟨ethSend_present s.nic e, ?_, rfl, fun _ => rfl⟩
  intro hs
  show (s.ifOn || _) = true
  rw [hs, Bool.true_or]

/-- a packet that is not too long reaches the `sti` -/
theorem NetState.ethSend_on (s : NetState) (e : EthSend) (hp : s.nic.nicPresent = true)
    (hlen : e.plen ≤ 1500) : (s.ethSend e).ifOn = true := by
  obtain ⟨sram, hs⟩ :=
    Net.ethSend_sent .fixes e.dst (BitVec.ofNat 16 e.ethertype) e.payload (by decide) hp hlen
  show (s.ifOn || _) = true
  rw [hs]
  exact Bool.or_true _

theorem NetState.sendPacket_keeps (s : NetState) (op tip : Nat) (tha : Mac) :
    s.Keeps (s.sendPacket op tip tha) := s.ethSend_keeps _

theorem NetState.sendPacket_on (op tip : Nat) (tha : Mac) (hp : s.nic.nicPresent = true) :
    (s.sendPacket op tip tha).ifOn = true :=
  s.ethSend_on _ hp (show 28 ≤ 1500 by omega)

theorem NetState.arpLookup_keeps (s : NetState) (ip : BitVec 32) : s.Keeps (s.arpLookup ip).2 := by
  unfold NetState.arpLookup
  split
  · exact .refl s
  · split
    · obtain ⟨hp, hon, ht, hh⟩ := s.sendPacket_keeps 1 ip.toNat fun _ => 0
      exact ⟨hp, hon, ht, hh⟩
    · exact .refl s

theorem NetState.ipSend_keeps (s : NetState) (dst : BitVec 32) (proto : Byte) (payload : Buffer)
    (plen : Nat) : s.Keeps (s.ipSend dst proto payload plen) := by
  have hl := s.arpLookup_keeps (Net.ipNextHop s.host dst)
  unfold NetState.ipSend
  split
  · exact .refl s
  · generalize s.arpLookup (Net.ipNextHop s.host dst) = r at hl
    obtain ⟨mac, s'⟩ := r
    cases mac with
    | none => exact hl
    | some m =>
      show s.Keeps (match Fixes.ipSend s'.host dst proto payload plen with
        | none => s'
        | some e => { s' with host := { s'.host with pkt := e.payload } }.ethSend e)
      cases Fixes.ipSend s'.host dst proto payload plen with
      | none => exact hl
      | some e =>
        have hpkt : s'.Keeps { s' with host := { s'.host with pkt := e.payload } } :=
          ⟨rfl, id, rfl, fun _ => rfl⟩
        exact hl.trans (hpkt.trans (NetState.ethSend_keeps _ e))

theorem NetState.arpInput_keeps (s : NetState) (pkt : Buffer) (len : Nat) :
    s.Keeps (s.arpInput pkt len) := by
  unfold NetState.arpInput
  cases arpPacket pkt len with
  | none => exact .refl s
  | some p =>
    have hl : s.Keeps (s.learn p) := ⟨rfl, id, rfl, fun _ => rfl⟩
    simp only
    split
    · exact hl.trans (NetState.sendPacket_keeps _ 2 p.sip p.sha)
    · split
      · exact hl.trans ⟨rfl, id, rfl, fun _ => rfl⟩
      · exact hl

theorem NetState.icmpInput_keeps (s : NetState) (d : Dispatch) : s.Keeps (s.icmpInput d) := by
  unfold NetState.icmpInput
  split
  · exact .refl s
  split
  · exact s.ipSend_keeps _ _ _ _
  split
  · split
    · exact ⟨rfl, id, rfl, fun _ => rfl⟩
    · exact .refl s
  · exact .refl s

theorem NetState.ipInput_keeps (s : NetState) (pkt : Buffer) (len : Nat) :
    s.Keeps (s.ipInput pkt len) := by
  unfold NetState.ipInput
  cases Fixes.ipInput s.host pkt len with
  | none => exact .refl s
  | some d => exact s.icmpInput_keeps d

theorem NetState.dispatch_keeps (s : NetState) (len : Nat) : s.Keeps (s.dispatch len) := by
  unfold NetState.dispatch
  split
  · exact s.arpInput_keeps _ _
  split
  · exact s.ipInput_keeps _ _
  · exact .refl s

theorem NetState.recv_keeps (s : NetState) (f : List Byte) (fs : List (List Byte)) :
    s.Keeps (s.recv f fs) := ⟨rfl, id, rfl, fun _ => rfl⟩

theorem NetState.pollLoop_keeps (fs : List (List Byte)) (s : NetState) :
    s.Keeps (NetState.pollLoop fs s) := by
  induction fs generalizing s with
  | nil => exact .refl s
  | cons f fs ih =>
    unfold NetState.pollLoop
    split
    · exact s.recv_keeps f fs
    · exact (s.recv_keeps f fs).trans ((NetState.dispatch_keeps _ _).trans (ih _))

theorem NetState.netPoll_keeps (s : NetState) : s.Keeps s.netPoll := NetState.pollLoop_keeps _ s

/-! ## the cache, and the requests -/

/-- the lookup of `ip` finds it, or asks for it -/
def NetState.Reaches (s : NetState) (ip : BitVec 32) : Prop :=
  (Net.arpLookup s.host ip).isSome = true ∨ s.mayAsk = true

theorem NetState.arpLookup_some {mac : Mac} {ip : BitVec 32} (h : Net.arpLookup s.host ip = some mac) :
    s.arpLookup ip = (some mac, s) := by
  unfold NetState.arpLookup
  rw [h]

theorem NetState.arpLookup_asks {ip : BitVec 32} (hp : s.nic.nicPresent = true)
    (h : Net.arpLookup s.host ip = none) (ha : s.mayAsk = true) :
    (s.arpLookup ip).1 = none ∧ (s.arpLookup ip).2.ifOn = true := by
  unfold NetState.arpLookup
  rw [h]
  simp only [ha, if_true, true_and]
  exact NetState.sendPacket_on 1 ip.toNat _ hp

theorem NetState.arpLookup_waits {ip : BitVec 32} (h : ¬ s.Reaches ip) :
    s.arpLookup ip = (none, s) := by
  obtain ⟨hc, ha⟩ := not_or.mp h
  have hn : Net.arpLookup s.host ip = none := by simpa using hc
  unfold NetState.arpLookup
  rw [hn]
  exact if_neg ha

/-- a cached address lets the packet out -/
theorem NetState.ipSend_on {dst : BitVec 32} (proto : Byte) (payload : Buffer) {plen : Nat}
    (hp : s.nic.nicPresent = true) (hlen : plen ≤ 1480)
    (hr : s.Reaches (Net.ipNextHop s.host dst)) : (s.ipSend dst proto payload plen).ifOn = true := by
  unfold NetState.ipSend
  rw [if_neg (by omega)]
  cases h : Net.arpLookup s.host (Net.ipNextHop s.host dst) with
  | some mac =>
    rw [NetState.arpLookup_some h]
    have hs : Fixes.ipSend s.host dst proto payload plen = some ⟨mac, Net.ET_IPV4,
        Net.putChecksum (Net.ipHeader s.host dst proto payload plen)
          (checksumFinal (Net.ipHeader s.host dst proto payload plen) 20), 20 + plen⟩ := by
      unfold Fixes.ipSend
      rw [if_neg (by omega), h]
    simp only [hs]
    refine NetState.ethSend_on _ _ hp ?_
    show 20 + plen ≤ 1500
    omega
  | none =>
    have ha : s.mayAsk = true := hr.resolve_left (by rw [h]; exact Bool.false_ne_true)
    obtain ⟨h1, h2⟩ := NetState.arpLookup_asks hp h ha
    generalize s.arpLookup (Net.ipNextHop s.host dst) = r at h1 h2
    obtain ⟨mac, s'⟩ := r
    cases h1
    exact h2

/-- and one that is neither cached nor asked for keeps it back -/
theorem NetState.ipSend_waits {dst : BitVec 32} (proto : Byte) (payload : Buffer) (plen : Nat)
    (hr : ¬ s.Reaches (Net.ipNextHop s.host dst)) : s.ipSend dst proto payload plen = s := by
  unfold NetState.ipSend
  split
  · rfl
  · rw [NetState.arpLookup_waits hr]

/-! ## what the frames say -/

/-- what a frame in `buf` comes to -/
inductive Said where
  | arp (p : ArpPacket)
  /-- an echo request from `src` -/
  | echo (src : Nat)
  | nothing

def said (h : Host) (buf : Buffer) (len : Nat) : Said :=
  if etherType buf = ETHERTYPE_ARP then
    match arpPacket (etherPayload buf) (len - 14) with
    | some p => .arp p
    | none => .nothing
  else if etherType buf = Net.ET_IPV4 then
    match Fixes.ipInput h (etherPayload buf) (len - 14) with
    | some d => if ¬ d.len < 8 ∧ d.payload 0 = 8 ∧ d.payload 1 = 0 then .echo d.src else .nothing
    | none => .nothing
  else .nothing

/-- what a listener knows: the cache, the request in flight, and the buffer -/
structure Ear where
  host : Host
  pending : Bool
  pendingIp : Nat
  /-- the request is more than half a second old -/
  late : Bool
  buf : Buffer

def NetState.ear (s : NetState) : Ear :=
  ⟨s.host, s.pending, s.pendingIp, 25#32 < s.tick - s.pendingSince, s.buf⟩

def Ear.Reaches (e : Ear) (ip : BitVec 32) : Prop :=
  (Net.arpLookup e.host ip).isSome = true ∨ (!e.pending || e.late) = true

def Ear.take (e : Ear) (f : List Byte) : Ear := { e with buf := taken e.buf f }

/-- an ARP packet that is not answered: a binding, and perhaps the reply that was waited for -/
def Ear.hear (e : Ear) (p : ArpPacket) : Ear :=
  { e with
    host := { e.host with arpTable := learn e.host.arpTable p.sip p.sha }
    pending := if p.op = 2 ∧ p.sip = e.pendingIp then false else e.pending }

/-- one of the frames, as far as `net_poll` reads them, is an ARP request for our address or an echo
request whose sender is reached; or else `hop` is reached after them -/
def Speaks (hop : BitVec 32) : Ear → List (List Byte) → Prop
  | e, [] => e.Reaches hop
  | e, f :: fs =>
    if f.length < 14 then e.Reaches hop
    else
      match said e.host (taken e.buf f) f.length with
      | .arp p => (p.op = 1 ∧ p.tip = e.host.ip.toNat) ∨ Speaks hop ((e.take f).hear p) fs
      | .echo src => e.Reaches (Net.ipNextHop e.host (BitVec.ofNat 32 src)) ∨ Speaks hop (e.take f) fs
      | .nothing => Speaks hop (e.take f) fs

/-! ## the poll -/

theorem NetState.dispatch_arp {len : Nat} {p : ArpPacket} (h : said s.host s.buf len = .arp p) :
    s.dispatch len =
      if p.op = 1 ∧ p.tip = s.host.ip.toNat then (s.learn p).sendPacket 2 p.sip p.sha
      else if p.op = 2 ∧ p.sip = s.pendingIp then { s.learn p with pending := false }
      else s.learn p := by
  unfold said at h
  unfold NetState.dispatch
  split at h
  · rename_i ht
    rw [if_pos ht]
    unfold NetState.arpInput
    cases hq : arpPacket (etherPayload s.buf) (len - 14) with
    | none =>
      rw [hq] at h
      cases h
    | some q =>
      rw [hq] at h
      cases h
      rfl
  · split at h
    · split at h
      · split at h <;> cases h
      · cases h
    · cases h

theorem NetState.dispatch_echo {len src : Nat} (h : said s.host s.buf len = .echo src) :
    ∃ payload n, n ≤ 1480 ∧
      s.dispatch len = s.ipSend (BitVec.ofNat 32 src) Net.IP_PROTO_ICMP payload n := by
  unfold said at h
  unfold NetState.dispatch
  split at h
  · split at h <;> cases h
  rename_i ht
  split at h
  · rename_i ht4
    rw [if_neg ht, if_pos ht4]
    unfold NetState.ipInput
    cases hd : Fixes.ipInput s.host (etherPayload s.buf) (len - 14) with
    | none =>
      rw [hd] at h
      cases h
    | some d =>
      rw [hd] at h
      simp only at h
      split at h
      · rename_i hreq
        cases h
        refine ⟨echoReply d.payload (if 1480 < d.len then 1480 else d.len),
          if 1480 < d.len then 1480 else d.len, by split <;> omega, ?_⟩
        unfold NetState.icmpInput
        simp only
        rw [if_neg hreq.1, if_pos hreq.2]
      · cases h
  · cases h

theorem NetState.dispatch_nothing {len : Nat} (h : said s.host s.buf len = .nothing) :
    (s.dispatch len).ear = s.ear ∧ (s.dispatch len).ifOn = s.ifOn := by
  unfold said at h
  unfold NetState.dispatch
  split at h
  · rename_i ht
    rw [if_pos ht]
    unfold NetState.arpInput
    cases hq : arpPacket (etherPayload s.buf) (len - 14) with
    | none => exact ⟨rfl, rfl⟩
    | some q =>
      rw [hq] at h
      cases h
  rename_i ht
  rw [if_neg ht]
  split at h
  · rename_i ht4
    rw [if_pos ht4]
    unfold NetState.ipInput
    cases hd : Fixes.ipInput s.host (etherPayload s.buf) (len - 14) with
    | none => exact ⟨rfl, rfl⟩
    | some d =>
      rw [hd] at h
      simp only at h
      split at h
      · cases h
      · rename_i hreq
        show (s.icmpInput d).ear = s.ear ∧ (s.icmpInput d).ifOn = s.ifOn
        unfold NetState.icmpInput
        split
        · exact ⟨rfl, rfl⟩
        rename_i hlen
        rw [if_neg fun hc => hreq ⟨hlen, hc⟩]
        split
        · split
          · exact ⟨rfl, rfl⟩
          · exact ⟨rfl, rfl⟩
        · exact ⟨rfl, rfl⟩
  · rename_i ht4
    rw [if_neg ht4]
    exact ⟨rfl, rfl⟩

/-- a packet that is not answered is only heard -/
theorem NetState.hear_eq (s : NetState) (p : ArpPacket)  :
    (if p.op = 2 ∧ p.sip = s.pendingIp then { s.learn p with pending := false }
      else s.learn p).ear = s.ear.hear p ∧
    (if p.op = 2 ∧ p.sip = s.pendingIp then { s.learn p with pending := false }
      else s.learn p).ifOn = s.ifOn := by
  unfold Ear.hear
  by_cases h : p.op = 2 ∧ p.sip = s.pendingIp
  · have h' : p.op = 2 ∧ p.sip = s.ear.pendingIp := h
    rw [if_pos h, if_pos h']
    exact ⟨rfl, rfl⟩
  · have h' : ¬ (p.op = 2 ∧ p.sip = s.ear.pendingIp) := h
    rw [if_neg h, if_neg h']
    exact ⟨rfl, rfl⟩

/-- **with the interrupts off, the poll turns them on or leaves `hop` reachable exactly when the
frames speak** -/
theorem NetState.speaks_iff (hop : BitVec 32) (hp : s.nic.nicPresent = true)
    (hoff : s.ifOn = false) :
    Speaks hop s.ear fs ↔
      (NetState.pollLoop fs s).ifOn = true ∨ (NetState.pollLoop fs s).Reaches hop := by
  induction fs generalizing s with
  | nil =>
    show s.Reaches hop ↔ s.ifOn = true ∨ s.Reaches hop
    rw [hoff]
    exact ⟨Or.inr, fun h => h.resolve_left Bool.false_ne_true⟩
  | cons f fs ih =>
    unfold Speaks NetState.pollLoop
    by_cases hlen : f.length < 14
    · rw [if_pos hlen, if_pos hlen]
      show s.Reaches hop ↔ s.ifOn = true ∨ s.Reaches hop
      rw [hoff]
      exact ⟨Or.inr, fun h => h.resolve_left Bool.false_ne_true⟩
    rw [if_neg hlen, if_neg hlen]
    have hkeep := NetState.dispatch_keeps (s.recv f fs) f.length
    have hp' : ((s.recv f fs).dispatch f.length).nic.nicPresent = true := hkeep.present.trans hp
    -- once a frame is answered the interrupts stay on
    have hon : ((s.recv f fs).dispatch f.length).ifOn = true →
        (NetState.pollLoop fs ((s.recv f fs).dispatch f.length)).ifOn = true :=
      (NetState.pollLoop_keeps fs _).on
    show (match said (s.recv f fs).host (s.recv f fs).buf f.length with
      | .arp p => (p.op = 1 ∧ p.tip = s.host.ip.toNat) ∨ Speaks hop ((s.ear.take f).hear p) fs
      | .echo src => (s.recv f fs).Reaches (Net.ipNextHop s.host (BitVec.ofNat 32 src)) ∨
          Speaks hop (s.ear.take f) fs
      | .nothing => Speaks hop (s.ear.take f) fs) ↔ _
    cases hsaid : said (s.recv f fs).host (s.recv f fs).buf f.length with
    | arp p =>
      have hd := NetState.dispatch_arp hsaid
      by_cases hask : p.op = 1 ∧ p.tip = s.host.ip.toNat
      · have hsend : ((s.recv f fs).dispatch f.length).ifOn = true := by
          rw [hd]
          rw [if_pos (show p.op = 1 ∧ p.tip = (s.recv f fs).host.ip.toNat from hask)]
          exact NetState.sendPacket_on 2 p.sip p.sha hp
        exact ⟨fun _ => .inl (hon hsend), fun _ => .inl hask⟩
      · rw [if_neg (show ¬ (p.op = 1 ∧ p.tip = (s.recv f fs).host.ip.toNat) from hask)] at hd
        obtain ⟨hear, hoff'⟩ := (s.recv f fs).hear_eq p
        rw [← hd] at hear hoff'
        rw [← ih hp' (hoff'.trans hoff), hear]
        exact ⟨fun h => h.resolve_left hask, Or.inr⟩
    | echo src =>
      obtain ⟨payload, n, hn, hd⟩ := NetState.dispatch_echo hsaid
      by_cases hr : (s.recv f fs).Reaches (Net.ipNextHop s.host (BitVec.ofNat 32 src))
      · have hsend : ((s.recv f fs).dispatch f.length).ifOn = true := by
          rw [hd]
          exact NetState.ipSend_on _ _ hp hn hr
        exact ⟨fun _ => .inl (hon hsend), fun _ => .inl hr⟩
      · rw [hd, NetState.ipSend_waits _ _ _ hr, ← ih (s := s.recv f fs) hp hoff]
        exact ⟨fun h => h.resolve_left hr, Or.inr⟩
    | nothing =>
      obtain ⟨hear, hoff'⟩ := NetState.dispatch_nothing hsaid
      rw [← ih hp' (hoff'.trans hoff), hear]
      exact Iff.rfl

end

end Noxis.Fixes
