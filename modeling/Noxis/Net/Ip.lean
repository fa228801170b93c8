import Noxis.Lib.OnesComplement

/-!
# 25-osfs11/net/ip.c: sending and receiving IPv4

* `checksum`    as the code folds and complements it;
* `ipSend`      the packet that goes to `eth_send`;
* `ipInput`     what reaches `icmp_input` or `udp_input`.

`checksum` complements its sum, and `ip_input` compares it with 0xFFFF, which is what the sum WITHOUT
the complement is.  So `ip_input` drops every packet (`ipInput_drops`); compared with 0 it would hand
on what `ip_send` has built (`delivered_zero`).
-/

namespace Noxis.Net

def ET_IPV4 : Nat := 0x0800
def IP_PROTO_ICMP : Byte := 1
def IP_PROTO_UDP : Byte := 17
def ARP_TABLE_MAX : Nat := 8

theorem arpTable_pos : 0 < ARP_TABLE_MAX := by decide

abbrev Mac := Fin 6 → Byte

structure ArpEntry where
  ip : Nat
  mac : Mac

/-- a build of the kernel (NET_IP, NET_MASK and NET_GW) with its ARP cache; addresses are `u32`s in
host order -/
structure Host where
  ip : BitVec 32
  mask : BitVec 32
  gw : BitVec 32
  arpTable : Fin ARP_TABLE_MAX → ArpEntry
  /-- what the static buffer of `ip_send` has in it -/
  pkt : Buffer

/-- the arguments of `eth_send` -/
structure EthSend where
  dst : Mac
  ethertype : Nat
  payload : Buffer
  plen : Nat

/-- the call of `icmp_input` or `udp_input`; the latter does not use `src` -/
structure Dispatch where
  proto : Byte
  payload : Buffer
  len : Nat
  src : Nat

/-! ## the code -/

/-- `while (len > 1) … if (len == 1) …` -/
def checksumLoop (data : Buffer) : Nat → Nat → Nat → Nat
  | _, 0, sum => sum
  | o, 1, sum => (sum + (data o).toNat * 256) % 2 ^ 32
  | o, n + 2, sum =>
    checksumLoop data (o + 2) n ((sum + ((data o).toNat * 256 + (data (o + 1)).toNat)) % 2 ^ 32)

/-- the complement of the folded sum, as a `u16` -/
def checksum (data : Buffer) (len : Nat) : Nat := 65535 - fold (checksumLoop data 0 len 0)

def htonl32 (v : Nat) : Nat :=
  v % 256 * 2 ^ 24 + v / 2 ^ 8 % 256 * 2 ^ 16 + v / 2 ^ 16 % 256 * 2 ^ 8 + v / 2 ^ 24 % 256

def ntohl32 (v : Nat) : Nat := htonl32 v

/-- off-subnet destinations go through the gateway -/
def ipNextHop (h : Host) (dst : BitVec 32) : BitVec 32 :=
  if (dst ^^^ h.ip) &&& h.mask ≠ 0 then h.gw else dst

/-- `none` is a miss: a request goes out -/
def arpLookup (h : Host) (ip : BitVec 32) : Option Mac :=
  ((List.finRange ARP_TABLE_MAX).find? fun i =>
    decide ((h.arpTable i).ip = ip.toNat) && decide ((h.arpTable i).ip ≠ 0)).map fun i =>
      (h.arpTable i).mac

/-- the first twelve bytes of the header, the checksum still 0 -/
def headerBytes (pkt : Buffer) (proto : Byte) (plen : Nat) : Buffer := fun a =>
  if a = 0 then 0x45 else if a = 1 then 0x00
  else if a = 2 then BitVec.ofNat 8 ((20 + plen) / 256)
  else if a = 3 then BitVec.ofNat 8 (20 + plen)
  else if a = 4 then 0x00 else if a = 5 then 0x00
  else if a = 6 then 0x00 else if a = 7 then 0x00
  else if a = 8 then 64 else if a = 9 then proto
  else if a = 10 then 0x00 else if a = 11 then 0x00
  else pkt a

/-- the packet before the checksum is filled in -/
def ipHeader (h : Host) (dst : BitVec 32) (proto : Byte) (payload : Buffer) (plen : Nat) : Buffer :=
  let pkt := headerBytes h.pkt proto plen
  let pkt := put32 pkt 12 (htonl32 h.ip.toNat)
  let pkt := put32 pkt 16 (htonl32 dst.toNat)
  physCopy pkt 20 payload 0 plen

/-- `pkt[10] = v >> 8; pkt[11] = v & 0xFF` -/
def putChecksum (pkt : Buffer) (v : Nat) : Buffer :=
  Function.update (Function.update pkt 10 (BitVec.ofNat 8 (v / 256))) 11 (BitVec.ofNat 8 v)

/-- the arguments that `ip_send` hands to `eth_send`; `none` is the return value -1 -/
def ipSend (h : Host) (dst : BitVec 32) (proto : Byte) (payload : Buffer) (plen : Nat) :
    Option EthSend :=
  if 1480 < plen then none
  else
    (arpLookup h (ipNextHop h dst)).map fun dmac =>
      let pkt := ipHeader h dst proto payload plen
      ⟨dmac, ET_IPV4, putChecksum pkt (checksum pkt 20), 20 + plen⟩

/-- `ip_input`, with the value that it compares the checksum with -/
def ipInputWith (want : Nat) (h : Host) (pkt : Buffer) (len : Nat) : Option Dispatch :=
  if len < 20 then none
  else if (pkt 0).toNat / 16 ≠ 4 then none
  else
    let ihl := (pkt 0).toNat % 16 * 4
    if ihl < 20 ∨ len < ihl then none
    else
      let total := (pkt 2).toNat * 256 + (pkt 3).toNat
      if total < 20 ∨ len < total then none
      else if checksum pkt ihl ≠ want then none
      else
        let src := ntohl32 (get32 pkt 12)
        let dst := ntohl32 (get32 pkt 16)
        if dst ≠ h.ip.toNat then none
        else if pkt 9 = IP_PROTO_ICMP ∨ pkt 9 = IP_PROTO_UDP then
          some ⟨pkt 9, fun i => pkt (ihl + i), (total + 2 ^ 16 - ihl) % 2 ^ 16, src⟩
        else none

def ipInput : Host → Buffer → Nat → Option Dispatch := ipInputWith 0xFFFF

/-! ## the checksum -/

section
variable {data pkt payload : Buffer} {o n sum v len plen : Nat} {h h' : Host} {dst : BitVec 32}
  {proto : Byte}

/-- no carry is lost in 2^16 words -/
theorem checksumLoop_eq (hn : n < 2 ^ 16) (hs : sum + 65535 * ((n + 1) / 2) < 2 ^ 32) :
    checksumLoop data o n sum = sum + wordSum data o n := by
  fun_induction checksumLoop data o n sum with
  | case1 o sum => rfl
  | case2 o sum =>
    have h0 := (data o).isLt
    unfold wordSum
    omega
  | case3 o n sum ih =>
    have h0 := (data o).isLt
    have h1 := (data (o + 1)).isLt
    rw [ih (by omega) (by omega)]
    simp only [wordSum]
    omega

theorem checksum_eq (hn : n < 2 ^ 16) : checksum data n = 65535 - fold (wordSum data 0 n) := by
  unfold checksum
  rw [checksumLoop_eq hn (by omega), Nat.zero_add]

/-- only zeros have the checksum 0xFFFF -/
theorem checksum_ne (hn : n < 2 ^ 16) (hs : wordSum data 0 n ≠ 0) : checksum data n ≠ 0xFFFF := by
  have hne : fold (wordSum data 0 n) ≠ 0 := fun h0 => hs (fold_eq_zero.mp h0)
  have hlt := fold_lt (wordSum data 0 n)
  rw [checksum_eq hn]
  omega

theorem putChecksum_other (h10 : o ≠ 10) (h11 : o ≠ 11) : putChecksum pkt v o = pkt o := by
  unfold putChecksum
  rw [Function.update_of_ne h11, Function.update_of_ne h10]

/-- the checksum field is one more word of the header -/
theorem wordSum_putChecksum (h10 : pkt 10 = 0) (h11 : pkt 11 = 0) (hv : v < 65536) :
    wordSum (putChecksum pkt v) 0 20 = wordSum pkt 0 20 + v := by
  have hhead : wordSum (putChecksum pkt v) 12 8 = wordSum pkt 12 8 := by
    apply wordSum_congr
    intro i hi
    exact putChecksum_other (by omega) (by omega)
  have hword : (putChecksum pkt v 10).toNat * 256 + (putChecksum pkt v 11).toNat = v := by
    unfold putChecksum
    rw [Function.update_self, Function.update_of_ne (by decide), Function.update_self,
      BitVec.toNat_ofNat, BitVec.toNat_ofNat]
    omega
  have hlow : wordSum (putChecksum pkt v) 0 10 = wordSum pkt 0 10 := by
    apply wordSum_congr
    intro i hi
    exact putChecksum_other (by omega) (by omega)
  have hsplit : ∀ b : Buffer, wordSum b 0 20 =
      wordSum b 0 10 + ((b 10).toNat * 256 + (b 11).toNat) + wordSum b 12 8 := by
    intro b
    rw [show 20 = 2 * 5 + 10 from rfl, wordSum_append, Nat.add_assoc]
    rfl
  have hzero : (pkt 10).toNat * 256 + (pkt 11).toNat = 0 := by
    rw [h10, h11]
    rfl
  rw [hsplit, hsplit, hlow, hhead, hword, hzero]
  omega

/-- **The header that is sent sums up to all ones.** -/
theorem checksum_sent (h10 : pkt 10 = 0) (h11 : pkt 11 = 0) :
    checksum (putChecksum pkt (checksum pkt 20)) 20 = 0 := by
  have hlt := fold_lt (wordSum pkt 0 20)
  rw [checksum_eq (by omega), checksum_eq (by omega), wordSum_putChecksum h10 h11 (by omega),
    fold_complement]

/-- **`ip_input` drops every packet.** -/
theorem ipInput_drops (h : Host) (pkt : Buffer) (len : Nat) : ipInput h pkt len = none := by
  unfold ipInput ipInputWith
  by_cases hlen : len < 20
  · rw [if_pos hlen]
  rw [if_neg hlen]
  by_cases hver : (pkt 0).toNat / 16 ≠ 4
  · rw [if_pos hver]
  rw [if_neg hver]
  simp only
  by_cases hihl : (pkt 0).toNat % 16 * 4 < 20 ∨ len < (pkt 0).toNat % 16 * 4
  · rw [if_pos hihl]
  rw [if_neg hihl]
  by_cases htotal : (pkt 2).toNat * 256 + (pkt 3).toNat < 20 ∨ len < (pkt 2).toNat * 256 + (pkt 3).toNat
  · rw [if_pos htotal]
  rw [if_neg htotal]
  -- the version is in the sum, so the sum is not zero
  have hsum : wordSum pkt 0 ((pkt 0).toNat % 16 * 4) ≠ 0 := by
    obtain ⟨n, hn⟩ : ∃ n, (pkt 0).toNat % 16 * 4 = n + 2 := ⟨(pkt 0).toNat % 16 * 4 - 2, by omega⟩
    rw [hn]
    unfold wordSum
    omega
  rw [if_pos (checksum_ne (by omega) hsum)]

/-! ## what the receiver reads of a packet that was sent -/

/-- the four bytes change places -/
theorem htonl32_bytes {a b c d : Nat} (ha : a < 256) (hb : b < 256) (hc : c < 256) (hd : d < 256) :
    htonl32 (a + b * 2 ^ 8 + c * 2 ^ 16 + d * 2 ^ 24) =
      d + c * 2 ^ 8 + b * 2 ^ 16 + a * 2 ^ 24 := by
  have h0 : (a + b * 2 ^ 8 + c * 2 ^ 16 + d * 2 ^ 24) % 256 = a := by omega
  have h1 : (a + b * 2 ^ 8 + c * 2 ^ 16 + d * 2 ^ 24) / 2 ^ 8 % 256 = b := by omega
  have h2 : (a + b * 2 ^ 8 + c * 2 ^ 16 + d * 2 ^ 24) / 2 ^ 16 % 256 = c := by omega
  have h3 : (a + b * 2 ^ 8 + c * 2 ^ 16 + d * 2 ^ 24) / 2 ^ 24 % 256 = d := by omega
  unfold htonl32
  rw [h0, h1, h2, h3]
  omega

theorem ntohl32_htonl32 (hv : v < 2 ^ 32) : ntohl32 (htonl32 v) = v := by
  have hbytes : v = v % 256 + v / 2 ^ 8 % 256 * 2 ^ 8 + v / 2 ^ 16 % 256 * 2 ^ 16 +
      v / 2 ^ 24 % 256 * 2 ^ 24 := by omega
  unfold ntohl32
  rw [hbytes, htonl32_bytes (by omega) (by omega) (by omega) (by omega),
    htonl32_bytes (by omega) (by omega) (by omega) (by omega)]

theorem htonl32_lt (v : Nat) : htonl32 v < 2 ^ 32 := by
  unfold htonl32
  omega

theorem ipHeader_lt (ho : o < 12) :
    ipHeader h dst proto payload plen o = headerBytes h.pkt proto plen o := by
  unfold ipHeader
  rw [physCopy_not_mem (by omega), put32_not_mem (by omega), put32_not_mem (by omega)]

/-- the packet that `ip_send` hands on -/
def sent (h : Host) (dst : BitVec 32) (proto : Byte) (payload : Buffer) (plen : Nat) : Buffer :=
  putChecksum (ipHeader h dst proto payload plen) (checksum (ipHeader h dst proto payload plen) 20)

theorem sent_lt (ho : o < 10) :
    sent h dst proto payload plen o = headerBytes h.pkt proto plen o := by
  unfold sent
  rw [putChecksum_other (by omega) (by omega), ipHeader_lt (by omega)]

theorem sent_src : ntohl32 (get32 (sent h dst proto payload plen) 12) = h.ip.toNat := by
  have hget : get32 (sent h dst proto payload plen) 12 = htonl32 h.ip.toNat := by
    rw [← get32_put32_of_lt (b := headerBytes h.pkt proto plen) (o := 12) (htonl32_lt h.ip.toNat)]
    apply get32_congr
    intro i hi
    unfold sent ipHeader
    rw [putChecksum_other (by omega) (by omega), physCopy_not_mem (by omega),
      put32_not_mem (by omega)]
  rw [hget, ntohl32_htonl32 h.ip.isLt]

theorem sent_dst : ntohl32 (get32 (sent h dst proto payload plen) 16) = dst.toNat := by
  have hget : get32 (sent h dst proto payload plen) 16 = htonl32 dst.toNat := by
    rw [← get32_put32_of_lt (b := put32 (headerBytes h.pkt proto plen) 12 (htonl32 h.ip.toNat))
      (o := 16) (htonl32_lt dst.toNat)]
    apply get32_congr
    intro i hi
    unfold sent ipHeader
    rw [putChecksum_other (by omega) (by omega), physCopy_not_mem (by omega)]
  rw [hget, ntohl32_htonl32 dst.isLt]

theorem sent_payload (ho : o < plen) : sent h dst proto payload plen (20 + o) = payload o := by
  unfold sent ipHeader
  rw [putChecksum_other (by omega) (by omega), physCopy_mem ho, Nat.zero_add]

theorem checksum_sent_zero : checksum (sent h dst proto payload plen) 20 = 0 := by
  apply checksum_sent
  · exact ipHeader_lt (by decide)
  · exact ipHeader_lt (by decide)

/-- with the ARP entry resolved, `ip_send` sends -/
theorem ipSend_some {mac : Mac} (hlen : plen ≤ 1480)
    (harp : arpLookup h (ipNextHop h dst) = some mac) :
    ipSend h dst proto payload plen =
      some ⟨mac, ET_IPV4, sent h dst proto payload plen, 20 + plen⟩ := by
  unfold ipSend
  rw [if_neg (by omega), harp]
  rfl

/-! ## send and receive -/

/-- **The property.**  `ip_send` sends a packet for `h'`, and the input of `h'` hands its protocol,
source and payload on. -/
def Delivered (input : Host → Buffer → Nat → Option Dispatch) (h h' : Host) (proto : Byte)
    (payload : Buffer) (plen : Nat) : Prop :=
  ∃ e, ipSend h h'.ip proto payload plen = some e ∧
    ∃ d, input h' e.payload e.plen = some d ∧
      d.proto = proto ∧ d.src = h.ip.toNat ∧ d.len = plen ∧ ∀ i < plen, d.payload i = payload i

/-- the protocols that the receiver dispatches -/
def Dispatched (proto : Byte) : Prop := proto = IP_PROTO_ICMP ∨ proto = IP_PROTO_UDP

/-- compared with 0, which a full sum gives, the checksum lets through what was sent -/
theorem delivered_zero {mac : Mac} (hp : Dispatched proto) (hlen : plen ≤ 1480)
    (harp : arpLookup h (ipNextHop h h'.ip) = some mac) :
    Delivered (ipInputWith 0) h h' proto payload plen := by
  have hver : sent h h'.ip proto payload plen 0 = 0x45 := sent_lt (by decide)
  have hhi : sent h h'.ip proto payload plen 2 = BitVec.ofNat 8 ((20 + plen) / 256) :=
    sent_lt (by decide)
  have hlo : sent h h'.ip proto payload plen 3 = BitVec.ofNat 8 (20 + plen) := sent_lt (by decide)
  have hproto : sent h h'.ip proto payload plen 9 = proto := sent_lt (by decide)
  have htotal : (sent h h'.ip proto payload plen 2).toNat * 256 +
      (sent h h'.ip proto payload plen 3).toNat = 20 + plen := by
    rw [hhi, hlo, BitVec.toNat_ofNat, BitVec.toNat_ofNat]
    omega
  have hlen16 : (20 + plen + 2 ^ 16 - 20) % 2 ^ 16 = plen := by omega
  refine ⟨_, ipSend_some hlen harp, ?_⟩
  refine ⟨⟨proto, fun i => sent h h'.ip proto payload plen (20 + i), plen, h.ip.toNat⟩, ?_, rfl, rfl,
    rfl, fun i hi => sent_payload hi⟩
  have hdisp : sent h h'.ip proto payload plen 9 = IP_PROTO_ICMP ∨
      sent h h'.ip proto payload plen 9 = IP_PROTO_UDP := by
    rw [hproto]
    exact hp
  unfold ipInputWith
  simp only
  rw [if_neg (by omega), hver, if_neg (by decide), show (0x45 : Byte).toNat % 16 * 4 = 20 from rfl,
    if_neg (by omega), htotal, if_neg (by omega), if_neg (not_not.mpr checksum_sent_zero),
    sent_dst, if_neg (not_not.mpr rfl), if_pos hdisp, sent_src, hproto, hlen16]

end

/-- **No packet is delivered**, whatever its hosts, protocol and payload. -/
theorem delivered_never (h h' : Host) (proto : Byte) (payload : Buffer) (plen : Nat) :
    ¬ Delivered ipInput h h' proto payload plen := by
  rintro ⟨e, -, d, hd, -⟩
  rw [ipInput_drops] at hd
  cases hd

/-! ## two hosts that know each other -/

def someMac : Mac := fun _ => 0x52

/-- 10.0.2.15, which has the entry of 10.0.2.16 -/
def hostA : Host :=
  { ip := 0x0A00020F, mask := 0xFFFFFF00, gw := 0x0A000202
    arpTable := fun _ => ⟨0x0A000210, someMac⟩, pkt := fun _ => 0 }

/-- 10.0.2.16 -/
def hostB : Host := { hostA with ip := 0x0A000210 }

/-- an ICMP packet without payload is sent and dropped -/
theorem delivered_fails : ¬ ∀ (h h' : Host) (proto : Byte) (payload : Buffer) (plen : Nat),
    Dispatched proto → plen ≤ 1480 → (arpLookup h (ipNextHop h h'.ip)).isSome →
      Delivered ipInput h h' proto payload plen := by
  intro hall
  obtain ⟨e, -, d, hd, -⟩ := hall hostA hostB IP_PROTO_ICMP (fun _ => 0) 0 (.inl rfl) (by decide)
    (by decide)
  rw [ipInput_drops] at hd
  cases hd

end Noxis.Net
