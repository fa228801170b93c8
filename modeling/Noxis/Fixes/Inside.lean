import Noxis.Lib.Traced
import Noxis.Fixes.Poll

/-!
# 23-fixes/net/ip.c: the bytes that are read

`ip_input` and `icmp_input` once more, with a trace of the bytes of the packet that they read and of
the lengths that they subtract.

* `ipInput`, `icmpInput`    the two functions;
* `input_perform`           they do what the model without the trace does;
* `Overlong`                a header that is longer than the packet passes the checks of the lengths;
* `inside_iff`              otherwise everything is read inside the packet;
* `input_inside`            and an echo reply has the payload of the request, cut to what fits.
-/

namespace Noxis.Fixes.Inside

open Net (Host EthSend)
open Traced

/-- a byte is read, or `b` is subtracted from `a` -/
inductive Access where
  | read (o : Nat)
  | minus (a b : Nat)
  deriving DecidableEq

/-- a computation that may return early -/
abbrev Reader := Traced Access Unit

/-! ## the code -/

/-- `if (c) return` -/
def stop (c : Prop) [Decidable c] : Reader Unit := lift (if c then .error () else .ok ())

def byte (pkt : Buffer) (o : Nat) : Reader Byte := touch (.read o) >>= fun _ => pure (pkt o)

/-- `(uint16_t)(a - b)` -/
def minus (a b : Nat) : Reader Nat := touch (.minus a b) >>= fun _ => pure ((a + 2 ^ 16 - b) % 2 ^ 16)

/-- `memory_copy` of `n` bytes from the packet -/
def copy : Nat → Nat → Reader Unit
  | _, 0 => pure ()
  | o, n + 1 => touch (.read o) >>= fun _ => copy (o + 1) n

/-- the loop of `checksum` -/
def checksumLoop (pkt : Buffer) : Nat → Nat → Nat → Reader Nat
  | _, 0, sum => pure sum
  | o, 1, sum => do
    let b ← byte pkt o
    pure ((sum + b.toNat * 256) % 2 ^ 32)
  | o, n + 2, sum => do
    let hi ← byte pkt o
    let lo ← byte pkt (o + 1)
    checksumLoop pkt (o + 2) n ((sum + (hi.toNat * 256 + lo.toNat)) % 2 ^ 32)

/-- what `icmp_input` does: `ip_send` of a reply, a note of the answer to a ping, or nothing -/
inductive Act where
  | reply (payload : Buffer) (n : Nat)
  | pinged (seq : Nat)
  | nothing

/-- `pkt[0] == t && pkt[1] == 0` -/
def isType (pkt : Buffer) (o : Nat) (t : Byte) : Reader Bool := do
  let b ← byte pkt o
  if b = t then do
    let c ← byte pkt (o + 1)
    pure (decide (c = 0))
  else pure false

/-- two bytes, the high one first -/
def word (pkt : Buffer) (o : Nat) : Reader Nat := do
  let hi ← byte pkt o
  let lo ← byte pkt (o + 1)
  pure (hi.toNat * 256 + lo.toNat)

/-- `icmp_input` of the `n` bytes from `o` on -/
def icmpInput (pkt : Buffer) (o n : Nat) : Reader Act := do
  stop (n < 8)
  let echo ← isType pkt o 8
  if echo then do
    let n := if 1480 < n then 1480 else n
    copy o n
    pure (.reply (echoReply (fun i => pkt (o + i)) n) n)
  else do
    let answer ← isType pkt o 0
    if answer then do
      let id ← word pkt (o + 4)
      if id = ICMP_ID then do
        let seq ← word pkt (o + 6)
        pure (.pinged seq)
      else pure .nothing
    else pure .nothing

/-- `src` and `dst` -/
def addresses (pkt : Buffer) : Reader (Nat × Nat) := do
  copy 12 4
  copy 16 4
  pure (Net.ntohl32 (get32 pkt 12), Net.ntohl32 (get32 pkt 16))

/-- `ip_input`: what is done, and the source address -/
def ipInput (h : Host) (pkt : Buffer) (len : Nat) : Reader (Nat × Act) := do
  stop (len < 20)
  let version ← byte pkt 0
  stop (version.toNat / 16 ≠ 4)
  let version ← byte pkt 0
  let ihl := version.toNat % 16 * 4
  stop (ihl < 20)
  let total ← word pkt 2
  stop (total < 20 ∨ total > len)
  let sum ← checksumLoop pkt 0 ihl 0
  stop (fold sum ≠ 0xFFFF)
  let (src, dst) ← addresses pkt
  stop (dst ≠ h.ip.toNat)
  let proto ← byte pkt 9
  stop (proto ≠ Net.IP_PROTO_ICMP)
  let n ← minus total ihl
  let act ← icmpInput pkt ihl n
  pure (src, act)

/-- what follows for the state of the network code -/
def perform (s : NetState) : Except Unit (Nat × Act) → NetState
  | .error _ => s
  | .ok (src, .reply payload n) => s.ipSend (BitVec.ofNat 32 src) Net.IP_PROTO_ICMP payload n
  | .ok (src, .pinged seq) =>
    { s with pingReplySeq := seq, pingReplyFrom := src, pingGotReply := true }
  | .ok (_, .nothing) => s

/-! ## the packet -/

def headerLength (pkt : Buffer) : Nat := (pkt 0).toNat % 16 * 4

def totalLength (pkt : Buffer) : Nat := (pkt 2).toNat * 256 + (pkt 3).toNat

/-- the header is longer than the packet, and the checks of the lengths let it through -/
def Overlong (pkt : Buffer) (len : Nat) : Prop :=
  20 ≤ len ∧ (pkt 0).toNat / 16 = 4 ∧ 20 ≤ totalLength pkt ∧ totalLength pkt ≤ len ∧
    totalLength pkt < headerLength pkt

instance decidableOverlong (pkt : Buffer) (len : Nat) : Decidable (Overlong pkt len) :=
  inferInstanceAs (Decidable (_ ∧ _))

/-- an access inside the packet; the bytes up to the total length are read before it is known -/
def Fine (pkt : Buffer) (len : Nat) : Access → Prop
  | .read o => o < len ∧ (o < totalLength pkt ∨ o < 4)
  | .minus a b => b ≤ a

/-- what an ICMP message has behind its header of eight bytes -/
def requestPayload (pkt : Buffer) : List Byte :=
  (List.range (totalLength pkt - headerLength pkt - 8)).map fun i => pkt (headerLength pkt + 8 + i)

/-- the packet that is given to `eth_send` for an echo reply -/
def replyPacket (s : NetState) (pkt : Buffer) (len : Nat) : Option EthSend :=
  match (ipInput s.host pkt len).result with
  | .ok (src, .reply payload n) =>
    ipSend s.host (BitVec.ofNat 32 src) Net.IP_PROTO_ICMP payload n
  | _ => none

/-- the payload of the reply, behind the headers of 20 and 8 bytes -/
def replyPayload (e : EthSend) : List Byte := (List.range (e.plen - 28)).map fun i => e.payload (28 + i)

/-! ## the rules for what is read -/

section
variable {pkt : Buffer} {o n sum len : Nat} {β : Type} {P : Access → Prop} {h : Host}

theorem all_stop_bind {c : Prop} [Decidable c] {g : Unit → Reader β} :
    (stop c >>= g).All P ↔ (¬ c → (g ()).All P) := by
  unfold stop
  rw [all_lift_bind]
  by_cases hc : c
  · rw [if_pos hc]
    exact ⟨fun _ h => absurd hc h, fun _ b hb => by cases hb⟩
  · rw [if_neg hc]
    exact ⟨fun h _ => h () rfl, fun h _ _ => h hc⟩

theorem stop_bind_result (c : Prop) [Decidable c] (g : Unit → Reader β) :
    (stop c >>= g).result = if c then .error () else (g ()).result := by
  unfold stop
  rw [bind_result, lift_result]
  by_cases hc : c
  · rw [if_pos hc, if_pos hc]
    rfl
  · rw [if_neg hc, if_neg hc]
    rfl

theorem byte_result (pkt : Buffer) (o : Nat) : (byte pkt o).result = .ok (pkt o) := rfl

theorem all_byte : (byte pkt o).All P ↔ P (.read o) := all_touch (ε := Unit) _

theorem minus_result (a b : Nat) : (minus a b).result = .ok ((a + 2 ^ 16 - b) % 2 ^ 16) := rfl

theorem all_minus {a b : Nat} : (minus a b).All P ↔ P (.minus a b) := all_touch (ε := Unit) _

theorem word_result (pkt : Buffer) (o : Nat) :
    (word pkt o).result = .ok ((pkt o).toNat * 256 + (pkt (o + 1)).toNat) := rfl

theorem all_word : (word pkt o).All P ↔ P (.read o) ∧ P (.read (o + 1)) := by
  unfold word
  rw [all_bind_ok (byte_result pkt o), all_bind_ok (byte_result pkt (o + 1)), all_byte, all_byte]
  exact and_congr_right fun _ => and_iff_left (all_pure _)

theorem copy_result (o n : Nat) : (copy o n).result = .ok () := by
  induction n generalizing o with
  | zero => rfl
  | succ n ih => exact (bind_result_ok (touch_result _) rfl).trans (ih (o + 1))

theorem all_copy : (copy o n).All P ↔ ∀ i < n, P (.read (o + i)) := by
  induction n generalizing o with
  | zero => exact ⟨fun _ i hi => absurd hi (by omega), fun _ => all_pure ()⟩
  | succ n ih =>
    show (touch (.read o) >>= fun _ => copy (o + 1) n : Reader Unit).All P ↔ _
    rw [all_touch_bind, ih, Nat.forall_lt_succ_left]
    refine and_congr_right fun _ => forall₂_congr fun i _ => ?_
    rw [show o + (i + 1) = o + 1 + i by omega]

theorem addresses_result (pkt : Buffer) : (addresses pkt).result =
    .ok (Net.ntohl32 (get32 pkt 12), Net.ntohl32 (get32 pkt 16)) := by
  unfold addresses
  rw [bind_result_ok (copy_result 12 4) rfl, bind_result_ok (copy_result 16 4) rfl]
  rfl

theorem all_addresses (h : ∀ i < 20, P (.read i)) : (addresses pkt).All P := by
  unfold addresses
  rw [all_bind_ok (copy_result 12 4), all_bind_ok (copy_result 16 4), all_copy, all_copy]
  exact ⟨fun i hi => h (12 + i) (by omega), fun i hi => h (16 + i) (by omega), all_pure _⟩

theorem isType_result (pkt : Buffer) (o : Nat) (t : Byte) :
    (isType pkt o t).result = .ok (decide (pkt o = t ∧ pkt (o + 1) = 0)) := by
  unfold isType
  rw [bind_result_ok (byte_result pkt o) rfl]
  by_cases ht : pkt o = t
  · rw [if_pos ht, Bool.decide_and, decide_eq_true ht, Bool.true_and]
    rfl
  · rw [if_neg ht, decide_eq_false fun hc => ht hc.1]
    rfl

theorem all_isType {t : Byte} (h0 : P (.read o)) (h1 : P (.read (o + 1))) :
    (isType pkt o t).All P := by
  unfold isType
  rw [all_bind_ok (byte_result pkt o), all_byte]
  refine ⟨h0, ?_⟩
  split
  · rw [all_bind_ok (byte_result pkt (o + 1)), all_byte]
    exact ⟨h1, all_pure _⟩
  · exact all_pure _

/-- the sum is that of the model without the trace -/
theorem checksumLoop_result (pkt : Buffer) (o n sum : Nat) :
    (checksumLoop pkt o n sum).result = .ok (Net.checksumLoop pkt o n sum) := by
  fun_induction Net.checksumLoop pkt o n sum with
  | case1 o sum => rfl
  | case2 o sum => rfl
  | case3 o n sum ih =>
    unfold checksumLoop
    rw [bind_result_ok (byte_result pkt o) rfl, bind_result_ok (byte_result pkt (o + 1)) rfl]
    exact ih

/-- it takes all `n` bytes -/
theorem all_checksumLoop :
    (checksumLoop pkt o n sum).All P ↔ ∀ i < n, P (.read (o + i)) := by
  fun_induction Net.checksumLoop pkt o n sum with
  | case1 o sum => exact ⟨fun _ i hi => absurd hi (by omega), fun _ => all_pure sum⟩
  | case2 o sum =>
    unfold checksumLoop
    rw [all_bind_ok (byte_result pkt o), all_byte]
    refine ⟨fun h i hi => ?_, fun h => ⟨h 0 (by omega), all_pure _⟩⟩
    obtain rfl : i = 0 := by omega
    exact h.1
  | case3 o n sum ih =>
    unfold checksumLoop
    rw [all_bind_ok (byte_result pkt o), all_bind_ok (byte_result pkt (o + 1)), all_byte, all_byte,
      ih, Nat.forall_lt_succ_left, Nat.forall_lt_succ_left]
    refine and_congr_right fun _ => and_congr_right fun _ => forall₂_congr fun i _ => ?_
    rw [show o + 2 + i = o + (i + 1 + 1) by omega]

/-! ## what is read -/

/-- `icmp_input` reads what it was given -/
theorem all_icmpInput (h : ∀ i < n, P (.read (o + i))) : (icmpInput pkt o n).All P := by
  unfold icmpInput
  rw [all_stop_bind]
  intro hn
  have htype : ∀ t, (isType pkt o t).All P := fun t => all_isType (h 0 (by omega)) (h 1 (by omega))
  rw [all_bind_ok (isType_result pkt o 8)]
  refine ⟨htype 8, ?_⟩
  split
  · rw [all_bind_ok (copy_result o _), all_copy]
    refine ⟨fun i hi => h i ?_, all_pure _⟩
    split at hi <;> omega
  · rw [all_bind_ok (isType_result pkt o 0)]
    refine ⟨htype 0, ?_⟩
    split
    · rw [all_bind_ok (word_result pkt (o + 4)), all_word]
      refine ⟨⟨h 4 (by omega), h 5 (by omega)⟩, ?_⟩
      split
      · rw [all_bind_ok (word_result pkt (o + 6)), all_word]
        exact ⟨⟨h 6 (by omega), h 7 (by omega)⟩, all_pure _⟩
      · exact all_pure _
    · exact all_pure _

/-- **Everything is read inside the packet**, and no length wraps, exactly if the header is not longer
than the packet where this is not checked. -/
theorem inside_iff (h : Host) (pkt : Buffer) (len : Nat) :
    (ipInput h pkt len).All (Fine pkt len) ↔ ¬ Overlong pkt len := by
  unfold ipInput
  rw [all_stop_bind, all_bind_ok (byte_result pkt 0), all_stop_bind, all_bind_ok (byte_result pkt 0),
    all_stop_bind, all_bind_ok (word_result pkt 2), all_stop_bind,
    all_bind_ok (checksumLoop_result pkt 0 _ 0), all_byte, all_word, all_checksumLoop]
  constructor
  · rintro hreads ⟨hlen, hver, htotal, hfit, hover⟩
    have hihl : ¬ headerLength pkt < 20 := by omega
    have hlast := (((hreads (by omega)).2 (not_not.mpr hver)).2 hihl).2
      (show ¬ (totalLength pkt < 20 ∨ totalLength pkt > len) by omega)
    -- the last byte of the header is behind the packet
    have hmem : headerLength pkt - 1 < headerLength pkt := by omega
    have hbyte := (hlast.1 (headerLength pkt - 1) hmem).2
    omega
  · intro hno
    have hfirst : ∀ o < 4, 20 ≤ len → Fine pkt len (.read o) :=
      fun o ho hlen => ⟨by omega, .inr ho⟩
    refine fun hlen => ⟨hfirst 0 (by omega) (by omega), fun hver => ?_⟩
    refine ⟨hfirst 0 (by omega) (by omega), fun hihl => ?_⟩
    refine ⟨⟨hfirst 2 (by omega) (by omega), hfirst 3 (by omega) (by omega)⟩, ?_⟩
    intro htotal
    have hihl20 : ¬ headerLength pkt < 20 := hihl
    have htotal20 : ¬ (totalLength pkt < 20 ∨ totalLength pkt > len) := htotal
    have hle : headerLength pkt ≤ totalLength pkt := by
      by_contra hlt
      exact hno ⟨by omega, not_not.mp hver, by omega, by omega, by omega⟩
    -- from here on every byte is below the total length
    have hfine : ∀ o < totalLength pkt, Fine pkt len (.read o) :=
      fun o ho => ⟨by omega, .inl ho⟩
    refine ⟨fun i hi => hfine (0 + i) ?_, ?_⟩
    · have hi' : i < headerLength pkt := hi
      omega
    rw [all_stop_bind, all_bind_ok (addresses_result pkt)]
    refine fun _ => ⟨all_addresses fun i hi => hfine i (by omega), ?_⟩
    simp only
    rw [all_stop_bind, all_bind_ok (byte_result pkt 9), all_stop_bind, all_byte]
    refine fun _ => ⟨hfine 9 (by omega), fun _ => ?_⟩
    rw [all_bind_ok (minus_result _ _), all_minus]
    refine ⟨hle, ?_⟩
    rw [all_bind]
    refine ⟨all_icmpInput fun i hi => hfine (headerLength pkt + i) ?_, fun b _ => all_pure _⟩
    have hi' : i < (totalLength pkt + 2 ^ 16 - headerLength pkt) % 2 ^ 16 := hi
    have hlt : totalLength pkt < 2 ^ 16 := by
      have h2 := (pkt 2).isLt
      have h3 := (pkt 3).isLt
      unfold totalLength
      omega
    omega

/-! ## the model without the trace -/

theorem icmpInput_result (hn : 8 ≤ n) :
    (icmpInput pkt o n).result = .ok
      (if pkt o = 8 ∧ pkt (o + 1) = 0 then
        .reply (echoReply (fun i => pkt (o + i)) (if 1480 < n then 1480 else n))
          (if 1480 < n then 1480 else n)
      else if pkt o = 0 ∧ pkt (o + 1) = 0 then
        if (pkt (o + 4)).toNat * 256 + (pkt (o + 5)).toNat = ICMP_ID then
          .pinged ((pkt (o + 6)).toNat * 256 + (pkt (o + 7)).toNat)
        else .nothing
      else .nothing) := by
  unfold icmpInput
  rw [stop_bind_result, if_neg (by omega), bind_result_ok (isType_result pkt o 8) rfl]
  by_cases hreq : pkt o = 8 ∧ pkt (o + 1) = 0
  · rw [if_pos (decide_eq_true hreq), if_pos hreq]
    exact bind_result_ok (copy_result o _) rfl
  rw [if_neg (by rw [decide_eq_true_iff]; exact hreq), if_neg hreq,
    bind_result_ok (isType_result pkt o 0) rfl]
  by_cases hans : pkt o = 0 ∧ pkt (o + 1) = 0
  · rw [if_pos (decide_eq_true hans), if_pos hans, bind_result_ok (word_result pkt (o + 4)) rfl]
    split
    · exact bind_result_ok (word_result pkt (o + 6)) rfl
    · rfl
  · rw [if_neg (by rw [decide_eq_true_iff]; exact hans), if_neg hans]
    rfl

theorem ipInput_eq (h : Host) (pkt : Buffer) (len : Nat) :
    Fixes.ipInput h pkt len =
      if len < 20 then none
      else if (pkt 0).toNat / 16 ≠ 4 then none
      else if headerLength pkt < 20 then none
      else if totalLength pkt < 20 ∨ totalLength pkt > len then none
      else if checksum pkt (headerLength pkt) ≠ 0xFFFF then none
      else if Net.ntohl32 (get32 pkt 16) ≠ h.ip.toNat then none
      else if pkt 9 = Net.IP_PROTO_ICMP then
        some ⟨pkt 9, fun i => pkt (headerLength pkt + i),
          (totalLength pkt + 2 ^ 16 - headerLength pkt) % 2 ^ 16, Net.ntohl32 (get32 pkt 12)⟩
      else none := rfl

/-- a check that both models make -/
theorem stop_elim {γ : Type} {c : Prop} [Decidable c] {g : Unit → Reader β} {y : Reader β}
    {x : Option γ} {f : γ → Except Unit β} (hg : g () = y) (hy : y.result = x.elim (.error ()) f) :
    (stop c >>= g).result = (if c then none else x).elim (.error ()) f := by
  rw [stop_bind_result]
  by_cases hc : c
  · rw [if_pos hc, if_pos hc]
    rfl
  · rw [if_neg hc, if_neg hc, hg]
    exact hy

/-- `ip_input` hands the same bytes on, with the same length -/
theorem ipInput_result (h : Host) (pkt : Buffer) (len : Nat) :
    (ipInput h pkt len).result = (Fixes.ipInput h pkt len).elim (.error ()) fun d =>
      (icmpInput pkt (headerLength pkt) d.len >>= fun act => pure (d.src, act)).result := by
  have hihl : (pkt 0).toNat % 16 * 4 = headerLength pkt := rfl
  have htotal : (word pkt 2).result = .ok (totalLength pkt) := rfl
  rw [ipInput_eq]
  unfold ipInput
  refine stop_elim rfl ?_
  rw [bind_result_ok (byte_result pkt 0) rfl]
  refine stop_elim rfl ?_
  rw [bind_result_ok (byte_result pkt 0) rfl]
  simp only [hihl]
  refine stop_elim rfl ?_
  rw [bind_result_ok htotal rfl]
  refine stop_elim rfl ?_
  rw [bind_result_ok (checksumLoop_result pkt 0 (headerLength pkt) 0) rfl]
  refine stop_elim rfl ?_
  rw [bind_result_ok (addresses_result pkt) rfl]
  refine stop_elim rfl ?_
  rw [bind_result_ok (byte_result pkt 9) rfl, ← ite_not]
  refine stop_elim rfl ?_
  rw [bind_result_ok (minus_result (totalLength pkt) (headerLength pkt)) rfl]
  rfl

/-- what `ip_input` hands on is behind the header -/
theorem ipInput_some {d : Net.Dispatch} (hd : Fixes.ipInput h pkt len = some d) :
    (20 ≤ len ∧ (pkt 0).toNat / 16 = 4 ∧ 20 ≤ totalLength pkt ∧ totalLength pkt ≤ len) ∧
      d.payload = (fun i => pkt (headerLength pkt + i)) ∧
      d.len = (totalLength pkt + 2 ^ 16 - headerLength pkt) % 2 ^ 16 := by
  rw [ipInput_eq] at hd
  obtain ⟨hlen, hd⟩ := Option.ite_none_left_eq_some.mp hd
  obtain ⟨hver, hd⟩ := Option.ite_none_left_eq_some.mp hd
  obtain ⟨hihl, hd⟩ := Option.ite_none_left_eq_some.mp hd
  obtain ⟨htotal, hd⟩ := Option.ite_none_left_eq_some.mp hd
  obtain ⟨-, hd⟩ := Option.ite_none_left_eq_some.mp hd
  obtain ⟨-, hd⟩ := Option.ite_none_left_eq_some.mp hd
  obtain ⟨-, hd⟩ := Option.ite_none_right_eq_some.mp hd
  obtain rfl := Option.some.inj hd
  exact ⟨⟨by omega, not_not.mp hver, by omega, by omega⟩, rfl, rfl⟩

/-- **With the trace or without it**, the state of the network code is the same. -/
theorem input_perform (s : NetState) (pkt : Buffer) (len : Nat) :
    s.ipInput pkt len = perform s (ipInput s.host pkt len).result := by
  rw [ipInput_result]
  unfold NetState.ipInput
  cases hd : Fixes.ipInput s.host pkt len with
  | none => rfl
  | some d =>
    obtain ⟨-, hpay, -⟩ := ipInput_some hd
    show s.icmpInput d = perform s (icmpInput pkt (headerLength pkt) d.len >>= _).result
    unfold NetState.icmpInput
    by_cases hn : d.len < 8
    · rw [if_pos hn]
      unfold icmpInput
      rw [bind_result, stop_bind_result, if_pos hn]
      rfl
    rw [if_neg hn, bind_result_ok (icmpInput_result (by omega)) rfl, hpay]
    simp only [Nat.add_zero]
    by_cases hreq : pkt (headerLength pkt) = 8 ∧ pkt (headerLength pkt + 1) = 0
    · rw [if_pos hreq, if_pos hreq]
      rfl
    rw [if_neg hreq, if_neg hreq]
    by_cases hans : pkt (headerLength pkt) = 0 ∧ pkt (headerLength pkt + 1) = 0
    · rw [if_pos hans, if_pos hans]
      split <;> rfl
    · rw [if_neg hans, if_neg hans]
      rfl

/-! ## the echo reply -/

/-- an echo request that `ip_input` has handed on is answered, cut to 1480 bytes -/
theorem replyPacket_eq (s : NetState) (pkt : Buffer) (len : Nat) :
    replyPacket s pkt len = (Fixes.ipInput s.host pkt len).bind fun d =>
      if 8 ≤ d.len ∧ pkt (headerLength pkt) = 8 ∧ pkt (headerLength pkt + 1) = 0 then
        ipSend s.host (BitVec.ofNat 32 d.src) Net.IP_PROTO_ICMP
          (echoReply (fun i => pkt (headerLength pkt + i)) (if 1480 < d.len then 1480 else d.len))
          (if 1480 < d.len then 1480 else d.len)
      else none := by
  unfold replyPacket
  rw [ipInput_result]
  cases hd : Fixes.ipInput s.host pkt len with
  | none => rfl
  | some d =>
    simp only [Option.elim_some, Option.bind_some]
    by_cases hn : d.len < 8
    · unfold icmpInput
      have hno : ¬ (8 ≤ d.len ∧ pkt (headerLength pkt) = 8 ∧ pkt (headerLength pkt + 1) = 0) :=
        fun h => by omega
      rw [bind_result, stop_bind_result, if_pos hn, if_neg hno]
      rfl
    rw [bind_result_ok (icmpInput_result (by omega)) rfl]
    by_cases hreq : 8 ≤ d.len ∧ pkt (headerLength pkt) = 8 ∧ pkt (headerLength pkt + 1) = 0
    · rw [if_pos hreq, if_pos hreq.2]
      rfl
    rw [if_neg hreq, if_neg fun h => hreq ⟨by omega, h⟩]
    by_cases hans : pkt (headerLength pkt) = 0 ∧ pkt (headerLength pkt + 1) = 0
    · rw [if_pos hans]
      by_cases hid : (pkt (headerLength pkt + 4)).toNat * 256 + (pkt (headerLength pkt + 5)).toNat =
          ICMP_ID
      · rw [if_pos hid]
        rfl
      · rw [if_neg hid]
        rfl
    · rw [if_neg hans]
      rfl

theorem replyPacket_some {s : NetState} {e : EthSend} (he : replyPacket s pkt len = some e) :
    ∃ d, Fixes.ipInput s.host pkt len = some d ∧
      (8 ≤ d.len ∧ pkt (headerLength pkt) = 8 ∧ pkt (headerLength pkt + 1) = 0) ∧
      ipSend s.host (BitVec.ofNat 32 d.src) Net.IP_PROTO_ICMP
        (echoReply (fun i => pkt (headerLength pkt + i)) (if 1480 < d.len then 1480 else d.len))
        (if 1480 < d.len then 1480 else d.len) = some e := by
  rw [replyPacket_eq] at he
  obtain ⟨d, hd, hsend⟩ := Option.bind_eq_some_iff.mp he
  obtain ⟨hreq, hsend⟩ := Option.ite_none_right_eq_some.mp hsend
  exact ⟨d, hd, hreq, hsend⟩

theorem ipSend_mac {dst : BitVec 32} {proto : Byte} {payload : Buffer} {plen : Nat} {e : EthSend}
    (he : ipSend h dst proto payload plen = some e) :
    ∃ mac, Net.arpLookup h (Net.ipNextHop h dst) = some mac := by
  unfold ipSend at he
  obtain ⟨-, he⟩ := Option.ite_none_left_eq_some.mp he
  cases hmac : Net.arpLookup h (Net.ipNextHop h dst) with
  | none =>
    rw [hmac] at he
    cases he
  | some mac => exact ⟨mac, rfl⟩

/-- it is the packet that `eth_send` gets -/
theorem replyPacket_sent {s : NetState} {e : EthSend} (he : replyPacket s pkt len = some e) :
    s.ipInput pkt len = { s with host := { s.host with pkt := e.payload } }.ethSend e := by
  obtain ⟨d, hd, ⟨hlen, hreq⟩, hsend⟩ := replyPacket_some he
  obtain ⟨-, hpay, -⟩ := ipInput_some hd
  obtain ⟨hfit, -⟩ := ipSend_eq_some hsend
  unfold NetState.ipInput
  rw [hd]
  show s.icmpInput d = _
  unfold NetState.icmpInput
  rw [if_neg (by omega), hpay]
  simp only [Nat.add_zero]
  rw [if_pos hreq]
  generalize echoReply _ _ = reply at hsend ⊢
  generalize (if 1480 < d.len then 1480 else d.len) = m at hfit hsend ⊢
  obtain ⟨mac, harp⟩ := ipSend_mac hsend
  have hlook : s.arpLookup (Net.ipNextHop s.host (BitVec.ofNat 32 d.src)) = (some mac, s) := by
    unfold NetState.arpLookup
    rw [harp]
  unfold NetState.ipSend
  rw [if_neg (by omega), hlook]
  simp only
  rw [hsend]

theorem echoReply_ge {i : Nat} (hi : 4 ≤ i) : echoReply pkt n i = pkt i := by
  unfold echoReply
  rw [Function.update_of_ne (by omega), Function.update_of_ne (by omega),
    Function.update_of_ne (by omega), Function.update_of_ne (by omega),
    Function.update_of_ne (by omega)]

/-- the reply has the payload of the request, as far as it fits -/
theorem reply_payload {s : NetState} {e : EthSend} (hno : ¬ Overlong pkt len)
    (he : replyPacket s pkt len = some e) :
    replyPayload e = (requestPayload pkt).take 1472 := by
  obtain ⟨d, hd, ⟨hlen, -⟩, hsend⟩ := replyPacket_some he
  obtain ⟨⟨hlen20, hver, htotal, hfit⟩, -, hdlen⟩ := ipInput_some hd
  obtain ⟨-, hplen, hbytes⟩ := ipSend_eq_some hsend
  have hle : headerLength pkt ≤ totalLength pkt := by
    by_contra hlt
    exact hno ⟨hlen20, hver, htotal, hfit, by omega⟩
  have hlt : totalLength pkt < 2 ^ 16 := by
    have h2 := (pkt 2).isLt
    have h3 := (pkt 3).isLt
    unfold totalLength
    omega
  have hcount : e.plen - 28 = min 1472 (totalLength pkt - headerLength pkt - 8) := by
    rw [hplen]
    split <;> omega
  unfold replyPayload requestPayload
  rw [← List.map_take, List.take_range, hcount]
  refine List.map_congr_left fun i hi => ?_
  have hi' := List.mem_range.mp hi
  rw [hbytes, show 28 + i = 20 + (8 + i) by omega, Net.sent_payload (by split <;> omega),
    echoReply_ge (by omega), Nat.add_assoc]

end

/-! ## the claim -/

/-- **Reads, lengths and the reply**, for a packet whose header is not longer than the packet. -/
theorem input_inside (s : NetState) (pkt : Buffer) (len : Nat) (hno : ¬ Overlong pkt len) :
    (∀ o, .read o ∈ (ipInput s.host pkt len).trace → o < len ∧ (o < totalLength pkt ∨ o < 4)) ∧
    (∀ a b, .minus a b ∈ (ipInput s.host pkt len).trace → b ≤ a) ∧
    ∀ e, replyPacket s pkt len = some e → replyPayload e = (requestPayload pkt).take 1472 := by
  have hall := (inside_iff s.host pkt len).mpr hno
  exact ⟨fun o ho => hall _ ho, fun a b hab => hall _ hab, fun e he => reply_payload hno he⟩

/-- 10.0.2.15, which knows 10.0.2.16 -/
def someNet : NetState :=
  { host := Net.hostA, nic := Net.boot Net.someMac true, pending := false, pendingIp := 0
    pendingSince := 0, pingGotReply := false, pingReplySeq := 0, pingReplyFrom := 0
    buf := fun _ => 0, tick := 0, ifOn := true }

/-- an echo request of 10.0.2.16 with this first byte, total length and checksum, and zeros behind its
first bytes -/
def request (first hi lo sumHi sumLo : Byte) : Buffer := fun a =>
  ([first, 0, hi, lo, 0, 0, 0, 0, 64, 1, sumHi, sumLo, 10, 0, 2, 16, 10, 0, 2, 15, 8, 0] :
    List Byte).getD a 0

/-- a request with two bytes of data -/
theorem inside_request :
    (∀ o, .read o ∈ (ipInput someNet.host (request 0x45 0 30 0x62 0xC1) 46).trace →
      o < 46 ∧ (o < totalLength (request 0x45 0 30 0x62 0xC1) ∨ o < 4)) ∧
    (∀ a b, .minus a b ∈ (ipInput someNet.host (request 0x45 0 30 0x62 0xC1) 46).trace → b ≤ a) ∧
    ∀ e, replyPacket someNet (request 0x45 0 30 0x62 0xC1) 46 = some e →
      replyPayload e = (requestPayload (request 0x45 0 30 0x62 0xC1)).take 1472 :=
  input_inside someNet (request 0x45 0 30 0x62 0xC1) 46 (by decide)

/-- a request of 1492 bytes gets 1472 of them back; a total length of 0 is not above the places where
it is read; and a header of 60 bytes in a packet of 20 is read behind the packet -/
theorem inside_fails :
    (∃ e, replyPacket someNet (request 0x45 0x05 0xF0 0x5C 0xEF) 1520 = some e ∧
      replyPayload e ≠ requestPayload (request 0x45 0x05 0xF0 0x5C 0xEF)) ∧
    (∃ o, .read o ∈ (ipInput someNet.host (request 0x45 0 0 0 0) 20).trace ∧
      ¬ o < totalLength (request 0x45 0 0 0 0)) ∧
    ∃ o, .read o ∈ (ipInput someNet.host (request 0x4F 0 20 0 0) 20).trace ∧ ¬ o < 20 := by
  refine ⟨?_, ⟨0, by decide, by decide⟩, 59, by decide, by decide⟩
  have hsome : (replyPacket someNet (request 0x45 0x05 0xF0 0x5C 0xEF) 1520).isSome := by
    rw [replyPacket_eq]
    decide +kernel
  obtain ⟨e, he⟩ := Option.isSome_iff_exists.mp hsome
  refine ⟨e, he, fun hsame => ?_⟩
  have hlen := congrArg List.length (hsame.symm.trans (reply_payload (by decide) he))
  rw [List.length_take, requestPayload, List.length_map, List.length_range] at hlen
  exact absurd hlen (by decide)

end Noxis.Fixes.Inside
