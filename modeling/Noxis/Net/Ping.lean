import Noxis.Lib.Run
import Noxis.Net.Resolve
import Noxis.Net.Task

/-!
# 25-osfs11/net/main.c, ip.c: echo requests and their replies

`icmp_input` notes the last echo reply with the id of this host, and `net_wait_reply` ends at any; the
sequence number is looked at afterwards, and the address never.

* `Pinger`        the network task within NET_PING, a statement at a time, with ticks and frames
                  between;
* `Attributed`    a wait that ends has its reply noted exactly if that has come, and ends for no other;
* `attributed_iff` the code keeps that exactly in the runs in which no reply comes in time, since
                  `ip_input` drops them.  **With the header check the right way round, it keeps it
                  exactly in those in which the last reply of a poll is the one that is waited for.**
-/

namespace Noxis.Net.Ping
open Dns Run Ipc

def ICMP_ID : Nat := 0xBEAF
def PING_TIMEOUT : Nat := HZ
def ARP_TIMEOUT : Nat := 2 * HZ
/-- what stands for a timeout at BUF -/
def LOST : Nat := 0xFFFFFFFF

/-! ## ip.c -/

/-- `ping_replied`, `ping_reply_seq` and `ping_reply_ip` -/
structure Session where
  replied : Bool
  seq : Nat
  ip : Nat

/-- `icmp_input`; what it sends is `Stack.icmpInput` -/
def Session.icmpInput (g : Session) (pkt : Buffer) (len src : Nat) : Session :=
  if len < 8 then g
  else if pkt 0 = 8 ∧ pkt 1 = 0 then g
  else if pkt 0 = 0 ∧ pkt 1 = 0 then
    let id := (pkt 4).toNat * 256 + (pkt 5).toNat
    if id = ICMP_ID then ⟨true, (pkt 6).toNat * 256 + (pkt 7).toNat, src⟩ else g
  else g

/-- a turn of the loop of `net_poll` -/
def Session.input (want : Nat) (h : Host) (g : Session) : Frame → Session
  | .ip pkt len =>
    match ipInputWith want h pkt len with
    | none => g
    | some d => if d.proto = IP_PROTO_ICMP then g.icmpInput d.payload d.len d.src else g
  | .arp _ _ => g
  | .other => g

def Session.reset (g : Session) : Session := { g with replied := false, seq := 0 }

/-- the 16 bytes of `icmp_ping` -/
def echoRequest (seq : Nat) : Buffer :=
  let req : Buffer := fun a =>
    if a = 0 then 8 else if a = 1 then 0 else if a = 2 then 0 else if a = 3 then 0
    else if a = 4 then 0xBE else if a = 5 then 0xAF
    else if a = 6 then BitVec.ofNat 8 (seq / 256) else if a = 7 then BitVec.ofNat 8 seq
    else ([0x6E, 0x6F, 0x78, 0x69, 0x73, 0x4F, 0x53] : List Byte).getD (a - 8) 0
  let c := checksum req 16
  Function.update (Function.update req 2 (BitVec.ofNat 8 (c / 256))) 3 (BitVec.ofNat 8 c)

/-! ## the task -/

/-- a frame, and the echo request that it is the reply to: of which NET_PING, and its number there -/
structure Arrival where
  frame : Frame
  answers : Option (Nat × Nat)

/-- the next statement of `net_do_ping` -/
inductive Phase where
  | idle
  /-- `arp_lookup`, before and in `net_wait_reply (cond_arp, …)` -/
  | hop | hopDeadline
  | hopCond (deadline : Nat)
  | hopPoll (deadline : Nat)
  | hopTest (deadline : Nat)
  /-- `t0 = get_ticks ()` -/
  | start (seq : Nat)
  | ask (seq t0 : Nat)
  /-- `net_wait_reply (cond_ping, …)` -/
  | limit (seq t0 : Nat)
  | wait (seq t0 deadline : Nat)
  | test (seq t0 deadline : Nat)
  deriving DecidableEq

structure Pinger where
  stack : Stack
  session : Session
  /-- the ticks since boot -/
  time : Nat
  /-- what the driver has for `ne2000_recv` -/
  ring : List Arrival
  phase : Phase
  ip : BitVec 32
  count : Nat
  /-- the words at BUF -/
  rtts : Nat → Nat
  received : Int
  /-- records of the past: which NET_PING it is, when the wait is over, whether the reply has come
  before, and the frames that the polls of this wait have brought -/
  round : Nat
  due : Nat
  answered : Bool
  polled : List Frame

inductive Event where
  | tick
  | arrive (a : Arrival)
  /-- NET_PING -/
  | request (msg : Msg)
  /-- the next statement; a poll gets `n` frames -/
  | run (n : Nat)

namespace Pinger

/-- `ticks` goes round -/
def getTicks (p : Pinger) : Nat := p.time % MAX_TICKS

/-- `arp_lookup (ip_next_hop (ip))` -/
def found (p : Pinger) : Bool := (Net.arpLookup p.stack.host (ipNextHop p.stack.host p.ip)).isSome

/-- a miss -/
def missed (p : Pinger) : Pinger :=
  { p with stack := p.stack.arpMiss p.getTicks (ipNextHop p.stack.host p.ip).toNat }

/-- `net_poll` -/
def poll (want : Nat) (p : Pinger) (n : Nat) : Pinger :=
  let frames := (p.ring.take n).map Arrival.frame
  { p with
    stack := p.stack.netPoll want p.getTicks frames
    session := frames.foldl (Session.input want p.stack.host) p.session
    ring := p.ring.drop n
    polled := p.polled ++ frames }

/-- the loop over `seq` -/
def next (p : Pinger) (seq : Nat) : Pinger :=
  { p with phase := if seq + 1 ≤ p.count then .start (seq + 1) else .idle }

/-- `ping_got_reply`, and what is noted at BUF -/
def noted (p : Pinger) (seq t0 : Nat) : Pinger :=
  if p.session.replied ∧ p.session.seq = seq then
    { p with
      rtts := Function.update p.rtts (seq - 1) (millis ((p.getTicks + 2 ^ 32 - t0) % 2 ^ 32))
      received := p.received + 1 }
  else p

/-- a statement of `net_do_ping` -/
def run (want : Nat) (p : Pinger) (n : Nat) : Pinger :=
  match p.phase with
  | .idle => p
  | .hop => if p.found then { p with phase := .start 1 } else { p.missed with phase := .hopDeadline }
  | .hopDeadline => { p with phase := .hopCond (p.getTicks + ARP_TIMEOUT) }
  | .hopCond d =>
    if p.found then { p with phase := .start 1 } else { p.missed with phase := .hopPoll d }
  | .hopPoll d => { p.poll want n with phase := .hopTest d }
  | .hopTest d =>
    if p.getTicks > d then { p with phase := .idle, received := -1 } else { p with phase := .hopCond d }
  | .start seq => { p with phase := .ask seq p.getTicks }
  | .ask seq t0 =>
    { p with
      session := p.session.reset
      stack := (p.stack.ipSend p.getTicks p.ip IP_PROTO_ICMP (echoRequest seq) 16).1
      phase := .limit seq t0
      answered := false
      polled := [] }
  | .limit seq t0 =>
    { p with phase := .wait seq t0 (p.getTicks + PING_TIMEOUT), due := p.time + PING_TIMEOUT }
  | .wait seq t0 d =>
    if p.session.replied then (p.noted seq t0).next seq
    else { p.poll want n with phase := .test seq t0 d }
  | .test seq t0 d => if p.getTicks > d then p.next seq else { p with phase := .wait seq t0 d }

/-- `net_do_ping` up to the lookup of the next hop -/
def request (p : Pinger) (msg : Msg) : Pinger :=
  { p with
    ip := BitVec.ofInt 32 msg.i1
    count := pingCount msg
    rtts := fun i => if i < pingCount msg then LOST else p.rtts i
    received := if p.stack.nic then 0 else -1
    phase := if p.stack.nic then .hop else .idle
    round := p.round + 1 }

end Pinger

/-! ## the replies -/

/-- the sequence number and the source of an echo reply with the id -/
def echoReply (want : Nat) (h : Host) : Frame → Option (Nat × Nat)
  | .ip pkt len =>
    (ipInputWith want h pkt len).bind fun d =>
      if d.proto = IP_PROTO_ICMP ∧ ¬ d.len < 8 ∧ (d.payload 0 = 0 ∧ d.payload 1 = 0) ∧
          (d.payload 4).toNat * 256 + (d.payload 5).toNat = ICMP_ID then
        some ((d.payload 6).toNat * 256 + (d.payload 7).toNat, d.src)
      else none
  | .arp _ _ => none
  | .other => none

/-- the reply of the pinged host to the request `seq` of this NET_PING -/
def Pinger.IsReply (p : Pinger) (seq : Nat) (a : Arrival) : Prop :=
  a.answers = some (p.round, seq) ∧ echoReply 0 p.stack.host a.frame = some (seq, p.ip.toNat)

instance (p : Pinger) (seq : Nat) (a : Arrival) : Decidable (p.IsReply seq a) :=
  inferInstanceAs (Decidable (_ ∧ _))

/-- it is the reply that is waited for, and it comes before the timeout -/
def Pinger.inTime (p : Pinger) (a : Arrival) : Bool :=
  match p.phase with
  | .limit seq _ => p.IsReply seq a
  | .wait seq _ _ => p.time ≤ p.due ∧ p.IsReply seq a
  | .test seq _ _ => p.time ≤ p.due ∧ p.IsReply seq a
  | _ => false

def step (want : Nat) (p : Pinger) : Event → Option Pinger
  | .tick => some { p with time := p.time + 1 }
  | .arrive a => some { p with ring := p.ring ++ [a], answered := p.answered || p.inTime a }
  | .request msg => if p.phase = .idle then some (p.request msg) else none
  | .run n => if p.phase = .idle then none else some (p.run want n)

def boot (s : Stack) (g : Session) : Pinger where
  stack := s
  session := g
  time := 0
  ring := []
  phase := .idle
  ip := 0
  count := 0
  rtts := fun _ => LOST
  received := 0
  round := 0
  due := 0
  answered := false
  polled := []

/-! ## what the claim is about -/

/-- the number whose reply is waited for -/
def Pinger.waiting (p : Pinger) : Option Nat :=
  match p.phase with
  | .wait seq _ _ => some seq
  | .test seq _ _ => some seq
  | _ => none

/-- the wait is at its test, and PING_TIMEOUT has passed -/
def Pinger.timedOut (p : Pinger) : Prop :=
  match p.phase with
  | .test _ _ _ => p.due < p.time
  | _ => False

/-- **When a wait ends**, a time is noted exactly if the reply has come, and the wait ends for no other
reply. -/
def Attributed (w : Pinger) (_ : Event) (t : Pinger) : Prop :=
  ∀ seq, w.waiting = some seq → t.waiting ≠ some seq →
    (t.rtts (seq - 1) ≠ LOST ↔ w.answered = true) ∧ (w.answered = true ∨ w.timedOut)

/-- the reply did not come -/
def Unanswered (w : Pinger) (_ : Event) (t : Pinger) : Prop :=
  ∀ seq, w.waiting = some seq → t.waiting ≠ some seq → w.answered = false

/-- the replies that the polls of this wait have brought -/
def Pinger.heard (want : Nat) (p : Pinger) : List (Nat × Nat) :=
  p.polled.filterMap (echoReply want p.stack.host)

/-- a wait that is timed out had no reply, and one that a reply has ended had the right one as the last
of its polls -/
def Sound (want : Nat) (w : Pinger) (_ : Event) (t : Pinger) : Prop :=
  match w.phase with
  | .wait seq _ _ => t.waiting ≠ some seq →
      ((w.heard want).getLast?.map Prod.fst = some seq ∧ w.answered = true)
  | .test seq _ _ => t.waiting ≠ some seq → w.answered = false
  | _ => True

section
variable {want : Nat} {p w t : Pinger} {h : Host} {g : Session} {f : Frame} {e : Event} {seq : Nat}

/-! ## the session after some frames -/

/-- what the session has noted of the replies `rs` -/
structure Session.Noted (g : Session) (rs : List (Nat × Nat)) : Prop where
  replied : g.replied = rs.getLast?.isSome
  seq : ∀ r ∈ rs.getLast?, g.seq = r.1

theorem Session.input_eq (want : Nat) (h : Host) (g : Session) (f : Frame) :
    g.input want h f = match echoReply want h f with
      | some r => ⟨true, r.1, r.2⟩
      | none => g := by
  cases f with
  | arp pkt len => rfl
  | other => rfl
  | ip pkt len =>
    unfold Session.input echoReply
    simp only
    cases ipInputWith want h pkt len with
    | none => rfl
    | some d =>
      rw [Option.bind_some]
      simp only
      by_cases hicmp : d.proto = IP_PROTO_ICMP
      · rw [if_pos hicmp]
        unfold Session.icmpInput
        by_cases hlen : d.len < 8
        · rw [if_pos hlen, if_neg fun hc => hc.2.1 hlen]
        rw [if_neg hlen]
        by_cases hreq : d.payload 0 = 8 ∧ d.payload 1 = 0
        · rw [if_pos hreq, if_neg fun hc => absurd (hreq.1.symm.trans hc.2.2.1.1) (by decide)]
        rw [if_neg hreq]
        by_cases hrep : d.payload 0 = 0 ∧ d.payload 1 = 0
        · rw [if_pos hrep]
          simp only
          by_cases hid : (d.payload 4).toNat * 256 + (d.payload 5).toNat = ICMP_ID
          · rw [if_pos hid, if_pos ⟨hicmp, hlen, hrep, hid⟩]
          · rw [if_neg hid, if_neg fun hc => hid hc.2.2.2]
        · rw [if_neg hrep, if_neg fun hc => hrep hc.2.2.1]
      · rw [if_neg hicmp, if_neg fun hc => hicmp hc.1]

theorem Session.Noted.input {rs : List (Nat × Nat)} (hn : g.Noted rs) (f : Frame) :
    (g.input want h f).Noted (rs ++ (echoReply want h f).toList) := by
  rw [Session.input_eq]
  cases echoReply want h f with
  | none =>
    rw [Option.toList_none, List.append_nil]
    exact hn
  | some r =>
    rw [Option.toList_some]
    refine ⟨?_, fun r' hr' => ?_⟩
    · rw [List.getLast?_concat]
      rfl
    · rw [List.getLast?_concat] at hr'
      rw [← Option.some.inj hr']

theorem Session.Noted.foldl {frames polled : List Frame}
    (hn : g.Noted (polled.filterMap (echoReply want h))) :
    (frames.foldl (Session.input want h) g).Noted
      ((polled ++ frames).filterMap (echoReply want h)) := by
  induction frames generalizing g polled with
  | nil =>
    rw [List.append_nil]
    exact hn
  | cons f frames ih =>
    have hf : (g.input want h f).Noted _ := hn.input f
    have hone : polled.filterMap (echoReply want h) ++ (echoReply want h f).toList =
        (polled ++ [f]).filterMap (echoReply want h) := by
      rw [List.filterMap_append, List.filterMap_cons]
      cases echoReply want h f <;> rfl
    rw [hone] at hf
    have hrest := ih hf
    rwa [List.append_assoc] at hrest

/-- `ip_input` as it is: nothing is heard -/
theorem echoReply_drops (h : Host) (f : Frame) : echoReply 0xFFFF h f = none := by
  cases f with
  | arp pkt len => rfl
  | other => rfl
  | ip pkt len =>
    have hdrop : ipInputWith 0xFFFF h pkt len = none := ipInput_drops h pkt len
    unfold echoReply
    simp only
    rw [hdrop]
    rfl

theorem heard_drops (p : Pinger) : p.heard 0xFFFF = [] :=
  List.filterMap_eq_nil_iff.mpr fun f _ => echoReply_drops _ f

theorem echoReply_congr {h' : Host} (hip : h'.ip = h.ip) :
    echoReply want h' = echoReply want h := by
  funext f
  cases f with
  | arp pkt len => rfl
  | other => rfl
  | ip pkt len =>
    unfold echoReply
    simp only
    rw [ipInputWith_congr hip]

/-! ## the invariant -/

/-- nothing is noted from the number `seq` on -/
structure Fresh (count : Nat) (rtts : Nat → Nat) (seq : Nat) : Prop where
  pos : 1 ≤ seq
  le : seq ≤ count
  lost : ∀ i, seq ≤ i + 1 → i < count → rtts i = LOST

/-- the deadline, and when it is -/
structure Clock (time due deadline : Nat) : Prop where
  begun : PING_TIMEOUT ≤ due
  now : due ≤ time + PING_TIMEOUT
  deadline : deadline = (due - PING_TIMEOUT) % MAX_TICKS + PING_TIMEOUT

def Inv (want : Nat) (p : Pinger) : Prop :=
  match p.phase with
  | .idle => True
  | .hop => Fresh p.count p.rtts 1
  | .hopDeadline => Fresh p.count p.rtts 1
  | .hopCond _ => Fresh p.count p.rtts 1
  | .hopPoll _ => Fresh p.count p.rtts 1
  | .hopTest _ => Fresh p.count p.rtts 1
  | .start seq => Fresh p.count p.rtts seq
  | .ask seq _ => Fresh p.count p.rtts seq
  | .limit seq _ => Fresh p.count p.rtts seq ∧ p.session.Noted (p.heard want)
  | .wait seq _ d => Fresh p.count p.rtts seq ∧ p.session.Noted (p.heard want) ∧ Clock p.time p.due d
  | .test seq _ d => Fresh p.count p.rtts seq ∧ p.session.Noted (p.heard want) ∧ Clock p.time p.due d

/-- a test that times out has waited for PING_TIMEOUT, although `ticks` goes round -/
theorem Clock.over {d : Nat} (h : Clock p.time p.due d) (hd : p.getTicks > d) : p.due < p.time := by
  obtain ⟨hbegun, hnow, hdeadline⟩ := h
  unfold Pinger.getTicks MAX_TICKS at hd
  unfold MAX_TICKS at hdeadline
  unfold PING_TIMEOUT HZ at *
  omega

theorem Clock.tick {time due d : Nat} (h : Clock time due d) : Clock (time + 1) due d :=
  ⟨h.begun, by have := h.now; omega, h.deadline⟩

theorem one_le_pingCount (msg : Msg) : 1 ≤ pingCount msg := by
  unfold pingCount PING_MAX
  simp only
  split <;> split <;> omega

theorem millis_ne (n : Nat) : millis n ≠ LOST := by
  unfold millis LOST HZ
  omega

theorem poll_heard (want : Nat) (p : Pinger) (n : Nat) (hn : p.session.Noted (p.heard want)) :
    (p.poll want n).session.Noted ((p.poll want n).heard want) := by
  have hip : (p.poll want n).stack.host.ip = p.stack.host.ip := (netPoll_slot _ _ _ _).2
  unfold Pinger.heard
  rw [echoReply_congr hip]
  exact hn.foldl

/-- the next number, or the reply -/
theorem Fresh.next (hf : Fresh p.count p.rtts seq) {q : Pinger} (hcount : q.count = p.count)
    (hrtts : ∀ i, i ≠ seq - 1 → q.rtts i = p.rtts i) : Inv want (q.next seq) := by
  unfold Inv Pinger.next
  by_cases hle : seq + 1 ≤ q.count
  · rw [if_pos hle]
    refine ⟨Nat.le_add_left 1 seq, hle, fun i hi hlt => ?_⟩
    have hlt' : i < q.count := hlt
    have hpos := hf.pos
    rw [show ({ q with phase := Phase.start (seq + 1) } : Pinger).rtts i = q.rtts i from rfl,
      hrtts i (by omega)]
    exact hf.lost i (by omega) (hcount ▸ hlt')
  · rw [if_neg hle]
    trivial

theorem Pinger.next_waiting (q : Pinger) (seq : Nat) : (q.next seq).waiting = none := by
  unfold Pinger.next
  split <;> rfl

theorem Pinger.noted_count (p : Pinger) (seq t0 : Nat) : (p.noted seq t0).count = p.count := by
  unfold Pinger.noted
  split <;> rfl

theorem Pinger.noted_other (p : Pinger) {seq t0 i : Nat} (hi : i ≠ seq - 1) :
    (p.noted seq t0).rtts i = p.rtts i := by
  unfold Pinger.noted
  split
  · exact Function.update_of_ne hi _ _
  · rfl

/-- a time is noted if the session has the number -/
theorem Pinger.noted_at (p : Pinger) {seq t0 : Nat} (hr : p.session.replied = true)
    (hlost : p.rtts (seq - 1) = LOST) :
    (p.noted seq t0).rtts (seq - 1) ≠ LOST ↔ p.session.seq = seq := by
  unfold Pinger.noted
  by_cases hseq : p.session.seq = seq
  · rw [if_pos ⟨hr, hseq⟩]
    refine iff_of_true ?_ hseq
    show Function.update p.rtts (seq - 1) _ (seq - 1) ≠ LOST
    rw [Function.update_self]
    exact millis_ne _
  · rw [if_neg fun hc => hseq hc.2]
    exact iff_of_false (fun hc => hc hlost) hseq

/-! ## the end of a wait -/

/-- what the end of a wait that a reply has ended comes to -/
theorem Inv.replied {t0 d : Nat} (hi : Inv want p) (hp : p.phase = .wait seq t0 d)
    (hr : p.session.replied = true) :
    Attributed p e ((p.noted seq t0).next seq) ↔ Sound want p e ((p.noted seq t0).next seq) := by
  unfold Inv at hi
  rw [hp] at hi
  obtain ⟨hf, ⟨hreplied, hlast⟩, -⟩ := hi
  have hlost := hf.lost (seq - 1) (by omega) (by have := hf.pos; have := hf.le; omega)
  have hat : (p.noted seq t0).rtts (seq - 1) ≠ LOST ↔ _ := p.noted_at hr hlost
  have hend : ((p.noted seq t0).next seq).waiting ≠ some seq := by
    rw [Pinger.next_waiting]
    simp
  have hwait : p.waiting = some seq := by
    unfold Pinger.waiting
    rw [hp]
  obtain ⟨r, hheard⟩ := Option.isSome_iff_exists.mp (hreplied.symm.trans hr)
  have hseq := hlast r hheard
  unfold Attributed Sound Pinger.timedOut
  rw [hp]
  simp only
  rw [hheard]
  show (∀ n, p.waiting = some n → _ → (((p.noted seq t0).rtts (n - 1) ≠ LOST ↔ _) ∧ _)) ↔ _
  constructor
  · intro h _
    obtain ⟨hiff, hans⟩ := h seq hwait hend
    have hans := hans.resolve_right id
    have hgot := hat.mp (hiff.mpr hans)
    exact ⟨congrArg some (hseq.symm.trans hgot), hans⟩
  · intro h n hn _
    obtain rfl := Option.some.inj (hwait.symm.trans hn)
    obtain ⟨hr1, hans⟩ := h hend
    have hgot := hat.mpr (hseq.trans (Option.some.inj hr1))
    exact ⟨iff_of_true hgot hans, .inl hans⟩

/-- and of one that is timed out -/
theorem Inv.timedOut {t0 d : Nat} (hi : Inv want p) (hp : p.phase = .test seq t0 d)
    (hd : p.getTicks > d) : Attributed p e (p.next seq) ↔ Sound want p e (p.next seq) := by
  unfold Inv at hi
  rw [hp] at hi
  obtain ⟨hf, -, hc⟩ := hi
  have hlost := hf.lost (seq - 1) (by omega) (by have := hf.pos; have := hf.le; omega)
  have hend : (p.next seq).waiting ≠ some seq := by
    rw [Pinger.next_waiting]
    simp
  have hwait : p.waiting = some seq := by
    unfold Pinger.waiting
    rw [hp]
  unfold Attributed Sound Pinger.timedOut
  rw [hp]
  simp only
  constructor
  · intro h _
    by_contra hans
    exact (h seq hwait hend).1.mpr (by simpa using hans) hlost
  · intro h n hn _
    obtain rfl := Option.some.inj (hwait.symm.trans hn)
    have hans := h hend
    refine ⟨iff_of_false (fun hne => hne hlost) ?_, .inr (hc.over hd)⟩
    rw [hans]
    exact Bool.false_ne_true

/-- where no wait ends -/
theorem sound_of_waiting (h : ∀ n, w.waiting = some n → t.waiting = some n) :
    Attributed w e t ↔ Sound want w e t := by
  refine iff_of_true (fun n hn hne => absurd (h n hn) hne) ?_
  unfold Sound
  split
  · next seq t0 d hp => exact fun hne => absurd (h seq (by unfold Pinger.waiting; rw [hp])) hne
  · next seq t0 d hp => exact fun hne => absurd (h seq (by unfold Pinger.waiting; rw [hp])) hne
  · trivial

/-! ## runs -/

/-- **A statement of `net_do_ping`.** -/
theorem Inv.run (hi : Inv want p) (n : Nat) :
    Inv want (p.run want n) ∧ (Attributed p e (p.run want n) ↔ Sound want p e (p.run want n)) := by
  have hinv := hi
  have hquiet : ∀ q, p.waiting = none → (Attributed p e q ↔ Sound want p e q) := fun q h =>
    sound_of_waiting fun _ hn => absurd (h.symm.trans hn) (by simp)
  unfold Inv at hi
  unfold Pinger.run
  unfold Pinger.waiting at hquiet
  cases hp : p.phase with
  | idle => exact ⟨hinv, sound_of_waiting fun _ h => h⟩
  | hop =>
    rw [hp] at hi hquiet
    refine ⟨?_, hquiet _ rfl⟩
    by_cases hfound : p.found = true
    · simp only [if_pos hfound]
      exact hi
    · simp only [if_neg hfound]
      exact hi
  | hopDeadline =>
    rw [hp] at hi hquiet
    exact ⟨hi, hquiet _ rfl⟩
  | hopCond d =>
    rw [hp] at hi hquiet
    refine ⟨?_, hquiet _ rfl⟩
    by_cases hfound : p.found = true
    · simp only [if_pos hfound]
      exact hi
    · simp only [if_neg hfound]
      exact hi
  | hopPoll d =>
    rw [hp] at hi hquiet
    exact ⟨hi, hquiet _ rfl⟩
  | hopTest d =>
    rw [hp] at hi hquiet
    refine ⟨?_, hquiet _ rfl⟩
    by_cases hd : p.getTicks > d
    · simp only [if_pos hd]
      trivial
    · simp only [if_neg hd]
      exact hi
  | start seq =>
    rw [hp] at hi hquiet
    exact ⟨hi, hquiet _ rfl⟩
  | ask seq t0 =>
    rw [hp] at hi hquiet
    exact ⟨⟨hi, rfl, fun r hr => (by cases hr)⟩, hquiet _ rfl⟩
  | limit seq t0 =>
    rw [hp] at hi hquiet
    refine ⟨⟨hi.1, hi.2, ⟨Nat.le_add_left _ _, Nat.le_refl _, ?_⟩⟩, hquiet _ rfl⟩
    show _ = (p.time + PING_TIMEOUT - PING_TIMEOUT) % MAX_TICKS + PING_TIMEOUT
    rw [Nat.add_sub_cancel]
    rfl
  | wait seq t0 d =>
    rw [hp] at hi
    obtain ⟨hf, hn, hc⟩ := hi
    by_cases hr : p.session.replied = true
    · simp only [if_pos hr]
      exact ⟨hf.next (p.noted_count seq t0) fun i hi => p.noted_other hi, hinv.replied hp hr⟩
    · simp only [if_neg hr]
      refine ⟨⟨hf, poll_heard want p n hn, hc⟩, sound_of_waiting fun m hm => ?_⟩
      unfold Pinger.waiting at hm
      rw [hp] at hm
      exact hm
  | test seq t0 d =>
    rw [hp] at hi
    by_cases hd : p.getTicks > d
    · simp only [if_pos hd]
      exact ⟨hi.1.next rfl fun _ _ => rfl, hinv.timedOut hp hd⟩
    · simp only [if_neg hd]
      refine ⟨hi, sound_of_waiting fun m hm => ?_⟩
      unfold Pinger.waiting at hm
      rw [hp] at hm
      exact hm

/-- **One event.** -/
theorem Inv.step (hi : Inv want w) (hs : step want w e = some t) :
    Inv want t ∧ (Attributed w e t ↔ Sound want w e t) := by
  cases e with
  | tick =>
    rw [← Option.some.inj hs]
    refine ⟨?_, sound_of_waiting fun _ h => h⟩
    have hphase : ({ w with time := w.time + 1 } : Pinger).phase = w.phase := rfl
    unfold Inv at hi ⊢
    rw [hphase]
    cases hp : w.phase with
    | wait seq t0 d =>
      rw [hp] at hi
      exact ⟨hi.1, hi.2.1, hi.2.2.tick⟩
    | test seq t0 d =>
      rw [hp] at hi
      exact ⟨hi.1, hi.2.1, hi.2.2.tick⟩
    | _ =>
      rw [hp] at hi
      exact hi
  | arrive a =>
    rw [← Option.some.inj hs]
    exact ⟨hi, sound_of_waiting fun _ h => h⟩
  | request msg =>
    obtain ⟨hp, hs⟩ := Option.ite_none_right_eq_some.mp hs
    rw [← Option.some.inj hs]
    have hwait : w.waiting = none := by
      unfold Pinger.waiting
      rw [hp]
    refine ⟨?_, sound_of_waiting fun _ hn => absurd (hwait.symm.trans hn) (by simp)⟩
    unfold Inv Pinger.request
    cases w.stack.nic with
    | false => trivial
    | true => exact ⟨Nat.le_refl 1, one_le_pingCount msg, fun i _ hi => if_pos hi⟩
  | run n =>
    obtain ⟨hp, hs⟩ := Option.ite_none_left_eq_some.mp hs
    rw [← Option.some.inj hs]
    exact hi.run n

/-- where nothing is heard, no wait ends but by its timeout -/
theorem sound_drops (hi : Inv 0xFFFF w) (hs : step 0xFFFF w e = some t) :
    Sound 0xFFFF w e t ↔ Unanswered w e t := by
  have hheard := heard_drops w
  unfold Inv at hi
  unfold Sound Unanswered Pinger.waiting
  cases hp : w.phase with
  | wait seq t0 d =>
    rw [hp] at hi
    obtain ⟨-, ⟨hreplied, -⟩, -⟩ := hi
    rw [hheard] at hreplied
    have hwait : t.waiting = some seq := by
      cases e with
      | tick =>
        rw [← Option.some.inj hs]
        show w.waiting = some seq
        unfold Pinger.waiting
        rw [hp]
      | arrive a =>
        rw [← Option.some.inj hs]
        show w.waiting = some seq
        unfold Pinger.waiting
        rw [hp]
      | request msg =>
        obtain ⟨hidle, -⟩ := Option.ite_none_right_eq_some.mp hs
        cases hp.symm.trans hidle
      | run n =>
        obtain ⟨-, hs⟩ := Option.ite_none_left_eq_some.mp hs
        have hnot : ¬ w.session.replied = true := by
          rw [hreplied]
          exact Bool.false_ne_true
        rw [← Option.some.inj hs]
        unfold Pinger.run
        rw [hp]
        simp only [if_neg hnot]
        rfl
    refine iff_of_true (fun hne => absurd hwait hne) fun n hn hne => ?_
    obtain rfl := Option.some.inj hn
    exact absurd hwait hne
  | test seq t0 d =>
    simp only
    exact ⟨fun h n hn hne => h (hn ▸ hne), fun h hne => h seq rfl hne⟩
  | _ => exact iff_of_true trivial fun n hn => (by cases hn)

/-- a run keeps what is said of each wait exactly if it is sound -/
theorem attributed_sound (want : Nat) (s : Stack) (g : Session) (es : List Event) :
    Always (stepOf (step want)) Attributed (boot s g) es ↔
      Always (stepOf (step want)) (Sound want) (boot s g) es := by
  refine Always.iff_of_inv (I := Inv want) ?_ ?_ es _ trivial
  · intro w e t hi hs
    exact (hi.step hs).2
  · intro w e t hi hs _
    exact (hi.step hs).1

/-- **Replies.**  The code keeps what is said of each wait exactly in the runs in which no wait that
ends has had its reply.  If `ip_input` compared the checksum with 0, exactly in those in which a wait
that is timed out had no reply, and the last one of the polls that end a wait is the one that is
waited for. -/
theorem attributed_iff (s : Stack) (g : Session) (es : List Event) :
    (Always (stepOf (step 0xFFFF)) Attributed (boot s g) es ↔
      Always (stepOf (step 0xFFFF)) Unanswered (boot s g) es) ∧
    (Always (stepOf (step 0)) Attributed (boot s g) es ↔
      Always (stepOf (step 0)) (Sound 0) (boot s g) es) := by
  refine ⟨?_, attributed_sound 0 s g es⟩
  refine Always.iff_of_inv (I := Inv 0xFFFF) ?_ ?_ es _ trivial
  · intro w e t hi hs
    rw [(hi.step hs).2]
    exact sound_drops hi hs
  · intro w e t hi hs _
    exact (hi.step hs).1

end

/-! ## 10.0.2.15 pings 10.0.2.16 -/

/-- the network task with the next hop in its cache -/
def warmStack : Stack := { coldStack with host := hostA }

/-- what `icmp_input` there sends back -/
def echoAnswer (seq : Nat) : Buffer :=
  let reply := Function.update (Function.update (Function.update (echoRequest seq) 0 0) 2 0) 3 0
  let c := checksum reply 16
  Function.update (Function.update reply 2 (BitVec.ofNat 8 (c / 256))) 3 (BitVec.ofNat 8 c)

/-- the reply to the request `seq` of the first NET_PING -/
def replyB (seq : Nat) : Arrival :=
  ⟨.ip (sent hostB hostA.ip IP_PROTO_ICMP (echoAnswer seq) 16) 36, some (1, seq)⟩

def pingB (count : Int) : Event :=
  .request { Msg.reset with type := NET_PING, i1 := 0x0A000210, i2 := count }

/-- the reply comes at once and is polled, and a second passes -/
def prompt : List Event :=
  [pingB 1, .run 0, .run 0, .run 0, .run 0, .arrive (replyB 1), .run 1] ++ List.replicate 101 .tick

/-- the reply to the first request comes after its second, when the second one is waited for -/
def belated : List Event :=
  [pingB 2, .run 0, .run 0, .run 0, .run 0, .run 0] ++ List.replicate 101 .tick ++
    [.run 0, .run 0, .run 0, .run 0, .arrive (replyB 1), .run 1, .run 0]

/-- the wait ends, and no time is noted although the reply has come -/
def Pinger.loses (w t : Pinger) : Bool :=
  decide (w.waiting = some 1 ∧ t.waiting = none ∧ t.rtts 0 = LOST ∧ w.answered = true)

/-- the wait ends without its reply and before its time -/
def Pinger.hastens (w t : Pinger) : Bool :=
  decide (w.phase = .wait 2 101 201 ∧ t.waiting = none ∧ w.answered = false)

/-- **A reply in time is lost; were it not dropped, a late reply would end the wait for the next.** -/
theorem attributed_fails :
    (¬ Always (stepOf (step 0xFFFF)) Attributed (boot warmStack ⟨false, 0, 0⟩) (prompt ++ [.run 0])) ∧
      ¬ Always (stepOf (step 0)) Attributed (boot warmStack ⟨false, 0, 0⟩) (belated ++ [.run 0]) := by
  constructor
  · refine Always.not_of_exec prompt Pinger.loses ?_ (by decide +kernel)
    intro w t _ hbad hs
    obtain ⟨hw, ht, hlost, hans⟩ := of_decide_eq_true hbad
    exact (hs 1 hw (by rw [ht]; simp)).1.mpr hans hlost
  · refine Always.not_of_exec belated Pinger.hastens ?_ (by decide +kernel)
    intro w t _ hbad hs
    obtain ⟨hw, ht, hans⟩ := of_decide_eq_true hbad
    have hwait : w.waiting = some 2 := by
      unfold Pinger.waiting
      rw [hw]
    have hend := (hs 2 hwait (by rw [ht]; simp)).2
    unfold Pinger.timedOut at hend
    rw [hw, hans] at hend
    exact hend.elim Bool.false_ne_true id

end Noxis.Net.Ping
