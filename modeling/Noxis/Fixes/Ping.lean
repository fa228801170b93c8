import Noxis.Lib.Run
import Noxis.Fixes.Poll
import Noxis.Fixes.Shell
import Noxis.Net.Drain

/-!
# 23-fixes/drivers/shell.c: cmd_ping

The command waits by `hlt`.  The shell runs in the keyboard interrupt, whose gate has cleared IF, and
`cmd_ping` does not set it: a `hlt` before the first frame was transmitted is never left.

* `Ping`        the command with the network behind it, a statement at a time; between two statements
                at most one tick and any frames are handled, when IF is on;
* `Ends`        every `hlt` is executed with IF on, and after so many ticks the command has returned;
* `ping_iff`    **it does exactly when the command gives up at once or the frames that wait already
                (or the address it looks up) make it transmit first**.
-/

namespace Noxis.Fixes

open Noxis.Run

/-! ## the code -/

/-- a statement of `cmd_ping` -/
inductive PingPc where
  | entry
  /-- `seq <= 4` and what is set up for a round -/
  | round
  | arpTest | arpPoll | arpLookup | arpHlt | noArp
  /-- `icmp_ping` -/
  | echo
  | echoTest | echoPoll | echoCheck | echoHlt | report
  | done
  deriving DecidableEq, Repr

/-- what is printed -/
inductive PingLine where
  | usage
  | noCard
  | start (ip : BitVec 32)
  | noResponse (ip : BitVec 32)
  | reply (src : BitVec 32) (seq : Nat) (ms : BitVec 32)
  | timeout (seq : Nat)
  | summary (sent recv : Nat)

structure Ping where
  pc : PingPc
  net : NetState
  /-- the argument, `none` for the null pointer -/
  args : Option (List Char)
  ip : BitVec 32
  hop : BitVec 32
  /-- the address whose text is in `ipbuf` -/
  ipbuf : BitVec 32
  seq : Nat
  sent : Nat
  recv : Nat
  deadline : BitVec 32
  t0 : BitVec 32
  out : List PingLine

/-- `(int32_t)(tick - deadline) < 0` -/
def Ping.waits (p : Ping) : Bool := (p.net.tick - p.deadline).msb

/-- the reply to this round's request is here -/
def Ping.replied (p : Ping) : Bool := p.net.pingGotReply && p.net.pingReplySeq = p.seq

/-- the statement at `pc`; a `hlt` and the end are not left here -/
def Ping.stmt (p : Ping) : Ping :=
  match p.pc with
  | .entry =>
    match p.args.bind parseIp with
    | none => { p with out := p.out ++ [.usage], pc := .done }
    | some ip =>
      if ¬ p.net.nic.nicPresent then { p with out := p.out ++ [.noCard], pc := .done }
      else
        let ip := BitVec.ofNat 32 ip
        { p with ip := ip, ipbuf := ip, out := p.out ++ [.start ip], seq := 1, pc := .round }
  | .round =>
    if p.seq ≤ 4 then
      { p with hop := Net.ipNextHop p.net.host p.ip, deadline := p.net.tick + 100, pc := .arpTest }
    else { p with out := p.out ++ [.summary p.sent p.recv], pc := .done }
  | .arpTest => if p.waits then { p with pc := .arpPoll } else { p with pc := .noArp }
  | .arpPoll => { p with net := p.net.netPoll, pc := .arpLookup }
  | .arpLookup =>
    let r := p.net.arpLookup p.hop
    { p with net := r.2, pc := if r.1.isSome then .echo else .arpHlt }
  | .noArp => { p with out := p.out ++ [.noResponse p.ipbuf], seq := p.seq + 1, pc := .round }
  | .echo =>
    { p with
      net := { p.net with pingGotReply := false }.icmpPing p.ip p.seq
      t0 := p.net.tick
      sent := p.sent + 1
      deadline := p.net.tick + 50
      pc := .echoTest }
  | .echoTest => if p.waits then { p with pc := .echoPoll } else { p with pc := .report }
  | .echoPoll => { p with net := p.net.netPoll, pc := .echoCheck }
  | .echoCheck => if p.replied then { p with pc := .report } else { p with pc := .echoHlt }
  | .report =>
    if p.replied then
      let src := BitVec.ofNat 32 p.net.pingReplyFrom
      { p with
        recv := p.recv + 1
        ipbuf := src
        out := p.out ++ [.reply src p.seq ((p.net.tick - p.t0) * 20)]
        seq := p.seq + 1
        pc := .round }
    else { p with out := p.out ++ [.timeout p.seq], seq := p.seq + 1, pc := .round }
  | .arpHlt | .echoHlt | .done => p

/-- the interrupts that come in at a statement: the timer's, the card's with the frames it has, or one
that only ends a `hlt` -/
structure Irqs where
  timer : Bool
  frames : List (List Byte)
  other : Bool

def Irqs.any (e : Irqs) : Bool := e.timer || !e.frames.isEmpty || e.other

/-- the handlers: `tick++`, and the frames that the ring has room for -/
def NetState.irqs (s : NetState) (e : Irqs) : NetState :=
  { s with
    tick := if e.timer then s.tick + 1 else s.tick
    nic := { s.nic with
      swRing := s.nic.swRing ++ e.frames.take (Net.Rx.SW_RING - 1 - s.nic.swRing.length) } }

/-- the processor takes interrupts when IF is on -/
def Ping.irqs (p : Ping) (e : Irqs) : Ping := if p.net.ifOn then { p with net := p.net.irqs e } else p

/-- where a `hlt` goes on -/
def PingPc.woken : PingPc → Option PingPc
  | .arpHlt => some .arpTest
  | .echoHlt => some .echoTest
  | _ => none

/-- a statement with the interrupts after it; a `hlt` waits for one -/
def Ping.step (p : Ping) (e : Irqs) : Option Ping :=
  match p.pc.woken with
  | some pc => some (if p.net.ifOn && e.any then { p.irqs e with pc := pc } else p)
  | none => some (p.stmt.irqs e)

/-- the call from the keyboard interrupt -/
def Ping.start (args : Option (List Char)) (s : NetState) : Ping :=
  { pc := .entry, net := { s with ifOn := false }, args := args, ip := 0, hop := 0, ipbuf := 0
    seq := 0, sent := 0, recv := 0, deadline := 0, t0 := 0, out := [] }

/-! ## what the command owes -/

def HltOn (p : Ping) (_ : Irqs) (_ : Ping) : Prop := p.pc.woken.isSome = true → p.net.ifOn = true

/-- ticks for four rounds: 100 and 50 for the waits, and some for the statements -/
def pingTicks : Nat := 4 * (100 + 50 + 10)

/-- how many timer interrupts there are -/
def timerIrqs (es : List Irqs) : Nat := es.countP (·.timer)

/-- every `hlt` is executed with interrupts on, and the command returns after its ticks -/
structure Ends (p : Ping) : Prop where
  hlt : ∀ es, Always (stepOf Ping.step) HltOn p es
  returns : ∀ es q, exec Ping.step p es = some q → pingTicks ≤ timerIrqs es → q.pc = .done

/-- the argument is no address, there is no card, or the frames in the ring speak -/
def Transmits (args : Option (List Char)) (s : NetState) : Prop :=
  ∀ ip, args.bind parseIp = some ip → s.nic.nicPresent = true →
    Speaks (Net.ipNextHop s.host (BitVec.ofNat 32 ip)) s.ear s.nic.swRing

section
variable {p q : Ping} {e : Irqs} {s : NetState} {args : Option (List Char)}

/-! ## interrupts -/

theorem Ping.irqs_off (h : p.net.ifOn = false) : p.irqs e = p := by
  unfold Ping.irqs
  rw [h]
  rfl

theorem Ping.irqs_on (h : p.net.ifOn = true) : p.irqs e = { p with net := p.net.irqs e } := by
  unfold Ping.irqs
  rw [if_pos h]

theorem Ping.irqs_ifOn : (p.irqs e).net.ifOn = p.net.ifOn := by
  unfold Ping.irqs
  split <;> rfl

theorem Ping.irqs_pc : (p.irqs e).pc = p.pc := by
  unfold Ping.irqs
  split <;> rfl

theorem Ping.irqs_seq : (p.irqs e).seq = p.seq := by
  unfold Ping.irqs
  split <;> rfl

theorem Ping.step_hlt {pc : PingPc} (hpc : p.pc.woken = some pc) :
    p.step e = some (if p.net.ifOn && e.any then { p.irqs e with pc := pc } else p) := by
  unfold Ping.step
  rw [hpc]

theorem Ping.step_stmt (hpc : p.pc.woken = none) : p.step e = some (p.stmt.irqs e) := by
  unfold Ping.step
  rw [hpc]

/-! ## the interrupts come on in time -/

/-- IF is on, or the command is on the way to its first transmission -/
def Ping.Ready (p : Ping) : Prop :=
  p.net.ifOn = true ∨
    match p.pc with
    | .entry => Transmits p.args p.net
    | .round => p.net.nic.nicPresent = true ∧ p.seq ≤ 4 ∧
        Speaks (Net.ipNextHop p.net.host p.ip) p.net.ear p.net.nic.swRing
    | .arpTest => p.net.nic.nicPresent = true ∧ p.hop = Net.ipNextHop p.net.host p.ip ∧
        p.waits = true ∧ Speaks p.hop p.net.ear p.net.nic.swRing
    | .arpPoll => p.net.nic.nicPresent = true ∧ p.hop = Net.ipNextHop p.net.host p.ip ∧
        Speaks p.hop p.net.ear p.net.nic.swRing
    | .arpLookup => p.net.nic.nicPresent = true ∧ p.hop = Net.ipNextHop p.net.host p.ip ∧
        p.net.Reaches p.hop
    | .echo => p.net.nic.nicPresent = true ∧ p.net.Reaches (Net.ipNextHop p.net.host p.ip)
    | .done => True
    | _ => False

/-- no statement turns the interrupts off -/
theorem Ping.stmt_on (p : Ping) (h : p.net.ifOn = true) : p.stmt.net.ifOn = true := by
  unfold Ping.stmt
  split
  · split
    · exact h
    · split <;> exact h
  · split <;> exact h
  · split <;> exact h
  · exact p.net.netPoll_keeps.on h
  · exact (p.net.arpLookup_keeps p.hop).on h
  · exact h
  · exact (NetState.ipSend_keeps { p.net with pingGotReply := false } _ _ _ _).on h
  · split <;> exact h
  · exact p.net.netPoll_keeps.on h
  · split <;> exact h
  · split <;> exact h
  · exact h
  · exact h
  · exact h

/-- a wait that was just set up -/
theorem waits_soon (t : BitVec 32) : (t - (t + 100)).msb = true := by
  rw [BitVec.msb_eq_decide, decide_eq_true_eq]
  bv_omega

theorem Ping.Ready.stmt (h : p.Ready) : p.stmt.Ready := by
  by_cases hon : p.net.ifOn = true
  · exact .inl (p.stmt_on hon)
  have hoff : p.net.ifOn = false := by simpa using hon
  obtain ⟨pc, net, args, ip, hop, ipbuf, seq, sent, recv, deadline, t0, out⟩ := p
  have hr := h.resolve_left hon
  cases pc with
  | entry =>
    unfold Ping.stmt
    cases hip : args.bind parseIp with
    | none =>
      exact .inr trivial
    | some a =>
      simp only
      by_cases hp : net.nic.nicPresent = true
      · rw [if_neg (not_not.mpr hp)]
        exact .inr ⟨hp, show 1 ≤ 4 by omega, hr a hip hp⟩
      · rw [if_pos hp]
        exact .inr trivial
  | round =>
    obtain ⟨hp, hseq, hs⟩ := hr
    unfold Ping.stmt
    simp only
    rw [if_pos hseq]
    exact .inr ⟨hp, rfl, waits_soon _, hs⟩
  | arpTest =>
    obtain ⟨hp, hhop, hw, hs⟩ := hr
    unfold Ping.stmt
    simp only
    rw [if_pos hw]
    exact .inr ⟨hp, hhop, hs⟩
  | arpPoll =>
    obtain ⟨hp, hhop, hs⟩ := hr
    rcases (NetState.speaks_iff hop hp hoff).mp hs with hsend | hreach
    · exact .inl hsend
    · have hk := net.netPoll_keeps
      exact .inr ⟨hk.present.trans hp, hhop.trans (hk.hop ip).symm, hreach⟩
  | arpLookup =>
    obtain ⟨hp, hhop, hreach⟩ := hr
    unfold Ping.stmt
    simp only
    cases hc : Net.arpLookup net.host hop with
    | none =>
      have ha : net.mayAsk = true := hreach.resolve_left fun hx => by
        rw [hc] at hx
        cases hx
      exact .inl (NetState.arpLookup_asks hp hc ha).2
    | some mac =>
      rw [NetState.arpLookup_some hc]
      refine .inr ⟨hp, ?_⟩
      rw [← show hop = Net.ipNextHop net.host ip from hhop]
      exact .inl (by rw [hc]; rfl)
  | echo =>
    obtain ⟨hp, hreach⟩ := hr
    refine .inl ?_
    exact NetState.ipSend_on (s := { net with pingGotReply := false }) _ _ hp (by omega) hreach
  | done => exact .inr trivial
  | _ => exact hr.elim

theorem Ping.Ready.irqs (h : p.Ready) : (p.irqs e).Ready := by
  by_cases hon : p.net.ifOn = true
  · exact .inl (Ping.irqs_ifOn.trans hon)
  · rw [Ping.irqs_off (by simpa using hon)]
    exact h

theorem Ping.Ready.hltOn (h : p.Ready) (hpc : p.pc.woken.isSome = true) : p.net.ifOn = true := by
  rcases h with hon | hr
  · exact hon
  · cases hq : p.pc <;> rw [hq] at hr hpc <;> first | exact hr.elim | cases hpc

theorem Ping.Ready.step (h : p.Ready) (hs : p.step e = some q) : HltOn p e q ∧ q.Ready := by
  refine ⟨h.hltOn, ?_⟩
  cases hpc : p.pc.woken with
  | none =>
    rw [Ping.step_stmt hpc] at hs
    cases hs
    exact h.stmt.irqs
  | some pc =>
    have hon := h.hltOn (by rw [hpc]; rfl)
    rw [Ping.step_hlt hpc] at hs
    cases hs
    split
    · exact .inl (Ping.irqs_ifOn.trans hon)
    · exact .inl hon

/-! ## how many ticks are left -/

/-- the statements and the `hlt` of a wait -/
def PingPc.timed : PingPc → Bool
  | .arpTest | .arpPoll | .arpLookup | .arpHlt => true
  | .echoTest | .echoPoll | .echoCheck | .echoHlt => true
  | _ => false

/-- how far from the deadline, plus 3, a statement of a wait is at least -/
def PingPc.low : PingPc → Nat
  | .arpPoll | .echoPoll => 3
  | .arpLookup | .echoCheck => 2
  | .arpHlt | .echoHlt => 1
  | _ => 0

/-- the statements to the first transmission, while no tick is counted -/
def PingPc.slack : PingPc → Nat
  | .entry => 6
  | .round => 5
  | .arpTest => 4
  | .arpPoll => 3
  | .arpLookup => 2
  | .echo => 1
  | _ => 0

/-- ticks to the deadline, plus the 3 that may pass behind it -/
def Ping.ahead (p : Ping) : Nat := (p.deadline + 3 - p.net.tick).toNat

/-- a round takes at most this -/
def roundTicks : Nat := 158

/-- what the rounds after this one take -/
def Ping.later (p : Ping) : Nat := 1 + roundTicks * (4 - p.seq)

/-- the ticks that are left, but for those of the wait that is going on -/
def Ping.base (p : Ping) : Nat :=
  match p.pc with
  | .entry => 2 + roundTicks * 4
  | .round => 1 + roundTicks * (5 - p.seq)
  | .arpTest | .arpPoll | .arpLookup | .arpHlt | .echo => p.later + 55
  | .echoTest | .echoPoll | .echoCheck | .echoHlt => p.later + 2
  | .noArp | .report => p.later + 1
  | .done => 0

/-- ticks that may still come before the command returns, when IF is on -/
def Ping.due (p : Ping) : Nat := p.base + if p.pc.timed then p.ahead else 0

def Ping.left (p : Ping) : Nat := p.due + if p.net.ifOn then 0 else p.pc.slack

/-- in a wait the deadline is near, `k` ticks more than the statement needs -/
structure Ping.Paced (p : Ping) (k : Nat) : Prop where
  near : p.pc.timed = true → p.pc.low + k ≤ p.ahead ∧ p.ahead ≤ 103
  seq : p.pc ≠ .entry → p.pc ≠ .round → p.pc ≠ .done → p.seq ≤ 4

/-- the test of a wait -/
theorem Ping.waits_iff (h : p.ahead ≤ 103) : p.waits = true ↔ 4 ≤ p.ahead := by
  unfold Ping.waits Ping.ahead at *
  rw [BitVec.msb_eq_decide, decide_eq_true_eq]
  bv_omega

/-- a tick brings the deadline nearer -/
theorem ahead_tick {d t : BitVec 32} (h : 1 ≤ (d + 3 - t).toNat) :
    (d + 3 - (t + 1)).toNat + 1 = (d + 3 - t).toNat := by
  bv_omega

theorem ahead_set (t : BitVec 32) : (t + 100 + 3 - t).toNat = 103 ∧ (t + 50 + 3 - t).toNat = 53 := by
  constructor <;> bv_omega

/-- interrupts that are taken in a wait -/
theorem Ping.irqs_ahead (hon : p.net.ifOn = true) (h : 1 ≤ p.ahead) :
    (p.irqs e).ahead + (if e.timer then 1 else 0) = p.ahead := by
  rw [Ping.irqs_on hon]
  show (p.deadline + 3 - (if e.timer then p.net.tick + 1 else p.net.tick)).toNat + _ = _
  by_cases ht : e.timer = true
  · rw [if_pos ht, if_pos ht]
    exact ahead_tick h
  · rw [if_neg ht, if_neg ht]
    rfl

/-- a statement of the command, and what it takes off -/
structure Ping.Paid (p r : Ping) : Prop where
  paced : r.Paced 1
  cost : r.left + (if r.net.ifOn && r.pc.timed then 0 else 1) ≤ p.left

/-- what is left goes down by the tick that may follow, and by the slack while IF is off -/
theorem Ping.Paid.of {r : Ping} {pc : PingPc} (pc' : PingPc) (hq : p.pc = pc) (hr : r.pc = pc')
    (hp : r.Paced 1) (hon : p.net.ifOn = true → r.net.ifOn = true)
    (hb : r.due + (if pc'.timed then 0 else 1) ≤ p.due)
    (hs : p.net.ifOn = false → pc'.slack + (if pc'.timed then 1 else 0) ≤ pc.slack) :
    p.Paid r := by
  refine ⟨hp, ?_⟩
  unfold Ping.left
  rw [hq, hr]
  cases hon' : r.net.ifOn with
  | true =>
    cases ht : pc'.timed <;> simp only [ht, Bool.false_eq_true, if_true, if_false, Bool.true_and]
      at hb ⊢ <;> omega
  | false =>
    have hoff : p.net.ifOn = false := by
      cases hx : p.net.ifOn with
      | false => rfl
      | true => exact absurd (hon hx) (by rw [hon']; exact Bool.false_ne_true)
    have hs' := hs hoff
    rw [hoff]
    cases ht : pc'.timed <;> simp only [ht, Bool.false_eq_true, if_true, if_false, Bool.false_and]
      at hb hs' ⊢ <;> omega

/-- what is due at a statement -/
theorem Ping.due_eq {pc : PingPc} (hq : p.pc = pc) :
    p.due = { p with pc := pc }.base + if pc.timed then p.ahead else 0 := by
  subst hq
  rfl

/-- to the next statement of the same wait -/
theorem Ping.Paid.within {r : Ping} {pc : PingPc} (pc' : PingPc) (h : p.Paced 0) (hq : p.pc = pc)
    (hr : r.pc = pc') (hon : p.net.ifOn = true → r.net.ifOn = true) (ht : pc.timed = true)
    (ht' : pc'.timed = true) (hahead : r.ahead = p.ahead) (hseq : r.seq = p.seq ∧ p.seq ≤ 4)
    (hlow : pc'.low + 1 ≤ p.ahead) (hbase : r.base = p.base)
    (hs : p.net.ifOn = false → pc'.slack + 1 ≤ pc.slack) : p.Paid r := by
  have hn := h.near (by rw [hq, ht])
  refine .of pc' hq hr ⟨fun _ => ?_, fun _ _ _ => ?_⟩ hon ?_ fun ho => ?_
  · rw [hr, hahead]
    exact ⟨hlow, hn.2⟩
  · rw [hseq.1]
    exact hseq.2
  · unfold Ping.due
    rw [hr, hq, ht, ht', hahead, hbase]
    exact le_refl _
  · rw [ht']
    exact hs ho

/-- to a statement outside the waits -/
theorem Ping.Paid.outside {r : Ping} {pc : PingPc} (pc' : PingPc) (hq : p.pc = pc)
    (hr : r.pc = pc') (hon : p.net.ifOn = true → r.net.ifOn = true) (ht' : pc'.timed = false)
    (hseq : r.pc ≠ .entry → r.pc ≠ .round → r.pc ≠ .done → r.seq ≤ 4) (hb : r.base + 1 ≤ p.due)
    (hs : p.net.ifOn = false → pc'.slack ≤ pc.slack) : p.Paid r := by
  refine .of pc' hq hr ⟨fun ht => ?_, hseq⟩ hon ?_ fun ho => ?_
  · rw [hr, ht'] at ht
    exact absurd ht Bool.false_ne_true
  · unfold Ping.due
    rw [hr, ht']
    exact hb
  · rw [ht']
    exact hs ho

/-- after the first transmission IF is on -/
theorem Ping.Ready.on (hr : p.Ready) (hpc : p.pc = .noArp ∨ p.pc = .echoTest ∨ p.pc = .echoPoll ∨
    p.pc = .echoCheck ∨ p.pc = .report) : p.net.ifOn = true := by
  rcases hr with hon | hr
  · exact hon
  · rcases hpc with hc | hc | hc | hc | hc <;> rw [hc] at hr <;> exact hr.elim

theorem Ping.Paced.stmt_entry (hq : p.pc = .entry) : p.Paid p.stmt := by
  have hon := p.stmt_on
  have hdue : p.due = 2 + roundTicks * 4 + 0 := p.due_eq hq
  unfold Ping.stmt at hon ⊢
  rw [hq] at hon ⊢
  cases hip : p.args.bind parseIp with
  | none =>
    simp only [hip] at hon ⊢
    refine .outside .done hq rfl hon rfl (fun _ _ hc => absurd rfl hc) ?_ fun _ => by decide
    show 0 + 1 ≤ p.due
    omega
  | some a =>
    simp only [hip] at hon ⊢
    by_cases hp : p.net.nic.nicPresent = true
    · rw [if_neg (not_not.mpr hp)] at hon ⊢
      refine .outside .round hq rfl hon rfl (fun _ hc => absurd rfl hc) ?_ fun _ => by decide
      show 1 + roundTicks * (5 - 1) + 1 ≤ p.due
      omega
    · rw [if_pos hp] at hon ⊢
      refine .outside .done hq rfl hon rfl (fun _ _ hc => absurd rfl hc) ?_ fun _ => by decide
      show 0 + 1 ≤ p.due
      omega

theorem Ping.Paced.stmt_round (hq : p.pc = .round) : p.Paid p.stmt := by
  have hon := p.stmt_on
  have hdue : p.due = 1 + roundTicks * (5 - p.seq) + 0 := p.due_eq hq
  have hset := (ahead_set p.net.tick).1
  unfold Ping.stmt at hon ⊢
  rw [hq] at hon ⊢
  simp only at hon ⊢
  by_cases hs : p.seq ≤ 4
  · rw [if_pos hs] at hon ⊢
    refine .of .arpTest hq rfl ⟨fun _ => ?_, fun _ _ _ => hs⟩ hon ?_ fun _ => by decide
    · show 0 + 1 ≤ (p.net.tick + 100 + 3 - p.net.tick).toNat ∧
        (p.net.tick + 100 + 3 - p.net.tick).toNat ≤ 103
      omega
    · show p.later + 55 + (p.net.tick + 100 + 3 - p.net.tick).toNat + 0 ≤ p.due
      unfold Ping.later roundTicks at *
      omega
  · rw [if_neg hs] at hon ⊢
    refine .outside .done hq rfl hon rfl (fun _ _ hc => absurd rfl hc) ?_ fun _ => by decide
    show 0 + 1 ≤ p.due
    omega

/-- the end of a round, with or without an answer -/
theorem Ping.due_round (hq : p.pc = .noArp ∨ p.pc = .report) :
    1 + roundTicks * (5 - (p.seq + 1)) + 1 ≤ p.due := by
  have hdue : p.due = p.later + 1 + 0 := by
    rcases hq with hq | hq
    · exact p.due_eq hq
    · exact p.due_eq hq
  unfold Ping.later roundTicks at *
  omega

/-! ## the loop that asks for the address -/

theorem Ping.Paced.stmt_arpTest (h : p.Paced 0) (hq : p.pc = .arpTest) : p.Paid p.stmt := by
  have hon := p.stmt_on
  have hs : p.seq ≤ 4 := h.seq (by rw [hq]; nofun) (by rw [hq]; nofun) (by rw [hq]; nofun)
  have hn := h.near (by rw [hq]; rfl)
  have hdue : p.due = p.later + 55 + p.ahead := p.due_eq hq
  have hbase : p.base = p.later + 55 := by unfold Ping.base; rw [hq]
  unfold Ping.stmt at hon ⊢
  rw [hq] at hon ⊢
  simp only at hon ⊢
  by_cases hw : p.waits = true
  · rw [if_pos hw] at hon ⊢
    exact .within .arpPoll h hq rfl hon rfl rfl rfl ⟨rfl, hs⟩ ((Ping.waits_iff hn.2).mp hw)
      hbase.symm fun _ => by decide
  · rw [if_neg hw] at hon ⊢
    refine .outside .noArp hq rfl hon rfl (fun _ _ _ => hs) ?_ fun _ => by decide
    show p.later + 1 + 1 ≤ p.due
    omega

theorem Ping.Paced.stmt_arpPoll (h : p.Paced 0) (hq : p.pc = .arpPoll) : p.Paid p.stmt := by
  have hon := p.stmt_on
  have hs : p.seq ≤ 4 := h.seq (by rw [hq]; nofun) (by rw [hq]; nofun) (by rw [hq]; nofun)
  have hn := h.near (by rw [hq]; rfl)
  have hbase : p.base = p.later + 55 := by unfold Ping.base; rw [hq]
  have ha : (p.deadline + 3 - p.net.netPoll.tick).toNat = p.ahead := by
    rw [p.net.netPoll_keeps.tick]
    rfl
  unfold Ping.stmt at hon ⊢
  rw [hq] at hon hn ⊢
  exact .within .arpLookup h hq rfl hon rfl rfl ha ⟨rfl, hs⟩ hn.1 hbase.symm fun _ => by decide

theorem Ping.Paced.stmt_arpLookup (h : p.Paced 0) (hq : p.pc = .arpLookup) : p.Paid p.stmt := by
  have hon := p.stmt_on
  have hs : p.seq ≤ 4 := h.seq (by rw [hq]; nofun) (by rw [hq]; nofun) (by rw [hq]; nofun)
  have hn := h.near (by rw [hq]; rfl)
  have hdue : p.due = p.later + 55 + p.ahead := p.due_eq hq
  have hbase : p.base = p.later + 55 := by unfold Ping.base; rw [hq]
  have ha : (p.deadline + 3 - (p.net.arpLookup p.hop).2.tick).toNat = p.ahead := by
    rw [(p.net.arpLookup_keeps p.hop).tick]
    rfl
  unfold Ping.stmt at hon ⊢
  rw [hq] at hon hn ⊢
  simp only at hon ⊢
  have h2 : 2 ≤ p.ahead := hn.1
  by_cases hm : (p.net.arpLookup p.hop).1.isSome = true
  · rw [if_pos hm]
    refine .outside .echo hq rfl hon rfl (fun _ _ _ => hs) ?_ fun _ => by decide
    show p.later + 55 + 1 ≤ p.due
    omega
  · rw [if_neg hm]
    exact .within .arpHlt h hq rfl hon rfl rfl ha ⟨rfl, hs⟩ h2 hbase.symm fun _ => by decide

/-! ## the echo request, and the loop that waits for its reply -/

theorem Ping.Paced.stmt_echo (h : p.Paced 0) (hq : p.pc = .echo) : p.Paid p.stmt := by
  have hon := p.stmt_on
  have hdue : p.due = p.later + 55 + 0 := p.due_eq hq
  have hs := h.seq (by rw [hq]; nofun) (by rw [hq]; nofun) (by rw [hq]; nofun)
  have ht := (NetState.ipSend_keeps { p.net with pingGotReply := false } p.ip Net.IP_PROTO_ICMP
    (echoRequest p.seq) 16).tick
  have ha : (p.net.tick + 50 + 3 -
      ({ p.net with pingGotReply := false }.icmpPing p.ip p.seq).tick).toNat = 53 := by
    unfold NetState.icmpPing
    rw [ht]
    exact (ahead_set p.net.tick).2
  unfold Ping.stmt at hon ⊢
  rw [hq] at hon ⊢
  refine .of .echoTest hq rfl ⟨fun _ => ?_, fun _ _ _ => hs⟩ hon ?_ fun _ => by decide
  · show 0 + 1 ≤ (p.net.tick + 50 + 3 - _).toNat ∧ (p.net.tick + 50 + 3 - _).toNat ≤ 103
    rw [ha]
    omega
  · show p.later + 2 + (p.net.tick + 50 + 3 - _).toNat + 0 ≤ p.due
    rw [ha]
    omega

/-- with interrupts on, nothing has to be shown for the case that they are off -/
theorem Ping.not_off (hi : p.net.ifOn = true) {a b : Nat} : p.net.ifOn = false → a ≤ b :=
  fun ho => absurd hi (by rw [ho]; nofun)

theorem Ping.Paced.stmt_echoTest (h : p.Paced 0) (hi : p.net.ifOn = true) (hq : p.pc = .echoTest) :
    p.Paid p.stmt := by
  have hon := p.stmt_on
  have hs : p.seq ≤ 4 := h.seq (by rw [hq]; nofun) (by rw [hq]; nofun) (by rw [hq]; nofun)
  have hn := h.near (by rw [hq]; rfl)
  have hdue : p.due = p.later + 2 + p.ahead := p.due_eq hq
  have hbase : p.base = p.later + 2 := by unfold Ping.base; rw [hq]
  unfold Ping.stmt at hon ⊢
  rw [hq] at hon ⊢
  simp only at hon ⊢
  by_cases hw : p.waits = true
  · rw [if_pos hw] at hon ⊢
    exact .within .echoPoll h hq rfl hon rfl rfl rfl ⟨rfl, hs⟩ ((Ping.waits_iff hn.2).mp hw)
      hbase.symm (Ping.not_off hi)
  · rw [if_neg hw] at hon ⊢
    refine .outside .report hq rfl hon rfl (fun _ _ _ => hs) ?_ (Ping.not_off hi)
    show p.later + 1 + 1 ≤ p.due
    omega

theorem Ping.Paced.stmt_echoPoll (h : p.Paced 0) (hi : p.net.ifOn = true) (hq : p.pc = .echoPoll) :
    p.Paid p.stmt := by
  have hon := p.stmt_on
  have hs : p.seq ≤ 4 := h.seq (by rw [hq]; nofun) (by rw [hq]; nofun) (by rw [hq]; nofun)
  have hn := h.near (by rw [hq]; rfl)
  have hbase : p.base = p.later + 2 := by unfold Ping.base; rw [hq]
  have ha : (p.deadline + 3 - p.net.netPoll.tick).toNat = p.ahead := by
    rw [p.net.netPoll_keeps.tick]
    rfl
  unfold Ping.stmt at hon ⊢
  rw [hq] at hon hn ⊢
  exact .within .echoCheck h hq rfl hon rfl rfl ha ⟨rfl, hs⟩ hn.1 hbase.symm (Ping.not_off hi)

theorem Ping.Paced.stmt_echoCheck (h : p.Paced 0) (hi : p.net.ifOn = true) (hq : p.pc = .echoCheck) :
    p.Paid p.stmt := by
  have hon := p.stmt_on
  have hs : p.seq ≤ 4 := h.seq (by rw [hq]; nofun) (by rw [hq]; nofun) (by rw [hq]; nofun)
  have hn := h.near (by rw [hq]; rfl)
  have hdue : p.due = p.later + 2 + p.ahead := p.due_eq hq
  have hbase : p.base = p.later + 2 := by unfold Ping.base; rw [hq]
  unfold Ping.stmt at hon ⊢
  rw [hq] at hon hn ⊢
  simp only at hon ⊢
  have h2 : 2 ≤ p.ahead := hn.1
  by_cases hw : p.replied = true
  · rw [if_pos hw] at hon ⊢
    refine .outside .report hq rfl hon rfl (fun _ _ _ => hs) ?_ (Ping.not_off hi)
    show p.later + 1 + 1 ≤ p.due
    omega
  · rw [if_neg hw] at hon ⊢
    exact .within .echoHlt h hq rfl hon rfl rfl rfl ⟨rfl, hs⟩ h2 hbase.symm (Ping.not_off hi)

theorem Ping.Paced.stmt_end (hi : p.net.ifOn = true) (hq : p.pc = .noArp ∨ p.pc = .report) :
    p.Paid p.stmt := by
  have hon := p.stmt_on
  have hb := p.due_round hq
  have hoff {a b : Nat} : p.net.ifOn = false → a ≤ b := fun ho => absurd hi (by rw [ho]; nofun)
  unfold Ping.stmt at hon ⊢
  rcases hq with hq | hq
  · rw [hq] at hon ⊢
    exact .outside .round hq rfl hon rfl (fun _ hc => absurd rfl hc) hb hoff
  · rw [hq] at hon ⊢
    simp only at hon ⊢
    by_cases hw : p.replied = true
    · rw [if_pos hw] at hon ⊢
      exact .outside .round hq rfl hon rfl (fun _ hc => absurd rfl hc) hb hoff
    · rw [if_neg hw] at hon ⊢
      exact .outside .round hq rfl hon rfl (fun _ hc => absurd rfl hc) hb hoff

/-- **every statement pays for the tick that may follow it** -/
theorem Ping.Paced.stmt (h : p.Paced 0) (hr : p.Ready) (hpc : p.pc.woken = none)
    (hd : p.pc ≠ .done) : p.Paid p.stmt := by
  cases hq : p.pc with
  | entry => exact Ping.Paced.stmt_entry hq
  | round => exact Ping.Paced.stmt_round hq
  | arpTest => exact h.stmt_arpTest hq
  | arpPoll => exact h.stmt_arpPoll hq
  | arpLookup => exact h.stmt_arpLookup hq
  | noArp => exact Ping.Paced.stmt_end (hr.on (.inl hq)) (.inl hq)
  | echo => exact h.stmt_echo hq
  | echoTest => exact h.stmt_echoTest (hr.on (.inr (.inl hq))) hq
  | echoPoll => exact h.stmt_echoPoll (hr.on (.inr (.inr (.inl hq)))) hq
  | echoCheck => exact h.stmt_echoCheck (hr.on (.inr (.inr (.inr (.inl hq))))) hq
  | report => exact Ping.Paced.stmt_end (hr.on (.inr (.inr (.inr (.inr hq))))) (.inr hq)
  | done => exact absurd hq hd
  | arpHlt | echoHlt =>
    rw [hq] at hpc
    cases hpc

/-! ## one event -/

/-- the interrupts after a statement take what it has paid for -/
theorem Ping.Paid.irqs {r : Ping} (h : p.Paid r) :
    (r.irqs e).Paced 0 ∧ (r.irqs e).left + (if e.timer then 1 else 0) ≤ p.left := by
  obtain ⟨⟨hnear, hseq⟩, hcost⟩ := h
  cases hon : r.net.ifOn with
  | false =>
    rw [Ping.irqs_off hon]
    rw [hon] at hcost
    refine ⟨⟨fun ht => ?_, hseq⟩, ?_⟩
    · have := hnear ht
      omega
    · have ht : (if e.timer then 1 else 0) ≤ 1 := by split <;> omega
      have hc : r.left + 1 ≤ p.left := hcost
      omega
  | true =>
    have hbase : (r.irqs e).base = r.base := by
      unfold Ping.base Ping.later
      rw [Ping.irqs_pc, Ping.irqs_seq]
    have hseq' : (r.irqs e).pc ≠ .entry → (r.irqs e).pc ≠ .round → (r.irqs e).pc ≠ .done →
        (r.irqs e).seq ≤ 4 := by
      rw [Ping.irqs_pc, Ping.irqs_seq]
      exact hseq
    unfold Ping.left Ping.due at hcost ⊢
    rw [Ping.irqs_pc, Ping.irqs_ifOn, hbase, hon, if_pos rfl]
    rw [hon, if_pos rfl, Bool.true_and] at hcost
    cases ht : r.pc.timed with
    | false =>
      rw [ht] at hcost
      refine ⟨⟨fun hc => ?_, hseq'⟩, ?_⟩
      · rw [Ping.irqs_pc, ht] at hc
        exact absurd hc Bool.false_ne_true
      · have he : (if e.timer then 1 else 0) ≤ 1 := by split <;> omega
        have hc : r.base + 0 + 0 + 1 ≤ (p.base + if p.pc.timed then p.ahead else 0) +
          if p.net.ifOn then 0 else p.pc.slack := hcost
        simp only [Bool.false_eq_true, if_false]
        omega
    | true =>
      rw [ht] at hcost
      have hn := hnear ht
      have ha := Ping.irqs_ahead (e := e) hon (by omega)
      refine ⟨⟨fun _ => ?_, hseq'⟩, ?_⟩
      · rw [Ping.irqs_pc]
        have he : (if e.timer then 1 else 0) ≤ 1 := by split <;> omega
        omega
      · have hc : r.base + r.ahead + 0 + 0 ≤ (p.base + if p.pc.timed then p.ahead else 0) +
          if p.net.ifOn then 0 else p.pc.slack := hcost
        simp only [if_true]
        omega

/-- a `hlt` that is left, to the test of its wait -/
theorem Ping.Paced.woken {pc : PingPc} (h : p.Paced 0) (hpc : p.pc.woken = some pc)
    (hon : p.net.ifOn = true) : { p.irqs e with pc := pc }.Paced 0 ∧
      { p.irqs e with pc := pc }.left + (if e.timer then 1 else 0) ≤ p.left := by
  have hq : p.pc = .arpHlt ∧ pc = .arpTest ∨ p.pc = .echoHlt ∧ pc = .echoTest := by
    unfold PingPc.woken at hpc
    split at hpc
    · exact .inl ⟨‹_›, (Option.some.inj hpc).symm⟩
    · exact .inr ⟨‹_›, (Option.some.inj hpc).symm⟩
    · cases hpc
  have hlow : 1 ≤ p.ahead ∧ p.ahead ≤ 103 := by
    rcases hq with ⟨hq, -⟩ | ⟨hq, -⟩ <;> simpa [hq, PingPc.timed, PingPc.low] using h.near
  have hs : p.seq ≤ 4 := by
    rcases hq with ⟨hq, -⟩ | ⟨hq, -⟩ <;> exact h.seq (by rw [hq]; nofun) (by rw [hq]; nofun)
      (by rw [hq]; nofun)
  have ha := Ping.irqs_ahead (e := e) hon hlow.1
  have hon' : (p.irqs e).net.ifOn = true := Ping.irqs_ifOn.trans hon
  refine ⟨⟨fun _ => ?_, fun _ _ _ => ?_⟩, ?_⟩
  · have hz : pc.low = 0 := by rcases hq with ⟨-, rfl⟩ | ⟨-, rfl⟩ <;> rfl
    show pc.low + 0 ≤ (p.irqs e).ahead ∧ (p.irqs e).ahead ≤ 103
    omega
  · exact Ping.irqs_seq.trans_le hs
  · unfold Ping.left Ping.due Ping.base Ping.later
    rcases hq with ⟨hq, rfl⟩ | ⟨hq, rfl⟩
    · rw [hq, hon, Ping.irqs_seq]
      show 1 + roundTicks * (4 - p.seq) + 55 + (p.irqs e).ahead +
        (if (p.irqs e).net.ifOn then 0 else 4) + _ ≤ 1 + roundTicks * (4 - p.seq) + 55 + p.ahead + 0
      rw [if_pos hon']
      omega
    · rw [hq, hon, Ping.irqs_seq]
      show 1 + roundTicks * (4 - p.seq) + 2 + (p.irqs e).ahead +
        (if (p.irqs e).net.ifOn then 0 else 0) + _ ≤ 1 + roundTicks * (4 - p.seq) + 2 + p.ahead + 0
      rw [if_pos hon']
      omega

/-- the command has returned, or it may take `n` more ticks -/
def Ping.Within (p : Ping) (n : Nat) : Prop := p.pc = .done ∨ (p.Paced 0 ∧ p.left ≤ n)

theorem Ping.Within.step {n : Nat} (h : p.Within n) (hr : p.Ready) (hs : p.step e = some q) :
    q.Within (n - if e.timer then 1 else 0) := by
  cases hpc : p.pc.woken with
  | none =>
    rw [Ping.step_stmt hpc] at hs
    cases hs
    by_cases hd : p.pc = .done
    · refine .inl ?_
      rw [Ping.irqs_pc]
      unfold Ping.stmt
      rw [hd]
      exact hd
    · obtain ⟨hp, hl⟩ := h.resolve_left hd
      obtain ⟨hp', hl'⟩ := (hp.stmt hr hpc hd).irqs (e := e)
      exact .inr ⟨hp', by omega⟩
  | some pc =>
    have hd : p.pc ≠ .done := fun hc => by
      rw [hc] at hpc
      cases hpc
    obtain ⟨hp, hl⟩ := h.resolve_left hd
    have hon := hr.hltOn (by rw [hpc]; rfl)
    rw [Ping.step_hlt hpc, hon, Bool.true_and] at hs
    cases hs
    by_cases ha : e.any = true
    · rw [if_pos ha]
      obtain ⟨hp', hl'⟩ := hp.woken (e := e) hpc hon
      exact .inr ⟨hp', by omega⟩
    · rw [if_neg ha]
      have ht : e.timer = false := by
        unfold Irqs.any at ha
        cases ht : e.timer with
        | false => rfl
        | true =>
          rw [ht] at ha
          exact absurd rfl ha
      rw [ht]
      exact .inr ⟨hp, hl⟩

/-! ## the run -/

theorem Ping.Within.run {n : Nat} (es : List Irqs) (h : p.Within n) (hr : p.Ready)
    (hq : exec Ping.step p es = some q) : q.Within (n - timerIrqs es) := by
  induction es generalizing p n with
  | nil =>
    cases hq
    exact h
  | cons e es ih =>
    obtain ⟨t, ht, hrest⟩ := exec_cons hq
    have := ih (h.step hr ht) (hr.step ht).2 hrest
    have hcount : timerIrqs (e :: es) = timerIrqs es + if e.timer then 1 else 0 := List.countP_cons ..
    rw [hcount, Nat.add_comm, ← Nat.sub_sub]
    exact this

theorem Ping.left_pos (h : p.pc ≠ .done) : 0 < p.left := by
  unfold Ping.left Ping.due Ping.base Ping.later
  cases hq : p.pc <;> first | (exact absurd hq h) | (simp only; omega)

theorem start_paced (args : Option (List Char)) (s : NetState) :
    (Ping.start args s).Within pingTicks :=
  .inr ⟨⟨nofun, fun hc => absurd rfl hc⟩, le_refl _⟩

theorem start_ready (h : Transmits args s) : (Ping.start args s).Ready := .inr h

theorem ends_of_ready (h : (Ping.start args s).Ready) : Ends (Ping.start args s) := by
  refine ⟨fun es => ?_, fun es q hq hn => ?_⟩
  · exact Always.of_inv (I := Ping.Ready) (fun _ _ _ hr hs => hr.step hs) es _ h
  · rcases (start_paced args s).run es h hq with hd | ⟨-, hl⟩
    · exact hd
    · by_contra hd
      have := Ping.left_pos hd
      omega

/-! ## the wait that is never left -/

/-- nothing comes in -/
def quiet : Irqs := ⟨false, [], false⟩

theorem Ping.step_off (hpc : p.pc.woken = none) (hoff : p.stmt.net.ifOn = false) :
    p.step quiet = some p.stmt := by
  rw [Ping.step_stmt hpc, Ping.irqs_off hoff]

/-- if the frames do not speak, the poll and the lookup lead to a `hlt` with IF off -/
theorem Ping.poll_stuck (hpc : p.pc = .arpPoll) (hp : p.net.nic.nicPresent = true)
    (hoff : p.net.ifOn = false) (hs : ¬ Speaks p.hop p.net.ear p.net.nic.swRing) :
    ∃ r, p.step quiet = some r ∧ ∃ u, r.step quiet = some u ∧ u.pc = .arpHlt ∧ u.net.ifOn = false := by
  rw [NetState.speaks_iff p.hop hp hoff] at hs
  obtain ⟨hoff', hreach⟩ := not_or.mp hs
  change ¬ p.net.netPoll.ifOn = true at hoff'
  change ¬ p.net.netPoll.Reaches p.hop at hreach
  have ho : p.net.netPoll.ifOn = false := by simpa using hoff'
  have hstmt : p.stmt = { p with net := p.net.netPoll, pc := .arpLookup } := by
    unfold Ping.stmt
    rw [hpc]
  have hstmt' : p.stmt.stmt = { p with net := p.net.netPoll, pc := .arpHlt } := by
    rw [hstmt]
    unfold Ping.stmt
    simp only
    rw [NetState.arpLookup_waits hreach]
    rfl
  refine ⟨p.stmt, Ping.step_off (by rw [hpc]; rfl) (by rw [hstmt]; exact ho), p.stmt.stmt,
    Ping.step_off (by rw [hstmt]; rfl) (by rw [hstmt']; exact ho), ?_, ?_⟩
  · rw [hstmt']
  · rw [hstmt']
    exact ho

/-- the statements up to the first poll -/
theorem start_poll {a : Nat} (hip : args.bind parseIp = some a) (hp : s.nic.nicPresent = true) :
    ∃ r, exec Ping.step (Ping.start args s) [quiet, quiet, quiet] = some r ∧ r.pc = .arpPoll ∧
      r.hop = Net.ipNextHop s.host (BitVec.ofNat 32 a) ∧ r.net = { s with ifOn := false } := by
  let ip := BitVec.ofNat 32 a
  let p1 : Ping := { Ping.start args s with
    ip := ip, ipbuf := ip, out := [.start ip], seq := 1, pc := .round }
  let p2 : Ping := { p1 with
    hop := Net.ipNextHop s.host ip, deadline := s.tick + 100, pc := .arpTest }
  have h1 : (Ping.start args s).stmt = p1 := by
    unfold Ping.stmt
    show (match args.bind parseIp with
      | none => _
      | some ip => _) = p1
    rw [hip]
    exact if_neg (not_not.mpr hp)
  have h2 : p1.stmt = p2 := rfl
  have h3 : p2.stmt = { p2 with pc := .arpPoll } := if_pos (waits_soon s.tick)
  have e1 : (Ping.start args s).step quiet = some p1 := by
    rw [Ping.step_off rfl (by rw [h1]; rfl), h1]
  have e2 : p1.step quiet = some p2 := Ping.step_off rfl rfl
  have e3 : p2.step quiet = some { p2 with pc := .arpPoll } := by
    rw [Ping.step_off rfl (by rw [h3]; rfl), h3]
  refine ⟨{ p2 with pc := .arpPoll }, ?_, rfl, rfl, rfl⟩
  simp only [exec, e1, e2, e3, Option.bind_some]

/-- a run that comes to a `hlt` with IF off -/
theorem not_always {es : List Irqs} {r : Ping} (h : exec Ping.step p es = some r)
    (hpc : r.pc = .arpHlt) (hoff : r.net.ifOn = false) :
    ¬ Always (stepOf Ping.step) HltOn p (es ++ [quiet]) := by
  have hstep : r.step quiet = some r := by
    have hwoken : r.pc.woken = some .arpTest := by
      rw [hpc]
      rfl
    rw [Ping.step_hlt hwoken, hoff]
    rfl
  refine Always.not_of_exec es (fun t _ => t.pc.woken.isSome && !t.net.ifOn) ?_ ?_
  · intro t u _ hb hh
    simp only [Bool.and_eq_true, Bool.not_eq_true'] at hb
    exact absurd (hh hb.1) (by rw [hb.2]; exact Bool.false_ne_true)
  · rw [h]
    show (r.step quiet).any _ = true
    rw [hstep]
    show (r.pc.woken.isSome && !r.net.ifOn) = true
    rw [hpc, hoff]
    rfl

theorem not_ends {a : Nat} (hip : args.bind parseIp = some a) (hp : s.nic.nicPresent = true)
    (hs : ¬ Speaks (Net.ipNextHop s.host (BitVec.ofNat 32 a)) s.ear s.nic.swRing) :
    ¬ Ends (Ping.start args s) := by
  intro h
  obtain ⟨r, hr, hpc, hhop, hnet⟩ := start_poll hip hp
  have hp' : r.net.nic.nicPresent = true := by rw [hnet]; exact hp
  have hoff : r.net.ifOn = false := by rw [hnet]
  have hs' : ¬ Speaks r.hop r.net.ear r.net.nic.swRing := by
    rw [hhop, hnet]
    exact hs
  obtain ⟨t, ht, u, hu, hpc', hoff'⟩ := Ping.poll_stuck hpc hp' hoff hs'
  have hrun : exec Ping.step (Ping.start args s) ([quiet, quiet, quiet] ++ [quiet, quiet]) =
      some u := by
    rw [exec_append, hr]
    simp only [exec, ht, hu, Option.bind_some]
  exact not_always hrun hpc' hoff' (h.hlt _)

/-- **the command ends, with every `hlt` executed with interrupts on, exactly when it gives up at
once, or the frames that wait (or the address) make it transmit before its first `hlt`** -/
theorem ping_iff (args : Option (List Char)) (s : NetState) :
    Ends (Ping.start args s) ↔ Transmits args s := by
  constructor
  · intro h a hip hp
    by_contra hs
    exact not_ends hip hp hs h
  · intro h
    exact ends_of_ready (start_ready h)

end

/-- a request went out ten ticks ago, the cache and the ring are empty -/
def askedLately : NetState where
  host := ⟨0x0A00020F, 0xFFFFFF00, 0x0A000202, fun _ => ⟨0, fun _ => 0⟩, fun _ => 0⟩
  nic := ⟨fun _ => 0, fun _ => 0x52, true, fun _ => 0, []⟩
  pending := true
  pendingIp := 0x0A000263
  pendingSince := 500
  pingGotReply := false
  pingReplySeq := 0
  pingReplyFrom := 0
  buf := fun _ => 0
  tick := 510
  ifOn := true

/-- PING 10.0.2.2 there **parks with the interrupts off** -/
theorem ping_parks : ¬ ∀ (args : Option (List Char)) (s : NetState), Ends (Ping.start args s) := by
  intro h
  have hip : (some "10.0.2.2".toList).bind parseIp = some 0x0A000202 := by decide
  refine not_ends hip (s := askedLately) rfl ?_ (h _ _)
  show ¬ ((Net.arpLookup askedLately.host _).isSome = true ∨ _ = true)
  decide

end Noxis.Fixes
