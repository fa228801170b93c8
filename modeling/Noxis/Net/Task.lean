import Noxis.Lib.Bytes
import Noxis.Ipc.Proc

/-!
# 25-osfs11/net/main.c: the network task

* `netDoResolve`, `netDoPing`   the two handlers;
* `taskNet`                     one turn of the loop of `task_net`: the messages that it sends;
* `answered_iff`                when every request is answered.

The requests NET_RESOLVE and NET_PING are read, worked on and answered in one `MESSAGE`.  Before the
reply to NET_RESOLVE the message is cleared (`reset_msg`), and with it the source and the result.
-/

namespace Noxis.Net
open Ipc

def NET_RESOLVE : Int := 25
def NET_PING : Int := 26
def PING_MAX : Int := 4
def HZ : Nat := 100

/-- what is outside of the task while it serves a request -/
structure NetEnv where
  /-- `net_ready ()` -/
  ready : Bool
  /-- the string at an address -/
  str : Nat → List Byte
  /-- `dns_resolve`; `none` for -1 -/
  dns : List Byte → Option (BitVec 32)
  /-- the next hop to an address is in the ARP cache, or it answers in time -/
  hop : BitVec 32 → Bool
  /-- the ticks until the reply to an echo request; `none` is a timeout -/
  echo : Nat → Option Nat

/-! ## dotted quads -/

def isDigit (c : Byte) : Bool := 0x30 ≤ c.toNat ∧ c.toNat ≤ 0x39

def dotChar : Byte := 0x2E

/-- `while (*p >= '0' && *p <= '9')`: a number of one to three digits up to 255, `v` being its value
so far and `digits` their number -/
def takeNumber : Nat → Nat → List Byte → Option (Nat × List Byte)
  | v, digits, [] => if digits = 0 then none else some (v, [])
  | v, digits, c :: s =>
    if isDigit c then
      let v := v * 10 + (c.toNat - 0x30)
      if 3 < digits + 1 ∨ 255 < v then none else takeNumber v (digits + 1) s
    else if digits = 0 then none
    else some (v, c :: s)

/-- `n` more numbers behind one another, each with a dot before it -/
def takeParts : Nat → Nat → List Byte → Option Nat
  | 0, acc, s => if s = [] then some acc else none
  | _ + 1, _, [] => none
  | n + 1, acc, c :: s =>
    if c = dotChar then (takeNumber 0 0 s).bind fun r => takeParts n (acc * 256 + r.1) r.2
    else none

/-- the address that a dotted quad stands for -/
def dottedQuad (name : List Byte) : Option (BitVec 32) :=
  (takeNumber 0 0 name).bind fun r => (takeParts 3 r.1 r.2).map (BitVec.ofNat 32)

/-! ## the handlers -/

/-- a dotted quad is accepted as it is, anything else goes to DNS -/
def NetEnv.resolve (e : NetEnv) (name : List Byte) : Option (BitVec 32) :=
  match dottedQuad name with
  | some acc => some acc
  | none => if e.ready then e.dns name else none

/-- `net_do_resolve` -/
def netDoResolve (e : NetEnv) (msg : Msg) : Msg :=
  match e.resolve (e.str msg.p1) with
  | some ip => { msg with i1 := 0, i4 := ip.toInt }
  | none => { msg with i1 := -1, i4 := 0 }

/-- how many echo requests go out -/
def pingCount (msg : Msg) : Nat :=
  let count := if msg.i2 < 1 then 1 else msg.i2
  (if count > PING_MAX then PING_MAX else count).toNat

/-- `(get_ticks() - t0) * 1000 / HZ` -/
def millis (ticks : Nat) : Nat := ticks * 1000 % 2 ^ 32 / HZ

/-- `net_do_ping`, with the times that it leaves at BUF -/
def netDoPing (e : NetEnv) (msg : Msg) : Msg × List Nat :=
  let count := pingCount msg
  let ip := BitVec.ofInt 32 msg.i1
  if ¬ e.ready then ({ msg with i1 := -1 }, List.replicate count 0xFFFFFFFF)
  else if ¬ e.hop ip then ({ msg with i1 := -1 }, List.replicate count 0xFFFFFFFF)
  else
    let replies := (List.range count).map fun i => e.echo (i + 1)
    ({ msg with i1 := replies.countP Option.isSome },
      replies.map fun r => (r.map millis).getD 0xFFFFFFFF)

/-! ## the loop -/

/-- a message and where it is sent -/
structure Sent where
  dest : Who
  msg : Msg
  deriving DecidableEq, Repr

/-- what the task sends when it has received `msg` -/
def taskNet (e : NetEnv) (msg : Msg) : List Sent :=
  if msg.type = NET_RESOLVE then
    let _ := netDoResolve e msg
    let msg := Msg.reset
    let msg := { msg with type := SYSCALL_RET }
    [⟨msg.source, msg⟩]
  else if msg.type = NET_PING then
    let (msg, _) := netDoPing e msg
    let msg := { msg with type := SYSCALL_RET }
    [⟨msg.source, msg⟩]
  else []

/-- one of the two requests, and what happens meanwhile -/
structure Request where
  env : NetEnv
  msg : Msg
  known : msg.type = NET_RESOLVE ∨ msg.type = NET_PING

/-- all that is sent for a sequence of requests -/
def serve (reqs : List Request) : List Sent := reqs.flatMap fun r => taskNet r.env r.msg

/-- the reply goes to who has asked, with the result that the handler has computed -/
def Answers (r : Request) (reply : Sent) : Prop :=
  reply.dest = r.msg.source ∧
    (r.msg.type = NET_RESOLVE → reply.msg.i1 = (netDoResolve r.env r.msg).i1 ∧
      reply.msg.i4 = (netDoResolve r.env r.msg).i4) ∧
    (r.msg.type = NET_PING → reply.msg.i1 = (netDoPing r.env r.msg).1.i1)

/-- the name is that of the address 0.0.0.0 -/
def NetEnv.IsZero (e : NetEnv) (name : List Byte) : Prop :=
  dottedQuad name = some 0 ∨ dottedQuad name = none ∧ e.ready = true ∧ e.dns name = some 0

/-- a cleared message happens to be the answer -/
def Request.Cleared (r : Request) : Prop :=
  r.msg.source = .proc 0 ∧ r.env.IsZero (r.env.str r.msg.p1)

/-! ## what is answered -/

section
variable {e : NetEnv} {r : Request} {msg : Msg}

theorem taskNet_resolve (h : msg.type = NET_RESOLVE) :
    taskNet e msg = [⟨.proc 0, { Msg.reset with type := SYSCALL_RET }⟩] := if_pos h

theorem taskNet_ping (h : msg.type = NET_PING) :
    taskNet e msg =
      [⟨(netDoPing e msg).1.source, { (netDoPing e msg).1 with type := SYSCALL_RET }⟩] := by
  have hne : ¬ msg.type = NET_RESOLVE := by
    rw [h]
    decide
  unfold taskNet
  rw [if_neg hne, if_pos h]

theorem netDoPing_source : (netDoPing e msg).1.source = msg.source := by
  unfold netDoPing
  by_cases hready : ¬ e.ready
  · rw [if_pos hready]
  · rw [if_neg hready]
    by_cases hhop : ¬ e.hop (BitVec.ofInt 32 msg.i1)
    · rw [if_pos hhop]
    · rw [if_neg hhop]

theorem NetEnv.resolve_zero {name : List Byte} : e.resolve name = some 0 ↔ e.IsZero name := by
  unfold NetEnv.resolve NetEnv.IsZero
  cases hq : dottedQuad name with
  | some acc => exact ⟨.inl, fun h => h.resolve_right fun hn => nomatch hn.1⟩
  | none =>
    by_cases hready : e.ready = true
    · simp only [if_pos hready]
      exact ⟨fun h => .inr ⟨trivial, hready, h⟩, fun h => (h.resolve_left nofun).2.2⟩
    · simp only [if_neg hready]
      exact ⟨nofun, fun h => absurd (h.resolve_left nofun).2.1 hready⟩

/-- the result is 0 and 0 for the address 0.0.0.0 only -/
theorem netDoResolve_zero : (0 = (netDoResolve e msg).i1 ∧ 0 = (netDoResolve e msg).i4) ↔
    e.IsZero (e.str msg.p1) := by
  rw [← NetEnv.resolve_zero]
  unfold netDoResolve
  cases e.resolve (e.str msg.p1) with
  | none =>
    refine iff_of_false (fun h => ?_) nofun
    have h1 : (0 : Int) = -1 := h.1
    exact absurd h1 (by decide)
  | some ip =>
    have hint : (0 : Int) = ip.toInt ↔ ip = 0 := by
      rw [eq_comm, ← BitVec.toInt_inj]
      rfl
    rw [Option.some.injEq, ← hint]
    exact ⟨fun h => h.2, fun h => ⟨rfl, h⟩⟩

/-- each request has one reply, and it is the answer unless it was cleared -/
theorem taskNet_answers (r : Request) : ∃ reply, taskNet r.env r.msg = [reply] ∧
    (Answers r reply ↔ (r.msg.type = NET_RESOLVE → r.Cleared)) := by
  rcases r.known with hres | hping
  · refine ⟨_, taskNet_resolve hres, ?_⟩
    have hping : r.msg.type ≠ NET_PING := by
      rw [hres]
      decide
    constructor
    · rintro ⟨hdest, hval, -⟩ -
      exact ⟨hdest.symm, netDoResolve_zero.mp (hval hres)⟩
    · intro h
      obtain ⟨hsrc, hzero⟩ := h hres
      exact ⟨hsrc.symm, fun _ => netDoResolve_zero.mpr hzero, fun hp => absurd hp hping⟩
  · refine ⟨_, taskNet_ping hping, ?_⟩
    have hres : r.msg.type ≠ NET_RESOLVE := by
      rw [hping]
      decide
    exact ⟨fun _ hr => absurd hr hres,
      fun _ => ⟨netDoPing_source, fun hr => absurd hr hres, fun _ => rfl⟩⟩

/-- **Every request is answered once, to who has asked, with what the handler has computed**, exactly
if each NET_RESOLVE of the sequence is one to which a cleared message is the answer. -/
theorem answered_iff (reqs : List Request) :
    List.Forall₂ Answers reqs (serve reqs) ↔
      ∀ r ∈ reqs, r.msg.type = NET_RESOLVE → r.Cleared := by
  induction reqs with
  | nil => exact iff_of_true .nil fun _ hr => absurd hr List.not_mem_nil
  | cons r reqs ih =>
    obtain ⟨reply, hsent, hans⟩ := taskNet_answers r
    have hserve : serve (r :: reqs) = reply :: serve reqs := by
      show taskNet r.env r.msg ++ serve reqs = _
      rw [hsent]
      rfl
    rw [hserve, List.forall₂_cons, List.forall_mem_cons, hans, ih]

end

/-! ## a name that is resolved for the desktop -/

/-- `10.0.2.2` -/
def gatewayName : List Byte := [0x31, 0x30, 0x2E, 0x30, 0x2E, 0x32, 0x2E, 0x32]

/-- TASK_DESKTOP asks for it -/
def resolveGateway : Request where
  env := ⟨true, fun _ => gatewayName, fun _ => none, fun _ => true, fun _ => none⟩
  msg := { Msg.reset with source := .proc 6, type := NET_RESOLVE }
  known := .inl rfl

/-- the reply goes to task 0 -/
theorem answered_fails : ¬ List.Forall₂ Answers [resolveGateway] (serve [resolveGateway]) := by
  rw [answered_iff]
  intro h
  have hsrc := (h resolveGateway (List.mem_singleton_self _) rfl).1
  exact absurd hsrc (by decide)

end Noxis.Net
