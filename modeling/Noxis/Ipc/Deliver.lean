import Noxis.Lib.Run
import Noxis.Ipc.Effect
import Mathlib.Data.Fintype.Card

/-!
# 25-osfs11: messages are delivered exactly once

`World` is the kernel with a record of its past: every SEND that was accepted, the last SEND and
RECEIVE of each process, and every copy of a message with the two calls it belongs to.

`Inv w Q` holds in every state of a run: `Q d` is the queue of `d`, in the order in which its members
blocked, and a SEND is either pending or has been delivered, to a RECEIVE that matches it.  Its step
lemmas follow the effects of a call (`Inv.handedOver`, `Inv.queuedUp`, `Inv.took`, `Inv.blocked`,
`Inv.woken`); `delivered_exactly_once` is the result for runs.
-/

namespace Noxis.Ipc
open Run

/-! ## the world -/

/-- an accepted SEND -/
structure SendRec where
  time : Nat
  sender : Pid
  buf : Nat
  dest : Pid
  deriving DecidableEq, Repr

/-- a RECEIVE -/
structure RecvRec where
  time : Nat
  receiver : Pid
  src : Who
  buf : Nat
  deriving DecidableEq, Repr

/-- a copy of a message, with the SEND and the RECEIVE it belongs to -/
structure Delivery where
  send : SendRec
  recv : RecvRec
  copy : Copy
  deriving DecidableEq, Repr

structure World where
  k : Kernel
  now : Nat
  lastSend : Pid → SendRec
  lastRecv : Pid → RecvRec
  sends : List SendRec
  log : List Delivery

inductive Call where
  | send (p d : Pid) (m : Nat)
  /-- from ANY (`none`) or a specific process -/
  | receive (p : Pid) (src : Option Pid) (m : Nat)
  | interrupt (t : Pid)

def Who.ofOption : Option Pid → Who
  | none => .any
  | some p => .proc p

/-- the message copies of one transition -/
def newCopies (k k' : Kernel) : List Copy := k'.copies.drop k.copies.length

/-- the world after a transition of the kernel to `k'`; `ls`, `lr` are the last calls, this one
included -/
def World.after (w : World) (k' : Kernel) (ls : Pid → SendRec) (lr : Pid → RecvRec)
    (sends : List SendRec) : World :=
  { k := k', now := w.now + 1, lastSend := ls, lastRecv := lr, sends := sends
    log := w.log ++ (newCopies w.k k').map fun c => ⟨ls c.sender, lr c.receiver, c⟩ }

/-- a runnable process makes a system call, or an interrupt arrives; `none` if it is not possible or
ends in a fault -/
def step (w : World) : Call → Option World
  | .send p d m =>
    if flags w.k p = .zero then
      match sysSendrec w.k .SEND (.proc d) m p with
      | .error _ => none
      | .ok k' =>
        let r : SendRec := ⟨w.now, p, m, d⟩
        some (w.after k' (Function.update w.lastSend p r) w.lastRecv (w.sends ++ [r]))
    else none
  | .receive p src m =>
    if flags w.k p = .zero then
      match sysSendrec w.k .RECEIVE (.ofOption src) m p with
      | .error _ => none
      | .ok k' =>
        some (w.after k' w.lastSend
          (Function.update w.lastRecv p ⟨w.now, p, .ofOption src, m⟩) w.sends)
    else none
  | .interrupt t =>
    match informInt w.k t with
    | .error _ => none
    | .ok k' => some (w.after k' w.lastSend w.lastRecv w.sends)

/-! ## the invariant -/

structure Inv (w : World) (Q : Pid → List Pid) : Prop where
  queues : Queues (waits w.k) (head w.k) (next w.k) Q
  order : ∀ d, (Q d).Pairwise fun a b => (w.lastSend a).time < (w.lastSend b).time
  pending : ∀ p d, waits w.k p = some d → w.lastSend p ∈ w.sends ∧ (w.lastSend p).sender = p ∧
    (w.lastSend p).dest = d ∧ (w.lastSend p).buf = buffer w.k p ∧
    ∀ x ∈ w.log, x.send ≠ w.lastSend p
  asking : ∀ p src, asks w.k p = some src → (w.lastRecv p).receiver = p ∧
    (w.lastRecv p).src = src ∧ (w.lastRecv p).buf = buffer w.k p ∧
    (w.lastRecv p).time < w.now ∧ ∀ x ∈ w.log, x.recv ≠ w.lastRecv p
  times : w.sends.Pairwise fun a b => a.time < b.time
  past : ∀ s ∈ w.sends, s.time < w.now
  matched : ∀ x ∈ w.log, x.send ∈ w.sends ∧ x.recv.receiver = x.send.dest ∧
    (x.recv.src = .any ∨ x.recv.src = .proc x.send.sender) ∧
    x.copy = ⟨x.send.sender, x.send.buf, x.recv.receiver, x.recv.buf⟩ ∧ x.recv.time < w.now
  sentOnce : (w.log.map Delivery.send).Nodup
  recvOnce : (w.log.map Delivery.recv).Nodup
  lost : ∀ s ∈ w.sends, (waits w.k s.sender = some s.dest ∧ w.lastSend s.sender = s) ∨
    ∃ x ∈ w.log, x.send = s

section
variable {w : World} {k' : Kernel} {Q : Pid → List Pid} {p d src : Pid} {m : Nat}

theorem waits_of_zero {k : Kernel} (h : flags k p = .zero) : waits k p = none :=
  Proc.waits_of_zero h

theorem asks_of_zero {k : Kernel} (h : flags k p = .zero) : asks k p = none :=
  Proc.asks_of_zero h

theorem newCopies_nil {k : Kernel} (h : k'.copies = k.copies) : newCopies k k' = [] := by
  unfold newCopies
  rw [h, List.drop_length]

theorem newCopies_one {k : Kernel} {c : Copy} (h : k'.copies = k.copies ++ [c]) :
    newCopies k k' = [c] := by
  unfold newCopies
  rw [h, List.drop_left]

theorem wants_asks {k : Kernel} (h : wants k d p) : asks k d = some .any ∨ asks k d = some (.proc p) := by
  have ha : asks k d = some (k.procs d).recvFrom := by
    show (k.procs d).asks = _
    unfold Proc.asks
    rw [h.1]
    rfl
  rw [ha]
  rcases h.2 with h2 | h2
  · exact .inr (by rw [h2])
  · exact .inl (by rw [h2])

/-- the facts about one more delivery -/
structure NewDelivery (w : World) (x : Delivery) : Prop where
  receiver : x.recv.receiver = x.send.dest
  src : x.recv.src = .any ∨ x.recv.src = .proc x.send.sender
  copy : x.copy = ⟨x.send.sender, x.send.buf, x.recv.receiver, x.recv.buf⟩
  time : x.recv.time < w.now + 1
  send : ∀ y ∈ w.log, y.send ≠ x.send
  recv : ∀ y ∈ w.log, y.recv ≠ x.recv

theorem nodup_concat {α : Type} {l : List α} {a : α} (h : l.Nodup) (ha : a ∉ l) :
    (l ++ [a]).Nodup := by
  refine List.nodup_append.mpr ⟨h, List.nodup_singleton a, ?_⟩
  intro x hx y hy e
  rw [List.mem_singleton.mp hy] at e
  exact ha (e ▸ hx)

theorem NewDelivery.once {x : Delivery} (h : NewDelivery w x) (hi : Inv w Q) :
    ((w.log ++ [x]).map Delivery.send).Nodup ∧ ((w.log ++ [x]).map Delivery.recv).Nodup := by
  rw [List.map_append, List.map_append]
  refine ⟨nodup_concat hi.sentOnce fun hm => ?_, nodup_concat hi.recvOnce fun hm => ?_⟩
  · obtain ⟨y, hy, he⟩ := List.mem_map.mp hm
    exact h.send y hy he
  · obtain ⟨y, hy, he⟩ := List.mem_map.mp hm
    exact h.recv y hy he

theorem NewDelivery.matched {x : Delivery} {sends : List SendRec} (h : NewDelivery w x)
    (hi : Inv w Q) (hs : ∀ s ∈ w.sends, s ∈ sends) (hx : x.send ∈ sends) :
    ∀ y ∈ w.log ++ [x], y.send ∈ sends ∧ y.recv.receiver = y.send.dest ∧
      (y.recv.src = .any ∨ y.recv.src = .proc y.send.sender) ∧
      y.copy = ⟨y.send.sender, y.send.buf, y.recv.receiver, y.recv.buf⟩ ∧
      y.recv.time < w.now + 1 := by
  intro y hy
  rcases List.mem_append.mp hy with hy | hy
  · obtain ⟨h1, h2, h3, h4, h5⟩ := hi.matched y hy
    exact ⟨hs _ h1, h2, h3, h4, by omega⟩
  · rw [List.mem_singleton.mp hy]
    exact ⟨hx, h.receiver, h.src, h.copy, h.time⟩

/-- a queue has only members that blocked before now -/
theorem Inv.member_time (hi : Inv w Q) (hp : p ∈ Q d) : (w.lastSend p).time < w.now :=
  hi.past _ (hi.pending p d ((hi.queues.mem p d).mp hp)).1

/-- a runnable process stands in no queue -/
theorem Inv.not_member (hi : Inv w Q) (hp : flags w.k p = .zero) : p ∉ Q d := by
  rw [hi.queues.mem, waits_of_zero hp]
  exact fun h => (nomatch h)

/-- the order of a queue does not depend on the last SEND of a process that is in none -/
theorem Inv.order_update (hi : Inv w Q) (hp : flags w.k p = .zero) (r : SendRec) (d : Pid) :
    (Q d).Pairwise fun a b => (Function.update w.lastSend p r a).time <
      (Function.update w.lastSend p r b).time := by
  refine (hi.order d).imp_of_mem fun {a b} ha hb hab => ?_
  have hap : a ≠ p := fun e => hi.not_member hp (e ▸ ha)
  have hbp : b ≠ p := fun e => hi.not_member hp (e ▸ hb)
  rw [Function.update_of_ne hap, Function.update_of_ne hbp]
  exact hab

/-- the records of the SENDs after one more -/
theorem Inv.sends_append (hi : Inv w Q) (r : SendRec) (hr : r.time = w.now) :
    (w.sends ++ [r]).Pairwise (fun a b => a.time < b.time) ∧
      ∀ s ∈ w.sends ++ [r], s.time < w.now + 1 := by
  constructor
  · refine List.pairwise_append.mpr ⟨hi.times, List.pairwise_singleton .., fun a ha b hb => ?_⟩
    rw [List.mem_singleton.mp hb, hr]
    exact hi.past a ha
  · intro s hs
    rcases List.mem_append.mp hs with hs | hs
    · have := hi.past s hs
      omega
    · rw [List.mem_singleton.mp hs, hr]
      omega

/-! ## one lemma for each effect -/

/-- the invariant of the world after a transition, in the terms of the transition -/
theorem Inv.intro_after {ls : Pid → SendRec} {lr : Pid → RecvRec} {sends : List SendRec}
    (hq : Queues (waits k') (head k') (next k') Q)
    (ho : ∀ d, (Q d).Pairwise fun a b => (ls a).time < (ls b).time)
    (hp : ∀ q d, waits k' q = some d → ls q ∈ sends ∧ (ls q).sender = q ∧ (ls q).dest = d ∧
      (ls q).buf = buffer k' q ∧ ∀ x ∈ (w.after k' ls lr sends).log, x.send ≠ ls q)
    (ha : ∀ q who, asks k' q = some who → (lr q).receiver = q ∧ (lr q).src = who ∧
      (lr q).buf = buffer k' q ∧ (lr q).time < w.now + 1 ∧
      ∀ x ∈ (w.after k' ls lr sends).log, x.recv ≠ lr q)
    (ht : sends.Pairwise fun a b => a.time < b.time) (hpast : ∀ s ∈ sends, s.time < w.now + 1)
    (hlog : (∀ y ∈ (w.after k' ls lr sends).log, y.send ∈ sends ∧ y.recv.receiver = y.send.dest ∧
      (y.recv.src = .any ∨ y.recv.src = .proc y.send.sender) ∧
      y.copy = ⟨y.send.sender, y.send.buf, y.recv.receiver, y.recv.buf⟩ ∧
      y.recv.time < w.now + 1) ∧
      ((w.after k' ls lr sends).log.map Delivery.send).Nodup ∧
      ((w.after k' ls lr sends).log.map Delivery.recv).Nodup)
    (hl : ∀ s ∈ sends, (waits k' s.sender = some s.dest ∧ ls s.sender = s) ∨
      ∃ x ∈ (w.after k' ls lr sends).log, x.send = s) :
    Inv (w.after k' ls lr sends) Q :=
  ⟨hq, ho, hp, ha, ht, hpast, hlog.1, hlog.2.1, hlog.2.2, hl⟩

/-- what holds of every process that waits or asks, if it did nothing and got nothing -/
theorem Inv.pending_old (hi : Inv w Q) {ls : Pid → SendRec} {lr : Pid → RecvRec}
    {sends : List SendRec} {q : Pid} (hq : waits w.k q = some d) (hl : ls q = w.lastSend q)
    (hb : buffer k' q = buffer w.k q) (hs : ∀ s ∈ w.sends, s ∈ sends)
    (hn : ∀ c ∈ newCopies w.k k', ls c.sender ≠ w.lastSend q) :
    ls q ∈ sends ∧ (ls q).sender = q ∧ (ls q).dest = d ∧
      (ls q).buf = buffer k' q ∧ ∀ x ∈ (w.after k' ls lr sends).log, x.send ≠ ls q := by
  obtain ⟨h1, h2, h3, h4, h5⟩ := hi.pending q d hq
  rw [hl, hb]
  refine ⟨hs _ h1, h2, h3, h4, fun x hx => ?_⟩
  rcases List.mem_append.mp hx with hx | hx
  · exact h5 x hx
  · obtain ⟨c, hc, rfl⟩ := List.mem_map.mp hx
    exact hn c hc

theorem Inv.asking_old (hi : Inv w Q) {ls : Pid → SendRec} {lr : Pid → RecvRec}
    {sends : List SendRec} {q : Pid} {who : Who} (hq : asks w.k q = some who)
    (hl : lr q = w.lastRecv q) (hb : buffer k' q = buffer w.k q)
    (hn : ∀ c ∈ newCopies w.k k', lr c.receiver ≠ w.lastRecv q) :
    (lr q).receiver = q ∧ (lr q).src = who ∧ (lr q).buf = buffer k' q ∧
      (lr q).time < w.now + 1 ∧ ∀ x ∈ (w.after k' ls lr sends).log, x.recv ≠ lr q := by
  obtain ⟨h1, h2, h3, h4, h5⟩ := hi.asking q who hq
  rw [hl, hb]
  refine ⟨h1, h2, h3, by omega, fun x hx => ?_⟩
  rcases List.mem_append.mp hx with hx | hx
  · exact h5 x hx
  · obtain ⟨c, hc, rfl⟩ := List.mem_map.mp hx
    exact hn c hc

/-- a SEND that is not lost, if its sender did nothing new -/
theorem Inv.lost_old (hi : Inv w Q) {ls : Pid → SendRec} {lr : Pid → RecvRec}
    {sends : List SendRec} {s : SendRec} (hs : s ∈ w.sends)
    (hw : waits w.k s.sender = some s.dest → w.lastSend s.sender = s →
      (waits k' s.sender = some s.dest ∧ ls s.sender = s) ∨
        ∃ c ∈ newCopies w.k k', ls c.sender = s) :
    (waits k' s.sender = some s.dest ∧ ls s.sender = s) ∨
      ∃ x ∈ (w.after k' ls lr sends).log, x.send = s := by
  rcases hi.lost s hs with ⟨h1, h2⟩ | ⟨x, hx, hxs⟩
  · rcases hw h1 h2 with h | ⟨c, hc, hcs⟩
    · exact .inl h
    · exact .inr ⟨_, List.mem_append_right _ (List.mem_map_of_mem hc), hcs⟩
  · exact .inr ⟨x, List.mem_append_left _ hx, hxs⟩

/-- the log after a transition that copied one message, or none -/
theorem Inv.log_one (hi : Inv w Q) {ls : Pid → SendRec} {lr : Pid → RecvRec}
    {sends : List SendRec} {c : Copy} (hc : k'.copies = w.k.copies ++ [c])
    (hn : NewDelivery w ⟨ls c.sender, lr c.receiver, c⟩) (hs : ∀ s ∈ w.sends, s ∈ sends)
    (hx : ls c.sender ∈ sends) :
    (∀ y ∈ (w.after k' ls lr sends).log, y.send ∈ sends ∧ y.recv.receiver = y.send.dest ∧
      (y.recv.src = .any ∨ y.recv.src = .proc y.send.sender) ∧
      y.copy = ⟨y.send.sender, y.send.buf, y.recv.receiver, y.recv.buf⟩ ∧
      y.recv.time < w.now + 1) ∧
    ((w.after k' ls lr sends).log.map Delivery.send).Nodup ∧
    ((w.after k' ls lr sends).log.map Delivery.recv).Nodup := by
  have hlog : (w.after k' ls lr sends).log = w.log ++ [⟨ls c.sender, lr c.receiver, c⟩] := by
    show w.log ++ _ = _
    rw [newCopies_one hc]
    rfl
  rw [hlog]
  exact ⟨hn.matched hi hs hx, hn.once hi⟩

theorem Inv.log_nil (hi : Inv w Q) {ls : Pid → SendRec} {lr : Pid → RecvRec}
    {sends : List SendRec} (hc : k'.copies = w.k.copies) (hs : ∀ s ∈ w.sends, s ∈ sends) :
    (∀ y ∈ (w.after k' ls lr sends).log, y.send ∈ sends ∧ y.recv.receiver = y.send.dest ∧
      (y.recv.src = .any ∨ y.recv.src = .proc y.send.sender) ∧
      y.copy = ⟨y.send.sender, y.send.buf, y.recv.receiver, y.recv.buf⟩ ∧
      y.recv.time < w.now + 1) ∧
    ((w.after k' ls lr sends).log.map Delivery.send).Nodup ∧
    ((w.after k' ls lr sends).log.map Delivery.recv).Nodup := by
  have hlog : (w.after k' ls lr sends).log = w.log := by
    show w.log ++ _ = _
    rw [newCopies_nil hc]
    exact List.append_nil _
  rw [hlog]
  refine ⟨fun y hy => ?_, hi.sentOnce, hi.recvOnce⟩
  obtain ⟨h1, h2, h3, h4, h5⟩ := hi.matched y hy
  exact ⟨hs _ h1, h2, h3, h4, by omega⟩

/-- a message that is handed over -/
theorem Inv.handedOver (hi : Inv w Q) (hp : flags w.k p = .zero)
    (he : HandedOver w.k k' p d m) {r : SendRec} (hr : r = ⟨w.now, p, m, d⟩) :
    Inv (w.after k' (Function.update w.lastSend p r) w.lastRecv (w.sends ++ [r])) Q := by
  have hwp := waits_of_zero hp
  have hwd : waits k' d = none := waits_of_zero (by rw [he.flags, Function.update_self])
  have hrt : r.time = w.now := by rw [hr]
  have hls : Function.update w.lastSend p r p = r := Function.update_self ..
  have hnow : ∀ s ∈ w.sends, s ≠ r := by
    rintro s hs rfl
    have := hi.past s hs
    omega
  obtain ⟨who, hask, hwho⟩ : ∃ who, asks w.k d = some who ∧ (who = .any ∨ who = .proc p) := by
    rcases wants_asks he.wants with h | h
    · exact ⟨_, h, .inl rfl⟩
    · exact ⟨_, h, .inr rfl⟩
  obtain ⟨hd1, hd2, hd3, hd4, hd5⟩ := hi.asking d who hask
  have hnew : NewDelivery w ⟨Function.update w.lastSend p r p, w.lastRecv d,
      ⟨p, m, d, buffer w.k d⟩⟩ := by
    rw [hls]
    refine ⟨?_, ?_, ?_, Nat.lt_succ_of_lt hd4, fun y hy => hnow _ (hi.matched y hy).1, hd5⟩
    · rw [hr]; exact hd1
    · rw [hr, show (w.lastRecv d).src = who from hd2]; exact hwho
    · rw [hr, hd1, hd3]
  have hsends := hi.sends_append r hrt
  have hmem : ∀ s ∈ w.sends, s ∈ w.sends ++ [r] := fun s hs => List.mem_append_left _ hs
  have hcopies := newCopies_one he.copies
  have hlast : Function.update w.lastSend p r p ∈ w.sends ++ [r] := by rw [hls]; simp
  refine Inv.intro_after ?_ (hi.order_update hp r) (fun q d' hq => ?_) (fun q who' hq => ?_)
    hsends.1 hsends.2 (hi.log_one he.copies hnew hmem hlast) (fun s hs => ?_)
  · rw [he.waits, he.head, he.next]
    exact hi.queues
  · have hq' : waits w.k q = some d' := by rw [← he.waits]; exact hq
    have hqp : q ≠ p := by
      rintro rfl
      rw [hwp] at hq'
      cases hq'
    have hqd : q ≠ d := by
      rintro rfl
      rw [hwd] at hq
      cases hq
    refine hi.pending_old hq' (Function.update_of_ne hqp ..) ?_ hmem fun c hc => ?_
    · rw [he.buffer, Function.update_of_ne hqd]
    · rw [hcopies] at hc
      rw [List.mem_singleton.mp hc, hls]
      exact (hnow _ (hi.pending q d' hq').1).symm
  · rw [he.asks] at hq
    have hqd : q ≠ d := by
      rintro rfl
      rw [Function.update_self] at hq
      cases hq
    rw [Function.update_of_ne hqd] at hq
    refine hi.asking_old hq rfl ?_ fun c hc e => ?_
    · rw [he.buffer, Function.update_of_ne hqd]
    · rw [hcopies] at hc
      rw [List.mem_singleton.mp hc] at e
      have hrec := congrArg RecvRec.receiver e
      rw [(hi.asking q who' hq).1] at hrec
      exact hqd (hrec.symm.trans hd1)
  · rcases List.mem_append.mp hs with hs | hs
    · refine hi.lost_old hs fun h1 h2 => .inl ⟨by rw [he.waits]; exact h1, ?_⟩
      have hsp : s.sender ≠ p := by
        intro e
        rw [e, hwp] at h1
        cases h1
      rw [Function.update_of_ne hsp]
      exact h2
    · rw [List.mem_singleton.mp hs]
      have hc : (⟨p, m, d, buffer w.k d⟩ : Copy) ∈ newCopies w.k k' := by
        rw [hcopies]
        exact List.mem_singleton_self _
      exact .inr ⟨⟨Function.update w.lastSend p r p, _, _⟩,
        List.mem_append_right _ (List.mem_map.mpr ⟨_, hc, rfl⟩), hls⟩

/-- the loops over a queue have fuel enough -/
theorem card_le_fuel : Fintype.card Pid ≤ fuel := by
  rw [Fintype.card_fin]
  exact Nat.le_succ _

/-- the queues after `p` was appended to the one of `d` -/
theorem appended_queues {waits head next head' next' : Pid → Option Pid}
    (h : Queues waits head next Q) (hp : waits p = none)
    (ha : Appended head next head' next' p d) :
    Queues (Function.update waits p (some d)) head' next' (Function.update Q d (Q d ++ [p])) := by
  rcases ha with ⟨h0, rfl, rfl⟩ | ⟨x, z, hx, hz, rfl, rfl⟩
  · have hnil := h.head_none.mp h0
    rw [hnil]
    exact h.pushFirst hp hnil
  · obtain ⟨l, b, hlb, hlast⟩ := h.lastOf_some hx card_le_fuel
    rw [hz] at hlast
    cases hlast
    exact h.push hp hlb

/-- a sender that blocks -/
theorem Inv.queuedUp (hi : Inv w Q) (hp : flags w.k p = .zero) (he : QueuedUp w.k k' p d m)
    {r : SendRec} (hr : r = ⟨w.now, p, m, d⟩) :
    Inv (w.after k' (Function.update w.lastSend p r) w.lastRecv (w.sends ++ [r]))
      (Function.update Q d (Q d ++ [p])) := by
  have hwp := waits_of_zero hp
  have hrt : r.time = w.now := by rw [hr]
  have hls : Function.update w.lastSend p r p = r := Function.update_self ..
  have hsends := hi.sends_append r hrt
  have hmem : ∀ s ∈ w.sends, s ∈ w.sends ++ [r] := fun s hs => List.mem_append_left _ hs
  have hcopies := newCopies_nil he.copies
  have hno : ∀ c ∈ newCopies w.k k', False := by
    rw [hcopies]
    exact fun c hc => (nomatch hc)
  refine Inv.intro_after ?_ (fun d' => ?_) (fun q d' hq => ?_) (fun q who' hq => ?_) hsends.1
    hsends.2 (hi.log_nil he.copies hmem) (fun s hs => ?_)
  · rw [he.waits]
    exact appended_queues hi.queues hwp he.links
  · by_cases hd : d' = d
    · subst hd
      rw [Function.update_self]
      refine List.pairwise_append.mpr ⟨hi.order_update hp r d', List.pairwise_singleton ..,
        fun a ha b hb => ?_⟩
      have hap : a ≠ p := fun e => hi.not_member hp (e ▸ ha)
      rw [List.mem_singleton.mp hb, hls, Function.update_of_ne hap, hrt]
      exact hi.member_time ha
    · rw [Function.update_of_ne hd]
      exact hi.order_update hp r d'
  · rw [he.waits] at hq
    by_cases hqp : q = p
    · subst hqp
      rw [Function.update_self] at hq
      cases hq
      rw [hls, he.buffer, Function.update_self]
      refine ⟨by simp, by rw [hr], by rw [hr], by rw [hr], fun x hx => ?_⟩
      rw [World.after, hcopies, List.map_nil, List.append_nil] at hx
      rintro rfl
      have := hi.past _ (hi.matched x hx).1
      omega
    · rw [Function.update_of_ne hqp] at hq
      refine hi.pending_old hq (Function.update_of_ne hqp ..) ?_ hmem fun c hc => (hno c hc).elim
      rw [he.buffer, Function.update_of_ne hqp]
  · rw [he.asks] at hq
    have hqp : q ≠ p := by
      rintro rfl
      rw [asks_of_zero hp] at hq
      cases hq
    refine hi.asking_old hq rfl ?_ fun c hc => (hno c hc).elim
    rw [he.buffer, Function.update_of_ne hqp]
  · rcases List.mem_append.mp hs with hs | hs
    · refine hi.lost_old hs fun h1 h2 => .inl ?_
      have hsp : s.sender ≠ p := by
        intro e
        rw [e, hwp] at h1
        cases h1
      rw [he.waits, Function.update_of_ne hsp, Function.update_of_ne hsp]
      exact ⟨h1, h2⟩
    · rw [List.mem_singleton.mp hs]
      refine .inl ?_
      rw [he.waits, show r.sender = p by rw [hr], show r.dest = d by rw [hr], Function.update_self,
        hls]
      exact ⟨rfl, rfl⟩

/-- the queues after `src` left the one of `p` -/
theorem removed_queues {waits head next head' next' : Pid → Option Pid} {prev x : Option Pid}
    (h : Queues waits head next Q) (hsrc : src ∈ Q p)
    (hf : head p = some src ∨ findFrom next src fuel none (head p) = some (prev, x))
    (hr : Removed head next head' next' p src prev) :
    Queues (Function.update waits src none) head' next'
      (Function.update Q p ((Q p).erase src)) := by
  obtain ⟨l₁, l₂, hl, -, hfind⟩ := h.findFrom_mem hsrc card_le_fuel
  rcases hr with ⟨h0, rfl, rfl⟩ | ⟨z, rfl, h0, rfl, rfl⟩
  · obtain ⟨l, hl'⟩ := h.head_some h0
    exact h.pop hl'
  · rw [hf.resolve_left h0] at hfind
    have hz : l₁.getLast? = some z := (congrArg Prod.fst (Option.some.inj hfind)).symm
    obtain ⟨ys, hys⟩ := List.getLast?_eq_some_iff.mp hz
    rw [hys, List.append_assoc] at hl
    exact h.unlink hl

theorem Chosen.mem {prev : Option Pid} {k : Kernel} {who : Who} (hQ : Queues (waits k) (head k) (next k) Q)
    (h : Chosen k p who prev src) : src ∈ Q p ∧ (who = .any ∨ who = .proc src) ∧
      ∃ x, head k p = some src ∨ findFrom (next k) src fuel none (head k p) = some (prev, x) := by
  cases h with
  | any hh =>
    obtain ⟨l, hl⟩ := hQ.head_some hh
    exact ⟨by rw [hl]; exact List.mem_cons_self .., .inl rfl, none, .inl hh⟩
  | one hw hf => exact ⟨(hQ.mem src p).mpr hw, .inr rfl, _, .inr hf⟩

/-- a message that is taken from the queue -/
theorem Inv.took (hi : Inv w Q) (hp : flags w.k p = .zero) {prev : Option Pid} {who : Who}
    (hch : Chosen w.k p who prev src) (he : Took w.k k' p src prev m) {r : RecvRec}
    (hr : r = ⟨w.now, p, who, m⟩) :
    Inv (w.after k' w.lastSend (Function.update w.lastRecv p r) w.sends)
      (Function.update Q p ((Q p).erase src)) := by
  obtain ⟨hsrc, hwho, x, hx⟩ := hch.mem hi.queues
  have hws : waits w.k src = some p := (hi.queues.mem src p).mp hsrc
  have hps : p ≠ src := by
    rintro rfl
    rw [waits_of_zero hp] at hws
    cases hws
  have hlr : Function.update w.lastRecv p r p = r := Function.update_self ..
  obtain ⟨hs1, hs2, hs3, hs4, hs5⟩ := hi.pending src p hws
  have hnew : NewDelivery w ⟨w.lastSend src, Function.update w.lastRecv p r p,
      ⟨src, buffer w.k src, p, m⟩⟩ := by
    rw [hlr]
    refine ⟨?_, ?_, ?_, ?_, hs5, fun y hy e => ?_⟩
    · rw [hs3, hr]
    · rw [hs2, hr]; exact hwho
    · rw [hs2, hs4, hr]
    · rw [hr]; exact Nat.lt_succ_self _
    · have ht := (hi.matched y hy).2.2.2.2
      rw [e, hr] at ht
      exact lt_irrefl _ ht
  have hcopies := newCopies_one he.copies
  refine Inv.intro_after ?_ (fun d' => ?_) (fun q d' hq => ?_) (fun q who' hq => ?_) hi.times
    (fun s hs => Nat.lt_succ_of_lt (hi.past s hs))
    (hi.log_one he.copies hnew (fun s hs => hs) hs1) (fun s hs => ?_)
  · rw [he.waits]
    exact removed_queues hi.queues hsrc hx he.links
  · by_cases hd : d' = p
    · subst hd
      rw [Function.update_self]
      exact (hi.order d').sublist List.erase_sublist
    · rw [Function.update_of_ne hd]
      exact hi.order d'
  · rw [he.waits] at hq
    have hqs : q ≠ src := by
      rintro rfl
      rw [Function.update_self] at hq
      cases hq
    rw [Function.update_of_ne hqs] at hq
    refine hi.pending_old hq rfl ?_ (fun s hs => hs) fun c hc e => ?_
    · rw [he.buffer, Function.update_of_ne hqs]
    · rw [hcopies] at hc
      rw [List.mem_singleton.mp hc] at e
      have hsend := congrArg SendRec.sender e
      rw [(hi.pending q d' hq).2.1] at hsend
      exact hqs (hsend.symm.trans hs2)
  · have hqs : q ≠ src := by
      rintro rfl
      rw [asks_of_zero (by rw [he.flags, Function.update_self])] at hq
      cases hq
    rw [he.asks] at hq
    have hqp : q ≠ p := by
      rintro rfl
      rw [asks_of_zero hp] at hq
      cases hq
    refine hi.asking_old hq (Function.update_of_ne hqp ..) ?_ fun c hc e => ?_
    · rw [he.buffer, Function.update_of_ne hqs]
    · rw [hcopies] at hc
      rw [List.mem_singleton.mp hc, hlr, hr] at e
      have ht := (hi.asking q who' hq).2.2.2.1
      rw [← e] at ht
      exact lt_irrefl _ ht
  · refine hi.lost_old hs fun h1 h2 => ?_
    by_cases hss : s.sender = src
    · refine .inr ⟨⟨src, buffer w.k src, p, m⟩, by rw [hcopies]; exact List.mem_singleton_self _, ?_⟩
      rw [← hss]
      exact h2
    · refine .inl ⟨?_, h2⟩
      rw [he.waits, Function.update_of_ne hss]
      exact h1

/-- a receiver that blocks -/
theorem Inv.blocked (hi : Inv w Q) (hp : flags w.k p = .zero) {who : Who}
    (he : Blocked w.k k' p who m) {r : RecvRec} (hr : r = ⟨w.now, p, who, m⟩) :
    Inv (w.after k' w.lastSend (Function.update w.lastRecv p r) w.sends) Q := by
  have hlr : Function.update w.lastRecv p r p = r := Function.update_self ..
  have hcopies := newCopies_nil he.copies
  have hno : ∀ c ∈ newCopies w.k k', False := by
    rw [hcopies]
    exact fun c hc => (nomatch hc)
  refine Inv.intro_after ?_ hi.order (fun q d' hq => ?_) (fun q who' hq => ?_) hi.times
    (fun s hs => Nat.lt_succ_of_lt (hi.past s hs)) (hi.log_nil he.copies fun s hs => hs)
    (fun s hs => ?_)
  · rw [he.waits, he.head, he.next]
    exact hi.queues
  · rw [he.waits] at hq
    have hqp : q ≠ p := by
      rintro rfl
      rw [waits_of_zero hp] at hq
      cases hq
    refine hi.pending_old hq rfl ?_ (fun s hs => hs) fun c hc => (hno c hc).elim
    rw [he.buffer, Function.update_of_ne hqp]
  · rw [he.asks] at hq
    by_cases hqp : q = p
    · subst hqp
      rw [Function.update_self] at hq
      cases hq
      rw [hlr, he.buffer, Function.update_self]
      refine ⟨by rw [hr], by rw [hr], by rw [hr], by rw [hr]; exact Nat.lt_succ_self _,
        fun x hx e => ?_⟩
      rw [World.after, hcopies, List.map_nil, List.append_nil] at hx
      have ht := (hi.matched x hx).2.2.2.2
      rw [e, hr] at ht
      exact lt_irrefl _ ht
    · rw [Function.update_of_ne hqp] at hq
      refine hi.asking_old hq (Function.update_of_ne hqp ..) ?_ fun c hc => (hno c hc).elim
      rw [he.buffer, Function.update_of_ne hqp]
  · refine hi.lost_old hs fun h1 h2 => .inl ⟨?_, h2⟩
    rw [he.waits]
    exact h1

/-- an interrupt that is noted, or taken; `lr` may have a new RECEIVE of a process that is not
blocked -/
theorem Inv.woken (hi : Inv w Q) (he : Woken w.k k' p) {lr : Pid → RecvRec}
    (hlr : ∀ q, asks k' q ≠ none → lr q = w.lastRecv q) :
    Inv (w.after k' w.lastSend lr w.sends) Q := by
  have hcopies := newCopies_nil he.copies
  have hno : ∀ c ∈ newCopies w.k k', False := by
    rw [hcopies]
    exact fun c hc => (nomatch hc)
  -- a process that still waits, or still asks, has its buffer
  have hbuf : ∀ q, waits k' q ≠ none ∨ asks k' q ≠ none → buffer k' q = buffer w.k q := by
    intro q hq
    rcases he.rest with ⟨-, hb, -⟩ | ⟨ha, hb, hf, -⟩
    · rw [hb]
    · by_cases hqp : q = p
      · subst hqp
        have hz : flags k' q = .zero := by rw [hf, Function.update_self]
        rcases hq with hq | hq
        · exact absurd (waits_of_zero hz) hq
        · exact absurd (asks_of_zero hz) hq
      · rw [hb, Function.update_of_ne hqp]
  have hask : ∀ q who, asks k' q = some who → asks w.k q = some who := by
    intro q who hq
    rcases he.rest with ⟨ha, -, -⟩ | ⟨ha, -⟩
    · rw [← ha]; exact hq
    · rw [ha] at hq
      by_cases hqp : q = p
      · subst hqp
        rw [Function.update_self] at hq
        cases hq
      · rw [Function.update_of_ne hqp] at hq
        exact hq
  refine Inv.intro_after ?_ hi.order (fun q d' hq => ?_) (fun q who' hq => ?_) hi.times
    (fun s hs => Nat.lt_succ_of_lt (hi.past s hs)) (hi.log_nil he.copies fun s hs => hs)
    (fun s hs => ?_)
  · rw [he.waits, he.head, he.next]
    exact hi.queues
  · have hq2 : waits w.k q = some d' := by rw [← he.waits]; exact hq
    exact hi.pending_old hq2 rfl (hbuf q (.inl (by rw [hq]; simp))) (fun s hs => hs)
      fun c hc => (hno c hc).elim
  · have hne : asks k' q ≠ none := by rw [hq]; simp
    exact hi.asking_old (hask q who' hq) (hlr q hne) (hbuf q (.inr hne)) fun c hc => (hno c hc).elim
  · refine hi.lost_old hs fun h1 h2 => .inl ⟨?_, h2⟩
    rw [he.waits]
    exact h1

/-! ## one call -/

theorem Inv.isQueue (hi : Inv w Q) {l : List Pid} (h : IsQueue w.k d l) : l = Q d :=
  h.unique (hi.queues.chain d)

/-- the queues of all others stay as they are -/
def OthersStay (k k' : Kernel) (d : Pid) : Prop :=
  ∀ e, e ≠ d → ∀ l, IsQueue k e l → IsQueue k' e l

/-- the message of the last SEND of `src` went to the last RECEIVE of `p` -/
def Delivers (s t : World) (src p : Pid) : Prop :=
  ∃ x, t.log = s.log ++ [x] ∧ x.send = t.lastSend src ∧ x.recv = t.lastRecv p

/-- what one call does to the queues -/
def Takes (s : World) (c : Call) (t : World) : Prop :=
  match c with
  | .send p d _ => OthersStay s.k t.k d ∧ ∀ l, IsQueue s.k d l →
      (Delivers s t p d ∧ IsQueue t.k d l) ∨ (t.log = s.log ∧ IsQueue t.k d (l ++ [p]))
  | .receive p none _ => OthersStay s.k t.k p ∧ ((s.k.procs p).hasIntMsg = false →
      ∀ a l, IsQueue s.k p (a :: l) → Delivers s t a p ∧ IsQueue t.k p l)
  | .receive p (some src) _ => OthersStay s.k t.k p ∧ ∀ l, IsQueue s.k p l →
      (src ∈ l ∧ Delivers s t src p ∧ IsQueue t.k p (l.erase src)) ∨
      (src ∉ l ∧ t.log = s.log ∧ IsQueue t.k p l)
  | .interrupt _ => t.log = s.log ∧ ∀ d l, IsQueue s.k d l → IsQueue t.k d l

theorem othersStay_update {w' : World} {l : List Pid} (hi : Inv w Q)
    (hi' : Inv w' (Function.update Q d l)) : OthersStay w.k w'.k d := by
  intro e he l' hl
  rw [hi.isQueue hl]
  have hc := hi'.queues.chain e
  rw [Function.update_of_ne he] at hc
  exact hc

theorem othersStay_same {w' : World} (hi : Inv w Q) (hi' : Inv w' Q) (d : Pid) :
    OthersStay w.k w'.k d := by
  intro e _ l hl
  rw [hi.isQueue hl]
  exact hi'.queues.chain e

theorem after_log_nil {ls : Pid → SendRec} {lr : Pid → RecvRec} {sends : List SendRec}
    (h : k'.copies = w.k.copies) : (w.after k' ls lr sends).log = w.log := by
  show w.log ++ _ = _
  rw [newCopies_nil h]
  exact List.append_nil _

theorem after_delivers {ls : Pid → SendRec} {lr : Pid → RecvRec} {sends : List SendRec} {a b : Nat}
    (h : k'.copies = w.k.copies ++ [⟨src, a, p, b⟩]) :
    Delivers w (w.after k' ls lr sends) src p := by
  refine ⟨⟨ls src, lr p, ⟨src, a, p, b⟩⟩, ?_, rfl, rfl⟩
  show w.log ++ _ = _
  rw [newCopies_one h]
  rfl

/-- a SEND keeps the invariant and does what `Takes` says -/
theorem Inv.step_send {w' : World} (hi : Inv w Q) (h : step w (.send p d m) = some w') :
    Takes w (.send p d m) w' ∧ ∃ Q', Inv w' Q' := by
  simp only [step] at h
  by_cases hp : flags w.k p = .zero
  · rw [if_pos hp] at h
    cases hs : sysSendrec w.k .SEND (.proc d) m p with
    | error e => rw [hs] at h; cases h
    | ok k' =>
      rw [hs] at h
      cases h
      obtain ⟨-, -, he | ⟨-, he⟩⟩ := sysSendrec_send hs
      · have hi' := hi.handedOver hp he rfl
        refine ⟨⟨othersStay_same hi hi' d, fun l hl => .inl ⟨after_delivers he.copies, ?_⟩⟩, Q, hi'⟩
        rw [hi.isQueue hl]
        exact hi'.queues.chain d
      · have hi' := hi.queuedUp hp he rfl
        refine ⟨⟨othersStay_update hi hi', fun l hl => .inr ⟨after_log_nil he.copies, ?_⟩⟩, _, hi'⟩
        have hc := hi'.queues.chain d
        rw [Function.update_self] at hc
        rw [hi.isQueue hl]
        exact hc
  · rw [if_neg hp] at h
    cases h

/-- a RECEIVE keeps the invariant and does what `Takes` says -/
theorem Inv.step_receive {w' : World} {srcOpt : Option Pid} (hi : Inv w Q)
    (h : step w (.receive p srcOpt m) = some w') :
    Takes w (.receive p srcOpt m) w' ∧ ∃ Q', Inv w' Q' := by
  simp only [step] at h
  by_cases hp : flags w.k p = .zero
  · rw [if_pos hp] at h
    cases hs : sysSendrec w.k .RECEIVE (.ofOption srcOpt) m p with
    | error e => rw [hs] at h; cases h
    | ok k' =>
      rw [hs] at h
      cases h
      obtain ⟨-, ⟨hint, hany, he⟩ | ⟨prev, q, hc, he⟩ | ⟨hnone, hno, he⟩⟩ := sysSendrec_receive hs
      · have hlr : ∀ q, asks k' q ≠ none →
            Function.update w.lastRecv p ⟨w.now, p, .ofOption srcOpt, m⟩ q = w.lastRecv q := by
          intro q hq
          have hqp : q ≠ p := by
            rintro rfl
            rcases he.rest with ⟨ha, -, -⟩ | ⟨ha, -⟩
            · rw [ha, asks_of_zero hp] at hq
              exact hq rfl
            · rw [ha, Function.update_self] at hq
              exact hq rfl
          exact Function.update_of_ne hqp ..
        have hi' := hi.woken he hlr
        refine ⟨?_, Q, hi'⟩
        cases srcOpt with
        | none =>
          exact ⟨othersStay_same hi hi' p, fun hf => by rw [hint] at hf; cases hf⟩
        | some src => rcases hany with h | h <;> cases h
      · have hi' := hi.took hp hc he rfl
        refine ⟨?_, _, hi'⟩
        have hq := hi'.queues.chain p
        rw [Function.update_self] at hq
        obtain ⟨hmem, hwho, -⟩ := hc.mem hi.queues
        cases srcOpt with
        | none =>
          refine ⟨othersStay_update hi hi', fun _ a l hl => ?_⟩
          have hQ := hi.isQueue hl
          cases hc with
          | any hh =>
            have ha : head w.k p = some a := hl.1
            rw [hh] at ha
            cases ha
            refine ⟨after_delivers he.copies, ?_⟩
            rw [← hQ, List.erase_cons_head] at hq
            exact hq
        | some src =>
          have hsrc : q = src := by
            rcases hwho with h | h
            · cases h
            · cases h
              rfl
          subst hsrc
          refine ⟨othersStay_update hi hi', fun l hl => .inl ?_⟩
          have hQ := hi.isQueue hl
          refine ⟨by rw [hQ]; exact hmem, after_delivers he.copies, ?_⟩
          rw [hQ]
          exact hq
      · have hi' := hi.blocked hp he rfl
        refine ⟨?_, Q, hi'⟩
        cases srcOpt with
        | none =>
          refine ⟨othersStay_same hi hi' p, fun _ a l hl => ?_⟩
          have ha : head w.k p = some a := hl.1
          rw [hnone rfl] at ha
          cases ha
        | some src =>
          refine ⟨othersStay_same hi hi' p, fun l hl => .inr ?_⟩
          have hQ := hi.isQueue hl
          refine ⟨fun hm => ?_, after_log_nil he.copies, ?_⟩
          · rw [hQ, hi.queues.mem] at hm
            exact hno src rfl hm
          · rw [hQ]
            exact hi'.queues.chain p
  · rw [if_neg hp] at h
    cases h

/-- an interrupt keeps the invariant and all queues -/
theorem Inv.step_interrupt {w' : World} {t : Pid} (hi : Inv w Q)
    (h : step w (.interrupt t) = some w') : Takes w (.interrupt t) w' ∧ ∃ Q', Inv w' Q' := by
  simp only [step] at h
  cases hs : informInt w.k t with
  | error e => rw [hs] at h; cases h
  | ok k' =>
    rw [hs] at h
    cases h
    have he := informInt_ok hs
    have hi' : Inv (w.after k' w.lastSend w.lastRecv w.sends) Q := hi.woken he fun _ _ => rfl
    refine ⟨⟨after_log_nil he.copies, fun d l hl => ?_⟩, Q, hi'⟩
    rw [hi.isQueue hl]
    exact hi'.queues.chain d

/-- **Step rule.** -/
theorem Inv.step {w' : World} {c : Call} (hi : Inv w Q) (h : Ipc.step w c = some w') :
    Takes w c w' ∧ ∃ Q', Inv w' Q' := by
  cases c with
  | send p d m => exact hi.step_send h
  | receive p src m => exact hi.step_receive h
  | interrupt t => exact hi.step_interrupt h

/-! ## runs -/

/-- a SEND whose sender still waits in the queue of its destination -/
def Pending (w : World) (s : SendRec) : Prop :=
  waits w.k s.sender = some s.dest ∧ w.lastSend s.sender = s

instance (w : World) (s : SendRec) : Decidable (Pending w s) :=
  inferInstanceAs (Decidable (_ ∧ _))

/-- what holds in every state of a run -/
structure WellFormed (w : World) : Prop where
  /-- the queue of `d`: finite, without duplicates, of those that are SENDING to `d`, in the order
  in which they blocked -/
  queue : ∀ d, ∃ l, IsQueue w.k d l ∧ l.Nodup ∧
    (∀ p, p ∈ l ↔ (w.k.procs p).flags.sending = true ∧ (w.k.procs p).sendTo = some d) ∧
    l.Pairwise fun a b => (w.lastSend a).time < (w.lastSend b).time
  /-- a SEND is pending or was delivered once -/
  once : ∀ s ∈ w.sends, (w.log.map Delivery.send).count s = if Pending w s then 0 else 1
  /-- a delivery belongs to a SEND, and goes to the buffer of a RECEIVE that matches it -/
  matched : ∀ x ∈ w.log, x.send ∈ w.sends ∧ x.recv.receiver = x.send.dest ∧
    (x.recv.src = .any ∨ x.recv.src = .proc x.send.sender) ∧
    x.copy = ⟨x.send.sender, x.send.buf, x.recv.receiver, x.recv.buf⟩
  /-- a RECEIVE gets at most one message -/
  received : (w.log.map Delivery.recv).Nodup

theorem waits_some {k : Kernel} : waits k p = some d ↔
    (k.procs p).flags.sending = true ∧ (k.procs p).sendTo = some d := by
  show (k.procs p).waits = some d ↔ _
  unfold Proc.waits
  cases (k.procs p).flags.sending with
  | false => simp
  | true => simp

theorem Inv.wellFormed (hi : Inv w Q) : WellFormed w := by
  refine ⟨fun d => ⟨Q d, hi.queues.chain d, hi.queues.nodup d, fun p => ?_, hi.order d⟩,
    fun s hs => ?_, fun x hx => ?_, hi.recvOnce⟩
  · rw [hi.queues.mem]
    exact waits_some
  · by_cases hp : Pending w s
    · rw [if_pos hp, List.count_eq_zero]
      intro hm
      obtain ⟨x, hx, hxs⟩ := List.mem_map.mp hm
      refine (hi.pending s.sender s.dest hp.1).2.2.2.2 x hx ?_
      rw [hxs, hp.2]
    · rw [if_neg hp]
      obtain ⟨x, hx, hxs⟩ := (hi.lost s hs).resolve_left hp
      exact List.count_eq_one_of_mem hi.sentOnce (List.mem_map.mpr ⟨x, hx, hxs⟩)
  · obtain ⟨h1, h2, h3, h4, -⟩ := hi.matched x hx
    exact ⟨h1, h2, h3, h4⟩

/-- nobody is blocked, nothing was sent -/
structure Init (w : World) : Prop where
  flags : ∀ p, (w.k.procs p).flags.sending = false ∧ (w.k.procs p).flags.receiving = false
  head : ∀ p, (w.k.procs p).qSending = none
  sends : w.sends = []
  log : w.log = []

theorem Init.inv (h : Init w) : Inv w fun _ => [] := by
  have hw : ∀ p, waits w.k p = none := fun p => by
    show (w.k.procs p).waits = none
    unfold Proc.waits
    rw [(h.flags p).1]
    rfl
  have ha : ∀ p, asks w.k p = none := fun p => by
    show (w.k.procs p).asks = none
    unfold Proc.asks
    rw [(h.flags p).2]
    rfl
  refine ⟨Queues.empty hw h.head, fun _ => List.Pairwise.nil, fun p d hp => ?_,
    fun p who hp => ?_, ?_, ?_, ?_, ?_, ?_, ?_⟩
  · rw [hw p] at hp
    cases hp
  · rw [ha p] at hp
    cases hp
  · rw [h.sends]
    exact List.Pairwise.nil
  · rw [h.sends]
    exact fun s hs => (nomatch hs)
  · rw [h.log]
    exact fun x hx => (nomatch hx)
  · rw [h.log]
    exact List.nodup_nil
  · rw [h.log]
    exact List.nodup_nil
  · rw [h.sends]
    exact fun s hs => (nomatch hs)

end

end Noxis.Ipc
