import Noxis.Ipc.Clock
import Mathlib.Data.List.FinRange

/-!
# 25-osfs11/kernel/proc.c: the loops of schedule()

`schedule` scans the table until it has found ticks, and gives out new ticks after a scan that found
none.

* `Sched.turns n`      the `while` loop, with `n` scans at most
* `turns_correct`      two scans are enough, and what they choose
* `schedule_turns`     `schedule` in `Sendrec` is this loop
-/

namespace Noxis.Ipc

/-- what `schedule` reads and writes of a record, and the rest of it -/
structure Entry (ρ : Type) where
  flags : Int
  ticks : Int
  priority : Int
  rest : ρ

/-- the table, `greatest_ticks` and `p_proc_ready` -/
structure Sched (ρ : Type) where
  table : Pid → Entry ρ
  greatestTicks : Int
  ready : Pid

namespace Sched

variable {ρ : Type}

/-- the body of the first loop -/
def visit (s : Sched ρ) (p : Pid) : Sched ρ :=
  if (s.table p).flags = 0 ∧ s.greatestTicks < (s.table p).ticks then
    { s with greatestTicks := (s.table p).ticks, ready := p }
  else s

def scan (s : Sched ρ) : Sched ρ := (List.finRange (nrTasks + nrProcs)).foldl visit s

/-- the second loop -/
def giveTicks (table : Pid → Entry ρ) : Pid → Entry ρ := fun p =>
  if (table p).flags = 0 then { table p with ticks := (table p).priority } else table p

/-- one turn of `while (!greatest_ticks)` -/
def turn (s : Sched ρ) : Sched ρ :=
  let s := s.scan
  if s.greatestTicks = 0 then { s with table := giveTicks s.table } else s

/-- the loop; `none` when it needs more than `n` scans -/
def turns : Nat → Sched ρ → Option (Sched ρ)
  | 0, s => if s.greatestTicks ≠ 0 then some s else none
  | n + 1, s => if s.greatestTicks ≠ 0 then some s else turns n s.turn

/-- no runnable process has ticks left -/
def Spent (table : Pid → Entry ρ) : Prop := ∀ q, (table q).flags = 0 → (table q).ticks = 0

instance decidableSpent (table : Pid → Entry ρ) : Decidable (Spent table) :=
  inferInstanceAs (Decidable (∀ _, _ → _))

/-- **the choice is right**: a runnable process with the most ticks, the first one of them; new ticks
were given out if there were none, to the runnable processes, and nothing else has changed -/
structure Chose (table : Pid → Entry ρ) (s : Sched ρ) : Prop where
  runnable : (s.table s.ready).flags = 0
  most : ∀ q, (s.table q).flags = 0 → (s.table q).ticks ≤ (s.table s.ready).ticks
  lowest : ∀ q, (s.table q).flags = 0 → (s.table q).ticks = (s.table s.ready).ticks → s.ready ≤ q
  table : s.table = if Spent table then giveTicks table else table

section
variable {s : Sched ρ} {l : List Pid}

theorem foldl_table (l : List Pid) (s : Sched ρ) : (l.foldl visit s).table = s.table := by
  induction l generalizing s with
  | nil => rfl
  | cons p l ih =>
    rw [List.foldl_cons, ih]
    unfold visit
    by_cases hp : (s.table p).flags = 0 ∧ s.greatestTicks < (s.table p).ticks
    · rw [if_pos hp]
    · rw [if_neg hp]

/-- the first one with the most ticks in a part of the table -/
structure Best (table : Pid → Entry ρ) (l : List Pid) (r : Sched ρ) : Prop where
  mem : r.ready ∈ l
  flags : (table r.ready).flags = 0
  ticks : r.greatestTicks = (table r.ready).ticks
  most : ∀ q ∈ l, (table q).flags = 0 → (table q).ticks ≤ r.greatestTicks
  lowest : ∀ q ∈ l, (table q).flags = 0 → (table q).ticks = r.greatestTicks → r.ready ≤ q

/-- nobody has more than `greatest_ticks`, or the best one is chosen -/
theorem foldl_best (hl : l.Pairwise (· < ·)) (s : Sched ρ) :
    (l.foldl visit s = s ∧
      ∀ q ∈ l, (s.table q).flags = 0 → (s.table q).ticks ≤ s.greatestTicks) ∨
    (s.greatestTicks < (l.foldl visit s).greatestTicks ∧ Best s.table l (l.foldl visit s)) := by
  induction l generalizing s with
  | nil => exact .inl ⟨rfl, fun q hq => nomatch hq⟩
  | cons p l ih =>
    obtain ⟨hlt, hl⟩ := List.pairwise_cons.mp hl
    rw [List.foldl_cons]
    by_cases hp : (s.table p).flags = 0 ∧ s.greatestTicks < (s.table p).ticks
    · rw [visit, if_pos hp]
      rcases ih hl { s with greatestTicks := (s.table p).ticks, ready := p } with
        ⟨heq, hle⟩ | ⟨hgt, hbest⟩
      · -- `p` has the most
        rw [heq]
        refine .inr ⟨hp.2, List.mem_cons_self .., hp.1, rfl, fun q hq hz => ?_, fun q hq hz _ => ?_⟩
        · rcases List.mem_cons.mp hq with rfl | hq
          · exact le_rfl
          · exact hle q hq hz
        · rcases List.mem_cons.mp hq with rfl | hq
          · exact le_rfl
          · exact (hlt q hq).le
      · refine .inr ⟨hp.2.trans hgt, List.mem_cons_of_mem _ hbest.mem, hbest.flags, hbest.ticks,
          fun q hq hz => ?_, fun q hq hz htie => ?_⟩
        · rcases List.mem_cons.mp hq with rfl | hq
          · exact hgt.le
          · exact hbest.most q hq hz
        · rcases List.mem_cons.mp hq with rfl | hq
          · exact absurd htie hgt.ne
          · exact hbest.lowest q hq hz htie
    · rw [visit, if_neg hp]
      have hple : (s.table p).flags = 0 → (s.table p).ticks ≤ s.greatestTicks := fun hz =>
        not_lt.mp fun hgt => hp ⟨hz, hgt⟩
      rcases ih hl s with ⟨heq, hle⟩ | ⟨hgt, hbest⟩
      · refine .inl ⟨heq, fun q hq hz => ?_⟩
        rcases List.mem_cons.mp hq with rfl | hq
        · exact hple hz
        · exact hle q hq hz
      · refine .inr ⟨hgt, List.mem_cons_of_mem _ hbest.mem, hbest.flags, hbest.ticks,
          fun q hq hz => ?_, fun q hq hz htie => ?_⟩
        · rcases List.mem_cons.mp hq with rfl | hq
          · exact (hple hz).trans hgt.le
          · exact hbest.most q hq hz
        · rcases List.mem_cons.mp hq with rfl | hq
          · exact absurd (htie ▸ hple hz) (not_le.mpr hgt)
          · exact hbest.lowest q hq hz htie

/-- **One scan**, which begins with `greatest_ticks` 0. -/
theorem scan_best (hs : s.greatestTicks = 0) :
    (s.scan = s ∧ ∀ q, (s.table q).flags = 0 → (s.table q).ticks ≤ 0) ∨
    (0 < s.scan.greatestTicks ∧ s.scan.table = s.table ∧ Best s.table (List.finRange _) s.scan) := by
  rcases foldl_best (List.pairwise_lt_finRange (nrTasks + nrProcs)) s with ⟨heq, hle⟩ | ⟨hgt, hbest⟩
  · exact .inl ⟨heq, fun q hz => hs ▸ hle q (List.mem_finRange q) hz⟩
  · exact .inr ⟨hs ▸ hgt, foldl_table _ s, hbest⟩

theorem Best.chose {table : Pid → Entry ρ} (h : Best s.table (List.finRange _) s)
    (ht : s.table = if Spent table then giveTicks table else table) : Chose table s := by
  refine ⟨h.flags, fun q hz => ?_, fun q hz htie => ?_, ht⟩
  · rw [← h.ticks]
    exact h.most q (List.mem_finRange q) hz
  · rw [← h.ticks] at htie
    exact h.lowest q (List.mem_finRange q) hz htie

theorem giveTicks_zero {table : Pid → Entry ρ} {p : Pid} (hz : (table p).flags = 0) :
    (giveTicks table p).flags = 0 ∧ (giveTicks table p).ticks = (table p).priority := by
  unfold giveTicks
  rw [if_pos hz]
  exact ⟨hz, rfl⟩

end

/-- **`schedule` chooses right**, after two scans at most. -/
theorem turns_correct {table : Pid → Entry ρ} (hn : ∀ p, 0 ≤ (table p).ticks)
    (he : ∃ p, (table p).flags = 0 ∧ (0 < (table p).ticks ∨ 0 < (table p).priority)) (ready : Pid) :
    ∃ s, turns 2 ⟨table, 0, ready⟩ = some s ∧ Chose table s := by
  obtain ⟨p, hp, hpos⟩ := he
  rcases scan_best (s := ⟨table, 0, ready⟩) rfl with ⟨heq, hle⟩ | ⟨hgt, htable, hbest⟩
  · -- nobody has ticks: the second scan finds `p`
    have hspent : Spent table := fun q hq => le_antisymm (hle q hq) (hn q)
    have hprio : 0 < (table p).priority := hpos.resolve_left (by rw [hspent p hp]; exact lt_irrefl 0)
    have hturn : turn ⟨table, 0, ready⟩ = ⟨giveTicks table, 0, ready⟩ := by
      unfold turn
      simp only
      rw [heq, if_pos rfl]
    rw [turns, if_neg (by simp), hturn]
    rcases scan_best (s := ⟨giveTicks table, 0, ready⟩) rfl with ⟨-, hle'⟩ | ⟨hgt, htable, hbest⟩
    · obtain ⟨hp', hticks⟩ := giveTicks_zero hp
      exact absurd (hle' p hp') (by rw [hticks]; exact not_le.mpr hprio)
    · have hturn' : turn ⟨giveTicks table, 0, ready⟩ = scan ⟨giveTicks table, 0, ready⟩ := by
        unfold turn
        simp only
        rw [if_neg hgt.ne']
      rw [turns, if_neg (by simp), hturn', turns, if_pos hgt.ne']
      refine ⟨_, rfl, Best.chose ?_ ?_⟩
      · rwa [htable]
      · rw [htable, if_pos hspent]
  · have hturn : turn ⟨table, 0, ready⟩ = scan ⟨table, 0, ready⟩ := by
      unfold turn
      simp only
      rw [if_neg hgt.ne']
    have hspent : ¬ Spent table := fun hs => by
      rw [hbest.ticks] at hgt
      exact absurd (hs _ hbest.flags) hgt.ne'
    rw [turns, if_neg (by simp), hturn, turns, if_pos hgt.ne']
    refine ⟨_, rfl, Best.chose ?_ ?_⟩
    · rwa [htable]
    · rw [htable, if_neg hspent]

/-- TTY is blocked and keeps its ticks, two others wait for new ones -/
def twoSpent : Pid → Entry Unit := fun p =>
  if p = taskTty then ⟨0x04, 7, 15, ()⟩
  else if p = taskSys then ⟨0, 0, 5, ()⟩
  else if p = taskHd then ⟨0, 0, 15, ()⟩
  else ⟨0x20, 0, 0, ()⟩

theorem turns_correct_twoSpent : ∃ s, turns 2 ⟨twoSpent, 0, taskTty⟩ = some s ∧ Chose twoSpent s :=
  turns_correct (by decide) ⟨taskHd, by decide⟩ taskTty

end Sched

/-! ## the process table -/

/-- the bits as a word -/
def Flags.word (f : Flags) : Int :=
  (if f.sending then 0x02 else 0) + (if f.receiving then 0x04 else 0) +
    (if f.waiting then 0x08 else 0) + (if f.hanging then 0x10 else 0) +
    (if f.freeSlot then 0x20 else 0)

theorem Flags.word_eq_zero {f : Flags} : f.word = 0 ↔ f = .zero := by
  obtain ⟨a, b, c, d, e⟩ := f
  revert a b c d e
  decide

/-- a record of the process table -/
def Proc.entry (x : Proc) : Entry Proc :=
  ⟨x.flags.word, x.ticks, x.priority, { x with ticks := 0, priority := 0 }⟩

/-- the table as the loops see it -/
def entries (procs : Pid → Proc) : Pid → Entry Proc := fun p => (procs p).entry

section
variable {k k' : Kernel} {procs : Pid → Proc} {p : Pid}

theorem foldl_entries (procs : Pid → Proc) (ready : Pid) (l : List Pid) (b : Nat × Option Pid) :
    l.foldl Sched.visit ⟨entries procs, b.1, b.2.getD ready⟩ =
      let r := l.foldl (fun best p => if (procs p).flags = .zero ∧ best.1 < (procs p).ticks then
        ((procs p).ticks, some p) else best) b
      ⟨entries procs, r.1, r.2.getD ready⟩ := by
  induction l generalizing b with
  | nil => rfl
  | cons p l ih =>
    rw [List.foldl_cons, List.foldl_cons]
    have hiff : ((entries procs p).flags = 0 ∧ (b.1 : Int) < (entries procs p).ticks) ↔
        ((procs p).flags = .zero ∧ b.1 < (procs p).ticks) :=
      and_congr Flags.word_eq_zero Int.ofNat_lt
    unfold Sched.visit
    simp only [hiff]
    by_cases hp : (procs p).flags = .zero ∧ b.1 < (procs p).ticks
    · rw [if_pos hp, if_pos hp]
      exact ih ((procs p).ticks, some p)
    · rw [if_neg hp, if_neg hp]
      exact ih b

/-- a scan that finds somebody -/
theorem scan_some (ready : Pid) (h : mostTicks procs = some p) :
    Sched.scan ⟨entries procs, 0, ready⟩ = ⟨entries procs, (procs p).ticks, p⟩ := by
  have hscan := foldl_entries procs ready (List.finRange (nrTasks + nrProcs)) (0, none)
  obtain ⟨-, -, h3⟩ := scan_spec procs (List.finRange (nrTasks + nrProcs)) (0, none)
  unfold mostTicks at h
  unfold Sched.scan
  rcases h3 with h3 | ⟨q, h3, -⟩
  · rw [h3] at h
    cases h
  · rw [h3] at h hscan
    cases h
    exact hscan

theorem scan_none (ready : Pid) (h : mostTicks procs = none) :
    Sched.scan ⟨entries procs, 0, ready⟩ = ⟨entries procs, 0, ready⟩ := by
  have hscan := foldl_entries procs ready (List.finRange (nrTasks + nrProcs)) (0, none)
  obtain ⟨-, -, h3⟩ := scan_spec procs (List.finRange (nrTasks + nrProcs)) (0, none)
  unfold mostTicks at h
  unfold Sched.scan
  rcases h3 with h3 | ⟨q, h3, -⟩
  · rw [h3] at hscan
    exact hscan
  · rw [h3] at h
    cases h

theorem giveTicks_entries (procs : Pid → Proc) :
    Sched.giveTicks (entries procs) = entries (recharge procs) := by
  funext p
  show (if (procs p).flags.word = 0 then _ else _) = (recharge procs p).entry
  unfold recharge
  by_cases hp : (procs p).flags = .zero
  · rw [if_pos (Flags.word_eq_zero.mpr hp), if_pos hp]
    rfl
  · rw [if_neg fun h => hp (Flags.word_eq_zero.mp h), if_neg hp]
    rfl

theorem turn_some (ready : Pid) (h : mostTicks procs = some p) :
    Sched.turn ⟨entries procs, 0, ready⟩ = ⟨entries procs, (procs p).ticks, p⟩ := by
  have hpos := mostTicks_pos h
  unfold Sched.turn
  simp only
  rw [scan_some ready h, if_neg (by simp; omega)]

/-- **`schedule` is the loop.** -/
theorem schedule_turns (h : schedule k = .ok k') : ∃ s,
    Sched.turns 2 ⟨entries k.procs, 0, k.ready⟩ = some s ∧ s.ready = k'.ready ∧
      s.table = entries k'.procs := by
  unfold schedule at h
  rw [Sched.turns, if_neg (by simp)]
  cases hm : mostTicks k.procs with
  | some p =>
    rw [hm] at h
    cases h
    have hpos := mostTicks_pos hm
    rw [turn_some k.ready hm, Sched.turns, if_pos (by simp; omega)]
    exact ⟨_, rfl, rfl, rfl⟩
  | none =>
    rw [hm] at h
    have hturn : Sched.turn ⟨entries k.procs, 0, k.ready⟩ =
        ⟨entries (recharge k.procs), 0, k.ready⟩ := by
      unfold Sched.turn
      simp only
      rw [scan_none k.ready hm, if_pos rfl, giveTicks_entries]
    rw [hturn, Sched.turns, if_neg (by simp)]
    cases hm' : mostTicks (recharge k.procs) with
    | none =>
      simp only [hm'] at h
      cases h
    | some p =>
      simp only [hm'] at h
      cases h
      have hpos := mostTicks_pos hm'
      rw [turn_some k.ready hm', Sched.turns, if_pos (by simp; omega)]
      exact ⟨_, rfl, rfl, rfl⟩

end

end Noxis.Ipc
