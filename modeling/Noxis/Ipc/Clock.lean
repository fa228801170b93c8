import Noxis.Ipc.Frame

/-!
# 25-osfs11: when schedule() ends

`schedule` ends exactly if some process is `Eligible`: runnable, with ticks or with a priority
(`schedule_noReady_iff`).  A system call reaches it only at its end, when the caller blocks; `Outcome`
says what a call does to the flags, the ticks and the priorities (`sysSendrec_outcome`).
-/

namespace Noxis.Ipc

/-- ticks and priority -/
def clocks (k : Kernel) (q : Pid) : Nat × Nat := ((k.procs q).ticks, (k.procs q).priority)

/-- `schedule` can choose `q`, at once or after it has given out new ticks -/
def Eligible (k : Kernel) (q : Pid) : Prop :=
  flags k q = .zero ∧ (0 < (clocks k q).1 ∨ 0 < (clocks k q).2)

section
variable {k k' : Kernel} {p d src : Pid} {m : Nat} {procs : Pid → Proc}

/-! ## schedule -/

/-- the scan of `schedule` -/
theorem scan_spec (procs : Pid → Proc) (l : List Pid) (b : Nat × Option Pid) :
    let r := l.foldl (fun best p => if (procs p).flags = .zero ∧ best.1 < (procs p).ticks then
      ((procs p).ticks, some p) else best) b
    b.1 ≤ r.1 ∧ (∀ q ∈ l, (procs q).flags = .zero → (procs q).ticks ≤ r.1) ∧
      (r = b ∨ ∃ q, r = ((procs q).ticks, some q) ∧ b.1 < (procs q).ticks) := by
  induction l generalizing b with
  | nil => exact ⟨le_refl _, fun q hq => (nomatch hq), .inl rfl⟩
  | cons x l ih =>
    rw [List.foldl_cons]
    by_cases hx : (procs x).flags = .zero ∧ b.1 < (procs x).ticks
    · rw [if_pos hx]
      obtain ⟨h1, h2, h3⟩ := ih ((procs x).ticks, some x)
      refine ⟨hx.2.le.trans h1, fun q hq hz => ?_, ?_⟩
      · rcases List.mem_cons.mp hq with rfl | hq
        · exact h1
        · exact h2 q hq hz
      · rcases h3 with h3 | ⟨q, h3, hlt⟩
        · exact .inr ⟨x, h3, hx.2⟩
        · exact .inr ⟨q, h3, hx.2.trans hlt⟩
    · rw [if_neg hx]
      obtain ⟨h1, h2, h3⟩ := ih b
      refine ⟨h1, fun q hq hz => ?_, h3⟩
      rcases List.mem_cons.mp hq with rfl | hq
      · have hle : (procs q).ticks ≤ b.1 := by
          by_contra hlt
          exact hx ⟨hz, by omega⟩
        exact hle.trans h1
      · exact h2 q hq hz

theorem mostTicks_pos (h : mostTicks procs = some p) : 0 < (procs p).ticks := by
  unfold mostTicks at h
  obtain ⟨-, -, h3⟩ := scan_spec procs (List.finRange (nrTasks + nrProcs)) (0, none)
  rcases h3 with h3 | ⟨q, h3, hlt⟩
  · rw [h3] at h
    cases h
  · rw [h3] at h
    cases h
    exact hlt

theorem mostTicks_none (h : mostTicks procs = none) (hp : (procs p).flags = .zero) :
    (procs p).ticks = 0 := by
  unfold mostTicks at h
  obtain ⟨-, h2, h3⟩ := scan_spec procs (List.finRange (nrTasks + nrProcs)) (0, none)
  rcases h3 with h3 | ⟨q, h3, -⟩
  · have hle := h2 p (List.mem_finRange p) hp
    rw [h3] at hle
    exact Nat.le_zero.mp hle
  · rw [h3] at h
    cases h

theorem recharge_zero (hp : (procs p).flags = .zero) :
    recharge procs p = { procs p with ticks := (procs p).priority } := by
  unfold recharge
  rw [if_pos hp]

theorem recharge_flags (procs : Pid → Proc) (p : Pid) : (recharge procs p).flags = (procs p).flags := by
  unfold recharge
  by_cases hp : (procs p).flags = .zero
  · rw [if_pos hp]
  · rw [if_neg hp]

/-- the one that `schedule` chooses -/
theorem schedule_eligible (h : schedule k = .ok k') : Eligible k k'.ready := by
  unfold schedule at h
  cases hm : mostTicks k.procs with
  | some p =>
    rw [hm] at h
    cases h
    exact ⟨mostTicks_zero hm, .inl (mostTicks_pos hm)⟩
  | none =>
    rw [hm] at h
    cases hm' : mostTicks (recharge k.procs) with
    | some p =>
      simp only [hm'] at h
      cases h
      have hz : (k.procs p).flags = .zero := by
        rw [← recharge_flags]
        exact mostTicks_zero hm'
      have hpos := mostTicks_pos hm'
      rw [recharge_zero hz] at hpos
      exact ⟨hz, .inr hpos⟩
    | none =>
      simp only [hm'] at h
      cases h

/-- **`schedule` ends** exactly if some process is eligible. -/
theorem schedule_noReady_iff : schedule k = .error .noReady ↔ ∀ q, ¬ Eligible k q := by
  constructor
  · rintro h q ⟨hz, hpos⟩
    have hz' : (k.procs q).flags = .zero := hz
    unfold schedule at h
    cases hm : mostTicks k.procs with
    | some p =>
      rw [hm] at h
      cases h
    | none =>
      rw [hm] at h
      cases hm' : mostTicks (recharge k.procs) with
      | some p =>
        simp only [hm'] at h
        cases h
      | none =>
        have h1 := mostTicks_none hm hz'
        have h2 := mostTicks_none hm' ((recharge_flags _ _).trans hz')
        rw [recharge_zero hz'] at h2
        have hpos' : 0 < (k.procs q).ticks ∨ 0 < (k.procs q).priority := hpos
        rcases hpos' with h | h
        · omega
        · have h2' : (k.procs q).priority = 0 := h2
          omega
  · intro h
    cases hs : schedule k with
    | ok k' => exact absurd (schedule_eligible hs) (h _)
    | error e =>
      unfold schedule at hs
      cases hm : mostTicks k.procs with
      | some p =>
        rw [hm] at hs
        cases hs
      | none =>
        rw [hm] at hs
        cases hm' : mostTicks (recharge k.procs) with
        | some p =>
          simp only [hm'] at hs
          cases hs
        | none =>
          simp only [hm'] at hs
          rw [← hs]

/-- what `schedule` does to the clocks of a process that is not eligible, or has a priority -/
theorem schedule_clocks (h : schedule k = .ok k') (q : Pid) :
    (clocks k' q).2 = (clocks k q).2 ∧
      ((clocks k' q).1 = (clocks k q).1 ∨ (clocks k' q).1 = (clocks k q).2) := by
  unfold schedule at h
  cases hm : mostTicks k.procs with
  | some p =>
    rw [hm] at h
    cases h
    exact ⟨rfl, .inl rfl⟩
  | none =>
    rw [hm] at h
    cases hm' : mostTicks (recharge k.procs) with
    | some p =>
      simp only [hm'] at h
      cases h
      show (recharge k.procs q).priority = (k.procs q).priority ∧
        ((recharge k.procs q).ticks = (k.procs q).ticks ∨
          (recharge k.procs q).ticks = (k.procs q).priority)
      by_cases hz : (k.procs q).flags = .zero
      · rw [recharge_zero hz]
        exact ⟨rfl, .inr rfl⟩
      · unfold recharge
        rw [if_neg hz]
        exact ⟨rfl, .inl rfl⟩
    | none =>
      simp only [hm'] at h
      cases h

/-! ## what comes before schedule -/

/-- the result is not that of a scheduler that finds nobody -/
def Quiet {α : Type} (r : Except Fault α) : Prop := r ≠ .error .noReady

theorem quiet_ok {α : Type} (a : α) : Quiet (Except.ok a) := fun h => (nomatch h)

theorem quiet_bind {α β : Type} {x : Except Fault α} {f : α → Except Fault β} (hx : Quiet x)
    (hf : ∀ a, Quiet (f a)) : Quiet (x >>= f) := by
  cases x with
  | error e =>
    intro h
    apply hx
    have he : (Except.error e : Except Fault β) = .error .noReady := h
    cases he
    rfl
  | ok a => exact hf a

theorem quiet_check (P : Prop) [Decidable P] : Quiet (check P) := by
  unfold check
  by_cases h : P
  · rw [if_pos h]
    exact quiet_ok _
  · rw [if_neg h]
    exact fun he => (nomatch he)

/-- what follows an assertion -/
theorem quiet_assert {β : Type} {P : Prop} [Decidable P] {f : Unit → Except Fault β}
    (hf : Quiet (f ())) : Quiet (check P >>= f) := quiet_bind (quiet_check P) fun _ => hf

theorem va2la_quiet (k : Kernel) (p : Pid) (va : Nat) : Quiet (va2la k p va) :=
  quiet_assert (quiet_ok _)

theorem copyMsg_quiet (k : Kernel) (a : Pid) (x : Nat) (b : Pid) (y : Nat) :
    Quiet (copyMsg k a x b y) :=
  quiet_bind (va2la_quiet _ _ _) fun _ => quiet_bind (va2la_quiet _ _ _) fun _ => quiet_ok _

theorem handOver_quiet (k : Kernel) (p d : Pid) (m : Nat) : Quiet (handOver k p d m) :=
  quiet_assert <| quiet_assert <| quiet_bind (copyMsg_quiet _ _ _ _ _) fun _ => quiet_assert <|
    quiet_assert <| quiet_assert <| quiet_assert <| quiet_assert <| quiet_assert <| quiet_ok _

theorem enqueue_quiet (k : Kernel) (p d : Pid) : Quiet (enqueue k p d) := by
  unfold enqueue
  cases (k.procs d).qSending with
  | none => exact quiet_ok _
  | some h =>
    simp only
    cases lastOf (fun p => (k.procs p).nextSending) fuel h with
    | none => exact fun he => (nomatch he)
    | some z => exact quiet_ok _

theorem deadlock_quiet (k : Kernel) (p d : Pid) : Quiet (deadlock k p d) := by
  unfold deadlock
  generalize fuel = n
  induction n generalizing d with
  | zero => exact fun he => (nomatch he)
  | succ n ih =>
    rw [deadlockFrom]
    by_cases hs : (k.procs d).flags.sending = true
    · rw [if_pos hs]
      cases (k.procs d).sendTo with
      | none => exact fun he => (nomatch he)
      | some x =>
        by_cases hx : x = p
        · simp only [if_pos hx]
          exact quiet_ok _
        · simp only [if_neg hx]
          exact ih x
    · rw [if_neg hs]
      exact quiet_ok _

theorem takeInt_quiet (k : Kernel) (p : Pid) (m : Nat) : Quiet (takeInt k p m) :=
  quiet_assert <| quiet_bind (va2la_quiet _ _ _) fun _ => quiet_assert <| quiet_assert <|
    quiet_assert <| quiet_ok _

theorem checkPair_quiet (k : Kernel) (p src : Pid) : Quiet (checkPair k p src) :=
  quiet_assert <| quiet_assert <| quiet_assert <| quiet_assert <| quiet_assert <| quiet_assert <|
    quiet_assert <| quiet_assert <| quiet_check _

theorem choose_quiet (k : Kernel) (p : Pid) (who : Who) : Quiet (choose k p who) := by
  unfold choose
  cases who with
  | noTask =>
    intro he
    cases he
  | interrupt =>
    simp only
    by_cases h : k.below.1.sending = true ∧ k.below.2 = some p
    · rw [if_pos h]
      intro he
      cases he
    · rw [if_neg h]
      exact quiet_ok _
  | any =>
    cases (k.procs p).qSending with
    | none => exact quiet_ok _
    | some h => exact quiet_bind (checkPair_quiet _ _ _) fun _ => quiet_ok _
  | proc src =>
    by_cases hs : (k.procs src).flags.sending = true ∧ (k.procs src).sendTo = some p
    · simp only [if_pos hs]
      refine quiet_assert ?_
      cases findFrom (fun p => (k.procs p).nextSending) src fuel none (k.procs p).qSending with
      | none =>
        intro he
        cases he
      | some x => exact quiet_bind (checkPair_quiet _ _ _) fun _ => quiet_ok _
    · simp only [if_neg hs]
      exact quiet_ok _

theorem dequeue_quiet (k : Kernel) (p src : Pid) (prev : Option Pid) :
    Quiet (dequeue k p src prev) := by
  unfold dequeue
  by_cases hh : (k.procs p).qSending = some src
  · rw [if_pos hh]
    exact quiet_assert (quiet_ok _)
  · rw [if_neg hh]
    cases prev with
    | none => exact fun he => (nomatch he)
    | some z => exact quiet_ok _

theorem takeMsg_quiet (k : Kernel) (p src : Pid) (prev : Option Pid) (m : Nat) :
    Quiet (takeMsg k p src prev m) :=
  quiet_bind (dequeue_quiet _ _ _ _) fun _ => quiet_assert <| quiet_assert <|
    quiet_bind (copyMsg_quiet _ _ _ _ _) fun _ => quiet_assert (quiet_ok _)

/-! ## the outcome of a call -/

/-- what a call of `p` ends with; `B` says that the caller blocks -/
inductive Outcome (k : Kernel) (p : Pid) (B : Prop) (r : Except Fault Kernel) : Prop
  | fault {e : Fault} : e ≠ .noReady → r = .error e → Outcome k p B r
  /-- the caller runs on; another process may run again -/
  | direct {k' : Kernel} : ¬ B → r = .ok k' → clocks k' = clocks k → k'.ready = k.ready →
      (∀ q, flags k' q = flags k q ∨ flags k' q = .zero ∧ flags k q ≠ .FREE_SLOT) →
      Outcome k p B r
  /-- the caller blocks, and `schedule` chooses -/
  | blocked {k₁ : Kernel} {F : Flags} : B → F ≠ .zero → clocks k₁ = clocks k →
      flags k₁ = Function.update (flags k) p F →
      (r = schedule k₁ ∨ ∃ k₂, schedule k₁ = .ok k₂ ∧ r = .error .assert) → Outcome k p B r

/-- a result that no scheduler made -/
theorem Quiet.outcome {B : Prop} {r : Except Fault Kernel} (hq : Quiet r)
    (h : ∀ k', r = .ok k' → ¬ B ∧ clocks k' = clocks k ∧ k'.ready = k.ready ∧
      ∀ q, flags k' q = flags k q ∨ flags k' q = .zero ∧ flags k q ≠ .FREE_SLOT) :
    Outcome k p B r := by
  cases r with
  | error e => exact .fault (fun he => hq (by rw [he])) rfl
  | ok k' =>
    obtain ⟨hb, hc, hr, hf⟩ := h k' rfl
    exact .direct hb rfl hc hr hf

theorem flags_woken {x : Pid} (hx : flags k x ≠ .FREE_SLOT)
    (h : flags k' = Function.update (flags k) x .zero) (q : Pid) :
    flags k' q = flags k q ∨ flags k' q = .zero ∧ flags k q ≠ .FREE_SLOT := by
  rw [h]
  by_cases hq : q = x
  · subst hq
    exact .inr ⟨Function.update_self .., hx⟩
  · exact .inl (Function.update_of_ne hq ..)

theorem clocks_set (k : Kernel) (p : Pid) (f : Proc → Proc)
    (hf : ((f (k.procs p)).ticks, (f (k.procs p)).priority) =
      ((k.procs p).ticks, (k.procs p).priority)) : clocks (k.set p f) = clocks k :=
  Kernel.proj_set_eq (fun x => (x.ticks, x.priority)) k p f hf

theorem handOver_outcome (hw : wants k d p) : Outcome k p (¬ wants k d p) (handOver k p d m) := by
  refine (handOver_quiet k p d m).outcome fun k' h => ⟨fun hn => hn hw, ?_, (handOver_frame h).2, ?_⟩
  · unfold handOver at h
    simp only [check_bind_ok] at h
    obtain ⟨-, -, h⟩ := h
    obtain ⟨k₁, hc, h⟩ := bind_ok.mp h
    obtain ⟨mem, rfl⟩ := copyMsg_ok hc
    simp only [unblock, check_bind_ok] at h
    obtain ⟨-, -, -, -, -, -, h⟩ := h
    cases h
    exact clocks_set _ _ _ rfl
  · refine flags_woken (x := d) (fun hf => ?_) (handOver_ok hw h).flags
    have hr : (flags k d).receiving = true := hw.1
    rw [hf] at hr
    cases hr

theorem enqueue_clocks (hpd : p ≠ d) (h : enqueue k p d = .ok k') :
    clocks k' = clocks k ∧ flags k' = flags k := by
  obtain ⟨-, -, hsame⟩ := enqueue_ok hpd h
  exact ⟨hsame (fun x => (x.ticks, x.priority)) fun _ _ _ => rfl, hsame Proc.flags fun _ _ _ => rfl⟩

/-- an assertion, and what follows it -/
theorem Outcome.of_check {B P : Prop} [Decidable P] {f : Unit → Except Fault Kernel}
    (h : P → Outcome k p B (f ())) : Outcome k p B (check P >>= f) := by
  by_cases hP : P
  · have he : (check P >>= f) = f () := by
      unfold check
      rw [if_pos hP]
      rfl
    rw [he]
    exact h hP
  · have he : (check P >>= f) = .error .assert := by
      unfold check
      rw [if_neg hP]
      rfl
    exact .fault (by decide) he

/-- a part that is quiet, and what follows it -/
theorem Outcome.of_quiet {α : Type} {B : Prop} {x : Except Fault α} {f : α → Except Fault Kernel}
    (hq : Quiet x) (h : ∀ a, x = .ok a → Outcome k p B (f a)) : Outcome k p B (x >>= f) := by
  cases x with
  | error e => exact .fault (fun he => hq (by rw [he])) rfl
  | ok a => exact h a rfl

/-- assertions at the end of a call -/
theorem check_end {P : Prop} [Decidable P] {f : Unit → Except Fault Kernel}
    (h : f () = .ok k ∨ f () = .error .assert) :
    (check P >>= f) = .ok k ∨ (check P >>= f) = .error .assert := by
  unfold check
  by_cases hP : P
  · rw [if_pos hP]
    exact h
  · rw [if_neg hP]
    exact .inr rfl

theorem block_eq {k₁ : Kernel} {F : Flags} (hz : F ≠ .zero)
    (hf : flags k₁ = Function.update (flags k) p F) : block k₁ p = schedule k₁ := by
  have hne : flags k₁ p ≠ .zero := by
    rw [hf, Function.update_self]
    exact hz
  have hne' : (k₁.procs p).flags ≠ .zero := hne
  unfold block check
  rw [if_pos hne']
  rfl

theorem queueUp_outcome (hpd : p ≠ d) (hw : ¬ wants k d p) :
    Outcome k p (¬ wants k d p) (queueUp k p d m) := by
  unfold queueUp
  refine Outcome.of_check fun hs => Outcome.of_quiet (enqueue_quiet _ _ _) fun k₁ he => ?_
  obtain ⟨hc₁, hf₁⟩ := enqueue_clocks hpd he
  have hc : clocks k₁ = clocks k :=
    hc₁.trans ((clocks_set _ _ _ rfl).trans (clocks_set _ _ _ rfl))
  have hf : flags k₁ = Function.update (flags k) p .SENDING := by
    rw [hf₁, flags_set, flags_set, Function.update_idem]
    exact congrArg _ hs
  rw [block_eq (by decide) hf]
  refine .blocked hw (by decide) hc hf ?_
  cases hk : schedule k₁ with
  | error e => exact .inl rfl
  | ok k₂ =>
    exact (check_end <| check_end <| check_end <| check_end <| .inl rfl).imp_right
      fun he => ⟨k₂, rfl, he⟩

theorem waitFor_outcome {who : Who} {B : Prop} (hB : B) : Outcome k p B (waitFor k p who m) := by
  unfold waitFor
  refine Outcome.of_check fun hr => Outcome.of_check fun _ => Outcome.of_check fun _ =>
    Outcome.of_check fun _ => Outcome.of_check fun _ => ?_
  have hf := flags_set k p fun x =>
    { x with flags := { x.flags with receiving := true }, msg := m, recvFrom := who }
  rw [Kernel.set_same] at hr
  rw [hr] at hf
  rw [block_eq (by decide) hf]
  exact .blocked hB (by decide) (clocks_set _ _ _ rfl) hf (.inl rfl)

theorem takeInt_outcome {B : Prop} (hB : ¬ B) : Outcome k p B (takeInt k p m) := by
  refine (takeInt_quiet k p m).outcome fun k' h => ⟨hB, ?_, (takeInt_frame h).2, fun q => .inl ?_⟩
  · unfold takeInt at h
    rw [check_bind_ok] at h
    obtain ⟨la, -, h⟩ := bind_ok.mp h.2
    simp only [check_bind_ok] at h
    obtain ⟨-, -, -, h⟩ := h
    cases h
    exact clocks_set _ _ _ rfl
  · unfold takeInt at h
    rw [check_bind_ok] at h
    obtain ⟨la, -, h⟩ := bind_ok.mp h.2
    simp only [check_bind_ok] at h
    obtain ⟨-, -, -, h⟩ := h
    cases h
    exact congrFun (Kernel.proj_set_eq Proc.flags _ _ _ rfl) q

theorem dequeue_clocks {prev : Option Pid} (h : dequeue k p src prev = .ok k') :
    clocks k' = clocks k ∧ flags k' = flags k := by
  obtain ⟨-, -, hsame⟩ := dequeue_ok h
  exact ⟨hsame (fun x => (x.ticks, x.priority)) fun _ _ _ => rfl, hsame Proc.flags fun _ _ _ => rfl⟩

theorem takeMsg_outcome {B : Prop} {prev : Option Pid} (hB : ¬ B)
    (hsrc : flags k src ≠ .FREE_SLOT) : Outcome k p B (takeMsg k p src prev m) := by
  refine (takeMsg_quiet k p src prev m).outcome fun k' h =>
    ⟨hB, ?_, (takeMsg_frame h).2, flags_woken hsrc (takeMsg_ok h).flags⟩
  unfold takeMsg at h
  obtain ⟨k₁, hd, h⟩ := bind_ok.mp h
  simp only [check_bind_ok] at h
  obtain ⟨-, -, h⟩ := h
  obtain ⟨k₂, hc, h⟩ := bind_ok.mp h
  obtain ⟨mem, rfl⟩ := copyMsg_ok hc
  simp only [unblock, check_bind_ok] at h
  obtain ⟨-, h⟩ := h
  cases h
  exact (clocks_set _ _ _ rfl).trans (dequeue_clocks hd).1

/-- the call blocks its caller -/
def Blocks (k : Kernel) (p : Pid) : IpcFunction → Who → Prop
  | .SEND, .proc d => ¬ wants k d p
  | .SEND, _ => False
  | .RECEIVE, who => ¬ ((k.procs p).hasIntMsg = true ∧ (who = .any ∨ who = .interrupt)) ∧
      (who = .any → head k p = none) ∧ ∀ q, who = .proc q → waits k q ≠ some p

theorem msgSend_outcome : Outcome k p (Blocks k p .SEND (.proc d)) (msgSend k p d m) := by
  unfold msgSend
  refine Outcome.of_check fun hpd => Outcome.of_quiet (deadlock_quiet _ _ _) fun b _ => ?_
  cases b with
  | true => exact .fault (e := .deadlock) (by decide) rfl
  | false =>
    simp only [Bool.false_eq_true, if_false]
    by_cases hw : wants k d p
    · rw [if_pos hw]
      exact handOver_outcome hw
    · rw [if_neg hw]
      exact queueUp_outcome hpd hw

/-- the process that a message is taken from is SENDING -/
theorem choose_sending {who : Who} {prev : Option Pid}
    (h : choose k p who = .ok (some (prev, src))) : flags k src = .SENDING := by
  have hpair : ∀ {x : Pid} {α : Type} {f : Unit → Except Fault α} {a : α},
      (checkPair k p x >>= f) = .ok a → flags k x = .SENDING ∧ f () = .ok a := by
    intro x α f a hx
    obtain ⟨_, hc, hf⟩ := bind_ok.mp hx
    unfold checkPair at hc
    simp only [check_bind_ok] at hc
    exact ⟨hc.2.2.2.2.2.1, hf⟩
  unfold choose at h
  cases who with
  | noTask => cases h
  | interrupt =>
    simp only at h
    by_cases hb : k.below.1.sending = true ∧ k.below.2 = some p
    · rw [if_pos hb] at h
      cases h
    · rw [if_neg hb] at h
      cases h
  | any =>
    cases hq : (k.procs p).qSending with
    | none =>
      simp only [hq] at h
      cases h
    | some x =>
      simp only [hq] at h
      obtain ⟨hs, h⟩ := hpair h
      cases h
      exact hs
  | proc q =>
    by_cases hs : (k.procs q).flags.sending = true ∧ (k.procs q).sendTo = some p
    · simp only [if_pos hs, check_bind_ok] at h
      cases hf : findFrom (fun p => (k.procs p).nextSending) q fuel none (k.procs p).qSending with
      | none =>
        rw [hf] at h
        cases h.2
      | some x =>
        rw [hf] at h
        obtain ⟨hs, h⟩ := hpair h.2
        cases h
        exact hs
    · simp only [if_neg hs] at h
      cases h

theorem msgReceive_outcome {who : Who} :
    Outcome k p (Blocks k p .RECEIVE who) (msgReceive k p who m) := by
  unfold msgReceive
  refine Outcome.of_check fun _ => ?_
  by_cases hi : (k.procs p).hasIntMsg = true ∧ (who = .any ∨ who = .interrupt)
  · rw [if_pos hi]
    exact takeInt_outcome fun hb => hb.1 hi
  · rw [if_neg hi]
    refine Outcome.of_quiet (choose_quiet _ _ _) fun c hc => ?_
    cases c with
    | some x =>
      obtain ⟨prev, src⟩ := x
      refine takeMsg_outcome (fun hb => ?_) (by rw [choose_sending hc]; decide)
      cases choose_some hc with
      | any hh =>
        rw [hb.2.1 rfl] at hh
        cases hh
      | one hw _ => exact hb.2.2 _ rfl hw
    | none =>
      obtain ⟨h1, h2⟩ := choose_none hc
      exact waitFor_outcome ⟨hi, h1, h2⟩

/-- **What a system call ends with.** -/
theorem sysSendrec_outcome {fn : IpcFunction} {who : Who} :
    Outcome k p (Blocks k p fn who) (sysSendrec k fn who m p) := by
  unfold sysSendrec
  refine Outcome.of_check fun _ => Outcome.of_quiet (va2la_quiet _ _ _) fun la _ =>
    Outcome.of_check fun _ => ?_
  simp only
  -- the stamp changes the memory only
  set k₁ : Kernel := { k with mem := _ } with hk₁
  have hB : ∀ fn who, Blocks k₁ p fn who ↔ Blocks k p fn who := by
    intro fn who
    cases fn with
    | RECEIVE => exact Iff.rfl
    | SEND => cases who <;> exact Iff.rfl
  have hgo : ∀ {fn : IpcFunction} {who : Who} {r : Except Fault Kernel},
      Outcome k₁ p (Blocks k₁ p fn who) r → Outcome k p (Blocks k p fn who) r := by
    intro fn who r ho
    cases ho with
    | fault he hr => exact .fault he hr
    | direct hb hr h1 h2 h3 => exact .direct (fun h => hb ((hB _ _).mpr h)) hr h1 h2 h3
    | blocked hb hz h1 h2 h3 => exact .blocked ((hB _ _).mp hb) hz h1 h2 h3
  cases fn with
  | RECEIVE => exact hgo msgReceive_outcome
  | SEND =>
    cases who with
    | proc d => exact hgo msgSend_outcome
    | noTask => exact .fault (e := .badIndex) (by decide) rfl
    | any => exact .fault (e := .badIndex) (by decide) rfl
    | interrupt => exact .fault (e := .badIndex) (by decide) rfl

/-- what an interrupt does -/
theorem informInt_outcome : Outcome k p False (informInt k p) := by
  have hq : Quiet (informInt k p) := by
    unfold informInt
    by_cases hr : (k.procs p).flags.receiving = true ∧
        ((k.procs p).recvFrom = .interrupt ∨ (k.procs p).recvFrom = .any)
    · rw [if_pos hr]
      exact quiet_assert <| quiet_assert <| quiet_assert <| quiet_assert <| quiet_ok _
    · rw [if_neg hr]
      exact quiet_ok _
  refine hq.outcome fun k' h => ⟨id, ?_, (informInt_frame h).2, ?_⟩
  · unfold informInt at h
    by_cases hr : (k.procs p).flags.receiving = true ∧
        ((k.procs p).recvFrom = .interrupt ∨ (k.procs p).recvFrom = .any)
    · rw [if_pos hr] at h
      simp only [unblock, check_bind_ok] at h
      obtain ⟨-, -, -, -, h⟩ := h
      cases h
      exact clocks_set _ _ _ rfl
    · rw [if_neg hr] at h
      cases h
      exact clocks_set _ _ _ rfl
  · rcases (informInt_ok h).rest with ⟨-, -, hf⟩ | ⟨-, -, hf, ha⟩
    · exact fun q => .inl (by rw [hf])
    · refine flags_woken (x := p) (fun hfree => ?_) hf
      have hn : asks k p = none := by
        show (k.procs p).asks = none
        have hf' : (k.procs p).flags = .FREE_SLOT := hfree
        unfold Proc.asks
        rw [hf']
        rfl
      rw [hn] at ha
      rcases ha with h | h <;> cases h

end

end Noxis.Ipc
