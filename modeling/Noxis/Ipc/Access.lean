import Noxis.Ipc.Deadlock
import Noxis.Lib.Traced

/-!
# 25-osfs11/kernel/proc.c: the indices of proc_table

The functions once more, each with the `i` of every `proc_table[i]` that it uses, in the order of the
source.  ANY, INTERRUPT and NO_TASK are numbers beside those of the processes.

* `Access.sysSendrec_result`   without the indices they are the functions of `Sendrec`
* `inTable_iff`                which calls use no index off the table
-/

namespace Noxis.Ipc
open Run Traced

/-- `src_dest` as a number -/
def Who.index : Who → Int
  | .proc p => p.val
  | .interrupt => -10
  | .any => nrTasks + nrProcs + 10
  | .noTask => nrTasks + nrProcs + 20

/-- an index of the table -/
def InTable (i : Int) : Prop := 0 ≤ i ∧ i < (nrTasks + nrProcs : Nat)

instance : DecidablePred InTable := fun _ => inferInstanceAs (Decidable (_ ∧ _))

namespace Access

abbrev Indexed (β : Type) : Type := Traced Int Fault β

def va2la (k : Kernel) (pid : Pid) (va : Nat) : Indexed Nat := do
  touch (Who.index (.proc pid))
  lift (Ipc.va2la k pid va)

def deadlockFrom (procs : Pid → Proc) (src : Pid) : Nat → Pid → Indexed Bool
  | 0, _ => lift (.error .diverge)
  | n + 1, p => do
    touch (Who.index (.proc p))
    if (procs p).flags.sending then
      match (procs p).sendTo with
      | none => do
        touch (Who.index .noTask)
        lift (.error .badIndex)
      | some q => if q = src then pure true else deadlockFrom procs src n q
    else pure false

/-- the chain that it prints -/
def printChain (procs : Pid → Proc) (src : Pid) : Nat → Pid → Indexed Unit
  | 0, _ => lift (.error .diverge)
  | n + 1, p => do
    touch (Who.index (.proc p))
    lift (check ((procs p).msg ≠ 0))
    match (procs p).sendTo with
    | none => do
      touch (Who.index .noTask)
      lift (.error .badIndex)
    | some q => do
      touch (Who.index (.proc q))
      if q = src then pure () else printChain procs src n q

def deadlock (k : Kernel) (src dest : Pid) : Indexed Bool := do
  let r ← deadlockFrom k.procs src fuel dest
  if r then do
    printChain k.procs src fuel dest
    pure true
  else pure false

/-- the two addresses of `phys_copy` -/
def copyMsg (k : Kernel) (receiver : Pid) (dst : Nat) (sender : Pid) (src : Nat) : Indexed Kernel := do
  let _ ← va2la k receiver dst
  let _ ← va2la k sender src
  lift (Ipc.copyMsg k receiver dst sender src)

def handOver (k : Kernel) (sender dest : Pid) (m : Nat) : Indexed Kernel := do
  lift (check ((k.procs dest).msg ≠ 0))
  lift (check (m ≠ 0))
  let _ ← copyMsg k dest (k.procs dest).msg sender m
  lift (Ipc.handOver k sender dest m)

/-- `proc_table + dest` is used from `deadlock` on -/
def msgSend (k : Kernel) (sender : Pid) (dest : Who) (m : Nat) : Indexed Kernel := do
  lift (check (dest ≠ .proc sender))
  match dest with
  | .proc dest => do
    let dl ← deadlock k sender dest
    if dl then lift (.error .deadlock)
    else do
      touch (Who.index (.proc dest))
      if wants k dest sender then handOver k sender dest m
      else lift (Ipc.queueUp k sender dest m)
  | dest => do
    touch dest.index
    lift (.error .badIndex)

def takeInt (k : Kernel) (me : Pid) (m : Nat) : Indexed Kernel := do
  lift (check (m ≠ 0))
  let _ ← va2la k me m
  lift (Ipc.takeInt k me m)

/-- `&proc_table[src]`, unless it is the head of the queue -/
def choose (k : Kernel) (me : Pid) (src : Who) : Indexed (Option (Option Pid × Pid)) := do
  if src ≠ .any then touch src.index
  lift (Ipc.choose k me src)

def takeMsg (k : Kernel) (me src : Pid) (prev : Option Pid) (m : Nat) : Indexed Kernel := do
  let k₁ ← lift (dequeue k me src prev)
  lift (check (m ≠ 0))
  lift (check ((k₁.procs src).msg ≠ 0))
  let _ ← copyMsg k₁ me m src (k₁.procs src).msg
  lift (Ipc.takeMsg k me src prev m)

def msgReceive (k : Kernel) (me : Pid) (src : Who) (m : Nat) : Indexed Kernel := do
  lift (check (src ≠ .proc me))
  if (k.procs me).hasIntMsg = true ∧ (src = .any ∨ src = .interrupt) then takeInt k me m
  else
    match ← choose k me src with
    | some (prev, p) => takeMsg k me p prev m
    | none => lift (waitFor k me src m)

/-- `msg_send` or `msg_receive` -/
def branch (k : Kernel) (p : Pid) (srcDest : Who) (m : Nat) : IpcFunction → Indexed Kernel
  | .SEND => msgSend k p srcDest m
  | .RECEIVE => msgReceive k p srcDest m

def sysSendrec (k : Kernel) (function : IpcFunction) (srcDest : Who) (m : Nat) (p : Pid) :
    Indexed Kernel := do
  lift (check (srcDest ≠ .noTask))
  let la ← va2la k p m
  let k := { k with mem := Function.update k.mem la { k.mem la with source := .proc p } }
  lift (check (srcDest ≠ .proc p))
  branch k p srcDest m function

section
variable {k k₁ : Kernel} {Q : Pid → List Pid} {p q src d : Pid} {m n va : Nat} {who : Who}

/-! ## the functions without the indices -/

theorem va2la_result : (va2la k p va).result = Ipc.va2la k p va := rfl

theorem deadlockFrom_result (procs : Pid → Proc) (src : Pid) (n : Nat) (q : Pid) :
    (deadlockFrom procs src n q).result = Ipc.deadlockFrom procs src n q := by
  induction n generalizing q with
  | zero => rfl
  | succ n ih =>
    rw [deadlockFrom, Ipc.deadlockFrom, bind_result, touch_result, ok_bind]
    by_cases hs : (procs q).flags.sending = true
    · rw [if_pos hs, if_pos hs]
      cases (procs q).sendTo with
      | none => rfl
      | some x =>
        by_cases hx : x = src
        · simp only [if_pos hx]
          rfl
        · simp only [if_neg hx]
          exact ih x
    · rw [if_neg hs, if_neg hs]
      rfl

theorem printChain_result (h : Sane k Q) (n : Nat) (q : Pid)
    (hm : meets (waits k) src n q = some true) : (printChain k.procs src n q).result = .ok () := by
  induction n generalizing q with
  | zero => cases hm
  | succ n ih =>
    rw [meets] at hm
    cases hd : waits k q with
    | none =>
      rw [hd] at hm
      cases hm
    | some d =>
      rw [hd] at hm
      obtain ⟨-, hmsg, -, hto⟩ := h.sending hd
      rw [printChain, bind_result, touch_result, ok_bind, bind_result, lift_result,
        show check ((k.procs q).msg ≠ 0) = .ok () from if_pos hmsg, ok_bind, hto]
      simp only at hm ⊢
      rw [bind_result, touch_result, ok_bind]
      by_cases hds : d = src
      · rw [if_pos hds]
        rfl
      · rw [if_neg hds] at hm ⊢
        exact ih d hm

theorem deadlock_result (h : Sane k Q) (hac : Acyclic (waits k)) (src d : Pid) :
    (deadlock k src d).result = Ipc.deadlock k src d := by
  obtain ⟨r, hr, hmeets, -⟩ := h.deadlock hac src d
  unfold deadlock
  rw [bind_result, deadlockFrom_result, show Ipc.deadlockFrom k.procs src fuel d = .ok r from hr,
    ok_bind, hr]
  cases r with
  | false => rfl
  | true =>
    rw [if_pos rfl, bind_result, printChain_result h fuel d hmeets]
    rfl

theorem copyMsg_result {a b : Nat} : (copyMsg k d a p b).result = Ipc.copyMsg k d a p b := by
  unfold copyMsg Ipc.copyMsg
  rw [bind_result, va2la_result]
  cases hd : Ipc.va2la k d a with
  | error e => rfl
  | ok la =>
    rw [ok_bind, bind_result, va2la_result]
    cases hp : Ipc.va2la k p b with
    | error e => rfl
    | ok la' => rfl

theorem handOver_result : (handOver k p d m).result = Ipc.handOver k p d m := by
  unfold handOver Ipc.handOver
  rw [bind_result, lift_result]
  cases h1 : check ((k.procs d).msg ≠ 0) with
  | error e => rfl
  | ok =>
    rw [ok_bind, bind_result, lift_result]
    cases h2 : check (m ≠ 0) with
    | error e => rfl
    | ok =>
      rw [ok_bind, bind_result, copyMsg_result]
      cases h3 : Ipc.copyMsg k d (k.procs d).msg p m with
      | error e => rfl
      | ok k₁ => rfl

theorem takeInt_result : (takeInt k p m).result = Ipc.takeInt k p m := by
  unfold takeInt Ipc.takeInt
  rw [bind_result, lift_result]
  cases h1 : check (m ≠ 0) with
  | error e => rfl
  | ok =>
    rw [ok_bind, bind_result, va2la_result]
    cases h2 : Ipc.va2la k p m with
    | error e => rfl
    | ok la => rfl

theorem choose_result : (choose k p who).result = Ipc.choose k p who := by
  unfold choose
  by_cases hw : who = .any
  · rw [if_neg (not_not_intro hw)]
    rfl
  · rw [if_pos hw]
    rfl

theorem takeMsg_result {prev : Option Pid} :
    (takeMsg k p src prev m).result = Ipc.takeMsg k p src prev m := by
  unfold takeMsg Ipc.takeMsg
  rw [bind_result, lift_result]
  cases h1 : dequeue k p src prev with
  | error e => rfl
  | ok k₁ =>
    rw [ok_bind, ok_bind, bind_result, lift_result]
    cases h2 : check (m ≠ 0) with
    | error e => rfl
    | ok =>
      rw [ok_bind, ok_bind, bind_result, lift_result]
      cases h3 : check ((k₁.procs src).msg ≠ 0) with
      | error e => rfl
      | ok =>
        rw [ok_bind, ok_bind, bind_result, copyMsg_result]
        cases h4 : Ipc.copyMsg k₁ p m src (k₁.procs src).msg with
        | error e => rfl
        | ok k₂ =>
          simp only [ok_bind, lift_result]

theorem msgSend_result (h : Sane k Q) (hac : Acyclic (waits k)) :
    (msgSend k p (.proc d) m).result = Ipc.msgSend k p d m := by
  unfold msgSend Ipc.msgSend
  rw [bind_result, lift_result]
  by_cases hpd : p = d
  · rw [check_bind_neg (not_not_intro hpd), check_bind_neg (by rw [hpd]; exact not_not_intro rfl)]
  · rw [check_bind_pos hpd, check_bind_pos (by simpa using Ne.symm hpd)]
    simp only
    rw [bind_result, deadlock_result h hac]
    congr 1
    funext dl
    cases dl with
    | true => rfl
    | false =>
      simp only [Bool.false_eq_true, if_false]
      rw [bind_result, touch_result, ok_bind]
      by_cases hw : wants k d p
      · rw [if_pos hw, if_pos hw]
        exact handOver_result
      · rw [if_neg hw, if_neg hw]
        rfl

theorem msgReceive_result : (msgReceive k p who m).result = Ipc.msgReceive k p who m := by
  unfold msgReceive Ipc.msgReceive
  rw [bind_result, lift_result]
  congr 1
  funext _
  by_cases hi : (k.procs p).hasIntMsg = true ∧ (who = .any ∨ who = .interrupt)
  · rw [if_pos hi, if_pos hi]
    exact takeInt_result
  · rw [if_neg hi, if_neg hi, bind_result, choose_result]
    congr 1
    funext c
    cases c with
    | none => rfl
    | some x => exact takeMsg_result

/-- **The indices change nothing.** -/
theorem sysSendrec_result (h : Sane k Q) (hac : Acyclic (waits k)) (fn : IpcFunction) :
    (sysSendrec k fn who m p).result = Ipc.sysSendrec k fn who m p := by
  unfold sysSendrec Ipc.sysSendrec
  rw [bind_result, lift_result]
  congr 1
  funext _
  rw [bind_result, va2la_result]
  congr 1
  funext la
  simp only
  rw [bind_result, lift_result]
  congr 1
  funext _
  cases fn with
  | RECEIVE => exact msgReceive_result
  | SEND =>
    cases who with
    | proc d => exact msgSend_result (h.stamp _) hac
    | any => rfl
    | interrupt => rfl
    | noTask => rfl

/-! ## the indices -/

theorem inTable_proc (p : Pid) : InTable (Who.index (.proc p)) := by
  have hp := p.isLt
  show (0 : Int) ≤ (p.val : Int) ∧ (p.val : Int) < (nrTasks + nrProcs : Nat)
  omega

theorem all_va2la : (va2la k p va).All InTable :=
  all_touch_bind.mpr ⟨inTable_proc p, all_lift _⟩

theorem all_deadlockFrom (h : Sane k Q) (n : Nat) (q : Pid) :
    (deadlockFrom k.procs src n q).All InTable := by
  induction n generalizing q with
  | zero => exact all_lift _
  | succ n ih =>
    rw [deadlockFrom, all_touch_bind]
    refine ⟨inTable_proc q, ?_⟩
    by_cases hs : (k.procs q).flags.sending = true
    · obtain ⟨d, -, hto⟩ := h.sendTo hs
      rw [if_pos hs, hto]
      simp only
      by_cases hd : d = src
      · rw [if_pos hd]
        exact all_pure _
      · rw [if_neg hd]
        exact ih d
    · rw [if_neg hs]
      exact all_pure _

theorem all_printChain (h : Sane k Q) (n : Nat) (q : Pid) (hm : meets (waits k) src n q = some true) :
    (printChain k.procs src n q).All InTable := by
  induction n generalizing q with
  | zero => cases hm
  | succ n ih =>
    rw [meets] at hm
    cases hd : waits k q with
    | none =>
      rw [hd] at hm
      cases hm
    | some d =>
      rw [hd] at hm
      obtain ⟨-, -, -, hto⟩ := h.sending hd
      rw [printChain, all_touch_bind]
      refine ⟨inTable_proc q, all_lift_bind.mpr fun _ _ => ?_⟩
      rw [hto]
      simp only at hm ⊢
      refine all_touch_bind.mpr ⟨inTable_proc d, ?_⟩
      by_cases hds : d = src
      · rw [if_pos hds]
        exact all_pure _
      · rw [if_neg hds] at hm ⊢
        exact ih d hm

theorem all_deadlock (h : Sane k Q) (hac : Acyclic (waits k)) : (deadlock k src d).All InTable := by
  obtain ⟨r, hr, hmeets, -⟩ := h.deadlock hac src d
  unfold deadlock
  refine all_bind.mpr ⟨all_deadlockFrom h fuel d, fun r' hr' => ?_⟩
  rw [deadlockFrom_result, show Ipc.deadlockFrom k.procs src fuel d = .ok r from hr] at hr'
  cases hr'
  cases r with
  | false => exact all_pure _
  | true =>
    rw [if_pos rfl]
    exact all_bind.mpr ⟨all_printChain h fuel d hmeets, fun _ _ => all_pure _⟩

theorem all_copyMsg {a b : Nat} : (copyMsg k d a p b).All InTable :=
  all_bind.mpr ⟨all_va2la, fun _ _ => all_bind.mpr ⟨all_va2la, fun _ _ => all_lift _⟩⟩

theorem all_handOver : (handOver k p d m).All InTable :=
  all_lift_bind.mpr fun _ _ => all_lift_bind.mpr fun _ _ =>
    all_bind.mpr ⟨all_copyMsg, fun _ _ => all_lift _⟩

theorem all_takeInt : (takeInt k p m).All InTable :=
  all_lift_bind.mpr fun _ _ => all_bind.mpr ⟨all_va2la, fun _ _ => all_lift _⟩

theorem all_takeMsg {prev : Option Pid} : (takeMsg k p src prev m).All InTable :=
  all_lift_bind.mpr fun _ _ => all_lift_bind.mpr fun _ _ => all_lift_bind.mpr fun _ _ =>
    all_bind.mpr ⟨all_copyMsg, fun _ _ => all_lift _⟩

theorem check_ok {P : Prop} [Decidable P] (h : P) : check P = .ok () := if_pos h

/-- a SEND uses indices of the table exactly if it names a process -/
theorem all_msgSend (h : Sane k Q) (hac : Acyclic (waits k)) :
    (msgSend k p who m).All InTable ↔ ∃ d, who = .proc d := by
  have hoff (w : Who) (hoff : ¬ InTable w.index)
      (hall : (touch w.index >>= fun _ => lift (.error .badIndex) : Indexed Kernel).All InTable) :
      False := hoff (all_touch_bind.mp hall).1
  unfold msgSend
  rw [all_lift_bind]
  cases who with
  | proc d =>
    refine iff_of_true (fun _ _ => all_bind.mpr ⟨all_deadlock h hac, fun dl _ => ?_⟩) ⟨d, rfl⟩
    cases dl with
    | true => exact all_lift _
    | false =>
      simp only [Bool.false_eq_true, if_false]
      refine all_touch_bind.mpr ⟨inTable_proc d, ?_⟩
      by_cases hw : wants k d p
      · rw [if_pos hw]
        exact all_handOver
      · rw [if_neg hw]
        exact all_lift _
  | any =>
    refine iff_of_false (fun hall => ?_) fun ⟨d, hd⟩ => nomatch hd
    exact hoff .any (by decide) (hall () (check_ok (by simp)))
  | interrupt =>
    refine iff_of_false (fun hall => ?_) fun ⟨d, hd⟩ => nomatch hd
    exact hoff .interrupt (by decide) (hall () (check_ok (by simp)))
  | noTask =>
    refine iff_of_false (fun hall => ?_) fun ⟨d, hd⟩ => nomatch hd
    exact hoff .noTask (by decide) (hall () (check_ok (by simp)))

/-- what follows the search of a RECEIVE -/
theorem all_choose {f : Option (Option Pid × Pid) → Indexed Kernel} (hf : ∀ c, (f c).All InTable) :
    (choose k p who >>= f).All InTable ↔ (who ≠ .any → InTable who.index) := by
  rw [all_bind, and_iff_left fun c _ => hf c]
  unfold choose
  by_cases hw : who = .any
  · rw [if_neg (not_not_intro hw)]
    exact iff_of_true (all_lift _) fun hne => absurd hw hne
  · rw [if_pos hw, all_touch_bind, and_iff_left (all_lift _)]
    exact ⟨fun hin _ => hin, fun hin => hin hw⟩

/-- a RECEIVE uses one off the table exactly if it waits for an interrupt that is not there -/
theorem all_msgReceive (hw : who ≠ .noTask) : (msgReceive k p who m).All InTable ↔
    (who = .interrupt → (k.procs p).hasIntMsg = true) := by
  have hrest (c : Option (Option Pid × Pid)) :
      ((match c with
        | some (prev, q) => takeMsg k p q prev m
        | none => lift (waitFor k p who m) : Indexed Kernel)).All InTable := by
    cases c with
    | none => exact all_lift _
    | some x => exact all_takeMsg
  unfold msgReceive
  rw [all_lift_bind]
  by_cases hi : (k.procs p).hasIntMsg = true ∧ (who = .any ∨ who = .interrupt)
  · rw [if_pos hi]
    exact iff_of_true (fun _ _ => all_takeInt) fun _ => hi.1
  · rw [if_neg hi, all_choose hrest]
    cases who with
    | noTask => exact absurd rfl hw
    | any => exact iff_of_true (fun _ _ hne => absurd rfl hne) fun he => nomatch he
    | proc q => exact iff_of_true (fun _ _ _ => inTable_proc q) fun he => nomatch he
    | interrupt =>
      refine iff_of_false (fun hall => ?_) fun hint => hi ⟨hint rfl, .inr rfl⟩
      exact absurd (hall () (check_ok (by simp)) (by simp)) (by decide)

/-- what a call with a pointer of 32 bits uses: its own index, and what follows -/
theorem all_sysSendrec (h : Sane k Q) (hm : m < 2 ^ 32) (hw : who ≠ .noTask) (fn : IpcFunction) :
    ∃ mem, (sysSendrec k fn who m p).All InTable ↔
      (who ≠ .proc p → (branch { k with mem := mem } p who m fn).All InTable) := by
  have hla := h.va2la p hm
  set la := ((k.procs p).ldtRw.base + m) % 2 ^ 32 with hla'
  refine ⟨Function.update k.mem la { k.mem la with source := .proc p }, ?_⟩
  unfold sysSendrec
  constructor
  · intro hall hp
    have hcall := (all_bind.mp (all_lift_bind.mp hall () (check_ok hw))).2 _ hla
    exact all_lift_bind.mp hcall () (check_ok hp)
  · intro hcall
    refine all_lift_bind.mpr fun _ _ => all_bind.mpr ⟨all_va2la, fun la₁ hla₁ => ?_⟩
    have heq : Except.ok la₁ = (Except.ok la : Except Fault Nat) := hla₁.symm.trans hla
    cases heq
    refine all_lift_bind.mpr fun u hu => hcall ?_
    unfold check at hu
    by_contra hp
    rw [if_neg (not_not_intro hp)] at hu
    cases hu

end

end Access

/-- the calls for which the source has an index of the table: a SEND to a process, and any RECEIVE but
one that waits for an interrupt -/
def Indexes (k : Kernel) (p : Pid) (who : Who) : IpcFunction → Prop
  | .SEND => ∃ d, who = .proc d
  | .RECEIVE => who = .interrupt → (k.procs p).hasIntMsg = true

/-- **When every index is one of the table**: in a reachable state, for the numbers that `sys_sendrec`
admits. -/
theorem inTable_iff {k₀ k : Kernel} (h : Fresh k₀) (as : List Action)
    (hrun : exec act (.ok k₀) as = some (.ok k)) (fn : IpcFunction) (who : Who) (m : Nat) (p : Pid)
    (hw : who ≠ .noTask) (hm : m < 2 ^ 32) :
    (Access.sysSendrec k fn who m p).All InTable ↔ Indexes k p who fn := by
  obtain ⟨⟨Q, hQ⟩, hac⟩ := h.reach as hrun
  obtain ⟨mem, hcall⟩ := Access.all_sysSendrec (p := p) hQ hm hw fn
  rw [hcall]
  have hself : who = .proc p → Indexes k p who fn := by
    rintro rfl
    cases fn with
    | SEND => exact ⟨p, rfl⟩
    | RECEIVE => exact fun he => nomatch he
  cases fn with
  | SEND =>
    rw [Access.branch, Access.all_msgSend (hQ.stamp mem) hac]
    refine ⟨fun hcall => ?_, fun hidx _ => hidx⟩
    by_cases hp : who = .proc p
    · exact hself hp
    · exact hcall hp
  | RECEIVE =>
    rw [Access.branch, Access.all_msgReceive hw]
    refine ⟨fun hcall => ?_, fun hidx _ => hidx⟩
    by_cases hp : who = .proc p
    · exact hself hp
    · exact hcall hp

/-- FS asks HD for a sector -/
theorem inTable_iff_open :
    (Access.sysSendrec (boot 0x80000) .SEND (.proc taskHd) 0x3000 taskFs).All InTable ↔
      Indexes (boot 0x80000) taskFs (.proc taskHd) .SEND :=
  inTable_iff (boot_fresh _) [] rfl .SEND (.proc taskHd) 0x3000 taskFs (by decide) (by decide)

/-- HD waits for the disk -/
theorem inTable_fails :
    ¬ (Access.sysSendrec (boot 0x80000) .RECEIVE .interrupt 0x2100 taskHd).All InTable := by
  decide +kernel

end Noxis.Ipc
