import Noxis.Trap.Machine
import Mathlib.Algebra.BigOperators.Fin
import Mathlib.Algebra.Order.BigOperators.Group.Finset

/-!
# 25-osfs11: kernel mode, with interrupts nested in it

A trap runs kernel.asm, which calls C code; wherever IF is set, an unmasked line interrupts either of
them, and its own trap runs to its `iretd` first.

* `CStep`   one step of a C function of the kernel: any, within the calling convention;
* `Chain`   a piece of one activation, complete nested traps included;
* `Irq d`   a complete trap with at most `d` traps nested in each other;
* `Same`    what kernel code leaves alone, on a part of the kernel stack.

`Chain.place` and `Chain.block` follow kernel.asm through one activation; `Chain.c_same` says what a
whole call of C code has kept.
-/

namespace Noxis.Trap

variable (L : Layout)

/-! ## masks, and the stack that the lines may still take -/

/-- the mask bit of line `n` -/
def Machine.masked (m : Machine) (n : Nat) : Bool :=
  if n < 8 then m.mMask.testBit n else m.sMask.testBit (n - 8)

/-- the lines that can interrupt -/
def Machine.opens (m : Machine) : Finset Nat := (Finset.range 16).filter fun n => m.masked n = false

/-- the words that a nested trap pushes: three by the CPU, `save`'s return address, twelve registers,
`restart_reenter`, the line, the handler's return address -/
def Layout.cost (n : Nat) : Nat := 4 * 19 + L.need n

/-- the stack that all open lines take together -/
def load (m : Machine) : Nat := ∑ n ∈ m.opens, L.cost n

/-- the place of the current activation leaves `k` bytes and the load of the open lines -/
structure Room (k : Nat) (m : Machine) : Prop where
  low : L.StackSpace + load L m + k ≤ m.esp
  high : m.esp ≤ L.StackTop

/-- `k_reenter` counts the traps that were interrupted, each by a line that is masked now -/
def Level (m : Machine) : Prop := m.mem (L.var .k_reenter) + m.opens.card ≤ 16

/-- `p_proc_ready` points to a process, whose frame returns to an outer ring -/
def Ready (m : Machine) : Prop := ∃ i, i < L.nproc ∧ m.mem (L.var .p_proc_ready) = L.proc i ∧
  m.mem (L.proc i + CSREG) % 4 ≠ 0

/-- what is kept between two machines in kernel mode; `S` are the words of the stack -/
structure Same (S : Nat → Prop) (a b : Machine) : Prop where
  stack : ∀ x, L.StackSpace ≤ x → x < L.StackTop → S x → b.mem x = a.mem x
  frames : ∀ i, i < L.nproc → ∀ x, L.proc i ≤ x → x < L.proc i + P_STACKTOP + 4 → b.mem x = a.mem x
  k_reenter : b.mem (L.var .k_reenter) = a.mem (L.var .k_reenter)
  tss_esp0 : b.mem (L.var .tss_esp0) = a.mem (L.var .tss_esp0)
  cs : b.cs = a.cs
  ss : b.ss = a.ss
  ldtr : b.ldtr = a.ldtr
  mask : ∀ n, n < 16 → b.masked n = a.masked n

/-- after a nested trap the interrupted code goes on as it was -/
structure Quiet (a b : Machine) : Prop where
  same : Same L (fun x => a.esp ≤ x) a b
  regs : b.regs = a.regs
  esp : b.esp = a.esp
  eip : b.eip = a.eip
  eflags : b.eflags = a.eflags
  ready : Ready L b

/-! ## activations -/

/-- an activation of C code: the machine at its entry, its argument words, the stack it uses -/
structure Act where
  entry : Machine
  args : Nat
  need : Nat

/-- the stack words that are not the callee's: its return address, and what lies above its
arguments -/
def Act.kept (act : Act) (x : Nat) : Prop :=
  x = act.entry.esp ∨ act.entry.esp + 4 + 4 * act.args ≤ x

/-- C code of the kernel is the code that is not kernel.asm -/
def InC (m : Machine) : Prop := L.decode m.eip = none

/-- one step of a C function of the kernel, from `a` to `b`: registers, flags and the data of the
kernel may change in any way -/
structure CStep (act : Act) (a b : Machine) : Prop where
  inC : InC L b
  low : act.entry.esp ≤ b.esp + act.need
  high : b.esp ≤ act.entry.esp
  same : Same L act.kept a b
  ready : Ready L b

/-- the C function returns -/
structure Returned (act : Act) (b a : Machine) : Prop where
  esp : b.esp = act.entry.esp
  ret : a = { b with eip := b.mem b.esp, esp := b.esp + 4 }

/-- the argument words and the stack of the C function that an instruction calls -/
def cFrame : Instr → Option (Nat × Nat)
  | .callIrq n => some (1, L.need n)
  | .callSys => some (4, L.needSys)
  | _ => none

/-- a piece of one activation, from one machine to another: of kernel.asm, or of C code entered as
`Act` says.  `R n` is a whole trap of line `n` -/
inductive Chain (R : Nat → Machine → Machine → Prop) : Option Act → Machine → Machine → Prop where
  | done (k : Option Act) (m : Machine) : Chain R k m m
  | instr {m a c : Machine} {i : Instr} {nxt : Nat} (hd : L.decode m.eip = some (i, nxt))
      (hc : cFrame L i = none) (hi : i ≠ .iretd) (hs : step L m = some a)
      (h : Chain R none a c) : Chain R none m c
  | call {m e r a c : Machine} {i : Instr} {nxt args need : Nat}
      (hd : L.decode m.eip = some (i, nxt)) (hc : cFrame L i = some (args, need))
      (hs : step L m = some e) (hin : InC L e) (hr : Chain R (some ⟨e, args, need⟩) e r)
      (ha : Returned ⟨e, args, need⟩ r a) (h : Chain R none a c) : Chain R none m c
  | own {act : Act} {m a c : Machine} (hs : CStep L act m a) (h : Chain R (some act) a c) :
      Chain R (some act) m c
  | irq {k : Option Act} {m a c : Machine} {n : Nat} (hif : m.IF = true) (hn : n ∈ m.opens)
      (hr : R n m a) (h : Chain R k a c) : Chain R k m c

/-- at the end of an activation -/
def AtIretd (c : Machine) : Prop := ∃ nxt, L.decode c.eip = some (.iretd, nxt)

/-- a whole trap of routine `r`, taken at `m`; the traps nested in it are `R` -/
def Whole (R : Nat → Machine → Machine → Prop) (r : Routine) (m a : Machine) : Prop :=
  ∃ c, Chain L R none (cpuInt L r m) c ∧ AtIretd L c ∧ step L c = some a

/-- a whole trap of line `n`, with at most `d` of them nested in each other -/
def Irq : Nat → Nat → Machine → Machine → Prop
  | 0, _, _, _ => False
  | d + 1, n, m, a => Whole L (Irq d) (.hwint n) m a

variable {L} {S T : Nat → Prop} {a b c m : Machine} {R : Nat → Machine → Machine → Prop}

/-! ## what is kept -/

theorem Same.refl (S : Nat → Prop) (a : Machine) : Same L S a a :=
  ⟨fun _ _ _ _ => rfl, fun _ _ _ _ _ => rfl, rfl, rfl, rfl, rfl, rfl, fun _ _ => rfl⟩

theorem Same.trans (h : Same L S a b) (h' : Same L S b c) : Same L S a c where
  stack x hx hx' hS := (h'.stack x hx hx' hS).trans (h.stack x hx hx' hS)
  frames i hi x hx hx' := (h'.frames i hi x hx hx').trans (h.frames i hi x hx hx')
  k_reenter := h'.k_reenter.trans h.k_reenter
  tss_esp0 := h'.tss_esp0.trans h.tss_esp0
  cs := h'.cs.trans h.cs
  ss := h'.ss.trans h.ss
  ldtr := h'.ldtr.trans h.ldtr
  mask n hn := (h'.mask n hn).trans (h.mask n hn)

/-- `cs` is a word of the frame -/
theorem cs_in_frame (x : Nat) : x + CSREG < x + P_STACKTOP + 4 := by
  show x + 56 < x + 72 + 4
  omega

theorem Ready.congr (h : Ready L a) (hp : b.mem (L.var .p_proc_ready) = a.mem (L.var .p_proc_ready))
    (hc : ∀ i, i < L.nproc → b.mem (L.proc i + CSREG) = a.mem (L.proc i + CSREG)) : Ready L b := by
  obtain ⟨i, hi, h1, h2⟩ := h
  exact ⟨i, hi, hp.trans h1, by rw [hc i hi]; exact h2⟩

theorem Ready.of_mem (h : Ready L a) (hm : b.mem = a.mem) : Ready L b :=
  h.congr (by rw [hm]) fun _ _ => by rw [hm]

/-- a word of a frame -/
theorem Same.frame (h : Same L S a b) {i k : Nat} (hi : i < L.nproc) (hk : k < P_STACKTOP + 4) :
    b.mem (L.proc i + k) = a.mem (L.proc i + k) :=
  h.frames i hi _ (Nat.le_add_right _ _) (by omega)

theorem Same.mono (h : Same L S a b) (hTS : ∀ x, T x → S x) : Same L T a b :=
  { h with stack := fun x hx hx' hT => h.stack x hx hx' (hTS x hT) }

theorem Same.opens (h : Same L S a b) : b.opens = a.opens := by
  unfold Machine.opens
  exact Finset.filter_congr fun n hn => by rw [h.mask n (Finset.mem_range.mp hn)]

theorem Same.load (h : Same L S a b) : load L b = load L a := by
  unfold Trap.load
  rw [h.opens]

theorem Same.level (h : Same L S a b) (hl : Level L a) : Level L b := by
  unfold Level at hl ⊢
  rw [h.opens, h.k_reenter]
  exact hl

/-- no line costs more than the load -/
theorem cost_le_load {n : Nat} (hn : n ∈ m.opens) : L.cost n ≤ load L m :=
  Finset.single_le_sum (f := fun n => L.cost n) (fun _ _ => Nat.zero_le _) hn

theorem Quiet.refl (hr : Ready L a) : Quiet L a a := ⟨Same.refl _ _, rfl, rfl, rfl, rfl, hr⟩

theorem Quiet.trans (h : Quiet L a b) (h' : Quiet L b c) : Quiet L a c where
  same := h.same.trans (h'.same.mono fun _ hx => h.esp ▸ hx)
  regs := h'.regs.trans h.regs
  esp := h'.esp.trans h.esp
  eip := h'.eip.trans h.eip
  eflags := h'.eflags.trans h.eflags
  ready := h'.ready

/-- what makes a nested trap safe, with `k` bytes of the stack left over -/
structure Kern (L : Layout) (k : Nat) (m : Machine) : Prop where
  cs : m.cs = SELECTOR_KERNEL_CS
  room : Room L k m
  level : Level L m
  ready : Ready L m

/-- the stack pointer moves down by what was left over, or up -/
theorem Kern.of_same {k k' : Nat} (ha : Kern L k a) (h : Same L S a b) (hr : Ready L b)
    (hlow : a.esp + k' ≤ b.esp + k) (hhigh : b.esp ≤ L.StackTop) : Kern L k' b := by
  have hroom := ha.room.low
  refine ⟨h.cs.trans ha.cs, ⟨?_, hhigh⟩, h.level ha.level, hr⟩
  rw [h.load]
  omega

theorem Quiet.kern {k : Nat} (h : Quiet L a b) (ha : Kern L k a) : Kern L k b :=
  ha.of_same h.same h.ready (by rw [h.esp]) (h.esp ▸ ha.room.high)

theorem Kern.mono {k k' : Nat} (ha : Kern L k a) (hk : k' ≤ k) : Kern L k' a :=
  ha.of_same (Same.refl (fun _ => True) a) ha.ready (by omega) ha.room.high

/-! ## C code -/

/-- a nested trap is quiet, where the stack has room for it -/
def QuietRel (L : Layout) (R : Nat → Machine → Machine → Prop) : Prop :=
  ∀ n m a, R n m a → m.IF = true → n ∈ m.opens → Kern L 0 m → Quiet L m a

/-- what holds all through an activation of C code -/
structure InAct (L : Layout) (act : Act) (m : Machine) : Prop where
  same : Same L act.kept act.entry m
  low : act.entry.esp ≤ m.esp + act.need
  high : m.esp ≤ act.entry.esp
  ready : Ready L m

theorem InAct.kern {act : Act} (h : InAct L act m) (he : Kern L act.need act.entry) : Kern L 0 m :=
  he.of_same h.same h.ready h.low (h.high.trans he.room.high)

/-- **A call of C code keeps what is not its own**, whatever interrupts it. -/
theorem Chain.c_same (hR : QuietRel L R) {k : Option Act} (h : Chain L R k a b) {act : Act}
    (hk : k = some act) (he : Kern L act.need act.entry) (ha : InAct L act a) : InAct L act b := by
  induction h with
  | done k m => exact ha
  | instr => cases hk
  | call => cases hk
  | own hs h ih =>
    cases hk
    exact ih rfl ⟨ha.same.trans hs.same, hs.low, hs.high, hs.ready⟩
  | irq hif hn hr h ih =>
    cases hk
    have hq := hR _ _ _ hr hif hn (ha.kern he)
    refine ih rfl ⟨ha.same.trans (hq.same.mono fun x hx => ?_), ?_, ?_, hq.ready⟩
    · have := ha.high
      show _ ≤ x
      rcases hx with rfl | hx <;> omega
    · rw [hq.esp]
      exact ha.low
    · rw [hq.esp]
      exact ha.high

/-! ## kernel.asm -/

/-- an instruction that neither calls C code nor ends the activation -/
def Inner (L : Layout) (m : Machine) : Prop :=
  ∃ i nxt, L.decode m.eip = some (i, nxt) ∧ cFrame L i = none ∧ i ≠ .iretd

/-- what kernel.asm does next at a place that nested traps do not disturb -/
theorem Chain.place {P : Machine → Prop} {k : Option Act} (h : Chain L R k a b) (hk : k = none)
    (hb : AtIretd L b) (hP : ∀ m, P m → Inner L m)
    (hirq : ∀ n m c, P m → m.IF = true → n ∈ m.opens → R n m c → P c) (ha : P a) :
    ∃ m c, P m ∧ step L m = some c ∧ Chain L R none c b := by
  induction h with
  | done k m =>
    obtain ⟨i, nxt, hd, -, hi⟩ := hP m ha
    obtain ⟨nxt', hd'⟩ := hb
    rw [hd] at hd'
    cases hd'
    exact absurd rfl hi
  | instr hd hc hi hs h ih => exact ⟨_, _, ha, hs, h⟩
  | call hd hc hs hin hr ha' h ih ih' =>
    obtain ⟨i, nxt, hd', hc', -⟩ := hP _ ha
    rw [hd] at hd'
    cases hd'
    rw [hc] at hc'
    cases hc'
  | own => cases hk
  | irq hif hn hr h ih => exact ih hk hb (hirq _ _ _ ha hif hn hr)

/-- the same for a place that calls C code -/
theorem Chain.place_call {P : Machine → Prop} {k : Option Act} {args need : Nat}
    (h : Chain L R k a b) (hk : k = none) (hb : AtIretd L b)
    (hP : ∀ m, P m → ∃ i nxt, L.decode m.eip = some (i, nxt) ∧ cFrame L i = some (args, need))
    (hirq : ∀ n m c, P m → m.IF = true → n ∈ m.opens → R n m c → P c) (ha : P a) :
    ∃ m e r c, P m ∧ step L m = some e ∧ Chain L R (some ⟨e, args, need⟩) e r ∧
      Returned ⟨e, args, need⟩ r c ∧ Chain L R none c b := by
  induction h with
  | done k m =>
    obtain ⟨i, nxt, hd, hc⟩ := hP m ha
    obtain ⟨nxt', hd'⟩ := hb
    rw [hd] at hd'
    cases hd'
    cases hc
  | instr hd hc hi hs h ih =>
    obtain ⟨i, nxt, hd', hc'⟩ := hP _ ha
    rw [hd] at hd'
    cases hd'
    rw [hc] at hc'
    cases hc'
  | call hd hc hs hin hr ha' h ih ih' =>
    obtain ⟨i, nxt, hd', hc'⟩ := hP _ ha
    rw [hd] at hd'
    cases hd'
    rw [hc] at hc'
    cases hc'
    exact ⟨_, _, _, _, ha, hs, hr, ha', h⟩
  | own => cases hk
  | irq hif hn hr h ih => exact ih hk hb (hirq _ _ _ ha hif hn hr)

/-- with IF clear nothing comes between -/
theorem Chain.next (h : Chain L R none a b) (hb : AtIretd L b) (hif : a.IF = false)
    (ha : Inner L a) (hs : step L a = some c) : Chain L R none c b := by
  obtain ⟨m, d, rfl, hd, hch⟩ := h.place (P := fun m => m = a) rfl hb (fun m hm => hm ▸ ha)
    (fun n m c hm hif' => by rw [hm, hif] at hif'; cases hif') rfl
  rw [hs] at hd
  cases hd
  exact hch

theorem step_at {r : Routine} {k : Nat} {i : Instr} (heip : m.eip = L.addr r k)
    (hk : (code r)[k]? = some i) : step L m = some (exec L i (m.jump (L.addr r (k + 1)))) := by
  show (L.decode m.eip).map _ = _
  rw [heip, L.placed r k i hk]
  rfl

theorem inner_at {r : Routine} {k : Nat} {i : Instr} (heip : m.eip = L.addr r k)
    (hk : (code r)[k]? = some i) (hc : cFrame L i = none) (hi : i ≠ .iretd) : Inner L m :=
  ⟨i, _, by rw [heip]; exact L.placed r k i hk, hc, hi⟩

/-- one instruction of a routine with IF clear -/
theorem Chain.next_at {r : Routine} {k : Nat} {i : Instr} (h : Chain L R none m b)
    (hb : AtIretd L b) (hif : m.IF = false) (heip : m.eip = L.addr r k)
    (hk : (code r)[k]? = some i) (hc : cFrame L i = none) (hi : i ≠ .iretd) :
    Chain L R none (exec L i (m.jump (L.addr r (k + 1)))) b :=
  h.next hb hif (inner_at heip hk hc hi) (step_at heip hk)

/-- one instruction of a routine, with quiet traps before it -/
theorem Chain.next_quiet {r : Routine} {k : Nat} {i : Instr} (h : Chain L R none m b)
    (hR : QuietRel L R) (hb : AtIretd L b) (hm : Kern L 0 m) (heip : m.eip = L.addr r k)
    (hk : (code r)[k]? = some i) (hc : cFrame L i = none) (hi : i ≠ .iretd) :
    ∃ a, Quiet L m a ∧ Chain L R none (exec L i (a.jump (L.addr r (k + 1)))) b := by
  obtain ⟨a, d, ha, hd, hch⟩ := h.place (P := Quiet L m) rfl hb
    (fun a ha => inner_at (ha.eip.trans heip) hk hc hi)
    (fun n a d ha hif hn hr => ha.trans (hR n a d hr hif hn (ha.kern hm))) (Quiet.refl hm.ready)
  rw [step_at (ha.eip.trans heip) hk] at hd
  cases hd
  exact ⟨a, ha, hch⟩

/-- a call of C code, with quiet traps before it: what the C code has kept when it returns -/
theorem Chain.next_call {r : Routine} {k args need : Nat} {i : Instr} (h : Chain L R none m b)
    (hR : QuietRel L R) (hb : AtIretd L b) (hm : Kern L 0 m) (heip : m.eip = L.addr r k)
    (hk : (code r)[k]? = some i) (hc : cFrame L i = some (args, need))
    (he : ∀ a, Quiet L m a → Kern L need (exec L i (a.jump (L.addr r (k + 1))))) :
    ∃ a d, Quiet L m a ∧ InAct L ⟨exec L i (a.jump (L.addr r (k + 1))), args, need⟩ d ∧
      d.esp = (exec L i (a.jump (L.addr r (k + 1)))).esp ∧
      Chain L R none { d with eip := d.mem d.esp, esp := d.esp + 4 } b := by
  obtain ⟨a, e, d, f, ha, hs, hch, hret, hch'⟩ := h.place_call (P := Quiet L m) rfl hb
    (fun a ha => ⟨i, _, by rw [ha.eip.trans heip]; exact L.placed r k i hk, hc⟩)
    (fun n a d ha hif hn hr => ha.trans (hR n a d hr hif hn (ha.kern hm))) (Quiet.refl hm.ready)
  rw [step_at (ha.eip.trans heip) hk] at hs
  cases hs
  have hk' := he a ha
  refine ⟨a, d, ha, hch.c_same hR rfl hk'
    ⟨Same.refl _ _, Nat.le_add_right _ _, Nat.le_refl _, hk'.ready⟩, hret.esp, ?_⟩
  rw [← hret.ret]
  exact hch'

/-- an activation ends at its `iretd` -/
theorem Chain.at_end (h : Chain L R none m b) (hm : AtIretd L m) (hif : m.IF = false) : b = m := by
  obtain ⟨nxt, hd⟩ := hm
  cases h with
  | done => rfl
  | instr hd' _ hi _ _ =>
    rw [hd] at hd'
    cases hd'
    exact absurd rfl hi
  | call hd' hc _ _ _ _ _ =>
    rw [hd] at hd'
    cases hd'
    cases hc
  | irq hif' _ _ _ =>
    rw [hif] at hif'
    cases hif'

/-! ## straight code -/

/-- instructions that go on to the next one and do not touch IF -/
def Instr.plain : Instr → Bool
  | .jne .. | .jmpAtEsi _ | .call _ | .callIrq _ | .callSys | .ret | .sti | .cli | .iretd => false
  | _ => true

/-- straight code -/
def execs (L : Layout) (is : List Instr) (m : Machine) : Machine :=
  is.foldl (fun m i => exec L i m) m

theorem exec_eip {i : Instr} (hi : i.plain = true) (m : Machine) (x : Nat) :
    exec L i (m.jump x) = (exec L i m).jump x := by
  cases i with
  | outAl p =>
    show Machine.out _ _ _ = (Machine.out _ _ _).jump x
    unfold Machine.out
    split <;> try split
    all_goals rfl
  | jne | jmpAtEsi | call | callIrq | callSys | ret | sti | cli | iretd => cases hi
  | _ => rfl

theorem exec_IF {i : Instr} (hi : i.plain = true) (m : Machine) : (exec L i m).IF = m.IF := by
  cases i with
  | outAl p =>
    show (Machine.out _ _ _).IF = _
    unfold Machine.out
    split <;> try split
    all_goals rfl
  | cmp0 v =>
    show (setBit m.eflags 6 _).testBit 9 = m.eflags.testBit 9
    rw [testBit_setBit]
    rfl
  | jne | jmpAtEsi | call | callIrq | callSys | ret | sti | cli | iretd => cases hi
  | _ => rfl

theorem plain_cFrame {i : Instr} (hi : i.plain = true) : cFrame L i = none := by
  cases i with
  | callIrq | callSys => cases hi
  | _ => rfl

theorem execs_eip {is : List Instr} (hpl : ∀ i ∈ is, i.plain = true) (m : Machine) (x : Nat) :
    execs L is (m.jump x) = (execs L is m).jump x := by
  induction is generalizing m with
  | nil => rfl
  | cons i is ih =>
    have hi := exec_eip (L := L) (hpl i List.mem_cons_self) m x
    show execs L is (exec L i (m.jump x)) = (execs L is (exec L i m)).jump x
    rw [hi]
    exact ih (fun j hj => hpl j (List.mem_cons_of_mem i hj)) _

/-- straight code from place `k` of a routine, with IF clear -/
theorem Chain.block {r : Routine} (is rest : List Instr) :
    ∀ {k : Nat} {m : Machine}, Chain L R none m b → AtIretd L b → m.eip = L.addr r k →
      (code r).drop k = is ++ rest → (∀ i ∈ is, i.plain = true) → m.IF = false →
      Chain L R none ((execs L is m).jump (L.addr r (k + is.length))) b := by
  induction is with
  | nil =>
    intro k m h hb heip _ _ _
    have hm : (execs L [] m).jump (L.addr r (k + 0)) = m := by
      rw [Nat.add_zero, ← heip]
      rfl
    exact hm ▸ h
  | cons i is ih =>
    intro k m h hb heip hdrop hpl hif
    have hpi := hpl i List.mem_cons_self
    have hget : (code r)[k]? = some i := by
      have := congrArg List.head? hdrop
      rw [List.head?_drop] at this
      exact this
    have hnext := h.next_at hb hif heip hget (plain_cFrame hpi) (by rintro rfl; cases hpi)
    rw [exec_eip hpi] at hnext
    have hdrop' : (code r).drop (k + 1) = is ++ rest := by
      rw [← List.drop_drop, hdrop]
      rfl
    have hall := ih hnext hb rfl hdrop' (fun j hj => hpl j (List.mem_cons_of_mem i hj))
      ((exec_IF hpi m).trans hif)
    have hexecs := execs_eip (fun j hj => hpl j (List.mem_cons_of_mem i hj)) (exec L i m)
      (L.addr r (k + 1)) (L := L)
    rw [hexecs] at hall
    have hlen : k + (i :: is).length = k + 1 + is.length := by
      rw [List.length_cons]
      omega
    rw [hlen]
    exact hall

end Noxis.Trap
