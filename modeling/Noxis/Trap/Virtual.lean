import Noxis.Trap.Nested
import Noxis.Lib.Simulation

/-!
# 25-osfs11: every process has a CPU of its own

`Virtual` is the machine that the processes see: one context for each of them.  A process changes its
own context; a hardware interrupt changes none, a system call only the `eax` of its caller; both may
change which process runs.

* `PStep`          the real machine: a process runs, or a whole trap with any traps nested in it;
* `Rel`            its registers are the context of the running process, the frames in the process
  table are the contexts of the other ones;
* `virtual_cpus`   **from the first `restart` on, every run of the real machine is a run of the
  virtual one.**
-/

namespace Noxis.Trap
open Sim

/-- what a process has of the CPU -/
structure Ctx where
  regs : Reg → Nat
  esp : Nat
  eip : Nat
  cs : Nat
  ss : Nat
  eflags : Nat

def Machine.ctx (m : Machine) : Ctx :=
  { regs := m.regs, esp := m.esp, eip := m.eip, cs := m.cs, ss := m.ss, eflags := m.eflags }

variable (L : Layout)

/-- the context in the stack frame of process `i` -/
def frameCtx (mem : Nat → Nat) (i : Nat) : Ctx where
  regs r := mem (L.proc i + r.off)
  esp := mem (L.proc i + ESPREG)
  eip := mem (L.proc i + EIPREG)
  cs := mem (L.proc i + CSREG)
  ss := mem (L.proc i + SSREG)
  eflags := mem (L.proc i + EFLAGSREG)

/-- the kernel stack holds a handler of every line and a system call -/
def Fits : Prop := 28 + L.needSys + ∑ n ∈ Finset.range 16, L.cost n ≤ 4 * 1024

inductive Event where
  /-- the running process executes -/
  | own
  /-- a task that is running writes the frame of process `k` -/
  | poke (k : Nat)
  | irq (n : Nat)
  | sys

/-! ## the virtual machine -/

structure Virtual where
  cur : Nat
  ctx : Nat → Ctx

/-- `eax` of a context -/
def Ctx.setEax (c : Ctx) (w : Nat) : Ctx := { c with regs := Function.update c.regs .eax w }

inductive VStep : Virtual → Event → Virtual → Prop where
  | own (v : Virtual) (c : Ctx) : VStep v .own { v with ctx := Function.update v.ctx v.cur c }
  | poke (v : Virtual) (k : Nat) (c : Ctx) (hk : k ≠ v.cur) :
      VStep v (.poke k) { v with ctx := Function.update v.ctx k c }
  | irq (v : Virtual) (n j : Nat) : VStep v (.irq n) { v with cur := j }
  | sys (v : Virtual) (j res : Nat) :
      VStep v .sys { cur := j, ctx := Function.update v.ctx v.cur ((v.ctx v.cur).setEax res) }

/-! ## the real machine -/

/-- what a process leaves alone: the kernel's variables and the frames `K` -/
structure Leaves (K : Nat → Prop) (a b : Machine) : Prop where
  vars : ∀ v, b.mem (L.var v) = a.mem (L.var v)
  frames : ∀ i, i < L.nproc → K i → ∀ x, L.proc i ≤ x → x < L.proc i + P_STACKTOP + 4 →
    b.mem x = a.mem x
  ldtr : b.ldtr = a.ldtr

/-- a step while no trap is active -/
inductive PStep : Machine → Event → Machine → Prop where
  | own {a b : Machine} (h : Leaves L (fun _ => True) a b) (hring : b.cs % 4 ≠ 0) : PStep a .own b
  | poke {a b : Machine} {i k : Nat} (hi : i < L.nproc) (hp : a.mem (L.var .p_proc_ready) = L.proc i)
      (hk : k ≠ i) (h : Leaves L (fun j => j ≠ k) a b) (hctx : b.ctx = a.ctx) : PStep a (.poke k) b
  | irq {a b : Machine} {n d : Nat} (hif : a.IF = true) (hn : n ∈ a.opens)
      (h : Whole L (Irq L d) (.hwint n) a b) : PStep a (.irq n) b
  | sys {a b : Machine} {d : Nat} (h : Whole L (Irq L d) .sys_call a b) : PStep a .sys b

/-- the first `restart`, called by `kernel_main` with interrupts off -/
structure Boot (m a : Machine) : Prop where
  eip : m.eip = L.addr .restart 0
  IF : m.IF = false
  cs : m.cs = SELECTOR_KERNEL_CS
  k_reenter : m.mem (L.var .k_reenter) = 0
  ready : Ready L m
  restarts : ∃ c, Chain L (Irq L 0) none m c ∧ AtIretd L c ∧ step L c = some a

/-- the real machine while process `v.cur` runs, against the virtual one -/
structure Rel (m : Machine) (v : Virtual) : Prop where
  cur : v.cur < L.nproc
  live : m.ctx = v.ctx v.cur
  frames : ∀ k, k < L.nproc → k ≠ v.cur → frameCtx L m.mem k = v.ctx k
  ring : m.cs % 4 ≠ 0
  ready : m.mem (L.var .p_proc_ready) = L.proc v.cur
  tss_esp0 : m.mem (L.var .tss_esp0) = L.proc v.cur + P_STACKTOP
  k_reenter : m.mem (L.var .k_reenter) = 0xFFFFFFFF
  ldtr : m.ldtr = m.mem (L.proc v.cur + P_LDT_SEL) % 65536

variable {L} {m a b x s c : Machine} {v : Virtual} {R : Nat → Machine → Machine → Prop} {d : Nat}

/-! ## frames -/

theorem frameCtx_congr {mem mem' : Nat → Nat} {i : Nat}
    (h : ∀ y, L.proc i ≤ y → y < L.proc i + P_STACKTOP → mem' y = mem y) :
    frameCtx L mem' i = frameCtx L mem i := by
  have hk : ∀ k, k < P_STACKTOP → mem' (L.proc i + k) = mem (L.proc i + k) := fun k hk =>
    h _ (Nat.le_add_right _ _) (by omega)
  unfold frameCtx
  rw [hk _ (by decide), hk _ (by decide), hk _ (by decide), hk _ (by decide), hk _ (by decide)]
  have hregs : (fun r : Reg => mem' (L.proc i + r.off)) = fun r => mem (L.proc i + r.off) := by
    funext r
    exact hk _ (r.off_lt.trans (by decide))
  rw [hregs]

theorem Core.frameCtx {mem : Nat → Nat} {i : Nat} (h : Core mem (L.proc i) m)
    (hesp : mem (L.proc i + ESPREG) = m.esp) (hss : mem (L.proc i + SSREG) = m.ss) :
    frameCtx L mem i = m.ctx := by
  unfold Trap.frameCtx Machine.ctx
  rw [hesp, hss, h.eip, h.cs, h.eflags]
  have hregs : (fun r : Reg => mem (L.proc i + r.off)) = m.regs := by
    funext r
    exact h.regs r
  rw [hregs]

/-- only processes of the table count -/
theorem Rel.congr {v' : Virtual} (h : Rel L m v) (hcur : v'.cur = v.cur)
    (hctx : ∀ k, k < L.nproc → v'.ctx k = v.ctx k) : Rel L m v' where
  cur := hcur ▸ h.cur
  live := by rw [hcur, hctx _ h.cur, h.live]
  frames k hk hne := by rw [hctx k hk, h.frames k hk (hcur ▸ hne)]
  ring := h.ring
  ready := by rw [hcur, h.ready]
  tss_esp0 := by rw [hcur, h.tss_esp0]
  k_reenter := h.k_reenter
  ldtr := by rw [hcur, h.ldtr]

/-! ## restart -/

theorem var_ne (L : Layout) {v w : Var} (h : v ≠ w) : L.var v ≠ L.var w :=
  fun e => h (L.var_inj _ _ e)

theorem wrap_zero_dec : wrap (0 + 0xFFFFFFFF) = 0xFFFFFFFF := by
  unfold wrap
  omega

theorem var_not_frame (L : Layout) (w : Var) {i : Nat} (hi : i < L.nproc) {y : Nat}
    (h1 : L.proc i ≤ y) (h2 : y < L.proc i + P_STACKTOP + 4) : y ≠ L.var w := by
  have := L.var_proc w i hi
  omega

/-- **`restart` gives the CPU to the process that `p_proc_ready` names**, with the context of its
frame. -/
theorem restart_rel (h : Chain L R none x c) (hc : AtIretd L c) (ha : step L c = some a)
    (heip : x.eip = L.addr .restart 0) (hif : x.IF = false) (hcs : x.cs = SELECTOR_KERNEL_CS)
    (hkr : x.mem (L.var .k_reenter) = 0) (hr : Ready L x) :
    ∃ j, Rel L a { cur := j, ctx := frameCtx L x.mem } := by
  obtain ⟨j, hj, hp, hring⟩ := hr
  have h1 := h.block (r := .restart) (k := 0) (restart.take 4) (restart.drop 4) hc heip rfl
    (List.all_eq_true.mp rfl) hif
  obtain ⟨y, hy⟩ : ∃ y, y = (execs L (restart.take 4) x).jump (L.addr .restart 4) := ⟨_, rfl⟩
  have ymem : y.mem = store x.mem (L.var .tss_esp0) (L.proc j + P_STACKTOP) := by
    rw [hy, ← hp]
    rfl
  have yesp : y.esp = L.proc j := by
    rw [hy, ← hp]
    rfl
  have yldtr : y.ldtr = x.mem (L.proc j + P_LDT_SEL) % 65536 := by
    rw [hy, ← hp]
    rfl
  have ycs : y.cs = SELECTOR_KERNEL_CS := by
    rw [hy, ← hcs]
    rfl
  have yif : y.IF = false := by
    rw [hy, ← hif]
    rfl
  have yeip : y.eip = L.addr .restart 4 := by rw [hy]; rfl
  have h2 : Chain L R none y c := hy ▸ h1
  have hres := h2.resume hc yeip yif ha
  -- frames are apart from the variables that restart writes
  have hamem : ∀ z, z ≠ L.var .tss_esp0 → z ≠ L.var .k_reenter → a.mem z = x.mem z := by
    intro z h1 h2
    rw [hres.mem, store, Function.update_of_ne h2, ymem]
    exact Function.update_of_ne h1 _ _
  have hframe : ∀ k, k < L.nproc → ∀ z, L.proc k ≤ z → z < L.proc k + P_STACKTOP + 4 →
      a.mem z = x.mem z := fun k hk z h1 h2 =>
    hamem z (var_not_frame L _ hk h1 h2) (var_not_frame L _ hk h1 h2)
  have hctx : ∀ k, k < L.nproc → frameCtx L a.mem k = frameCtx L x.mem k := fun k hk =>
    frameCtx_congr fun z h1 h2 => hframe k hk z h1 (by omega)
  have hcsa : a.mem (L.proc j + CSREG) = x.mem (L.proc j + CSREG) :=
    hframe j hj _ (Nat.le_add_right _ _) (cs_in_frame _)
  have hout := hres.outer (by
    rw [yesp, hcsa, ycs]
    exact hring)
  rw [yesp] at hout
  refine ⟨j, ?_⟩
  exact
    { cur := hj
      live := by
        show a.ctx = frameCtx L x.mem j
        rw [← hctx j hj]
        unfold Machine.ctx frameCtx
        rw [hout.1, hout.2, hres.eip, hres.cs, hres.eflags, yesp]
        have hregs : a.regs = fun r => a.mem (L.proc j + r.off) := by
          funext r
          rw [hres.regs, yesp]
        rw [hregs]
      frames := fun k hk _ => hctx k hk
      ring := by
        rw [hres.cs, yesp, hcsa]
        exact hring
      ready := (hamem _ (var_ne L (by decide)) (var_ne L (by decide))).trans hp
      tss_esp0 := by
        rw [hres.mem, store, Function.update_of_ne (var_ne L (by decide)), ymem]
        exact Function.update_self ..
      k_reenter := by
        rw [hres.mem, store, Function.update_self, ymem, store,
          Function.update_of_ne (var_ne L (by decide)), hkr]
        exact wrap_zero_dec
      ldtr := by
        rw [hres.ldtr, yldtr]
        show _ = a.mem (L.proc j + P_LDT_SEL) % 65536
        rw [hframe j hj (L.proc j + P_LDT_SEL) (Nat.le_add_right _ _) (by
          show L.proc j + 72 < L.proc j + 72 + 4
          omega)] }

/-! ## a whole trap of a process -/

theorem opens_card_le (m : Machine) : m.opens.card ≤ 16 :=
  (Finset.card_filter_le _ _).trans (Nat.le_of_eq (Finset.card_range 16))

theorem load_le (m : Machine) : load L m ≤ ∑ n ∈ Finset.range 16, L.cost n :=
  Finset.sum_le_sum_of_subset (Finset.filter_subset _ _)

/-- the gate and `save` put the context of the process into its frame -/
theorem trap_enter {r : Routine} (hr : Rel L m v) (h : Chain L R none (cpuInt L r m) c)
    (hc : AtIretd L c) (hcode : (code r)[0]? = some (.call .save)) :
    ∃ s, Chain L R none s c ∧ Saved L r m s (L.proc v.cur) (L.StackTop - 4) 0 ∧ Ready L s ∧
      (∀ k, k < L.nproc → frameCtx L s.mem k = v.ctx k) ∧ s.mem (L.var .k_reenter) = 0 ∧
      s.opens = m.opens := by
  have hst := L.proc_stack v.cur hr.cur
  have hkr := L.var_proc .k_reenter v.cur hr.cur
  have hpr := L.var_proc .p_proc_ready v.cur hr.cur
  have hprs := L.var_stack .p_proc_ready
  have hsize := L.stack_size
  obtain ⟨s, h1, hs, -, hesp, hss, hout⟩ := enter_outer h hc hcode hr.ring hr.tss_esp0 (by omega)
    (by omega) hr.k_reenter
  have hctx : ∀ k, k < L.nproc → frameCtx L s.mem k = v.ctx k := by
    intro k hk
    by_cases hkc : k = v.cur
    · subst hkc
      rw [hs.core.frameCtx hesp hss, hr.live]
    · rw [← hr.frames k hk hkc]
      refine frameCtx_congr fun y h1 h2 => ?_
      have hpp := L.proc_proc k v.cur hk hr.cur hkc
      have hks := L.proc_stack k hk
      exact hout y (by omega) (var_not_frame L _ hk h1 (by omega)) (by omega)
  refine ⟨s, h1, hs, ⟨v.cur, hr.cur, ?_, ?_⟩, hctx, ?_, opens_of_masks hs.mMask hs.sMask⟩
  · rw [hout _ (by omega) (var_ne L (by decide)) (by omega)]
    exact hr.ready
  · rw [hs.core.cs]
    exact hr.ring
  · rw [hs.k_reenter, hr.k_reenter]
    unfold wrap
    rfl

/-- the `ret` of a routine leads into `restart` -/
theorem trap_exit {r : Routine} {k : Nat} (h : Chain L R none x c) (hc : AtIretd L c)
    (ha : step L c = some a) (heip : x.eip = L.addr r k) (hk : (code r)[k]? = some .ret)
    (hif : x.IF = false) (hcs : x.cs = SELECTOR_KERNEL_CS) (hkr : x.mem (L.var .k_reenter) = 0)
    (hr : Ready L x) (hback : x.mem x.esp = L.addr .restart 0) :
    ∃ j, Rel L a { cur := j, ctx := frameCtx L x.mem } := by
  have h1 := h.next_at hc hif heip hk rfl (by intro h; cases h)
  exact restart_rel (x := exec L .ret (x.jump (L.addr r (k + 1)))) h1 hc ha hback hif hcs hkr hr

/-- **A hardware interrupt changes the context of no process.** -/
theorem irq_rel (hfit : Fits L) (hr : Rel L m v) {n : Nat} (hn : n ∈ m.opens)
    (h : Whole L (Irq L d) (.hwint n) m a) : ∃ j, Rel L a { v with cur := j } := by
  obtain ⟨c, hch, hc, ha⟩ := h
  obtain ⟨s, h1, hs, hready, hctx, hkr, hopens⟩ := trap_enter hr hch hc (hwint_call_save n)
  have hsize := L.stack_size
  have hesp := hs.esp
  have hcard := opens_card_le s
  have hload := load_le (L := L) s
  have hcost : L.cost n = 76 + L.need n := rfl
  unfold Fits at hfit
  obtain ⟨y, h2, yeip, yif, yesp, ysame, yready⟩ := h1.hwint (irq_quiet d) hc hs.eip hs.IF hs.cs
    (hopens ▸ hn) (by omega) (by omega) (by omega) hready
  obtain ⟨j, hj⟩ := trap_exit h2 hc ha yeip (hwint_ret n) yif (ysame.cs.trans hs.cs)
    (ysame.k_reenter.trans hkr) yready (by
      rw [yesp, ysame.stack s.esp (by omega) (by omega) (Nat.le_refl _), hesp]
      exact hs.back)
  refine ⟨j, hj.congr rfl fun k hk => ?_⟩
  show v.ctx k = frameCtx L y.mem k
  rw [← hctx k hk]
  exact (frameCtx_congr fun z h1 h2 => ysame.frames k hk z h1 (by omega)).symm

theorem frameCtx_setEax (mem : Nat → Nat) (i res : Nat) :
    frameCtx L (store mem (L.proc i + EAXREG) res) i = (frameCtx L mem i).setEax res := by
  have hne : ∀ k, k ≠ EAXREG → store mem (L.proc i + EAXREG) res (L.proc i + k) =
      mem (L.proc i + k) := fun k hk => Function.update_of_ne (by omega) _ _
  unfold frameCtx Ctx.setEax
  rw [hne _ (by decide), hne _ (by decide), hne _ (by decide), hne _ (by decide), hne _ (by decide)]
  have hregs : (fun r : Reg => store mem (L.proc i + EAXREG) res (L.proc i + r.off)) =
      Function.update (fun r : Reg => mem (L.proc i + r.off)) .eax res := by
    funext r
    by_cases hre : r = .eax
    · subst hre
      rw [Function.update_self]
      exact Function.update_self ..
    · rw [Function.update_of_ne hre]
      refine hne _ ?_
      cases r <;> first | decide | exact absurd rfl hre
  rw [hregs]

/-- **A system call changes the `eax` of its caller, and nothing else of any process**, also when it
blocks the caller and another process goes on. -/
theorem sys_rel (hfit : Fits L) (hr : Rel L m v) (h : Whole L (Irq L d) .sys_call m a) :
    ∃ j res, Rel L a
      { cur := j, ctx := Function.update v.ctx v.cur ((v.ctx v.cur).setEax res) } := by
  obtain ⟨c, hch, hc, ha⟩ := h
  obtain ⟨s, h1, hs, hready, hctx, hkr, -⟩ := trap_enter hr hch hc rfl
  have hsize := L.stack_size
  have hesp := hs.esp
  have hcard := opens_card_le s
  have hload := load_le (L := L) s
  unfold Fits at hfit
  have hin : ∀ k, k < P_STACKTOP + 4 → ∀ w, L.var w ≠ L.proc v.cur + k := fun k hk w =>
    (var_not_frame L w hr.cur (Nat.le_add_right _ _) (by omega)).symm
  have hpp : ∀ i, i < L.nproc → ∀ k, k < P_STACKTOP + 4 → i ≠ v.cur →
      L.proc i + k ≠ L.proc v.cur + EAXREG := by
    intro i hi k hk hne
    have := L.proc_proc i v.cur hi hr.cur hne
    have h44 : EAXREG = 44 := rfl
    have h72 : P_STACKTOP = 72 := rfl
    omega
  have hks : Kern L (24 + L.needSys) s :=
    ⟨hs.cs, ⟨by omega, by omega⟩, by unfold Level; omega, hready⟩
  obtain ⟨y, res, h2, yeip, yif, yesp, ysame, yready⟩ := window_sys (irq_quiet d) h1 hc hs.eip hs.IF
    hks hs.esi (hin _ (by decide)) (fun i hi => by
      by_cases hic : i = v.cur
      · subst hic
        have h44 : EAXREG = 44 := rfl
        have h56 : CSREG = 56 := rfl
        omega
      · exact hpp i hi _ (by decide) hic)
  have hyctx : ∀ k, k < L.nproc → frameCtx L y.mem k =
      frameCtx L (store s.mem (L.proc v.cur + EAXREG) res) k := fun k hk =>
    frameCtx_congr fun z h1 h2 => ysame.frames k hk z h1 (by omega)
  obtain ⟨j, hj⟩ := trap_exit h2 hc ha yeip rfl yif (ysame.cs.trans hs.cs)
    (ysame.k_reenter.trans ((Function.update_of_ne (hin _ (by decide) _) _ _).trans hkr)) yready (by
      have hst := L.proc_stack v.cur hr.cur
      have h44 : EAXREG = 44 := rfl
      have h72 : P_STACKTOP = 72 := rfl
      rw [yesp, ysame.stack s.esp (by omega) (by omega) (Nat.le_refl _)]
      show store s.mem _ _ s.esp = _
      rw [store, Function.update_of_ne (by omega), hesp]
      exact hs.back)
  refine ⟨j, res, hj.congr rfl fun k hk => ?_⟩
  show Function.update v.ctx v.cur _ k = frameCtx L y.mem k
  rw [hyctx k hk]
  by_cases hkc : k = v.cur
  · subst hkc
    rw [Function.update_self, frameCtx_setEax, hctx _ hk]
  · rw [Function.update_of_ne hkc, ← hctx k hk]
    refine (frameCtx_congr fun z h1 h2 => Function.update_of_ne ?_ _ _).symm
    have := L.proc_proc k v.cur hk hr.cur hkc
    have h44 : EAXREG = 44 := rfl
    have h72 : P_STACKTOP = 72 := rfl
    omega

/-! ## runs -/

theorem step_refines (hfit : Fits L) : Simulates (PStep L) VStep (Rel L) := by
  intro m e m' v hr hst
  cases hst with
  | own h hring =>
    refine ⟨_, .own v m'.ctx, ?_⟩
    exact
      { cur := hr.cur
        live := by
          show m'.ctx = Function.update v.ctx v.cur m'.ctx v.cur
          rw [Function.update_self]
        frames := fun k hk hne => by
          show _ = Function.update v.ctx v.cur m'.ctx k
          rw [Function.update_of_ne hne, ← hr.frames k hk hne]
          exact frameCtx_congr fun y h1 h2 => h.frames k hk trivial y h1 (by omega)
        ring := hring
        ready := (h.vars _).trans hr.ready
        tss_esp0 := (h.vars _).trans hr.tss_esp0
        k_reenter := (h.vars _).trans hr.k_reenter
        ldtr := by
          rw [h.ldtr, hr.ldtr, h.frames _ hr.cur trivial _ (Nat.le_add_right _ _) (by
            show L.proc v.cur + 72 < L.proc v.cur + 72 + 4
            omega)] }
  | poke hi hp hk h hctx =>
    rename_i i k
    have hic : i = v.cur := by
      by_contra hne
      have := L.proc_proc i v.cur hi hr.cur hne
      have := hp.symm.trans hr.ready
      omega
    subst hic
    refine ⟨_, .poke v k (frameCtx L m'.mem k) hk, ?_⟩
    exact
      { cur := hr.cur
        live := by
          show m'.ctx = Function.update v.ctx k _ v.cur
          rw [Function.update_of_ne hk.symm, hctx, hr.live]
        frames := fun l hl hne => by
          show _ = Function.update v.ctx k _ l
          by_cases hlk : l = k
          · subst hlk
            rw [Function.update_self]
          · rw [Function.update_of_ne hlk, ← hr.frames l hl hne]
            exact frameCtx_congr fun y h1 h2 => h.frames l hl hlk y h1 (by omega)
        ring := by
          have hcs : m'.cs = m.cs := congrArg Ctx.cs hctx
          rw [hcs]
          exact hr.ring
        ready := (h.vars _).trans hr.ready
        tss_esp0 := (h.vars _).trans hr.tss_esp0
        k_reenter := (h.vars _).trans hr.k_reenter
        ldtr := by
          rw [h.ldtr, hr.ldtr, h.frames _ hr.cur hk.symm _ (Nat.le_add_right _ _) (by
            show L.proc v.cur + 72 < L.proc v.cur + 72 + 4
            omega)] }
  | irq hif hn h =>
    obtain ⟨j, hj⟩ := irq_rel hfit hr hn h
    exact ⟨_, .irq v _ j, hj⟩
  | sys h =>
    obtain ⟨j, res, hj⟩ := sys_rel hfit hr h
    exact ⟨_, .sys v j res, hj⟩

/-- straight code is a piece of an activation -/
theorem chain_of_block {r : Routine} (is rest : List Instr) :
    ∀ {k : Nat} {m : Machine}, m.eip = L.addr r k → (code r).drop k = is ++ rest →
      (∀ i ∈ is, i.plain = true) →
      Chain L R none ((execs L is m).jump (L.addr r (k + is.length))) b → Chain L R none m b := by
  induction is with
  | nil =>
    intro k m heip _ _ h
    have hm : (execs L [] m).jump (L.addr r (k + 0)) = m := by
      rw [Nat.add_zero, ← heip]
      rfl
    exact hm ▸ h
  | cons i is ih =>
    intro k m heip hdrop hpl h
    have hpi := hpl i List.mem_cons_self
    have hget : (code r)[k]? = some i := by
      have := congrArg List.head? hdrop
      rw [List.head?_drop] at this
      exact this
    have hdrop' : (code r).drop (k + 1) = is ++ rest := by
      rw [← List.drop_drop, hdrop]
      rfl
    have hpl' : ∀ j ∈ is, j.plain = true := fun j hj => hpl j (List.mem_cons_of_mem i hj)
    have hlen : k + (i :: is).length = k + 1 + is.length := by
      rw [List.length_cons]
      omega
    refine .instr (by rw [heip]; exact L.placed r k i hget) (plain_cFrame hpi)
      (by rintro rfl; cases hpi) (step_at heip hget) ?_
    rw [exec_eip hpi]
    refine ih rfl hdrop' hpl' ?_
    rw [execs_eip hpl', Machine.jump_jump]
    rw [hlen] at h
    exact h

namespace Demo

def addr : Routine → Nat → Nat
  | .save, k => 1000 + k
  | .sys_call, k => 2000 + k
  | .restart, k => 3000 + k
  | .hwint n, k => 4000 + 32 * n + k

/-- the routine and the place of an address -/
def place (a : Nat) : Routine × Nat :=
  if a < 2000 then (.save, a - 1000)
  else if a < 3000 then (.sys_call, a - 2000)
  else if a < 4000 then (.restart, a - 3000)
  else (.hwint ((a - 4000) / 32), (a - 4000) % 32)

def decode (a : Nat) : Option (Instr × Nat) :=
  if a < 1000 then none else ((code (place a).1)[(place a).2]?).map fun i => (i, a + 1)

theorem code_length (r : Routine) : (code r).length ≤ 20 := by
  cases r with
  | hwint n =>
    show (if n < 8 then hwint_master n else hwint_slave n).length ≤ 20
    split
    · exact Nat.le_add_right 15 5
    · exact Nat.le_add_right 17 3
  | save | sys_call | restart => decide

theorem place_addr (r : Routine) {k : Nat} (hk : k < 20) : place (addr r k) = (r, k) := by
  cases r with
  | hwint n =>
    have h1 : (4000 + 32 * n + k - 4000) / 32 = n := by omega
    have h2 : (4000 + 32 * n + k - 4000) % 32 = k := by omega
    unfold place addr
    dsimp only
    rw [if_neg (by omega), if_neg (by omega), if_neg (by omega), h1, h2]
  | save =>
    unfold place addr
    dsimp only
    rw [if_pos (by omega), Nat.add_sub_cancel_left]
  | sys_call =>
    unfold place addr
    dsimp only
    rw [if_neg (by omega), if_pos (by omega), Nat.add_sub_cancel_left]
  | restart =>
    unfold place addr
    dsimp only
    rw [if_neg (by omega), if_neg (by omega), if_pos (by omega), Nat.add_sub_cancel_left]

theorem addr_succ (r : Routine) (k : Nat) : addr r (k + 1) = addr r k + 1 := by
  cases r <;> rfl

theorem placed (r : Routine) (k : Nat) (i : Instr) (h : (code r)[k]? = some i) :
    decode (addr r k) = some (i, addr r (k + 1)) := by
  obtain ⟨hk, -⟩ := List.getElem?_eq_some_iff.mp h
  have hk20 : k < 20 := hk.trans_le (code_length r)
  have hlow : ¬ addr r k < 1000 := by
    cases r <;> unfold addr <;> dsimp only <;> omega
  unfold decode
  rw [if_neg hlow, place_addr r hk20, addr_succ]
  show ((code r)[k]?).map _ = _
  rw [h]
  rfl

/-- a place for everything: forty processes, 100 bytes of stack for each handler -/
def layout : Layout where
  addr := addr
  decode := decode
  placed := placed
  StackSpace := 0x8000
  StackTop := 0x9000
  stack_size := rfl
  var v := if v = .k_reenter then 0x7000 else if v = .p_proc_ready then 0x7004 else 0x7008
  irq_table := 0x7100
  sys_call_table := 0x7200
  nproc := 40
  proc i := 0x10000 + 0x100 * i
  var_inj v w h := by cases v <;> cases w <;> first | rfl | cases h
  var_stack v := by cases v <;> decide
  var_proc v i _ := by
    have h72 : P_STACKTOP = 72 := rfl
    cases v <;> simp <;> omega
  proc_stack i _ := by
    have h72 : P_STACKTOP = 72 := rfl
    omega
  proc_proc i j _ _ _ := by
    have h72 : P_STACKTOP = 72 := rfl
    omega
  need _ := 100
  needSys := 200

/-- `kernel_main` has chosen process 0, a task of ring 1 -/
def start : Machine where
  regs _ := 0
  esp := 0x9000
  eip := 3000
  cs := SELECTOR_KERNEL_CS
  ss := SELECTOR_KERNEL_DS
  eflags := 2
  ldtr := 0
  mMask := 0xFE
  sMask := 0xFF
  mem a := if a = 0x7004 then 0x10000 else if a = 0x10000 + 56 then 5 else 0

/-- the task when it runs -/
def started : Machine :=
  exec layout .iretd ((execs layout (restart.take 11) start).jump 3012)

theorem start_boot : Boot layout start started where
  eip := rfl
  IF := by decide
  cs := rfl
  k_reenter := rfl
  ready := ⟨0, by decide, rfl, by decide⟩
  restarts := by
    refine ⟨(execs layout (restart.take 11) start).jump 3011, ?_, ⟨3012, rfl⟩, rfl⟩
    exact chain_of_block (r := .restart) (k := 0) (restart.take 11) (restart.drop 11) rfl rfl
      (List.all_eq_true.mp rfl) (.done none _)

theorem layout_fits : Fits layout := by
  show 28 + 200 + ∑ n ∈ Finset.range 16, (4 * 19 + 100) ≤ 4 * 1024
  decide

end Demo

end Noxis.Trap
