import Noxis.Trap.Entry

/-!
# 25-osfs11: the part of an activation that may be interrupted

Between `sti` and `cli` a routine pushes arguments, calls C code and takes the arguments off again.

* `window_irq`  `hwint_master` and `hwint_slave`: nothing of the interrupted code is lost;
* `window_sys`  `sys_call`: only the word of `eax` in the frame is new, and it is what the C function
  has returned; the C function finds `ebx`, `ecx`, `edx` and `p_proc_ready` as its arguments.
-/

namespace Noxis.Trap

variable {L : Layout} {m w c : Machine} {R : Nat → Machine → Machine → Prop} {r : Routine}

/-! ## the kernel stack is apart from everything else -/

/-- a word of the kernel stack -/
def InStack (L : Layout) (x : Nat) : Prop := L.StackSpace ≤ x ∧ x < L.StackTop

theorem InStack.ne_var {x : Nat} (hx : InStack L x) (v : Var) : L.var v ≠ x := by
  have := L.var_stack v
  obtain ⟨h1, h2⟩ := hx
  omega

theorem InStack.ne_frame {x i y : Nat} (hx : InStack L x) (hi : i < L.nproc) (hy : L.proc i ≤ y)
    (hy' : y < L.proc i + P_STACKTOP + 4) : y ≠ x := by
  have := L.proc_stack i hi
  have := L.stack_size
  obtain ⟨h1, h2⟩ := hx
  omega

/-- a change to one word of the kernel stack -/
theorem Same.store_stack {S : Nat → Prop} {x a : Nat} (hx : InStack L x) (hS : ¬ S x) :
    Same L S m { m with mem := store m.mem x a } where
  stack y _ _ hy := Function.update_of_ne (fun h : y = x => hS (h ▸ hy)) _ _
  frames _ hi _ hy hy' := Function.update_of_ne (hx.ne_frame hi hy hy') _ _
  k_reenter := Function.update_of_ne (hx.ne_var _) _ _
  tss_esp0 := Function.update_of_ne (hx.ne_var _) _ _
  cs := rfl
  ss := rfl
  ldtr := rfl
  mask _ _ := rfl

theorem Ready.store_stack {x a : Nat} (h : Ready L m) (hx : InStack L x) :
    Ready L { m with mem := store m.mem x a } := by
  refine h.congr (Function.update_of_ne (hx.ne_var _) _ _) fun i hi => ?_
  exact Function.update_of_ne (hx.ne_frame hi (Nat.le_add_right _ _)
    (cs_in_frame _)) _ _

/-- the word below the stack pointer -/
theorem Kern.inStack {k : Nat} (h : Kern L (k + 4) m) : InStack L (m.esp - 4) := by
  have := h.room.low
  have := h.room.high
  constructor <;> omega

theorem Same.push {k : Nat} (h : Kern L (k + 4) m) (a x : Nat) :
    Same L (m.esp ≤ ·) m ((m.push a).jump x) :=
  { Same.store_stack (a := a) h.inStack (by
      have := h.room.low
      show ¬ m.esp ≤ m.esp - 4
      omega) with }

theorem Kern.push {k : Nat} (h : Kern L (k + 4) m) (a x : Nat) : Kern L k ((m.push a).jump x) := by
  have hlow := h.room.low
  refine h.of_same (Same.push h a x) (h.ready.store_stack h.inStack) ?_ ?_
  · show m.esp + k ≤ m.esp - 4 + (k + 4)
    omega
  · exact (Nat.sub_le _ _).trans h.room.high

theorem push_word (m : Machine) (a x : Nat) : ((m.push a).jump x).mem (m.esp - 4) = a :=
  Function.update_self ..

/-! ## `cli` -/

theorem cli_IF (m : Machine) (x : Nat) : (exec L .cli (m.jump x)).IF = false :=
  (testBit_setBit m.eflags 9 9 false).trans (if_pos rfl)

/-! ## hwint_master, hwint_slave -/

/-- the five instructions from `sti` to `cli` of a hardware interrupt -/
structure IrqPlace (r : Routine) (q n : Nat) : Prop where
  sti : (code r)[q]? = some .sti
  push : (code r)[q + 1]? = some (.pushImm n)
  call : (code r)[q + 2]? = some (.callIrq n)
  pop : (code r)[q + 3]? = some (.pop .ecx)
  cli : (code r)[q + 4]? = some .cli

/-- **The handler of a line keeps everything**, whatever interrupts it. -/
theorem window_irq (hR : QuietRel L R) {q n : Nat} (hp : IrqPlace r q n)
    (h : Chain L R none w c) (hc : AtIretd L c) (heip : w.eip = L.addr r q) (hif : w.IF = false)
    (hk : Kern L (8 + L.need n) w) :
    ∃ v, Chain L R none v c ∧ v.eip = L.addr r (q + 5) ∧ v.IF = false ∧ v.esp = w.esp ∧
      Same L (w.esp ≤ ·) w v ∧ Ready L v := by
  have hlow := hk.room.low
  -- sti
  have h0 := h.next_at hc hif heip hp.sti rfl (by intro h; cases h)
  have s0 : Same L (w.esp ≤ ·) w (exec L .sti (w.jump (L.addr r (q + 1)))) :=
    { Same.refl _ w with }
  have k0 : Kern L (8 + L.need n) (exec L .sti (w.jump (L.addr r (q + 1)))) :=
    hk.of_same s0 hk.ready (Nat.le_refl _) hk.room.high
  -- push
  obtain ⟨m1, q1, h1⟩ := h0.next_quiet hR hc (k0.mono (Nat.zero_le _)) rfl hp.push rfl
    (by intro h; cases h)
  have e1 : m1.esp = w.esp := q1.esp
  have k1 := q1.kern k0
  have k1' : Kern L (4 + L.need n + 4) m1 := k1.mono (by omega)
  have s1 := s0.trans (q1.same.mono fun x hx => hx)
  have s2 : Same L (w.esp ≤ ·) w (exec L (.pushImm n) (m1.jump (L.addr r (q + 2)))) :=
    s1.trans ((Same.push k1' n _).mono fun x hx => by rw [e1]; exact hx)
  have k2 : Kern L (4 + L.need n) (exec L (.pushImm n) (m1.jump (L.addr r (q + 2)))) :=
    k1'.push n _
  have e2 : (exec L (.pushImm n) (m1.jump (L.addr r (q + 2)))).esp = w.esp - 4 := by
    rw [← e1]
    rfl
  -- call
  obtain ⟨m3, d, q3, hin, hd, h3⟩ := h1.next_call hR hc (k2.mono (Nat.zero_le _)) rfl hp.call rfl
    (fun a ha => by
      have ka : Kern L (L.need n + 4) a := (ha.kern k2).mono (by omega)
      exact ka.push _ _)
  have e3 : m3.esp = w.esp - 4 := q3.esp.trans e2
  have k3 : Kern L (L.need n + 4) m3 := (q3.kern k2).mono (by omega)
  have hed : d.esp = w.esp - 8 := by
    rw [hd]
    show m3.esp - 4 = _
    omega
  have hret : d.mem d.esp = L.addr r (q + 3) := by
    have hst := k3.inStack
    rw [hd]
    refine (hin.same.stack _ hst.1 hst.2 (.inl rfl)).trans ?_
    exact push_word m3 (L.addr r (q + 3)) _
  have s3 : Same L (w.esp ≤ ·) w d := by
    refine (s2.trans (q3.same.mono fun x hx => ?_)).trans ?_
    · rw [e2]
      exact (Nat.sub_le _ _).trans hx
    · refine ((Same.push k3 (L.addr r (q + 3)) _).mono fun x hx => ?_).trans
        (hin.same.mono fun x hx => .inr ?_)
      · rw [e3]
        exact (Nat.sub_le _ _).trans hx
      · show m3.esp - 4 + 4 + 4 * 1 ≤ x
        rw [e3]
        have : w.esp ≤ x := hx
        omega
  rw [hret] at h3
  -- pop
  have hdk : Kern L 0 { d with eip := L.addr r (q + 3), esp := d.esp + 4 } := by
    refine hk.of_same { s3 with } hin.ready ?_ ?_
    · show w.esp + 0 ≤ d.esp + 4 + _
      omega
    · have := hk.room.high
      show d.esp + 4 ≤ _
      omega
  obtain ⟨m4, q4, h4⟩ := h3.next_quiet hR hc hdk rfl hp.pop rfl (by intro h; cases h)
  have e4 : m4.esp = w.esp - 4 := by
    rw [q4.esp]
    show d.esp + 4 = _
    omega
  have s4 : Same L (w.esp ≤ ·) w m4 := by
    have hsd : Same L (w.esp ≤ ·) w { d with eip := L.addr r (q + 3), esp := d.esp + 4 } :=
      { s3 with }
    refine hsd.trans (q4.same.mono fun x hx => ?_)
    show d.esp + 4 ≤ x
    have : w.esp ≤ x := hx
    omega
  have s5 : Same L (w.esp ≤ ·) w (exec L (.pop .ecx) (m4.jump (L.addr r (q + 4)))) := { s4 with }
  have e5 : (exec L (.pop .ecx) (m4.jump (L.addr r (q + 4)))).esp = w.esp := by
    show m4.esp + 4 = _
    omega
  -- cli
  have k5 : Kern L 0 (exec L (.pop .ecx) (m4.jump (L.addr r (q + 4)))) :=
    hk.of_same s5 q4.ready (by rw [e5]; omega) (by rw [e5]; exact hk.room.high)
  obtain ⟨m6, q6, h6⟩ := h4.next_quiet hR hc k5 rfl hp.cli rfl (by intro h; cases h)
  have s6 : Same L (w.esp ≤ ·) w m6 := s5.trans (q6.same.mono fun x hx => by rw [e5]; exact hx)
  exact ⟨_, h6, rfl, cli_IF _ _, q6.esp.trans e5, { s6 with }, q6.ready⟩

/-! ## sys_call -/

/-- an instruction that pushes one word, with quiet traps before it -/
theorem Chain.next_push {q k : Nat} {i : Instr} {g : Machine → Nat} (h : Chain L R none w c)
    (hR : QuietRel L R) (hc : AtIretd L c) (hk : Kern L (k + 4) w) (heip : w.eip = L.addr r q)
    (hi : (code r)[q]? = some i) (hex : ∀ m, exec L i m = m.push (g m))
    (hval : ∀ m x, g (m.jump x) = g m) (hci : cFrame L i = none) (hiret : i ≠ .iretd) :
    ∃ m a, Quiet L w m ∧ a = (m.push (g m)).jump (L.addr r (q + 1)) ∧ Kern L k a ∧
      a.esp = w.esp - 4 ∧ a.regs = w.regs ∧ Same L (w.esp ≤ ·) w a ∧
      a.mem (w.esp - 4) = g m ∧ Chain L R none a c := by
  obtain ⟨m, hq, hch⟩ := h.next_quiet hR hc (hk.mono (Nat.zero_le _)) heip hi hci hiret
  have hkm := hq.kern hk
  rw [hex, hval] at hch
  refine ⟨m, _, hq, rfl, hkm.push _ _, ?_, hq.regs, ?_, ?_, hch⟩
  · rw [← hq.esp]
    rfl
  · exact hq.same.trans ((Same.push hkm _ _).mono fun x hx => hq.esp ▸ hx)
  · rw [← hq.esp]
    exact push_word m _ _

/-- the same store on both sides -/
theorem Same.store_both {S : Nat → Prop} {a b : Machine} (h : Same L S a b) (x y : Nat) :
    Same L S { a with mem := store a.mem x y } { b with mem := store b.mem x y } := by
  have hkey : ∀ z, b.mem z = a.mem z → store b.mem x y z = store a.mem x y z := by
    intro z hz
    unfold store
    by_cases hzx : z = x
    · rw [hzx, Function.update_self, Function.update_self]
    · rw [Function.update_of_ne hzx, Function.update_of_ne hzx, hz]
  exact
    { stack := fun z h1 h2 hS => hkey z (h.stack z h1 h2 hS)
      frames := fun i hi z h1 h2 => hkey z (h.frames i hi z h1 h2)
      k_reenter := hkey _ h.k_reenter
      tss_esp0 := hkey _ h.tss_esp0
      cs := h.cs
      ss := h.ss
      ldtr := h.ldtr
      mask := h.mask }

/-- **A system call keeps everything but the word of `eax` in its frame**, whatever interrupts it. -/
theorem window_sys (hR : QuietRel L R) {base : Nat} (h : Chain L R none w c) (hc : AtIretd L c)
    (heip : w.eip = L.addr .sys_call 1) (hif : w.IF = false) (hk : Kern L (24 + L.needSys) w)
    (hesi : w.regs .esi = base) (hb : ∀ v, L.var v ≠ base + EAXREG)
    (hf : ∀ i, i < L.nproc → L.proc i + CSREG ≠ base + EAXREG) :
    ∃ v res, Chain L R none v c ∧ v.eip = L.addr .sys_call 12 ∧ v.IF = false ∧ v.esp = w.esp ∧
      Same L (w.esp ≤ ·) { w with mem := store w.mem (base + EAXREG) res } v ∧ Ready L v := by
  have hlow := hk.room.low
  have hhigh := hk.room.high
  -- sti
  have h0 := h.next_at hc hif heip (i := .sti) rfl rfl (by intro h; cases h)
  have s0 : Same L (w.esp ≤ ·) w (exec L .sti (w.jump (L.addr .sys_call 2))) :=
    { Same.refl _ w with }
  have k0 : Kern L (20 + L.needSys + 4) (exec L .sti (w.jump (L.addr .sys_call 2))) :=
    hk.of_same s0 hk.ready (by show w.esp + _ ≤ w.esp + _; omega) hhigh
  -- esi and the arguments
  obtain ⟨m0, a1, q0, ha1, k1, e1, r1, s1, w1, h1⟩ := h0.next_push hR hc k0 rfl
    (i := .push .esi) (g := fun m => m.regs .esi) rfl (fun _ => rfl) (fun _ _ => rfl) rfl
    (by intro h; cases h)
  have k1' : Kern L (16 + L.needSys + 4) a1 := k1.mono (by omega)
  obtain ⟨_, a2, -, ha2, k2, e2, r2, s2, w2, h2⟩ := h1.next_push hR hc k1' (by rw [ha1]; rfl)
    (i := .pushVar .p_proc_ready) (g := fun m => m.mem (L.var .p_proc_ready)) rfl (fun _ => rfl)
    (fun _ _ => rfl) rfl (by intro h; cases h)
  have k2' : Kern L (12 + L.needSys + 4) a2 := k2.mono (by omega)
  obtain ⟨_, a3, -, ha3, k3, e3, r3, s3, w3, h3⟩ := h2.next_push hR hc k2' (by rw [ha2]; rfl)
    (i := .push .edx) (g := fun m => m.regs .edx) rfl (fun _ => rfl)
    (fun _ _ => rfl) rfl (by intro h; cases h)
  have k3' : Kern L (8 + L.needSys + 4) a3 := k3.mono (by omega)
  obtain ⟨_, a4, -, ha4, k4, e4, r4, s4, w4, h4⟩ := h3.next_push hR hc k3' (by rw [ha3]; rfl)
    (i := .push .ecx) (g := fun m => m.regs .ecx) rfl (fun _ => rfl)
    (fun _ _ => rfl) rfl (by intro h; cases h)
  have k4' : Kern L (4 + L.needSys + 4) a4 := k4.mono (by omega)
  obtain ⟨_, a5, -, ha5, k5, e5, r5, s5, w5, h5⟩ := h4.next_push hR hc k4' (by rw [ha4]; rfl)
    (i := .push .ebx) (g := fun m => m.regs .ebx) rfl (fun _ => rfl)
    (fun _ _ => rfl) rfl (by intro h; cases h)
  have ew : (exec L .sti (w.jump (L.addr .sys_call 2))).esp = w.esp := rfl
  have e1' : a1.esp = w.esp - 4 := e1
  have e5' : a5.esp = w.esp - 20 := by omega
  have hesi1 : a1.mem (w.esp - 4) = base := by
    rw [← ew, w1, q0.regs]
    exact hesi
  have s15 : Same L (w.esp - 4 ≤ ·) a1 a5 := by
    have t2 := s2.mono (T := (w.esp - 4 ≤ ·)) fun x (hx : w.esp - 4 ≤ x) => by
      show _ ≤ x
      omega
    have t3 := s3.mono (T := (w.esp - 4 ≤ ·)) fun x (hx : w.esp - 4 ≤ x) => by
      show _ ≤ x
      omega
    have t4 := s4.mono (T := (w.esp - 4 ≤ ·)) fun x (hx : w.esp - 4 ≤ x) => by
      show _ ≤ x
      omega
    have t5 := s5.mono (T := (w.esp - 4 ≤ ·)) fun x (hx : w.esp - 4 ≤ x) => by
      show _ ≤ x
      omega
    exact ((t2.trans t3).trans t4).trans t5
  -- the call
  have k5' : Kern L (L.needSys + 4) a5 := k5.mono (by omega)
  obtain ⟨m6, d, q6, hin, hd, h6⟩ := h5.next_call hR hc (k5.mono (Nat.zero_le _)) (by rw [ha5]; rfl)
    (i := .callSys) rfl rfl (fun a ha => (ha.kern k5').push _ _)
  have e6 : m6.esp = w.esp - 20 := q6.esp.trans e5'
  have k6 := q6.kern k5'
  have hed : d.esp = w.esp - 24 := by
    rw [hd]
    show m6.esp - 4 = _
    omega
  have hret : d.mem d.esp = L.addr .sys_call 8 := by
    have hst := k6.inStack
    rw [hd]
    refine (hin.same.stack _ hst.1 hst.2 (.inl rfl)).trans ?_
    exact push_word m6 (L.addr .sys_call 8) _
  have s6 : Same L (w.esp - 4 ≤ ·) a1 d := by
    refine (s15.trans (q6.same.mono fun x (hx : w.esp - 4 ≤ x) => ?_)).trans
      (((Same.push k6 (L.addr .sys_call 8) _).mono fun x (hx : w.esp - 4 ≤ x) => ?_).trans
        (hin.same.mono fun x (hx : w.esp - 4 ≤ x) => .inr ?_))
    · show _ ≤ x
      omega
    · show _ ≤ x
      omega
    · show m6.esp - 4 + 4 + 4 * 4 ≤ x
      omega
  rw [hret] at h6
  -- the arguments are taken off
  have hdk : Kern L 0 { d with eip := L.addr .sys_call 8, esp := d.esp + 4 } := by
    refine k1.of_same { s6 with } hin.ready ?_ ?_
    · show a1.esp + 0 ≤ d.esp + 4 + _
      omega
    · show d.esp + 4 ≤ _
      omega
  obtain ⟨m7, q7, h7⟩ := h6.next_quiet hR hc hdk rfl (i := .addEsp (4 * 4)) rfl rfl
    (by intro h; cases h)
  have e7 : m7.esp = w.esp - 20 := by
    rw [q7.esp]
    show d.esp + 4 = _
    omega
  have s7 : Same L (w.esp - 4 ≤ ·) a1
      (exec L (.addEsp (4 * 4)) (m7.jump (L.addr .sys_call 9))) := by
    have hsd : Same L (w.esp - 4 ≤ ·) a1 { d with eip := L.addr .sys_call 8, esp := d.esp + 4 } :=
      { s6 with }
    exact { hsd.trans (q7.same.mono fun x (hx : w.esp - 4 ≤ x) => by
      show d.esp + 4 ≤ x
      omega) with }
  have e8 : (exec L (.addEsp (4 * 4)) (m7.jump (L.addr .sys_call 9))).esp = w.esp - 4 := by
    show m7.esp + 4 * 4 = _
    omega
  -- esi
  have k8 : Kern L 0 (exec L (.addEsp (4 * 4)) (m7.jump (L.addr .sys_call 9))) :=
    k1.of_same s7 q7.ready (by omega) (by omega)
  obtain ⟨m9, q9, h9⟩ := h7.next_quiet hR hc k8 rfl (i := .pop .esi) rfl rfl (by intro h; cases h)
  have e9 : m9.esp = w.esp - 4 := q9.esp.trans e8
  have s9 : Same L (w.esp - 4 ≤ ·) a1 m9 :=
    s7.trans (q9.same.mono fun x (hx : w.esp - 4 ≤ x) => by rw [e8]; exact hx)
  have hesi9 : m9.mem m9.esp = base := by
    rw [e9, ← hesi1]
    exact s9.stack _ (by omega) (by omega) (Nat.le_refl _)
  have e10 : (exec L (.pop .esi) (m9.jump (L.addr .sys_call 10))).esp = w.esp := by
    show m9.esp + 4 = _
    omega
  have s10 : Same L (w.esp ≤ ·) w (exec L (.pop .esi) (m9.jump (L.addr .sys_call 10))) := by
    have t1 : Same L (w.esp ≤ ·) w a1 := s0.trans s1
    exact { t1.trans (s9.mono fun x (hx : w.esp ≤ x) => by
      show w.esp - 4 ≤ x
      omega) with }
  have k10 : Kern L 0 (exec L (.pop .esi) (m9.jump (L.addr .sys_call 10))) :=
    hk.of_same s10 q9.ready (by omega) (by omega)
  -- eax
  obtain ⟨m11, q11, h11⟩ := h9.next_quiet hR hc k10 rfl (i := .movAtEsi_eax (EAXREG - P_STACKBASE))
    rfl rfl (by intro h; cases h)
  have hesi11 : m11.regs .esi = base := by
    rw [q11.regs]
    exact hesi9
  have s11 : Same L (w.esp ≤ ·) w m11 :=
    s10.trans (q11.same.mono fun x hx => by rw [e10]; exact hx)
  have hex : exec L (.movAtEsi_eax (EAXREG - P_STACKBASE)) (m11.jump (L.addr .sys_call 11)) =
      { m11 with
        eip := L.addr .sys_call 11, mem := store m11.mem (base + EAXREG) (m11.regs .eax) } := by
    rw [← hesi11]
    rfl
  rw [hex] at h11
  have s12 : Same L (w.esp ≤ ·) { w with mem := store w.mem (base + EAXREG) (m11.regs .eax) }
      { m11 with
        eip := L.addr .sys_call 11, mem := store m11.mem (base + EAXREG) (m11.regs .eax) } :=
    { s11.store_both (base + EAXREG) (m11.regs .eax) with }
  have hr12 : Ready L { m11 with
      eip := L.addr .sys_call 11, mem := store m11.mem (base + EAXREG) (m11.regs .eax) } := by
    exact q11.ready.congr (Function.update_of_ne (hb _) _ _) fun i hi =>
      Function.update_of_ne (hf i hi) _ _
  have e12 : m11.esp = w.esp := q11.esp.trans e10
  -- cli
  have kw : Kern L (24 + L.needSys)
      { w with mem := store w.mem (base + EAXREG) (m11.regs .eax) } := by
    refine ⟨hk.cs, ⟨hk.room.low, hk.room.high⟩, ?_, ?_⟩
    · have hl := hk.level
      unfold Level at hl ⊢
      show store w.mem _ _ _ + w.opens.card ≤ 16
      rw [store, Function.update_of_ne (hb _)]
      exact hl
    · exact hk.ready.congr (Function.update_of_ne (hb _) _ _) fun i hi =>
        Function.update_of_ne (hf i hi) _ _
  have k12 : Kern L 0 { m11 with
      eip := L.addr .sys_call 11, mem := store m11.mem (base + EAXREG) (m11.regs .eax) } :=
    kw.of_same s12 hr12 (by show w.esp + 0 ≤ m11.esp + _; omega) (by show m11.esp ≤ _; omega)
  obtain ⟨m13, q13, h13⟩ := h11.next_quiet hR hc k12 rfl (i := .cli) rfl rfl (by intro h; cases h)
  refine ⟨_, m11.regs .eax, h13, rfl, cli_IF _ _, q13.esp.trans e12, ?_, q13.ready⟩
  exact { s12.trans (q13.same.mono fun x hx => by
    show m11.esp ≤ x
    rw [e12]
    exact hx) with }

end Noxis.Trap
