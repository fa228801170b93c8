import Noxis.Trap.Chain
import Noxis.Lib.PushDown

/-!
# 25-osfs11: `save`

What an interrupt gate and `save` leave behind, from ring 0 and from a process.

* `Core mem base m`  the frame at `base` has the registers, `eip`, `cs` and `eflags` of `m`;
* `Saved`            the machine when `save` has returned into the routine that called it;
* `enter_inner`      from ring 0: the frame is on the kernel stack, `restart_reenter` below it;
* `enter_outer`      from a process: the frame is in the process table, `restart` on the kernel stack.
-/

namespace Noxis.Trap
open PushDown

variable {L : Layout} {m c : Machine} {R : Nat → Machine → Machine → Prop} {r : Routine}

/-- the words of a frame that do not depend on the ring that was left -/
structure Core (mem : Nat → Nat) (base : Nat) (m : Machine) : Prop where
  regs : ∀ r : Reg, mem (base + r.off) = m.regs r
  eip : mem (base + EIPREG) = m.eip
  cs : mem (base + CSREG) = m.cs
  eflags : mem (base + EFLAGSREG) = m.eflags

/-- the machine `s` after the gate of `r` was entered at `m` and `save` has returned: the frame is at
`base`, the kernel stack at `kesp` with place `back` of `restart` on it -/
structure Saved (L : Layout) (r : Routine) (m s : Machine) (base kesp back : Nat) : Prop where
  eip : s.eip = L.addr r 1
  IF : s.IF = false
  esp : s.esp = kesp
  cs : s.cs = SELECTOR_KERNEL_CS
  ldtr : s.ldtr = m.ldtr
  mMask : s.mMask = m.mMask
  sMask : s.sMask = m.sMask
  esi : s.regs .esi = base
  ebx : s.regs .ebx = m.regs .ebx
  ecx : s.regs .ecx = m.regs .ecx
  edx : s.regs .edx = m.regs .edx
  eax : s.regs .eax = m.regs .eax
  core : Core s.mem base m
  back : s.mem kesp = L.addr .restart back
  k_reenter : s.mem (L.var .k_reenter) = wrap (m.mem (L.var .k_reenter) + 1)

/-! ## many pushes -/

theorem pushAll_esp (m : Machine) (ws : List Nat) : (m.pushAll ws).esp = m.esp - 4 * ws.length := by
  induction ws generalizing m with
  | nil => rfl
  | cons w ws ih =>
    show ((m.push w).pushAll ws).esp = _
    rw [ih, List.length_cons]
    show m.esp - 4 - 4 * ws.length = _
    omega

theorem pushAll_mem (m : Machine) (ws : List Nat) : (m.pushAll ws).mem = pushes m.mem m.esp ws := by
  induction ws generalizing m with
  | nil => rfl
  | cons w ws ih => exact ih (m.push w)

theorem pushAll_regs (m : Machine) (ws : List Nat) : (m.pushAll ws).regs = m.regs := by
  induction ws generalizing m with
  | nil => rfl
  | cons w ws ih => exact ih (m.push w)

theorem pushAll_fields (m : Machine) (ws : List Nat) :
    (m.pushAll ws).ss = m.ss ∧ (m.pushAll ws).ldtr = m.ldtr ∧ (m.pushAll ws).mMask = m.mMask ∧
      (m.pushAll ws).sMask = m.sMask ∧ (m.pushAll ws).cs = m.cs := by
  induction ws generalizing m with
  | nil => exact ⟨rfl, rfl, rfl, rfl, rfl⟩
  | cons w ws ih => exact ih (m.push w)

/-! ## the code up to the test of `k_reenter` -/

/-- the twelve words that `save` pushes -/
def regWords (m : Machine) : List Nat :=
  [m.regs .eax, m.regs .ecx, m.regs .edx, m.regs .ebx, m.esp, m.regs .ebp, m.regs .esi, m.regs .edi,
    m.regs .ds, m.regs .es, m.regs .fs, m.regs .gs]

theorem execs_pushes (m : Machine) : execs L (Trap.save.take 5) m = m.pushAll (regWords m) := rfl

theorem execs_append (is js : List Instr) (m : Machine) :
    execs L (is ++ js) m = execs L js (execs L is m) := List.foldl_append

/-- the segments of the kernel; `edx` is carried in `esi` meanwhile -/
def segs : List Instr := (Trap.save.drop 5).take 7

theorem execs_segs (p : Machine) :
    (execs L segs p).mem = p.mem ∧ (execs L segs p).esp = p.esp ∧
      (execs L segs p).eflags = p.eflags ∧ (execs L segs p).cs = p.cs ∧
      (execs L segs p).ss = p.ss ∧ (execs L segs p).ldtr = p.ldtr ∧
      (execs L segs p).mMask = p.mMask ∧ (execs L segs p).sMask = p.sMask :=
  ⟨rfl, rfl, rfl, rfl, rfl, rfl, rfl, rfl⟩

theorem execs_segs_regs (p : Machine) :
    (execs L segs p).regs .esi = p.esp ∧ (execs L segs p).regs .eax = p.regs .eax ∧
      (execs L segs p).regs .ebx = p.regs .ebx ∧ (execs L segs p).regs .ecx = p.regs .ecx ∧
      (execs L segs p).regs .edx = p.regs .edx :=
  ⟨rfl, rfl, rfl, rfl, rfl⟩

/-- the machine when everything is pushed -/
def pushed (L : Layout) (r : Routine) (m : Machine) : Machine :=
  let s := (cpuInt L r m).push (L.addr r 1)
  s.pushAll (regWords s)

/-- the machine at the test of `k_reenter` in `save` -/
def atTest (L : Layout) (r : Routine) (m : Machine) : Machine :=
  (exec L (.cmp0 .k_reenter) (exec L (.inc .k_reenter) (execs L segs (pushed L r m)))).jump
    (L.addr .save 14)

theorem execs_save (s : Machine) : execs L (Trap.save.take 14) s =
    exec L (.cmp0 .k_reenter) (exec L (.inc .k_reenter)
      (execs L segs (s.pushAll (regWords s)))) := by
  have hsplit : Trap.save.take 14 =
      Trap.save.take 5 ++ (segs ++ [.inc .k_reenter, .cmp0 .k_reenter]) := rfl
  rw [hsplit, execs_append, execs_append, execs_pushes]
  rfl

theorem Chain.save (h : Chain L R none (cpuInt L r m) c) (hc : AtIretd L c)
    (hr : (code r)[0]? = some (.call .save)) : Chain L R none (atTest L r m) c := by
  have hif : (cpuInt L r m).IF = false := testBit_setBit m.eflags 9 9 false
  have h1 : Chain L R none (((cpuInt L r m).push (L.addr r 1)).jump (L.addr .save 0)) c :=
    h.next_at hc hif rfl hr rfl fun h => by cases h
  have h2 := h1.block (r := .save) (k := 0) (Trap.save.take 14) (Trap.save.drop 14) hc rfl rfl
    (by decide) hif
  rw [execs_eip (by decide), execs_save, Machine.jump_jump] at h2
  unfold atTest pushed
  exact h2

/-! ## the frame -/

theorem gateStack_regs (m : Machine) : (gateStack L m).regs = m.regs := by
  unfold gateStack
  split <;> rfl

/-- what a gate and `save` push, from the stack that the gate has chosen -/
def saveWords (L : Layout) (r : Routine) (m : Machine) : List Nat :=
  [m.eflags, m.cs, m.eip, L.addr r 1, m.regs .eax, m.regs .ecx, m.regs .edx, m.regs .ebx,
    (gateStack L m).esp - 4 - 4 - 4 - 4, m.regs .ebp, m.regs .esi, m.regs .edi, m.regs .ds,
    m.regs .es, m.regs .fs, m.regs .gs]

/-- when `save` is entered -/
theorem called_mem (r : Routine) (m : Machine) : ((cpuInt L r m).push (L.addr r 1)).mem =
    pushes (gateStack L m).mem (gateStack L m).esp [m.eflags, m.cs, m.eip, L.addr r 1] := by
  have h := pushAll_mem (gateStack L m) [m.eflags, m.cs, m.eip]
  have h' := pushAll_esp (gateStack L m) [m.eflags, m.cs, m.eip]
  show store ((gateStack L m).pushAll [m.eflags, m.cs, m.eip]).mem
    (((gateStack L m).pushAll [m.eflags, m.cs, m.eip]).esp - 4) (L.addr r 1) = _
  have happ : [m.eflags, m.cs, m.eip, L.addr r 1] = [m.eflags, m.cs, m.eip] ++ [L.addr r 1] := rfl
  rw [h, h', happ, pushes_append]
  rfl

theorem called_esp (r : Routine) (m : Machine) :
    ((cpuInt L r m).push (L.addr r 1)).esp = (gateStack L m).esp - 4 - 4 - 4 - 4 := rfl

theorem called_regs (r : Routine) (m : Machine) :
    ((cpuInt L r m).push (L.addr r 1)).regs = m.regs :=
  (pushAll_regs _ _).trans (gateStack_regs m)

theorem pushed_mem (r : Routine) (m : Machine) :
    (pushed L r m).mem = pushes (gateStack L m).mem (gateStack L m).esp (saveWords L r m) := by
  have hw : saveWords L r m = [m.eflags, m.cs, m.eip, L.addr r 1] ++
      regWords ((cpuInt L r m).push (L.addr r 1)) := by
    unfold regWords
    rw [called_regs, called_esp]
    rfl
  rw [hw, pushes_append, ← called_mem]
  exact pushAll_mem _ _

theorem pushed_esp (r : Routine) (m : Machine) :
    (pushed L r m).esp = (gateStack L m).esp - 64 := by
  have h : (pushed L r m).esp = ((cpuInt L r m).push (L.addr r 1)).esp - 4 * 12 := pushAll_esp _ _
  rw [h, called_esp]
  omega

theorem pushed_regs (r : Routine) (m : Machine) : (pushed L r m).regs = m.regs :=
  (pushAll_regs _ _).trans (called_regs r m)

theorem atTest_mem (r : Routine) (m : Machine) : (atTest L r m).mem =
    store (pushed L r m).mem (L.var .k_reenter) (wrap ((pushed L r m).mem (L.var .k_reenter) + 1)) :=
  rfl

theorem atTest_esp (r : Routine) (m : Machine) : (atTest L r m).esp = (gateStack L m).esp - 64 :=
  pushed_esp r m

theorem atTest_IF (r : Routine) (m : Machine) : (atTest L r m).IF = false := by
  show (setBit _ 6 _).testBit 9 = false
  rw [testBit_setBit]
  exact testBit_setBit m.eflags 9 9 false

section
variable {base : Nat} (hbase : (gateStack L m).esp = base + 64)
include hbase

/-- an address outside the frame -/
theorem pushed_outside {x : Nat} (hx : x < base ∨ base + 64 ≤ x) :
    (pushed L r m).mem x = (gateStack L m).mem x := by
  rw [pushed_mem]
  exact pushes_outside _ _ (by rw [hbase]; exact Nat.le_add_left _ _)
    (by rw [hbase]; exact hx)

theorem atTest_outside {x : Nat} (hx : x < base ∨ base + 64 ≤ x) (hk : x ≠ L.var .k_reenter) :
    (atTest L r m).mem x = (gateStack L m).mem x := by
  rw [atTest_mem, store, Function.update_of_ne hk, pushed_outside hbase hx]

theorem atTest_k_reenter (hk : L.var .k_reenter < base ∨ base + 64 ≤ L.var .k_reenter) :
    (atTest L r m).mem (L.var .k_reenter) =
      wrap ((gateStack L m).mem (L.var .k_reenter) + 1) := by
  rw [atTest_mem, store, Function.update_self, pushed_outside hbase hk]

/-- a word of the frame -/
theorem atTest_word (hk : L.var .k_reenter < base ∨ base + 64 ≤ L.var .k_reenter) (k j : Nat)
    (hkj : k + j = 15) {w : Nat} (hw : (saveWords L r m)[k]? = some w) :
    (atTest L r m).mem (base + 4 * j) = w := by
  have hne : base + 4 * j ≠ L.var .k_reenter := by omega
  have haddr : base + 4 * j = (gateStack L m).esp - 4 * (k + 1) := by omega
  rw [atTest_mem, store, Function.update_of_ne hne, pushed_mem, haddr]
  exact pushes_get _ _ (by rw [hbase]; exact Nat.le_add_left _ _) k w hw

theorem atTest_core (hk : L.var .k_reenter < base ∨ base + 64 ≤ L.var .k_reenter) :
    Core (atTest L r m).mem base m where
  regs r := by
    cases r with
    | gs => exact atTest_word hbase hk 15 0 rfl rfl
    | fs => exact atTest_word hbase hk 14 1 rfl rfl
    | es => exact atTest_word hbase hk 13 2 rfl rfl
    | ds => exact atTest_word hbase hk 12 3 rfl rfl
    | edi => exact atTest_word hbase hk 11 4 rfl rfl
    | esi => exact atTest_word hbase hk 10 5 rfl rfl
    | ebp => exact atTest_word hbase hk 9 6 rfl rfl
    | ebx => exact atTest_word hbase hk 7 8 rfl rfl
    | edx => exact atTest_word hbase hk 6 9 rfl rfl
    | ecx => exact atTest_word hbase hk 5 10 rfl rfl
    | eax => exact atTest_word hbase hk 4 11 rfl rfl
  eip := atTest_word hbase hk 2 13 rfl rfl
  cs := atTest_word hbase hk 1 14 rfl rfl
  eflags := atTest_word hbase hk 0 15 rfl rfl

theorem atTest_retadr (hk : L.var .k_reenter < base ∨ base + 64 ≤ L.var .k_reenter) :
    (atTest L r m).mem (base + RETADR) = L.addr r 1 :=
  atTest_word hbase hk 3 12 rfl rfl

theorem atTest_esi : (atTest L r m).regs .esi = base := by
  show (pushed L r m).esp = base
  rw [pushed_esp, hbase]
  omega

end

theorem pushed_fields (r : Routine) (m : Machine) :
    (pushed L r m).ss = (gateStack L m).ss ∧ (pushed L r m).ldtr = (gateStack L m).ldtr ∧
      (pushed L r m).mMask = (gateStack L m).mMask ∧
      (pushed L r m).sMask = (gateStack L m).sMask ∧ (pushed L r m).cs = SELECTOR_KERNEL_CS := by
  obtain ⟨h1, h2, h3, h4, h5⟩ := pushAll_fields ((cpuInt L r m).push (L.addr r 1))
    (regWords ((cpuInt L r m).push (L.addr r 1)))
  obtain ⟨g1, g2, g3, g4, -⟩ := pushAll_fields (gateStack L m) [m.eflags, m.cs, m.eip]
  unfold pushed
  refine ⟨?_, ?_, ?_, ?_, ?_⟩
  · rw [h1, ← g1]
    rfl
  · rw [h2, ← g2]
    rfl
  · rw [h3, ← g3]
    rfl
  · rw [h4, ← g4]
    rfl
  · rw [h5]
    rfl

/-- the machine `t` at the test of `k_reenter`, its frame at `base` -/
structure AtTest (L : Layout) (r : Routine) (m : Machine) (base : Nat) (t : Machine) : Prop where
  eip : t.eip = L.addr .save 14
  IF : t.IF = false
  esp : t.esp = base
  cs : t.cs = SELECTOR_KERNEL_CS
  ss : t.ss = (gateStack L m).ss
  ldtr : t.ldtr = (gateStack L m).ldtr
  mMask : t.mMask = (gateStack L m).mMask
  sMask : t.sMask = (gateStack L m).sMask
  esi : t.regs .esi = base
  eax : t.regs .eax = m.regs .eax
  ebx : t.regs .ebx = m.regs .ebx
  ecx : t.regs .ecx = m.regs .ecx
  edx : t.regs .edx = m.regs .edx
  core : Core t.mem base m
  retadr : t.mem (base + RETADR) = L.addr r 1
  k_reenter : t.mem (L.var .k_reenter) = wrap ((gateStack L m).mem (L.var .k_reenter) + 1)
  ZF : t.eflags.testBit 6 = (t.mem (L.var .k_reenter) == 0)
  outside : ∀ x, (x < base ∨ base + 64 ≤ x) → x ≠ L.var .k_reenter →
    t.mem x = (gateStack L m).mem x

/-- the test leaves the segments, the masks and the registers alone -/
theorem test_fields (p : Machine) (a : Nat) :
    let t := (exec L (.cmp0 .k_reenter) (exec L (.inc .k_reenter) p)).jump a
    t.cs = p.cs ∧ t.ss = p.ss ∧ t.ldtr = p.ldtr ∧ t.mMask = p.mMask ∧ t.sMask = p.sMask ∧
      t.regs = p.regs :=
  ⟨rfl, rfl, rfl, rfl, rfl, rfl⟩

theorem atTest_spec {base : Nat} (hbase : (gateStack L m).esp = base + 64)
    (hk : L.var .k_reenter < base ∨ base + 64 ≤ L.var .k_reenter) :
    AtTest L r m base (atTest L r m) := by
  obtain ⟨h1, h2, h3, h4, h5⟩ := pushed_fields (L := L) r m
  have hregs := pushed_regs (L := L) r m
  obtain ⟨-, -, -, g5, g1, g2, g3, g4⟩ := execs_segs (L := L) (pushed L r m)
  obtain ⟨-, gax, gbx, gcx, gdx⟩ := execs_segs_regs (L := L) (pushed L r m)
  obtain ⟨f5, f1, f2, f3, f4, f6⟩ := test_fields (L := L) (execs L segs (pushed L r m))
    (L.addr .save 14)
  exact
    { eip := rfl
      IF := atTest_IF r m
      esp := by rw [atTest_esp, hbase, Nat.add_sub_cancel]
      cs := f5.trans (g5.trans h5)
      ss := f1.trans (g1.trans h1)
      ldtr := f2.trans (g2.trans h2)
      mMask := f3.trans (g3.trans h3)
      sMask := f4.trans (g4.trans h4)
      esi := atTest_esi hbase
      eax := (congrFun f6 .eax).trans (gax.trans (congrFun hregs .eax))
      ebx := (congrFun f6 .ebx).trans (gbx.trans (congrFun hregs .ebx))
      ecx := (congrFun f6 .ecx).trans (gcx.trans (congrFun hregs .ecx))
      edx := (congrFun f6 .edx).trans (gdx.trans (congrFun hregs .edx))
      core := atTest_core hbase hk
      retadr := atTest_retadr hbase hk
      k_reenter := atTest_k_reenter hbase hk
      ZF := (testBit_setBit _ 6 6 _).trans (if_pos rfl)
      outside := fun _ hx hxk => atTest_outside hbase hx hxk }

/-! ## the two ways out of `save` -/

section
variable {t : Machine} {ret : Nat} (h : Chain L R none t c) (hc : AtIretd L c)
  (heip : t.eip = L.addr .save 14) (hif : t.IF = false)
include h hc heip hif

/-- `k_reenter` is not zero: the trap was taken in the kernel, the stack is kept -/
theorem Chain.save_inner (hz : t.eflags.testBit 6 = false)
    (hret : (t.push (L.addr .restart 4)).mem (t.regs .esi + RETADR) = ret) :
    Chain L R none ((t.push (L.addr .restart 4)).jump ret) c := by
  have h1 := h.next_at (r := .save) (k := 14) hc hif heip rfl rfl (by intro h; cases h)
  have hj : exec L (.jne .save 18) (t.jump (L.addr .save 15)) = t.jump (L.addr .save 18) := by
    show (if t.eflags.testBit 6 = true then _ else _) = _
    rw [hz]
    rfl
  rw [hj] at h1
  have h2 := h1.next_at (r := .save) (k := 18) hc hif rfl rfl rfl (by intro h; cases h)
  have h3 := h2.next_at (r := .save) (k := 19) hc hif rfl rfl rfl (by intro h; cases h)
  rw [← hret]
  exact h3

/-- `k_reenter` is zero: the trap was taken in a process, the kernel stack is empty -/
theorem Chain.save_outer (hz : t.eflags.testBit 6 = true)
    (hret : ({ t with esp := L.StackTop }.push (L.addr .restart 0)).mem (t.regs .esi + RETADR) =
      ret) :
    Chain L R none (({ t with esp := L.StackTop }.push (L.addr .restart 0)).jump ret) c := by
  have h1 := h.next_at (r := .save) (k := 14) hc hif heip rfl rfl (by intro h; cases h)
  have hj : exec L (.jne .save 18) (t.jump (L.addr .save 15)) = t.jump (L.addr .save 15) := by
    show (if t.eflags.testBit 6 = true then _ else _) = _
    rw [hz]
    rfl
  rw [hj] at h1
  have h2 := h1.next_at (r := .save) (k := 15) hc hif rfl rfl rfl (by intro h; cases h)
  have h3 := h2.next_at (r := .save) (k := 16) hc hif rfl rfl rfl (by intro h; cases h)
  have h4 := h3.next_at (r := .save) (k := 17) hc hif rfl rfl rfl (by intro h; cases h)
  rw [← hret]
  exact h4

end

/-! ## what `save` has done -/

theorem Reg.off_lt (r : Reg) : r.off < RETADR := by
  cases r <;> decide

theorem Core.congr {mem mem' : Nat → Nat} {base : Nat} (h : Core mem base m)
    (hm : ∀ x, base ≤ x → x < base + 64 → mem' x = mem x) : Core mem' base m where
  regs r := (hm _ (Nat.le_add_right _ _)
    (Nat.add_lt_add_left (r.off_lt.trans (by decide)) _)).trans (h.regs r)
  eip := (hm _ (Nat.le_add_right _ _) (Nat.add_lt_add_left (by decide) _)).trans h.eip
  cs := (hm _ (Nat.le_add_right _ _) (Nat.add_lt_add_left (by decide) _)).trans h.cs
  eflags := (hm _ (Nat.le_add_right _ _) (Nat.add_lt_add_left (by decide) _)).trans h.eflags

/-- **A trap taken in the kernel**: the frame is on the stack, nothing above it has changed. -/
theorem enter_inner {base : Nat} (h : Chain L R none (cpuInt L r m) c) (hc : AtIretd L c)
    (hr : (code r)[0]? = some (.call .save)) (hcs : m.cs = SELECTOR_KERNEL_CS)
    (hbase : m.esp = base + 64) (h4 : 4 ≤ base)
    (hkr : L.var .k_reenter < base - 4 ∨ base + 64 ≤ L.var .k_reenter)
    (hlev : m.mem (L.var .k_reenter) ≤ 16) :
    ∃ s, Chain L R none s c ∧ Saved L r m s base (base - 4) 4 ∧ s.ss = m.ss ∧
      ∀ x, (x < base - 4 ∨ base + 64 ≤ x) → x ≠ L.var .k_reenter → s.mem x = m.mem x := by
  have hg : gateStack L m = m := if_pos (by rw [hcs]; rfl)
  have hgb : (gateStack L m).esp = base + 64 := by rw [hg, hbase]
  have hkr' : L.var .k_reenter < base ∨ base + 64 ≤ L.var .k_reenter := by omega
  obtain ⟨t, ht, hat⟩ : ∃ t, AtTest L r m base t ∧ Chain L R none t c :=
    ⟨_, atTest_spec hgb hkr', h.save hc hr⟩
  have hz : t.eflags.testBit 6 = false := by
    rw [ht.ZF, beq_eq_false_iff_ne, ht.k_reenter, hg]
    unfold wrap
    omega
  have hpush : ∀ x, x ≠ base - 4 → (t.push (L.addr .restart 4)).mem x =
      t.mem x := by
    intro x hx
    refine Function.update_of_ne ?_ _ _
    rw [ht.esp]
    exact hx
  have hret : (t.push (L.addr .restart 4)).mem (t.regs .esi + RETADR) =
      L.addr r 1 := by
    rw [ht.esi, ← ht.retadr]
    refine hpush _ ?_
    show base + 48 ≠ base - 4
    omega
  have hch := hat.save_inner hc ht.eip ht.IF hz hret
  refine ⟨_, hch, ?_, ht.ss.trans (congrArg Machine.ss hg), ?_⟩
  · exact
      { eip := rfl
        IF := ht.IF
        esp := congrArg (· - 4) ht.esp
        cs := ht.cs
        ldtr := ht.ldtr.trans (congrArg Machine.ldtr hg)
        mMask := ht.mMask.trans (congrArg Machine.mMask hg)
        sMask := ht.sMask.trans (congrArg Machine.sMask hg)
        esi := ht.esi
        ebx := ht.ebx
        ecx := ht.ecx
        edx := ht.edx
        eax := ht.eax
        core := ht.core.congr fun x hx _ => hpush x (by omega)
        back := by
          show store _ (t.esp - 4) _ (base - 4) = _
          rw [ht.esp]
          exact Function.update_self ..
        k_reenter := by
          show (t.push _).mem _ = _
          rw [hpush _ (by omega), ht.k_reenter, hg] }
  · intro x hx hxk
    show (t.push _).mem x = _
    by_cases hx4 : x = base - 4
    · omega
    · rw [hpush x hx4, ht.outside x (by omega) hxk, hg]

/-- **A trap taken in a process**: the frame is in the process table, the kernel stack is used from
its top. -/
theorem enter_outer {base : Nat} (h : Chain L R none (cpuInt L r m) c) (hc : AtIretd L c)
    (hr : (code r)[0]? = some (.call .save)) (hcs : m.cs % 4 ≠ 0)
    (htss : m.mem (L.var .tss_esp0) = base + P_STACKTOP)
    (hst : base + P_STACKTOP ≤ L.StackSpace ∨ L.StackTop ≤ base)
    (hkr : L.var .k_reenter < base ∨ base + P_STACKTOP ≤ L.var .k_reenter)
    (hlev : m.mem (L.var .k_reenter) = 0xFFFFFFFF) :
    ∃ s, Chain L R none s c ∧ Saved L r m s base (L.StackTop - 4) 0 ∧ s.ss = SELECTOR_KERNEL_DS ∧
      s.mem (base + 64) = m.esp ∧ s.mem (base + 68) = m.ss ∧
      ∀ x, (x < base ∨ base + P_STACKTOP ≤ x) → x ≠ L.var .k_reenter → x ≠ L.StackTop - 4 →
        s.mem x = m.mem x := by
  have hps : P_STACKTOP = 72 := rfl
  rw [hps] at htss hst hkr ⊢
  have hsize := L.stack_size
  have hkst := L.var_stack .k_reenter
  have hg : gateStack L m =
      { m with esp := m.mem (L.var .tss_esp0), ss := SELECTOR_KERNEL_DS }.pushAll [m.ss, m.esp] :=
    if_neg hcs
  have hgmem : (gateStack L m).mem = pushes m.mem (base + 72) [m.ss, m.esp] := by
    rw [hg, pushAll_mem]
    show pushes m.mem (m.mem (L.var .tss_esp0)) _ = _
    rw [htss]
  have hgb : (gateStack L m).esp = base + 64 := by
    rw [hg, pushAll_esp]
    show m.mem (L.var .tss_esp0) - 4 * 2 = _
    rw [htss]
    omega
  have hgout : ∀ x, (x < base + 64 ∨ base + 72 ≤ x) → (gateStack L m).mem x = m.mem x := by
    intro x hx
    rw [hgmem]
    refine pushes_outside _ _ (by show 4 * 2 ≤ _; omega) ?_
    show x < base + 72 - 4 * 2 ∨ _
    omega
  have hkr' : L.var .k_reenter < base ∨ base + 64 ≤ L.var .k_reenter := by omega
  obtain ⟨t, ht, hat⟩ : ∃ t, AtTest L r m base t ∧ Chain L R none t c :=
    ⟨_, atTest_spec hgb hkr', h.save hc hr⟩
  have hk0 : wrap ((gateStack L m).mem (L.var .k_reenter) + 1) = 0 := by
    rw [hgout _ (by omega), hlev]
    unfold wrap
    rfl
  have hz : t.eflags.testBit 6 = true := by
    rw [ht.ZF, beq_iff_eq, ht.k_reenter, hk0]
  have hpush : ∀ x, x ≠ L.StackTop - 4 →
      ({ t with esp := L.StackTop }.push (L.addr .restart 0)).mem x =
        t.mem x := fun x hx => Function.update_of_ne hx _ _
  have hret : ({ t with esp := L.StackTop }.push (L.addr .restart 0)).mem
      (t.regs .esi + RETADR) = L.addr r 1 := by
    rw [ht.esi, ← ht.retadr]
    refine hpush _ ?_
    show base + 48 ≠ _
    omega
  have hch := hat.save_outer hc ht.eip ht.IF hz hret
  have hgf := pushAll_fields { m with esp := m.mem (L.var .tss_esp0), ss := SELECTOR_KERNEL_DS }
    [m.ss, m.esp]
  rw [← hg] at hgf
  refine ⟨_, hch, ?_, ht.ss.trans hgf.1, ?_, ?_, ?_⟩
  · exact
      { eip := rfl
        IF := ht.IF
        esp := rfl
        cs := ht.cs
        ldtr := ht.ldtr.trans hgf.2.1
        mMask := ht.mMask.trans hgf.2.2.1
        sMask := ht.sMask.trans hgf.2.2.2.1
        esi := ht.esi
        ebx := ht.ebx
        ecx := ht.ecx
        edx := ht.edx
        eax := ht.eax
        core := ht.core.congr fun x _ _ => hpush x (by omega)
        back := Function.update_self ..
        k_reenter := by
          show ({ t with esp := L.StackTop }.push _).mem _ = _
          rw [hpush _ (by omega), ht.k_reenter, hgout _ (by omega)] }
  · show ({ t with esp := L.StackTop }.push _).mem _ = _
    rw [hpush _ (by omega), ht.outside _ (by omega) (by omega), hgmem]
    exact pushes_get m.mem [m.ss, m.esp] (by show 4 * 2 ≤ _; omega) 1 m.esp rfl
  · show ({ t with esp := L.StackTop }.push _).mem _ = _
    rw [hpush _ (by omega), ht.outside _ (by omega) (by omega), hgmem]
    exact pushes_get m.mem [m.ss, m.esp] (by show 4 * 2 ≤ _; omega) 0 m.ss rfl
  · intro x hx hxk hx4
    show ({ t with esp := L.StackTop }.push _).mem _ = _
    rw [hpush x hx4, ht.outside x (by omega) hxk, hgout x (by omega)]

end Noxis.Trap
