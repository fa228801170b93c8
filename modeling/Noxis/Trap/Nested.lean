import Noxis.Trap.Window

/-!
# 25-osfs11: nested traps are quiet

* `hwint_head`, `hwint_tail`  the code before `sti` masks the line, the code after `cli` opens it;
* `Chain.hwint`     a whole hardware interrupt between `save` and its `ret`;
* `Chain.resume`    `restart_reenter`: the registers come from the frame, and `iretd` ends the chain;
* `irq_quiet`       **a trap taken in kernel mode is invisible to the code that it interrupts**, at
  any depth.
-/

namespace Noxis.Trap

variable {L : Layout} {m s v w c : Machine} {R : Nat → Machine → Machine → Prop} {r : Routine}

/-! ## bits of a mask -/

theorem byte_or (w n k : Nat) (hk : k < 8) :
    ((w % 256 ||| 1 <<< n) % 256).testBit k = (w.testBit k || decide (n = k)) := by
  have h256 : 256 = 2 ^ 8 := rfl
  rw [h256, Nat.testBit_mod_two_pow, Nat.testBit_or, Nat.testBit_mod_two_pow, Nat.one_shiftLeft,
    Nat.testBit_two_pow]
  simp [hk]

theorem byte_and (w n k : Nat) (hk : k < 8) :
    ((w % 256 &&& (255 ^^^ 1 <<< n)) % 256).testBit k = (w.testBit k && !decide (n = k)) := by
  have h256 : 256 = 2 ^ 8 := rfl
  have h255 : 255 = 2 ^ 8 - 1 := rfl
  rw [h256, Nat.testBit_mod_two_pow, Nat.testBit_and, Nat.testBit_mod_two_pow, Nat.testBit_xor, h255,
    Nat.testBit_two_pow_sub_one, Nat.one_shiftLeft, Nat.testBit_two_pow]
  simp [hk]

/-- the code that reads a mask, changes it and writes it back -/
theorem al_or (x y b w : Nat) : al (setAl y (al (setAl x b) ||| w)) = (b % 256 ||| w) % 256 := by
  rw [al_setAl, al_setAl]

theorem al_and (x y b w : Nat) : al (setAl y (al (setAl x b) &&& w)) = (b % 256 &&& w) % 256 := by
  rw [al_setAl, al_setAl]

/-! ## the code of a hardware interrupt around its window -/

/-- the place of `sti` -/
def stiPlace (n : Nat) : Nat := if n < 8 then 6 else 8

/-- between `save` and `sti` -/
def hwint_head (n : Nat) : List Instr :=
  if n < 8 then ((hwint_master n).drop 1).take 5 else ((hwint_slave n).drop 1).take 7

/-- between `cli` and `ret` -/
def hwint_tail (n : Nat) : List Instr :=
  if n < 8 then ((hwint_master n).drop 11).take 3 else ((hwint_slave n).drop 13).take 3

/-- only masks and `eax` change -/
structure OnlyMasks (a b : Machine) : Prop where
  mem : b.mem = a.mem
  esp : b.esp = a.esp
  cs : b.cs = a.cs
  ss : b.ss = a.ss
  ldtr : b.ldtr = a.ldtr
  eflags : b.eflags = a.eflags

theorem hwint_head_spec {n : Nat} (hn16 : n < 16) (s : Machine) :
    OnlyMasks s (execs L (hwint_head n) s) ∧ ∀ k, k < 16 →
      (execs L (hwint_head n) s).masked k = (s.masked k || decide (n = k)) := by
  unfold hwint_head
  by_cases hn : n < 8
  · rw [if_pos hn]
    refine ⟨⟨rfl, rfl, rfl, rfl, rfl, rfl⟩, fun k hk => ?_⟩
    unfold Machine.masked
    by_cases hk8 : k < 8
    · rw [if_pos hk8, if_pos hk8, ← byte_or _ _ _ hk8,
        ← al_or (s.regs .eax) (setAl (s.regs .eax) s.mMask)]
      rfl
    · have hnk : n ≠ k := by omega
      rw [if_neg hk8, if_neg hk8, decide_eq_false hnk, Bool.or_false]
      rfl
  · rw [if_neg hn]
    refine ⟨⟨rfl, rfl, rfl, rfl, rfl, rfl⟩, fun k hk => ?_⟩
    unfold Machine.masked
    by_cases hk8 : k < 8
    · have hnk : n ≠ k := by omega
      rw [if_pos hk8, if_pos hk8, decide_eq_false hnk, Bool.or_false]
      rfl
    · have hnk : decide (n = k) = decide (n - 8 = k - 8) := by
        rw [decide_eq_decide]
        omega
      rw [if_neg hk8, if_neg hk8, hnk, ← byte_or _ _ _ (by omega),
        ← al_or (s.regs .eax) (setAl (s.regs .eax) s.sMask)]
      rfl

theorem hwint_tail_spec {n : Nat} (hn16 : n < 16) (s : Machine) :
    OnlyMasks s (execs L (hwint_tail n) s) ∧ ∀ k, k < 16 →
      (execs L (hwint_tail n) s).masked k = (s.masked k && !decide (n = k)) := by
  unfold hwint_tail
  by_cases hn : n < 8
  · rw [if_pos hn]
    refine ⟨⟨rfl, rfl, rfl, rfl, rfl, rfl⟩, fun k hk => ?_⟩
    unfold Machine.masked
    by_cases hk8 : k < 8
    · rw [if_pos hk8, if_pos hk8, ← byte_and _ _ _ hk8,
        ← al_and (s.regs .eax) (setAl (s.regs .eax) s.mMask)]
      rfl
    · have hnk : n ≠ k := by omega
      rw [if_neg hk8, if_neg hk8, decide_eq_false hnk, Bool.not_false, Bool.and_true]
      rfl
  · rw [if_neg hn]
    refine ⟨⟨rfl, rfl, rfl, rfl, rfl, rfl⟩, fun k hk => ?_⟩
    unfold Machine.masked
    by_cases hk8 : k < 8
    · have hnk : n ≠ k := by omega
      rw [if_pos hk8, if_pos hk8, decide_eq_false hnk, Bool.not_false, Bool.and_true]
      rfl
    · have hnk : decide (n = k) = decide (n - 8 = k - 8) := by
        rw [decide_eq_decide]
        omega
      rw [if_neg hk8, if_neg hk8, hnk, ← byte_and _ _ _ (by omega),
        ← al_and (s.regs .eax) (setAl (s.regs .eax) s.sMask)]
      rfl

theorem hwint_call_save (n : Nat) : (code (.hwint n))[0]? = some (.call .save) := by
  show (if n < 8 then hwint_master n else hwint_slave n)[0]? = _
  split <;> rfl

theorem hwint_drop_head (n : Nat) : ∃ rest, (code (.hwint n)).drop 1 = hwint_head n ++ rest := by
  show ∃ rest, (if n < 8 then hwint_master n else hwint_slave n).drop 1 = hwint_head n ++ rest
  unfold hwint_head
  split <;> exact ⟨_, (List.take_append_drop _ _).symm⟩

theorem hwint_head_length (n : Nat) : 1 + (hwint_head n).length = stiPlace n := by
  unfold hwint_head stiPlace
  split <;> rfl

theorem hwint_place (n : Nat) : IrqPlace (.hwint n) (stiPlace n) n := by
  have hcode : code (.hwint n) = if n < 8 then hwint_master n else hwint_slave n := rfl
  unfold stiPlace
  by_cases hn : n < 8
  · rw [if_pos hn] at hcode ⊢
    exact ⟨by rw [hcode]; rfl, by rw [hcode]; rfl, by rw [hcode]; rfl, by rw [hcode]; rfl,
      by rw [hcode]; rfl⟩
  · rw [if_neg hn] at hcode ⊢
    exact ⟨by rw [hcode]; rfl, by rw [hcode]; rfl, by rw [hcode]; rfl, by rw [hcode]; rfl,
      by rw [hcode]; rfl⟩

theorem hwint_drop_tail (n : Nat) :
    (code (.hwint n)).drop (stiPlace n + 5) = hwint_tail n ++ [.ret] := by
  show (if n < 8 then hwint_master n else hwint_slave n).drop _ = _
  unfold hwint_tail stiPlace
  split <;> rfl

theorem plain_head (n : Nat) : ∀ i ∈ hwint_head n, i.plain = true := by
  unfold hwint_head
  split <;>
    exact List.all_eq_true.mp rfl

theorem plain_tail (n : Nat) : ∀ i ∈ hwint_tail n, i.plain = true := by
  unfold hwint_tail
  split <;>
    exact List.all_eq_true.mp rfl

/-- masking a line -/
theorem opens_erase {n : Nat} (h : ∀ k, k < 16 → w.masked k = (s.masked k || decide (n = k))) :
    w.opens = s.opens.erase n := by
  ext k
  unfold Machine.opens
  rw [Finset.mem_erase, Finset.mem_filter, Finset.mem_filter, Finset.mem_range]
  constructor
  · rintro ⟨hk, hm⟩
    rw [h k hk, Bool.or_eq_false_iff, decide_eq_false_iff_not] at hm
    exact ⟨fun hkn => hm.2 hkn.symm, hk, hm.1⟩
  · rintro ⟨hkn, hk, hm⟩
    refine ⟨hk, ?_⟩
    rw [h k hk, hm, decide_eq_false fun hnk => hkn hnk.symm]
    rfl

theorem load_erase {n : Nat} (h : w.opens = s.opens.erase n) (hn : n ∈ s.opens) :
    load L w + L.cost n = load L s := by
  unfold load
  rw [h]
  exact Finset.sum_erase_add _ _ hn

/-- **From `save` to `ret`, a hardware interrupt keeps everything.** -/
theorem Chain.hwint (hR : QuietRel L R) {n : Nat} (h : Chain L R none s c) (hc : AtIretd L c)
    (heip : s.eip = L.addr (.hwint n) 1) (hif : s.IF = false) (hcs : s.cs = SELECTOR_KERNEL_CS)
    (hn : n ∈ s.opens) (hlow : L.StackSpace + load L s + 8 + L.need n ≤ s.esp + L.cost n)
    (hhigh : s.esp ≤ L.StackTop) (hlev : s.mem (L.var .k_reenter) + s.opens.card ≤ 17)
    (hr : Ready L s) :
    ∃ v, Chain L R none v c ∧ v.eip = L.addr (.hwint n) (stiPlace n + 8) ∧ v.IF = false ∧
      v.esp = s.esp ∧ Same L (s.esp ≤ ·) s v ∧ Ready L v := by
  have hn16 : n < 16 := Finset.mem_range.mp (Finset.mem_filter.mp hn).1
  have hnm : s.masked n = false := (Finset.mem_filter.mp hn).2
  -- the line is masked
  obtain ⟨rest, hdrop⟩ := hwint_drop_head n
  have h1 := h.block (hwint_head n) rest hc heip hdrop (plain_head n) hif
  rw [hwint_head_length] at h1
  obtain ⟨⟨wmem, wesp, wcs, wss, wldtr, wfl⟩, wmask⟩ := hwint_head_spec (L := L) hn16 s
  generalize execs L (hwint_head n) s = w at h1 wmem wesp wcs wss wldtr wfl wmask
  have hopens := opens_erase wmask
  have hload := load_erase (L := L) hopens hn
  have hcard : w.opens.card + 1 = s.opens.card := by
    rw [hopens]
    exact Finset.card_erase_add_one hn
  have hkw : Kern L (8 + L.need n) (w.jump (L.addr (.hwint n) (stiPlace n))) := by
    refine ⟨wcs.trans hcs, ⟨?_, ?_⟩, ?_, ?_⟩
    · show L.StackSpace + load L w + (8 + L.need n) ≤ w.esp
      rw [wesp]
      omega
    · exact (Nat.le_of_eq wesp).trans hhigh
    · show w.mem (L.var .k_reenter) + w.opens.card ≤ 16
      rw [wmem]
      omega
    · exact hr.of_mem wmem
  -- the handler
  obtain ⟨u, h2, ueip, uif, uesp, usame, uready⟩ := window_irq hR (hwint_place n) h1 hc rfl
    (by
      show w.eflags.testBit 9 = false
      rw [wfl]
      exact hif) hkw
  -- the line is opened
  have h3 := h2.block (hwint_tail n) [.ret] hc ueip (hwint_drop_tail n) (plain_tail n) uif
  have hlen : (hwint_tail n).length = 3 := by
    unfold hwint_tail
    split <;> rfl
  rw [hlen] at h3
  obtain ⟨⟨vmem, vesp, vcs, vss, vldtr, vfl⟩, vmask⟩ := hwint_tail_spec (L := L) hn16 u
  generalize execs L (hwint_tail n) u = v at h3 vmem vesp vcs vss vldtr vfl vmask
  refine ⟨_, h3, rfl, ?_, vesp.trans (uesp.trans wesp), ?_, ?_⟩
  · show v.eflags.testBit 9 = false
    rw [vfl]
    exact uif
  · have hmem : ∀ x, v.mem x = u.mem x := fun x => congrFun vmem x
    have hmem' : ∀ x, w.mem x = s.mem x := fun x => congrFun wmem x
    exact
      { stack := fun x h1 h2 h3 => (hmem x).trans ((usame.stack x h1 h2 (by
          show w.esp ≤ x
          rw [wesp]
          exact h3)).trans (hmem' x))
        frames := fun i hi x h1 h2 => (hmem x).trans ((usame.frames i hi x h1 h2).trans (hmem' x))
        k_reenter := (hmem _).trans (usame.k_reenter.trans (hmem' _))
        tss_esp0 := (hmem _).trans (usame.tss_esp0.trans (hmem' _))
        cs := vcs.trans (usame.cs.trans wcs)
        ss := vss.trans (usame.ss.trans wss)
        ldtr := vldtr.trans (usame.ldtr.trans wldtr)
        mask := fun k hk => by
          have hw : u.masked k = (s.masked k || decide (n = k)) := (usame.mask k hk).trans (wmask k hk)
          show v.masked k = s.masked k
          rw [vmask k hk, hw]
          by_cases hnk : n = k
          · subst hnk
            rw [hnm]
            simp
          · rw [decide_eq_false hnk]
            simp }
  · exact uready.of_mem vmem

/-! ## restart_reenter -/

/-- `restart_reenter` up to its `iretd` -/
def reenter : List Instr := (restart.drop 4).take 7

theorem execs_reenter (x : Machine) :
    (execs L reenter x).mem =
        store x.mem (L.var .k_reenter) (wrap (x.mem (L.var .k_reenter) + 0xFFFFFFFF)) ∧
      (execs L reenter x).esp = x.esp + EIPREG ∧ (execs L reenter x).cs = x.cs ∧
      (execs L reenter x).ss = x.ss ∧ (execs L reenter x).ldtr = x.ldtr ∧
      (execs L reenter x).mMask = x.mMask ∧ (execs L reenter x).sMask = x.sMask ∧
      (execs L reenter x).eflags = x.eflags :=
  ⟨rfl, rfl, rfl, rfl, rfl, rfl, rfl, rfl⟩

/-- every register is loaded from its word of the frame -/
theorem execs_reenter_regs (x : Machine) (r : Reg) :
    (execs L reenter x).regs r = (execs L reenter x).mem (x.esp + r.off) := by
  cases r <;> rfl

/-- the machine `a` that `restart_reenter` resumes from `x`, whose stack pointer is at a frame -/
structure Resumed (L : Layout) (x a : Machine) : Prop where
  mem : a.mem =
    store x.mem (L.var .k_reenter) (wrap (x.mem (L.var .k_reenter) + 0xFFFFFFFF))
  regs : ∀ r : Reg, a.regs r = a.mem (x.esp + r.off)
  eip : a.eip = a.mem (x.esp + EIPREG)
  cs : a.cs = a.mem (x.esp + CSREG)
  eflags : a.eflags = a.mem (x.esp + EFLAGSREG)
  ldtr : a.ldtr = x.ldtr
  mMask : a.mMask = x.mMask
  sMask : a.sMask = x.sMask
  /-- the same ring -/
  inner : a.mem (x.esp + CSREG) % 4 = x.cs % 4 → a.esp = x.esp + ESPREG ∧ a.ss = x.ss
  /-- an outer ring -/
  outer : a.mem (x.esp + CSREG) % 4 ≠ x.cs % 4 →
    a.esp = a.mem (x.esp + ESPREG) ∧ a.ss = a.mem (x.esp + SSREG)

theorem iretd_spec (y : Machine) {a : Machine} (ha : exec L .iretd y = a) :
    a.mem = y.mem ∧ a.regs = y.regs ∧ a.eip = y.mem y.esp ∧ a.cs = y.mem (y.esp + 4) ∧
      a.eflags = y.mem (y.esp + 8) ∧ a.ldtr = y.ldtr ∧ a.mMask = y.mMask ∧ a.sMask = y.sMask ∧
      (y.mem (y.esp + 4) % 4 = y.cs % 4 → a.esp = y.esp + 12 ∧ a.ss = y.ss) ∧
      (y.mem (y.esp + 4) % 4 ≠ y.cs % 4 →
        a.esp = y.mem (y.esp + 12) ∧ a.ss = y.mem (y.esp + 16)) := by
  subst ha
  by_cases hr : y.mem (y.esp + 4) % 4 ≠ y.cs % 4
  · have h : exec L .iretd y = { y with
        eip := y.mem y.esp, cs := y.mem (y.esp + 4), eflags := y.mem (y.esp + 8)
        esp := y.mem (y.esp + 12), ss := y.mem (y.esp + 16) } := if_pos hr
    rw [h]
    exact ⟨rfl, rfl, rfl, rfl, rfl, rfl, rfl, rfl, fun he => absurd he hr, fun _ => ⟨rfl, rfl⟩⟩
  · have h : exec L .iretd y = { y with
        eip := y.mem y.esp, cs := y.mem (y.esp + 4), eflags := y.mem (y.esp + 8)
        esp := y.esp + 12 } := if_neg hr
    rw [h]
    exact ⟨rfl, rfl, rfl, rfl, rfl, rfl, rfl, rfl, fun _ => ⟨rfl, rfl⟩, fun he => absurd he hr⟩

theorem Chain.resume {x a : Machine} (h : Chain L R none x c) (hc : AtIretd L c)
    (heip : x.eip = L.addr .restart 4) (hif : x.IF = false) (ha : step L c = some a) :
    Resumed L x a := by
  have h1 := h.block (r := .restart) (k := 4) reenter [.iretd] hc heip rfl
    (List.all_eq_true.mp rfl) hif
  obtain ⟨hmem, hesp, hcs, hss, hldtr, hmm, hsm, hfl⟩ := execs_reenter (L := L) x
  have hregs := execs_reenter_regs (L := L) x
  generalize execs L reenter x = y at h1 hmem hesp hcs hss hldtr hmm hsm hfl hregs
  have hdec : L.decode (y.jump (L.addr .restart 11)).eip = some (.iretd, L.addr .restart 12) :=
    L.placed .restart 11 .iretd rfl
  have hend := h1.at_end ⟨_, hdec⟩ (by
    show y.eflags.testBit 9 = false
    rw [hfl]
    exact hif)
  have hst : step L (y.jump (L.addr .restart 11)) = some (exec L .iretd (y.jump (L.addr .restart 12))) :=
    step_at (r := .restart) (k := 11) rfl rfl
  rw [hend] at ha
  have hex : exec L .iretd (y.jump (L.addr .restart 12)) = a := Option.some.inj (hst.symm.trans ha)
  obtain ⟨imem, iregs, ieip, ics, ifl, ild, imm, ism, iin, iout⟩ := iretd_spec _ hex
  have hym : (y.jump (L.addr .restart 12)).mem = a.mem := imem.symm
  have hye : (y.jump (L.addr .restart 12)).esp = x.esp + EIPREG := hesp
  rw [hym, hye] at ieip ics ifl iin iout
  have hyc : (y.jump (L.addr .restart 12)).cs = x.cs := hcs
  rw [hyc] at iin iout
  exact
    { mem := imem.trans hmem
      regs := fun r => by
        rw [iregs, imem]
        exact hregs r
      eip := ieip
      cs := ics
      eflags := ifl
      ldtr := ild.trans hldtr
      mMask := imm.trans hmm
      sMask := ism.trans hsm
      inner := fun he => ⟨(iin he).1, (iin he).2.trans hss⟩
      outer := iout }

/-! ## a whole trap in kernel mode -/

theorem hwint_ret (n : Nat) : (code (.hwint n))[stiPlace n + 8]? = some .ret := by
  have h := congrArg (fun l => l[3]?) (hwint_drop_tail n)
  have hlen : (hwint_tail n).length = 3 := by
    unfold hwint_tail
    split <;> rfl
  rw [List.getElem?_drop] at h
  rw [h, List.getElem?_append_right (by omega), hlen]
  rfl

/-- `k_reenter` goes up in `save` and down in `restart_reenter` -/
theorem wrap_up_down {k : Nat} (hk : k < 0xFFFFFFFF) : wrap (wrap (k + 1) + 0xFFFFFFFF) = k := by
  unfold wrap
  omega

theorem opens_of_masks {a b : Machine} (hm : b.mMask = a.mMask) (hs : b.sMask = a.sMask) :
    b.opens = a.opens := by
  unfold Machine.opens Machine.masked
  rw [hm, hs]

/-- **A hardware interrupt of the kernel is quiet**, if the traps nested in it are. -/
theorem whole_quiet (hR : QuietRel L R) {n : Nat} {a : Machine} (h : Whole L R (.hwint n) m a)
    (hn : n ∈ m.opens) (hk : Kern L 0 m) : Quiet L m a := by
  obtain ⟨c, hch, hc, ha⟩ := h
  have hcost : L.cost n = 76 + L.need n := rfl
  have hload := cost_le_load (L := L) hn
  have hlow := hk.room.low
  have hhigh := hk.room.high
  have hlev := hk.level
  unfold Level at hlev
  obtain ⟨base, hbase⟩ : ∃ base, m.esp = base + 64 := ⟨m.esp - 64, by omega⟩
  have hvar : ∀ v, L.var v < base - 4 ∨ base + 64 ≤ L.var v := by
    intro v
    have := L.var_stack v
    omega
  -- save
  obtain ⟨s, h1, hs, hss, hout⟩ := enter_inner hch hc (hwint_call_save n) hk.cs hbase (by omega)
    (hvar _) (by omega)
  have hopens : s.opens = m.opens := opens_of_masks hs.mMask hs.sMask
  have hsload : load L s = load L m := by
    unfold load
    rw [hopens]
  have hskr : s.mem (L.var .k_reenter) = m.mem (L.var .k_reenter) + 1 := by
    rw [hs.k_reenter]
    unfold wrap
    omega
  have hfr : ∀ i, i < L.nproc → ∀ y, L.proc i ≤ y → y < L.proc i + P_STACKTOP + 4 →
      (y < base - 4 ∨ base + 64 ≤ y) ∧ y ≠ L.var .k_reenter := by
    intro i hi y h1 h2
    have hst := L.proc_stack i hi
    have hv := L.var_proc .k_reenter i hi
    have hps : P_STACKTOP = 72 := rfl
    omega
  have hsready : Ready L s := by
    refine hk.ready.congr (hout _ (hvar _) fun h => by cases L.var_inj _ _ h) fun i hi => ?_
    obtain ⟨h1, h2⟩ := hfr i hi (L.proc i + CSREG) (Nat.le_add_right _ _)
      (cs_in_frame _)
    exact hout _ h1 h2
  have hsesp := hs.esp
  -- the handler
  obtain ⟨v, h2, veip, vif, vesp, vsame, vready⟩ := h1.hwint hR hc hs.eip hs.IF hs.cs
    (hopens ▸ hn) (by rw [hsload]; omega) (by omega) (by rw [hopens]; omega) hsready
  -- ret
  have h3 := h2.next_at hc vif veip (hwint_ret n) rfl (by intro h; cases h)
  have hback : v.mem v.esp = L.addr .restart 4 := by
    rw [vesp, vsame.stack s.esp (by omega) (by omega) (Nat.le_refl _), hsesp]
    exact hs.back
  have hx := h3.resume hc hback vif ha
  have hxe : (exec L .ret (v.jump (L.addr (.hwint n) (stiPlace n + 8 + 1)))).esp = base := by
    show v.esp + 4 = base
    omega
  have hxm : (exec L .ret (v.jump (L.addr (.hwint n) (stiPlace n + 8 + 1)))).mem = v.mem := rfl
  have hxc : (exec L .ret (v.jump (L.addr (.hwint n) (stiPlace n + 8 + 1)))).cs = m.cs := by
    show v.cs = m.cs
    rw [vsame.cs, hs.cs, hk.cs]
  have hamem : ∀ y, y ≠ L.var .k_reenter → a.mem y = v.mem y := by
    intro y hy
    rw [hx.mem]
    exact Function.update_of_ne hy _ _
  have hframe : ∀ y, base ≤ y → y < base + 64 → a.mem y = s.mem y := by
    intro y h1 h2
    have := hvar .k_reenter
    rw [hamem y (by omega)]
    exact vsame.stack y (by omega) (by omega) (by show s.esp ≤ y; omega)
  have hcore : Core a.mem base m := hs.core.congr hframe
  have hring := hx.inner (by rw [hxe, hcore.cs, hxc])
  have habove : ∀ y, (y < base - 4 ∨ base + 64 ≤ y) → y ≠ L.var .k_reenter → v.mem y = s.mem y →
      a.mem y = m.mem y := by
    intro y hy hyk hv
    rw [hamem y hyk, hv, hout y hy hyk]
  refine ⟨?_, ?_, ?_, ?_, ?_, ?_⟩
  · exact
      { stack := fun y h1 h2 h3 => by
          have h3 : m.esp ≤ y := h3
          have := L.var_stack .k_reenter
          exact habove y (by omega) (by omega) (vsame.stack y h1 h2 (by show s.esp ≤ y; omega))
        frames := fun i hi y h1 h2 =>
          habove y (hfr i hi y h1 h2).1 (hfr i hi y h1 h2).2 (vsame.frames i hi y h1 h2)
        k_reenter := by
          rw [hx.mem, store, Function.update_self, hxm, vsame.k_reenter, hs.k_reenter]
          exact wrap_up_down (by omega)
        tss_esp0 := habove _ (hvar _) (fun h => by cases L.var_inj _ _ h) vsame.tss_esp0
        cs := by rw [hx.cs, hxe, hcore.cs]
        ss := hring.2.trans (vsame.ss.trans hss)
        ldtr := hx.ldtr.trans (vsame.ldtr.trans hs.ldtr)
        mask := fun k hk16 => by
          have h1 : a.masked k = v.masked k := by
            unfold Machine.masked
            rw [hx.mMask, hx.sMask]
            rfl
          rw [h1, vsame.mask k hk16]
          unfold Machine.masked
          rw [hs.mMask, hs.sMask] }
  · funext r
    rw [hx.regs, hxe, hcore.regs]
  · rw [hring.1, hxe, hbase]
    rfl
  · rw [hx.eip, hxe, hcore.eip]
  · rw [hx.eflags, hxe, hcore.eflags]
  · refine vready.congr (hamem _ fun h => by cases L.var_inj _ _ h) fun i hi => ?_
    exact hamem _ (hfr i hi _ (Nat.le_add_right _ _) (cs_in_frame _)).2

/-- **A trap of the kernel is quiet, however deep the traps in it are nested.** -/
theorem irq_quiet (d : Nat) : QuietRel L (Irq L d) := by
  induction d with
  | zero =>
    intro n m a h
    exact h.elim
  | succ d ih =>
    intro n m a h _ hn hk
    exact whole_quiet ih h hn hk

end Noxis.Trap
