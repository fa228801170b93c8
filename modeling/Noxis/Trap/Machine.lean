import Mathlib.Data.Nat.Bitwise
import Mathlib.Algebra.GroupWithZero.Nat
import Mathlib.Logic.Function.Basic
import Mathlib.Tactic.Common

/-!
# 25-osfs11: the processor that runs kernel.asm

The entry code of the kernel, instruction by instruction: `hwint_master`, `hwint_slave`, `save`,
`sys_call` and `restart`.

* `Machine`   the registers, the two interrupt masks, and memory as words at byte addresses;
* `Instr`     the instructions that kernel.asm uses; `code` is its text, one list for each routine;
* `Layout`    where the linker put the code, the kernel stack, the globals and the process table;
* `step`      one instruction; `cpuInt` what the CPU does when an interrupt gate is entered.

An instruction counts as one place of its routine (`Layout.decode` says where the next one starts).
A word is a `Nat`; `k_reenter` wraps as a 32 bit integer.  Of the arithmetic flags only ZF is set,
by `cmp`: no other one is read.
-/

namespace Noxis.Trap

/-- the registers that `save` pushes, in the order of `struct stackframe` -/
inductive Reg where
  | gs | fs | es | ds | edi | esi | ebp | ebx | edx | ecx | eax
  deriving DecidableEq, Repr

structure Machine where
  regs : Reg → Nat
  esp : Nat
  eip : Nat
  cs : Nat
  ss : Nat
  eflags : Nat
  ldtr : Nat
  /-- the interrupt masks, ports `INT_M_CTLMASK` and `INT_S_CTLMASK` -/
  mMask : Nat
  sMask : Nat
  mem : Nat → Nat

/-- the routines of kernel.asm; `restart_reenter` is a place inside `restart` -/
inductive Routine where
  | hwint (n : Nat) | save | sys_call | restart
  deriving DecidableEq, Repr

/-- the memory operands, resolved by the layout -/
inductive Var where
  | k_reenter | p_proc_ready | tss_esp0
  deriving DecidableEq, Repr

inductive Instr where
  | pushad
  | popad
  | push (r : Reg)
  | pop (r : Reg)
  | pushImm (w : Nat)
  | pushVar (v : Var)
  | pushLabel (r : Routine) (k : Nat)
  | mov (d s : Reg)
  /-- `mov dx, ss` -/
  | movDxSs
  /-- a segment register from `dx` -/
  | movDx (d : Reg)
  | movEsi_esp
  | movEsp_StackTop
  | movEspVar (v : Var)
  /-- `mov [esi + off], eax` -/
  | movAtEsi_eax (off : Nat)
  | movAl (w : Nat)
  | orAl (w : Nat)
  | andAl (w : Nat)
  | inAl (port : Nat)
  | outAl (port : Nat)
  | addEsp (w : Nat)
  /-- `lea eax, [esp + off]` -/
  | leaEax_esp (off : Nat)
  | movVar_eax (v : Var)
  /-- `lldt [esp + off]` -/
  | lldt (off : Nat)
  | inc (v : Var)
  | dec (v : Var)
  /-- `cmp dword [v], 0` -/
  | cmp0 (v : Var)
  | nop
  | jne (r : Routine) (k : Nat)
  /-- `jmp [esi + off]` -/
  | jmpAtEsi (off : Nat)
  | call (r : Routine)
  /-- `call [irq_table + 4 * n]` -/
  | callIrq (n : Nat)
  /-- `call [sys_call_table + eax * 4]` -/
  | callSys
  | ret
  | sti
  | cli
  | iretd
  deriving DecidableEq, Repr

/-! ## sconst.inc -/

def P_STACKBASE : Nat := 0
def GSREG : Nat := P_STACKBASE
def FSREG : Nat := GSREG + 4
def ESREG : Nat := FSREG + 4
def DSREG : Nat := ESREG + 4
def EDIREG : Nat := DSREG + 4
def ESIREG : Nat := EDIREG + 4
def EBPREG : Nat := ESIREG + 4
def KERNELESPREG : Nat := EBPREG + 4
def EBXREG : Nat := KERNELESPREG + 4
def EDXREG : Nat := EBXREG + 4
def ECXREG : Nat := EDXREG + 4
def EAXREG : Nat := ECXREG + 4
def RETADR : Nat := EAXREG + 4
def EIPREG : Nat := RETADR + 4
def CSREG : Nat := EIPREG + 4
def EFLAGSREG : Nat := CSREG + 4
def ESPREG : Nat := EFLAGSREG + 4
def SSREG : Nat := ESPREG + 4
def P_STACKTOP : Nat := SSREG + 4
def P_LDT_SEL : Nat := P_STACKTOP

def INT_M_CTL : Nat := 0x20
def INT_M_CTLMASK : Nat := 0x21
def INT_S_CTL : Nat := 0xA0
def INT_S_CTLMASK : Nat := 0xA1
def EOI : Nat := 0x20
def SELECTOR_KERNEL_CS : Nat := 0x08
def SELECTOR_KERNEL_DS : Nat := 0x10

/-! ## the text of kernel.asm -/

open Instr

def hwint_master (n : Nat) : List Instr :=
  [call .save, inAl INT_M_CTLMASK, orAl (1 <<< n), outAl INT_M_CTLMASK, movAl EOI, outAl INT_M_CTL,
    sti, pushImm n, callIrq n, pop .ecx, cli, inAl INT_M_CTLMASK, andAl (255 ^^^ (1 <<< n)),
    outAl INT_M_CTLMASK, ret]

def hwint_slave (n : Nat) : List Instr :=
  [call .save, inAl INT_S_CTLMASK, orAl (1 <<< (n - 8)), outAl INT_S_CTLMASK, movAl EOI,
    outAl INT_M_CTL, nop, outAl INT_S_CTL, sti, pushImm n, callIrq n, pop .ecx, cli,
    inAl INT_S_CTLMASK, andAl (255 ^^^ (1 <<< (n - 8))), outAl INT_S_CTLMASK, ret]

def save : List Instr :=
  [pushad, push .ds, push .es, push .fs, push .gs, mov .esi .edx, movDxSs, movDx .ds, movDx .es,
    movDx .fs, mov .edx .esi, movEsi_esp, inc .k_reenter, cmp0 .k_reenter, jne .save 18,
    movEsp_StackTop, pushLabel .restart 0, jmpAtEsi (RETADR - P_STACKBASE),
    pushLabel .restart 4, jmpAtEsi (RETADR - P_STACKBASE)]

def sys_call : List Instr :=
  [call .save, sti, push .esi, pushVar .p_proc_ready, push .edx, push .ecx, push .ebx, callSys,
    addEsp (4 * 4), pop .esi, movAtEsi_eax (EAXREG - P_STACKBASE), cli, ret]

/-- the fifth instruction is labelled `restart_reenter` -/
def restart : List Instr :=
  [movEspVar .p_proc_ready, lldt P_LDT_SEL, leaEax_esp P_STACKTOP, movVar_eax .tss_esp0,
    dec .k_reenter, pop .gs, pop .fs, pop .es, pop .ds, popad, addEsp 4, iretd]

def code : Routine → List Instr
  | .hwint n => if n < 8 then hwint_master n else hwint_slave n
  | .save => save
  | .sys_call => sys_call
  | .restart => restart

/-! ## where everything is -/

/-- what the linker and the loader fixed -/
structure Layout where
  /-- place `k` of a routine -/
  addr : Routine → Nat → Nat
  /-- the instruction at an address of kernel.asm, and the address after it -/
  decode : Nat → Option (Instr × Nat)
  placed : ∀ r k i, (code r)[k]? = some i → decode (addr r k) = some (i, addr r (k + 1))
  /-- the 4 KB of `StackSpace` -/
  StackSpace : Nat
  StackTop : Nat
  stack_size : StackTop = StackSpace + 4 * 1024
  var : Var → Nat
  irq_table : Nat
  sys_call_table : Nat
  /-- NR_TASKS + NR_PROCS -/
  nproc : Nat
  /-- `&proc_table[i]`, where the stack frame of process `i` starts -/
  proc : Nat → Nat
  var_inj : ∀ v w, var v = var w → v = w
  var_stack : ∀ v, var v < StackSpace ∨ StackTop ≤ var v
  /-- a word of a variable and the frame and `ldt_sel` of a process are apart -/
  var_proc : ∀ v i, i < nproc → var v + 4 ≤ proc i ∨ proc i + P_STACKTOP + 4 ≤ var v
  proc_stack : ∀ i, i < nproc → proc i + P_STACKTOP + 4 ≤ StackSpace ∨ StackTop ≤ proc i
  proc_proc : ∀ i j, i < nproc → j < nproc → i ≠ j →
    proc i + P_STACKTOP + 4 ≤ proc j ∨ proc j + P_STACKTOP + 4 ≤ proc i
  /-- stack used by the C handler of a line, and by the C functions of `sys_call_table` -/
  need : Nat → Nat
  needSys : Nat

/-! ## one instruction -/

/-- IF is bit 9 of `eflags` -/
def Machine.IF (m : Machine) : Bool := m.eflags.testBit 9

/-- bit `b` of a word set to `v` -/
@[irreducible] def setBit (w b : Nat) (v : Bool) : Nat :=
  if w.testBit b = v then w else w ^^^ 2 ^ b

theorem testBit_setBit (w b c : Nat) (v : Bool) :
    (setBit w b v).testBit c = if c = b then v else w.testBit c := by
  unfold setBit
  by_cases hv : w.testBit b = v
  · rw [if_pos hv]
    by_cases hc : c = b
    · rw [if_pos hc, hc, hv]
    · rw [if_neg hc]
  · rw [if_neg hv, Nat.testBit_xor, Nat.testBit_two_pow]
    by_cases hc : c = b
    · subst hc
      cases h : w.testBit c <;> cases v <;> simp_all
    · have hbc : b ≠ c := fun h => hc h.symm
      simp [hc, hbc]

/-- the low byte of a register -/
@[irreducible] def al (w : Nat) : Nat := w % 256

@[irreducible] def setAl (w b : Nat) : Nat := w / 256 * 256 + b % 256

/-- the low half of a register -/
@[irreducible] def setDx (w b : Nat) : Nat := w / 65536 * 65536 + b % 65536

theorem al_setAl (w b : Nat) : al (setAl w b) = b % 256 := by
  unfold al setAl
  omega

/-- where the stack frame has a register -/
def Reg.off : Reg → Nat
  | .gs => GSREG
  | .fs => FSREG
  | .es => ESREG
  | .ds => DSREG
  | .edi => EDIREG
  | .esi => ESIREG
  | .ebp => EBPREG
  | .ebx => EBXREG
  | .edx => EDXREG
  | .ecx => ECXREG
  | .eax => EAXREG

/-- 32 bit arithmetic -/
@[irreducible] def wrap (w : Nat) : Nat := w % 0x100000000

def store (mem : Nat → Nat) (a w : Nat) : Nat → Nat := Function.update mem a w

def Machine.push (m : Machine) (w : Nat) : Machine :=
  { m with esp := m.esp - 4, mem := store m.mem (m.esp - 4) w }

def Machine.pushAll (m : Machine) (ws : List Nat) : Machine := ws.foldl Machine.push m

/-- control goes to an address -/
def Machine.jump (m : Machine) (a : Nat) : Machine := { m with eip := a }

@[simp] theorem Machine.jump_jump (m : Machine) (a b : Nat) : (m.jump a).jump b = m.jump b := rfl

/-- a register is loaded -/
def Machine.set (m : Machine) (r : Reg) (w : Nat) : Machine :=
  { m with regs := Function.update m.regs r w }

def Machine.pop (m : Machine) (r : Reg) : Machine := { m.set r (m.mem m.esp) with esp := m.esp + 4 }

def Machine.out (m : Machine) (port b : Nat) : Machine :=
  if port = INT_M_CTLMASK then { m with mMask := b }
  else if port = INT_S_CTLMASK then { m with sMask := b }
  else m

def Machine.inp (m : Machine) (port : Nat) : Nat :=
  if port = INT_M_CTLMASK then m.mMask
  else if port = INT_S_CTLMASK then m.sMask
  else 0

variable (L : Layout)

/-- `eip` already points behind the instruction -/
def exec : Instr → Machine → Machine
  | .pushad, m =>
    m.pushAll [m.regs .eax, m.regs .ecx, m.regs .edx, m.regs .ebx, m.esp, m.regs .ebp, m.regs .esi,
      m.regs .edi]
  | .popad, m =>
    -- the word of `esp` is skipped
    let m' := (((m.pop .edi).pop .esi).pop .ebp)
    ((({ m' with esp := m'.esp + 4 }.pop .ebx).pop .edx).pop .ecx).pop .eax
  | .push r, m => m.push (m.regs r)
  | .pop r, m => m.pop r
  | .pushImm w, m => m.push w
  | .pushVar v, m => m.push (m.mem (L.var v))
  | .pushLabel r k, m => m.push (L.addr r k)
  | .mov d s, m => m.set d (m.regs s)
  | .movDxSs, m => m.set .edx (setDx (m.regs .edx) m.ss)
  | .movDx d, m => m.set d (m.regs .edx % 65536)
  | .movEsi_esp, m => m.set .esi m.esp
  | .movEsp_StackTop, m => { m with esp := L.StackTop }
  | .movEspVar v, m => { m with esp := m.mem (L.var v) }
  | .movAtEsi_eax off, m => { m with mem := store m.mem (m.regs .esi + off) (m.regs .eax) }
  | .movAl w, m => m.set .eax (setAl (m.regs .eax) w)
  | .orAl w, m => m.set .eax (setAl (m.regs .eax) (al (m.regs .eax) ||| w))
  | .andAl w, m => m.set .eax (setAl (m.regs .eax) (al (m.regs .eax) &&& w))
  | .inAl p, m => m.set .eax (setAl (m.regs .eax) (m.inp p))
  | .outAl p, m => m.out p (al (m.regs .eax))
  | .addEsp w, m => { m with esp := m.esp + w }
  | .leaEax_esp off, m => m.set .eax (m.esp + off)
  | .movVar_eax v, m => { m with mem := store m.mem (L.var v) (m.regs .eax) }
  | .lldt off, m => { m with ldtr := m.mem (m.esp + off) % 65536 }
  | .inc v, m => { m with mem := store m.mem (L.var v) (wrap (m.mem (L.var v) + 1)) }
  | .dec v, m => { m with mem := store m.mem (L.var v) (wrap (m.mem (L.var v) + 0xFFFFFFFF)) }
  | .cmp0 v, m => { m with eflags := setBit m.eflags 6 (m.mem (L.var v) == 0) }
  | .nop, m => m
  | .jne r k, m => if m.eflags.testBit 6 then m else m.jump (L.addr r k)
  | .jmpAtEsi off, m => m.jump (m.mem (m.regs .esi + off))
  | .call r, m => (m.push m.eip).jump (L.addr r 0)
  | .callIrq n, m => (m.push m.eip).jump (m.mem (L.irq_table + 4 * n))
  | .callSys, m => (m.push m.eip).jump (m.mem (L.sys_call_table + m.regs .eax * 4))
  | .ret, m => { m with eip := m.mem m.esp, esp := m.esp + 4 }
  | .sti, m => { m with eflags := setBit m.eflags 9 true }
  | .cli, m => { m with eflags := setBit m.eflags 9 false }
  | .iretd, m =>
    let m' := { m with
      eip := m.mem m.esp, cs := m.mem (m.esp + 4), eflags := m.mem (m.esp + 8), esp := m.esp + 12 }
    -- back to an outer ring: its stack was pushed too
    if m'.cs % 4 ≠ m.cs % 4 then
      { m' with esp := m.mem (m.esp + 12), ss := m.mem (m.esp + 16) }
    else m'

/-- one instruction of kernel.asm; `none` in C code and in the code of a process -/
def step (m : Machine) : Option Machine :=
  (L.decode m.eip).map fun p => exec L p.1 (m.jump p.2)

/-- the stack on which the CPU enters a gate: from ring 0 it keeps the one it has, from an outer ring
it takes the one that the TSS names and pushes the old one -/
def gateStack (m : Machine) : Machine :=
  if m.cs % 4 = 0 then m
  else { m with esp := m.mem (L.var .tss_esp0), ss := SELECTOR_KERNEL_DS }.pushAll [m.ss, m.esp]

/-- the CPU enters the interrupt gate of a routine; an interrupt gate clears IF -/
def cpuInt (r : Routine) (m : Machine) : Machine :=
  { (gateStack L m).pushAll [m.eflags, m.cs, m.eip] with
    eflags := setBit m.eflags 9 false, cs := SELECTOR_KERNEL_CS, eip := L.addr r 0 }

end Noxis.Trap
