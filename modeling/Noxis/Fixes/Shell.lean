import Mathlib.Algebra.GroupWithZero.Nat
import Noxis.Lib.Run

/-!
# 23-fixes: shell commands inside the keyboard interrupt

`keyboard_callback` runs the whole command of a line before it returns, with interrupts disabled.
`ne2000_send` ends with `sti`, and `task_yield` gives the CPU to a task with interrupts enabled; after
either of them the next key comes into `keyboard_callback` while the command is still active, and its
line is the buffer that the command's argument points into.

* `Shell.step`        keys, timer, network card, and what the active commands do;
* `OneAtATime`        at most one command is active, and its argument is what it was given;
* `oneAtATime_iff`    that holds along a run exactly if the keys leave the active command alone
                      (`LeftAlone`).
-/

namespace Noxis.Fixes
open Run

/-! ## libc/string.c, on key_buffer -/

def NUL : Char := Char.ofNat 0

/-- the string at `off` -/
def str (s : List Char) (off : Nat) : List Char := (s.drop off).takeWhile (· ≠ NUL)

def strlen (s : List Char) : Nat := (str s 0).length

/-- `none`: it writes behind the buffer -/
def append (s : List Char) (n : Char) : Option (List Char) :=
  if strlen s + 1 < s.length then some ((s.set (strlen s) n).set (strlen s + 1) NUL) else none

def backspace (s : List Char) : List Char :=
  if strlen s = 0 then s else s.set (strlen s - 1) NUL

def lower (c : Char) : Char :=
  if 65 ≤ c.toNat ∧ c.toNat ≤ 90 then Char.ofNat (c.toNat + 32) else c

/-- `strcasecmp` gives 0 -/
def sameName (s₁ s₂ : List Char) : Prop := s₁.map lower = s₂.map lower

instance (s₁ s₂ : List Char) : Decidable (sameName s₁ s₂) := inferInstanceAs (Decidable (_ = _))

/-! ## drivers/shell.c -/

inductive Command where
  | cmdHelp | cmdClear | cmdEcho | cmdVersion | cmdTime | cmdEnd | cmdPage | cmdUptime | cmdMem
  | cmdTasks | cmdPs | cmdRun | cmdKill | cmdYield | cmdPing | cmdIfconfig | cmdArp
  deriving DecidableEq, Repr

def COMMANDS : List (String × Command) :=
  [("HELP", .cmdHelp), ("CLEAR", .cmdClear), ("ECHO", .cmdEcho), ("VERSION", .cmdVersion),
    ("TIME", .cmdTime), ("END", .cmdEnd), ("PAGE", .cmdPage), ("UPTIME", .cmdUptime),
    ("MEM", .cmdMem), ("TASKS", .cmdTasks), ("PS", .cmdPs), ("RUN", .cmdRun), ("KILL", .cmdKill),
    ("YIELD", .cmdYield), ("PING", .cmdPing), ("IFCONFIG", .cmdIfconfig), ("ARP", .cmdArp)]

def isBlank (c : Char) : Bool := c = ' ' || c = Char.ofNat 9

/-- the buffer after the line is split, the command, and where its argument starts -/
structure ShellRun where
  buf : List Char
  cmd : Option Command
  args : Option Nat

/-- `shell_run` up to the call of the handler; the loops stop at the NUL, so they look at the line
only -/
def shellRun (s : List Char) : ShellRun :=
  let line := str s 0
  let name := (line.takeWhile isBlank).length
  let p := name + ((line.drop name).takeWhile (! isBlank ·)).length
  let word := (line.drop name).takeWhile (! isBlank ·)
  let cmd := if word = [] then none
    else (COMMANDS.find? fun c => sameName word c.1.toList).map Prod.snd
  if p < line.length then
    { buf := s.set p NUL, cmd := cmd
      args := some (p + 1 + ((line.drop (p + 1)).takeWhile isBlank).length) }
  else { buf := s, cmd := cmd, args := none }

/-- the digits of a part: its value, their number and the rest; `none` for more than 3 or over 255 -/
def parseDigits : List Char → Nat → Nat → Option (Nat × Nat × List Char)
  | [], v, digits => some (v, digits, [])
  | c :: s, v, digits =>
    if 48 ≤ c.toNat ∧ c.toNat ≤ 57 then
      let v := v * 10 + (c.toNat - 48)
      if 3 < digits + 1 ∨ 255 < v then none else parseDigits s v (digits + 1)
    else some (v, digits, c :: s)

/-- `n` more parts -/
def parseParts : Nat → List Char → Nat → Option Nat
  | 0, s, ip => if s = [] then some ip else none
  | n + 1, s, ip =>
    match parseDigits s 0 0 with
    | none => none
    | some (v, digits, s) =>
      if digits = 0 then none
      else if n = 0 then parseParts n s (ip * 256 + v)
      else
        match s with
        | '.' :: s => parseParts n s (ip * 256 + v)
        | _ => none

/-- `parse_ip` -/
def parseIp (s : List Char) : Option Nat := parseParts 4 s 0

/-! ## drivers/keyboard.c -/

inductive Key where
  /-- a key that is released, a modifier, a scancode that is not in the table -/
  | other
  | backspace
  | enter
  | letter (c : Char)
  deriving DecidableEq, Repr

def scAscii : List Char := "??1234567890-=??QWERTYUIOP[]??ASDFGHJKL;'`?\\ZXCVBNM,./??? ".toList

/-- the branches of `keyboard_callback` -/
def decodeKey (scancode : UInt8) : Key :=
  if scancode &&& 0x80 ≠ 0 then .other
  else if scancode = 0x2A ∨ scancode = 0x36 ∨ scancode = 0x1D ∨ scancode = 0x38 then .other
  else if scancode = 0x0E then .backspace
  else if scancode = 0x1C then .enter
  else
    match scAscii[scancode.toNat]? with
    | some c => .letter c
    | none => .other

/-! ## the machine -/

abbrev TaskId := Fin 8

instance neZero_taskId : NeZero 8 := ⟨by decide⟩

/-- a command that has not returned, on the stack of the task that the key interrupted -/
structure Activation where
  task : TaskId
  cmd : Command
  /-- where in `key_buffer` its argument starts -/
  args : Option Nat
  /-- the argument, as it was given or as the command itself has changed it -/
  given : List Char
  /-- it comes to `ne2000_send` -/
  sends : Bool
  deriving DecidableEq, Repr

structure Shell where
  keyBuffer : List Char
  currentTask : TaskId
  /-- the interrupt flag -/
  intr : Bool
  /-- the interrupt flag in the frames of the tasks that do not run -/
  frames : TaskId → Bool
  nicPresent : Bool
  /-- the last one is the first of the list -/
  active : List Activation

/-- the command that runs, if the running task is in one -/
def Shell.running (s : Shell) : Option Activation := s.active.find? (·.task = s.currentTask)

/-- PING needs an address and a card, ARP answers the requests that have arrived -/
def sends (nicPresent : Bool) (cmd : Command) (given : List Char) : Bool :=
  nicPresent && (cmd = .cmdArp || cmd = .cmdPing && (parseIp given).isSome)

/-- `user_input`, up to the handler; without one, the line is empty again -/
def Shell.userInput (s : Shell) : Shell :=
  let r := shellRun s.keyBuffer
  match r.cmd with
  | none => { s with keyBuffer := r.buf.set 0 NUL }
  | some cmd =>
    let given := (r.args.map (str r.buf)).getD []
    { s with
      keyBuffer := r.buf, intr := false
      active := ⟨s.currentTask, cmd, r.args, given, sends s.nicPresent cmd given⟩ :: s.active }

/-- `keyboard_callback` -/
def Shell.keyboardCallback (s : Shell) (scancode : UInt8) : Option Shell :=
  match decodeKey scancode with
  | .other => some s
  | .backspace => some { s with keyBuffer := backspace s.keyBuffer }
  | .enter => some s.userInput
  | .letter c => (append s.keyBuffer c).map fun b => { s with keyBuffer := b }

/-- `scheduler_tick` picks `next`; the frame of `next` has its own interrupt flag -/
def Shell.switchTo (s : Shell) (next : TaskId) : Shell :=
  if next = s.currentTask then s
  else { s with
    frames := Function.update s.frames s.currentTask s.intr
    intr := s.frames next, currentTask := next }

inductive ShellEvent where
  | key (scancode : UInt8)
  | timer (next : TaskId)
  /-- `ne2000_irq`: frames move from the card into `sw_ring` -/
  | nic
  /-- the command that runs comes through `ne2000_send`, which ends with `sti` -/
  | send
  /-- `cmd_run` ends the name of the task in its argument -/
  | split
  /-- `task_yield`, of the command or of another task -/
  | yield (next : TaskId)
  /-- the command returns, and `keyboard_callback` with it -/
  | ret
  deriving DecidableEq, Repr

/-- the first blank of the argument -/
def firstBlank (s : List Char) (off : Nat) : Nat := off + ((str s off).takeWhile (! isBlank ·)).length

def Shell.step (s : Shell) : ShellEvent → Option Shell
  | .key scancode => if s.intr then s.keyboardCallback scancode else none
  | .timer next => if s.intr then some (s.switchTo next) else none
  | .nic => if s.intr then some s else none
  | .send =>
    match s.running with
    | some a => if a.sends then some { s with intr := true } else none
    | none => none
  | .split =>
    match s.running with
    | some a =>
      match a.cmd, a.args with
      | .cmdRun, some off =>
        if firstBlank s.keyBuffer off < off + (str s.keyBuffer off).length then
          let b := s.keyBuffer.set (firstBlank s.keyBuffer off) NUL
          some { s with
            keyBuffer := b
            active := s.active.set (s.active.findIdx (·.task = s.currentTask))
              { a with given := str b off } }
        else none
      | _, _ => none
    | none => none
  | .yield next =>
    match s.running with
    | some a => if a.cmd = .cmdYield then some (s.switchTo next) else none
    | none => if s.currentTask ≠ 0 then some (s.switchTo next) else none
  | .ret =>
    match s.running with
    | some a =>
      if a.cmd = .cmdEnd then none
      else some { s with
        keyBuffer := s.keyBuffer.set 0 NUL, intr := true
        active := s.active.eraseP (·.task = s.currentTask) }
    | none => none

/-! ## what the claim is about -/

/-- the arguments of the active commands are what they were given -/
def Shell.Intact (s : Shell) : Prop :=
  ∀ a ∈ s.active, ∀ off, a.args = some off → str s.keyBuffer off = a.given

/-- at most one command is active, and nobody else changed its argument -/
def OneAtATime (_ : Shell) (_ : ShellEvent) (t : Shell) : Prop := t.active.length ≤ 1 ∧ t.Intact

/-- ENTER does not end the line of another command; a letter stays in front of the argument of the
active command, or falls on its NUL if it is empty -/
def Harmless (s : Shell) : Key → Prop
  | .enter => (shellRun s.keyBuffer).cmd = none
  | .letter _ => ∀ a ∈ s.active, ∀ off, a.args = some off →
      strlen s.keyBuffer + 1 < off ∨ strlen s.keyBuffer + 1 = off ∧ a.given = []
  | _ => True

/-- the keys leave the active command alone -/
def LeftAlone (s : Shell) (e : ShellEvent) (_ : Shell) : Prop :=
  ∀ scancode, e = .key scancode → s.active ≠ [] → Harmless s (decodeKey scancode)

section
variable {s t : List Char} {off q i : Nat} {c : Char}

/-! ## strings in a buffer -/

theorem strlen_eq (s : List Char) : strlen s = (s.takeWhile (· ≠ NUL)).length := rfl

theorem line_cons (s : List Char) (hc : c ≠ NUL) :
    (c :: s).takeWhile (· ≠ NUL) = c :: s.takeWhile (· ≠ NUL) := by
  rw [List.takeWhile_cons, if_pos (by simpa using hc)]

/-- a string does not depend on what is before it -/
theorem str_set_lt (h : i < off) : str (s.set i c) off = str s off := by
  unfold str
  rw [List.drop_set_of_lt h]

theorem str_nul (h : off < s.length) (hc : s[off] = NUL) : str s off = [] := by
  unfold str
  rw [List.drop_eq_getElem_cons h, hc]
  rfl

theorem str_ne_nil (h : off < s.length) (hc : s[off] ≠ NUL) : str s off ≠ [] := by
  unfold str
  rw [List.drop_eq_getElem_cons h, line_cons _ hc]
  exact fun he => (nomatch he)

/-- a line that is cut -/
theorem strlen_set_nul (h : q < strlen s) : strlen (s.set q NUL) = q := by
  rw [strlen_eq] at h ⊢
  induction s generalizing q with
  | nil => cases h
  | cons x s ih =>
    by_cases hx : x = NUL
    · subst hx
      cases h
    · rw [line_cons _ hx, List.length_cons] at h
      cases q with
      | zero => rfl
      | succ q =>
        rw [List.set_cons_succ, line_cons _ hx, List.length_cons, ih (Nat.lt_of_succ_lt_succ h)]

theorem strlen_set_zero (s : List Char) : strlen (s.set 0 NUL) = 0 := by
  cases s <;> rfl

theorem append_eq (h : append s c = some t) :
    strlen s + 1 < s.length ∧ t = (s.set (strlen s) c).set (strlen s + 1) NUL := by
  unfold append at h
  by_cases hl : strlen s + 1 < s.length
  · rw [if_pos hl] at h
    exact ⟨hl, (Option.some.inj h).symm⟩
  · rw [if_neg hl] at h
    cases h

theorem strlen_append (h : append s c = some t) (hc : c ≠ NUL) : strlen t = strlen s + 1 := by
  obtain ⟨hl, rfl⟩ := append_eq h
  rw [strlen_eq] at hl
  rw [strlen_eq, strlen_eq]
  clear h
  induction s with
  | nil => cases hl
  | cons x s ih =>
    by_cases hx : x = NUL
    · subst hx
      cases s with
      | nil => exact absurd hl (by decide)
      | cons y s =>
        show ((c :: NUL :: s).takeWhile (· ≠ NUL)).length = 1
        rw [line_cons _ hc]
        rfl
    · rw [line_cons _ hx, List.length_cons, List.length_cons] at hl
      rw [line_cons _ hx, List.length_cons, List.set_cons_succ, List.set_cons_succ, line_cons _ hx,
        List.length_cons, ih (by omega)]

/-- **What a letter does to a string behind the line.** -/
theorem append_str (h : append s c = some t) (hc : c ≠ NUL) (hoff : strlen s ≤ off) {l : List Char}
    (hl : str s off = l) (he : strlen s = off → l = []) :
    str t off = l ↔ strlen s + 1 < off ∨ strlen s + 1 = off ∧ l = [] := by
  obtain ⟨hlen, rfl⟩ := append_eq h
  rcases Nat.lt_or_ge (strlen s + 1) off with hlt | hge
  · rw [str_set_lt hlt, str_set_lt (by omega)]
    exact ⟨fun _ => .inl hlt, fun _ => hl⟩
  · rcases Nat.eq_or_lt_of_le hge with heq | hlt
    · -- the NUL falls on the first byte of the string
      subst heq
      have hnul : str ((s.set (strlen s) c).set (strlen s + 1) NUL) (strlen s + 1) = [] :=
        str_nul (by simpa using hlen) (by simp)
      rw [hnul]
      exact ⟨fun h => .inr ⟨rfl, h.symm⟩, fun h => h.elim (fun h => absurd h (by omega))
        fun h => h.2.symm⟩
    · -- the letter falls on the NUL of an empty string
      have heq : strlen s = off := by omega
      subst heq
      have hne : str ((s.set (strlen s) c).set (strlen s + 1) NUL) (strlen s) ≠ [] := by
        refine str_ne_nil (by simp; omega) ?_
        rw [List.getElem_set_ne (by omega), List.getElem_set_self]
        exact hc
      rw [he rfl]
      exact ⟨fun h => absurd h hne, fun h => h.elim (fun h => absurd h (by omega))
        fun h => absurd h.1 (by omega)⟩

theorem backspace_str (h : strlen s ≤ off) (h0 : 0 < off) : str (backspace s) off = str s off := by
  unfold backspace
  by_cases h0 : strlen s = 0
  · rw [if_pos h0]
  · rw [if_neg h0]
    exact str_set_lt (by omega)

theorem strlen_backspace (s : List Char) : strlen (backspace s) = strlen s - 1 := by
  unfold backspace
  by_cases h0 : strlen s = 0
  · rw [if_pos h0, h0]
  · rw [if_neg h0, strlen_set_nul (by omega)]

/-- a NUL behind the line -/
theorem strlen_set_ge (h : strlen s ≤ i) : strlen (s.set i NUL) = strlen s := by
  rw [strlen_eq] at h ⊢
  rw [strlen_eq]
  induction s generalizing i with
  | nil => rfl
  | cons x s ih =>
    by_cases hx : x = NUL
    · subst hx
      cases i <;> rfl
    · rw [line_cons _ hx, List.length_cons] at h
      cases i with
      | zero => exact absurd h (by omega)
      | succ i =>
        rw [List.set_cons_succ, line_cons _ hx, line_cons _ hx, List.length_cons, List.length_cons,
          ih (by omega)]

/-- the argument is behind the name -/
theorem shellRun_args (h : (shellRun s).args = some off) : strlen (shellRun s).buf < off := by
  unfold shellRun at h ⊢
  simp only at h ⊢
  split at h
  · rename_i hp
    rw [if_pos hp]
    simp only at h ⊢
    cases h
    rw [strlen_set_nul hp]
    omega
  · cases h

/-- the split of a line leaves alone what is behind the line -/
theorem shellRun_str (h : strlen s ≤ off) : str (shellRun s).buf off = str s off := by
  unfold shellRun
  simp only
  split
  · rename_i hp
    have hlt : _ < strlen s := hp
    exact str_set_lt (by omega)
  · rfl

end

/-! ## the invariant -/

structure Shell.Inv (s : Shell) : Prop where
  one : s.active.length ≤ 1
  intact : s.Intact
  /-- the line ends before the argument, or at its NUL -/
  behind : ∀ a ∈ s.active, ∀ off, a.args = some off →
    0 < off ∧ strlen s.keyBuffer ≤ off ∧ (strlen s.keyBuffer = off → a.given = [])

section
variable {s t : Shell} {e : ShellEvent}

theorem Shell.Inv.congr (h : s.Inv) (hb : t.keyBuffer = s.keyBuffer) (ha : t.active = s.active) :
    t.Inv := by
  refine ⟨by rw [ha]; exact h.one, fun a hm off ho => ?_, fun a hm off ho => ?_⟩
  · rw [ha] at hm
    rw [hb]
    exact h.intact a hm off ho
  · rw [ha] at hm
    rw [hb]
    exact h.behind a hm off ho

/-- no command is active -/
theorem Shell.Inv.idle (ha : t.active = []) : t.Inv := by
  refine ⟨by rw [ha]; exact Nat.zero_le 1, fun a hm => ?_, fun a hm => ?_⟩
  · rw [ha] at hm
    cases hm
  · rw [ha] at hm
    cases hm

theorem Shell.switchTo_same (s : Shell) (next : TaskId) :
    (s.switchTo next).keyBuffer = s.keyBuffer ∧ (s.switchTo next).active = s.active := by
  unfold switchTo
  by_cases h : next = s.currentTask
  · rw [if_pos h]
    exact ⟨rfl, rfl⟩
  · rw [if_neg h]
    exact ⟨rfl, rfl⟩

/-- the command that runs is the only active one -/
theorem Shell.Inv.running (h : s.Inv) {a : Activation} (ha : s.running = some a) :
    s.active = [a] ∧ a.task = s.currentTask := by
  unfold Shell.running at ha
  have hmem := List.mem_of_find?_eq_some ha
  have htask : a.task = s.currentTask := by simpa using List.find?_some ha
  have hone := h.one
  match hl : s.active with
  | [] => rw [hl] at hmem; cases hmem
  | [b] =>
    rw [hl] at hmem
    rw [List.mem_singleton.mp hmem] at htask ⊢
    exact ⟨rfl, htask⟩
  | b :: c :: l =>
    rw [hl] at hone
    simp at hone

theorem letter_mem {scancode : UInt8} {c : Char} (h : decodeKey scancode = .letter c) :
    c ∈ scAscii := by
  unfold decodeKey at h
  by_cases h1 : scancode &&& 0x80 ≠ 0
  · rw [if_pos h1] at h
    cases h
  rw [if_neg h1] at h
  by_cases h2 : scancode = 0x2A ∨ scancode = 0x36 ∨ scancode = 0x1D ∨ scancode = 0x38
  · rw [if_pos h2] at h
    cases h
  rw [if_neg h2] at h
  by_cases h3 : scancode = 0x0E
  · rw [if_pos h3] at h
    cases h
  rw [if_neg h3] at h
  by_cases h4 : scancode = 0x1C
  · rw [if_pos h4] at h
    cases h
  rw [if_neg h4] at h
  cases hc : scAscii[scancode.toNat]? with
  | none =>
    rw [hc] at h
    cases h
  | some x =>
    rw [hc] at h
    cases h
    exact List.mem_of_getElem? hc

theorem letter_ne_nul {scancode : UInt8} {c : Char} (h : decodeKey scancode = .letter c) :
    c ≠ NUL := by
  have hall : scAscii.all (· ≠ NUL) = true := by decide +kernel
  exact of_decide_eq_true (List.all_eq_true.mp hall c (letter_mem h))

/-! ## the steps -/

theorem Shell.userInput_none (hc : (shellRun s.keyBuffer).cmd = none) :
    s.userInput = { s with keyBuffer := (shellRun s.keyBuffer).buf.set 0 NUL } := by
  unfold userInput
  simp only [hc]

/-- the activation that a line starts -/
def Shell.start (s : Shell) (cmd : Command) : Activation :=
  let r := shellRun s.keyBuffer
  let given := (r.args.map (str r.buf)).getD []
  ⟨s.currentTask, cmd, r.args, given, sends s.nicPresent cmd given⟩

theorem Shell.userInput_some {cmd : Command} (hc : (shellRun s.keyBuffer).cmd = some cmd) :
    s.userInput = { s with
      keyBuffer := (shellRun s.keyBuffer).buf, intr := false
      active := s.start cmd :: s.active } := by
  unfold userInput
  simp only [hc]
  rfl

/-- **ENTER.** -/
theorem Shell.Inv.enter (h : s.Inv) :
    (OneAtATime s e s.userInput ↔ (s.active ≠ [] → (shellRun s.keyBuffer).cmd = none)) ∧
      ((s.active ≠ [] → (shellRun s.keyBuffer).cmd = none) → s.userInput.Inv) := by
  cases hc : (shellRun s.keyBuffer).cmd with
  | none =>
    rw [Shell.userInput_none hc]
    have hinv : Shell.Inv { s with keyBuffer := (shellRun s.keyBuffer).buf.set 0 NUL } := by
      refine ⟨h.one, fun a hm off ho => ?_, fun a hm off ho => ?_⟩
      · obtain ⟨h0, hlen, -⟩ := h.behind a hm off ho
        show str ((shellRun s.keyBuffer).buf.set 0 NUL) off = a.given
        rw [str_set_lt h0, shellRun_str hlen]
        exact h.intact a hm off ho
      · obtain ⟨h0, -, -⟩ := h.behind a hm off ho
        have hz : strlen ((shellRun s.keyBuffer).buf.set 0 NUL) = 0 := strlen_set_zero _
        refine ⟨h0, ?_, fun heq => ?_⟩
        · show strlen ((shellRun s.keyBuffer).buf.set 0 NUL) ≤ off
          omega
        · exact absurd (hz.symm.trans heq) (by omega)
    exact ⟨iff_of_true ⟨hinv.one, hinv.intact⟩ fun _ => rfl, fun _ => hinv⟩
  | some cmd =>
    rw [Shell.userInput_some hc]
    cases hact : s.active with
    | nil =>
      have hinv : Shell.Inv { s with
          keyBuffer := (shellRun s.keyBuffer).buf, intr := false, active := [s.start cmd] } := by
        refine ⟨Nat.le_refl 1, fun a hm off ho => ?_, fun a hm off ho => ?_⟩
        · rw [List.mem_singleton.mp hm] at ho ⊢
          have ho' : (shellRun s.keyBuffer).args = some off := ho
          show str (shellRun s.keyBuffer).buf off =
            ((shellRun s.keyBuffer).args.map (str (shellRun s.keyBuffer).buf)).getD []
          rw [ho']
          rfl
        · rw [List.mem_singleton.mp hm] at ho
          have hlt : strlen (shellRun s.keyBuffer).buf < off := shellRun_args ho
          exact ⟨by omega, Nat.le_of_lt hlt, fun heq => absurd heq (Nat.ne_of_lt hlt)⟩
      exact ⟨iff_of_true ⟨hinv.one, hinv.intact⟩ fun hne => absurd rfl hne, fun _ => hinv⟩
    | cons b l =>
      have hne : b :: l ≠ [] := fun he => (nomatch he)
      refine ⟨iff_of_false (fun ho => ?_) fun hl => (nomatch hl hne), fun hl => (nomatch hl hne)⟩
      have hlen : (s.start cmd :: b :: l).length ≤ 1 := ho.1
      simp at hlen

/-- **A letter.** -/
theorem Shell.Inv.letter (h : s.Inv) {c : Char} (hc : c ≠ NUL) {b : List Char}
    (hb : append s.keyBuffer c = some b) :
    (OneAtATime s e { s with keyBuffer := b } ↔
      (s.active ≠ [] → ∀ a ∈ s.active, ∀ off, a.args = some off →
        strlen s.keyBuffer + 1 < off ∨ strlen s.keyBuffer + 1 = off ∧ a.given = [])) ∧
    ((s.active ≠ [] → ∀ a ∈ s.active, ∀ off, a.args = some off →
        strlen s.keyBuffer + 1 < off ∨ strlen s.keyBuffer + 1 = off ∧ a.given = []) →
      Shell.Inv { s with keyBuffer := b }) := by
  have hkey : ∀ a ∈ s.active, ∀ off, a.args = some off → (str b off = a.given ↔
      strlen s.keyBuffer + 1 < off ∨ strlen s.keyBuffer + 1 = off ∧ a.given = []) := by
    intro a hm off ho
    obtain ⟨-, hlen, hempty⟩ := h.behind a hm off ho
    exact append_str hb hc hlen (h.intact a hm off ho) hempty
  constructor
  · constructor
    · intro ho _ a hm off hoff
      exact (hkey a hm off hoff).mp (ho.2 a hm off hoff)
    · intro hl
      refine ⟨h.one, fun a hm off hoff => (hkey a hm off hoff).mpr ?_⟩
      exact hl (List.ne_nil_of_mem hm) a hm off hoff
  · intro hl
    refine ⟨h.one, fun a hm off hoff => ?_, fun a hm off hoff => ?_⟩
    · exact (hkey a hm off hoff).mpr (hl (List.ne_nil_of_mem hm) a hm off hoff)
    · obtain ⟨h0, -, -⟩ := h.behind a hm off hoff
      have hlen : strlen b = strlen s.keyBuffer + 1 := strlen_append hb hc
      have hcond := hl (List.ne_nil_of_mem hm) a hm off hoff
      refine ⟨h0, ?_, fun heq => ?_⟩
      · show strlen b ≤ off
        rcases hcond with hlt | ⟨heq, -⟩ <;> omega
      · have heq' : strlen b = off := heq
        rcases hcond with hlt | ⟨-, hempty⟩
        · omega
        · exact hempty

/-- **A key.** -/
theorem Shell.Inv.key (h : s.Inv) {scancode : UInt8} (hst : s.keyboardCallback scancode = some t) :
    (OneAtATime s e t ↔ (s.active ≠ [] → Harmless s (decodeKey scancode))) ∧
      ((s.active ≠ [] → Harmless s (decodeKey scancode)) → t.Inv) := by
  unfold keyboardCallback at hst
  cases hd : decodeKey scancode with
  | other =>
    rw [hd] at hst
    cases hst
    exact ⟨iff_of_true ⟨h.one, h.intact⟩ fun _ => trivial, fun _ => h⟩
  | backspace =>
    rw [hd] at hst
    cases hst
    have hinv : Shell.Inv { s with keyBuffer := backspace s.keyBuffer } := by
      refine ⟨h.one, fun a hm off ho => ?_, fun a hm off ho => ?_⟩
      · obtain ⟨h0, hlen, -⟩ := h.behind a hm off ho
        exact (backspace_str hlen h0).trans (h.intact a hm off ho)
      · obtain ⟨h0, hlen, hempty⟩ := h.behind a hm off ho
        have hb : strlen (backspace s.keyBuffer) = strlen s.keyBuffer - 1 := strlen_backspace _
        refine ⟨h0, ?_, fun heq => ?_⟩
        · show strlen (backspace s.keyBuffer) ≤ off
          omega
        · have heq' : strlen (backspace s.keyBuffer) = off := heq
          exact absurd heq' (by omega)
    exact ⟨iff_of_true ⟨hinv.one, hinv.intact⟩ fun _ => trivial, fun _ => hinv⟩
  | enter =>
    rw [hd] at hst
    cases hst
    exact h.enter
  | letter c =>
    rw [hd] at hst
    obtain ⟨b, hb, rfl⟩ := Option.map_eq_some_iff.mp hst
    exact h.letter (letter_ne_nul hd) hb

theorem Shell.split_some (hst : s.step .split = some t) :
    ∃ a off, s.running = some a ∧ a.args = some off ∧
      firstBlank s.keyBuffer off < off + (str s.keyBuffer off).length ∧
      t = { s with
        keyBuffer := s.keyBuffer.set (firstBlank s.keyBuffer off) NUL
        active := s.active.set (s.active.findIdx (·.task = s.currentTask))
          { a with given := str (s.keyBuffer.set (firstBlank s.keyBuffer off) NUL) off } } := by
  simp only [Shell.step] at hst
  cases hr : s.running with
  | none =>
    rw [hr] at hst
    cases hst
  | some a =>
    rw [hr] at hst
    simp only at hst
    split at hst
    · rename_i off _ hargs
      by_cases hlt : firstBlank s.keyBuffer off < off + (str s.keyBuffer off).length
      · rw [if_pos hlt] at hst
        exact ⟨a, off, rfl, hargs, hlt, (Option.some.inj hst).symm⟩
      · rw [if_neg hlt] at hst
        cases hst
    · cases hst

/-- **`cmd_run`** changes its own argument. -/
theorem Shell.Inv.split (h : s.Inv) (hst : s.step .split = some t) : t.Inv := by
  obtain ⟨a, off, hr, hargs, hlt, rfl⟩ := Shell.split_some hst
  obtain ⟨hact, htask⟩ := h.running hr
  have hidx : s.active.findIdx (·.task = s.currentTask) = 0 := by
    rw [hact, List.findIdx_cons]
    simp [htask]
  have hmem : a ∈ s.active := by
    rw [hact]
    exact List.mem_singleton_self a
  obtain ⟨h0, hlen, hempty⟩ := h.behind a hmem off hargs
  have hle : off ≤ firstBlank s.keyBuffer off := Nat.le_add_right ..
  -- the argument is not empty, so the line ends before it
  have hne : strlen s.keyBuffer ≠ off := by
    intro he
    rw [h.intact a hmem off hargs, hempty he, List.length_nil] at hlt
    omega
  have hline : strlen (s.keyBuffer.set (firstBlank s.keyBuffer off) NUL) = strlen s.keyBuffer :=
    strlen_set_ge (by omega)
  rw [hidx, hact, List.set_cons_zero]
  refine ⟨Nat.le_refl 1, fun b hm off' ho => ?_, fun b hm off' ho => ?_⟩
  · rw [List.mem_singleton.mp hm] at ho ⊢
    have ho' : a.args = some off' := ho
    rw [hargs] at ho'
    cases ho'
    rfl
  · rw [List.mem_singleton.mp hm] at ho
    have ho' : a.args = some off' := ho
    rw [hargs] at ho'
    cases ho'
    refine ⟨h0, ?_, fun he => ?_⟩
    · show strlen (s.keyBuffer.set (firstBlank s.keyBuffer off) NUL) ≤ off
      omega
    · exact absurd (hline.symm.trans he) hne

/-- **A command returns.** -/
theorem Shell.Inv.ret (h : s.Inv) (hst : s.step .ret = some t) : t.Inv := by
  simp only [Shell.step] at hst
  cases hr : s.running with
  | none =>
    rw [hr] at hst
    cases hst
  | some a =>
    rw [hr] at hst
    obtain ⟨hact, htask⟩ := h.running hr
    by_cases hend : a.cmd = .cmdEnd
    · simp only [if_pos hend] at hst
      cases hst
    · simp only [if_neg hend] at hst
      cases hst
      refine Shell.Inv.idle ?_
      show s.active.eraseP _ = []
      rw [hact, List.eraseP_cons_of_pos (by simpa using htask)]

/-- the events that leave the line and the commands alone -/
theorem Shell.step_same (hst : s.step e = some t)
    (he : e = .nic ∨ e = .send ∨ ∃ next, e = .timer next ∨ e = .yield next) :
    t.keyBuffer = s.keyBuffer ∧ t.active = s.active := by
  rcases he with rfl | rfl | ⟨next, rfl | rfl⟩
  · obtain ⟨-, h⟩ := Option.ite_none_right_eq_some.mp hst
    cases h
    exact ⟨rfl, rfl⟩
  · simp only [Shell.step] at hst
    cases hr : s.running with
    | none =>
      rw [hr] at hst
      cases hst
    | some a =>
      rw [hr] at hst
      obtain ⟨-, h⟩ := Option.ite_none_right_eq_some.mp hst
      cases h
      exact ⟨rfl, rfl⟩
  · obtain ⟨-, h⟩ := Option.ite_none_right_eq_some.mp hst
    cases h
    exact s.switchTo_same next
  · simp only [Shell.step] at hst
    cases hr : s.running with
    | none =>
      rw [hr] at hst
      obtain ⟨-, h⟩ := Option.ite_none_right_eq_some.mp hst
      cases h
      exact s.switchTo_same next
    | some a =>
      rw [hr] at hst
      obtain ⟨-, h⟩ := Option.ite_none_right_eq_some.mp hst
      cases h
      exact s.switchTo_same next

/-- **Step rule.** -/
theorem Shell.Inv.step (h : s.Inv) (hst : stepOf Shell.step s e t) :
    (OneAtATime s e t ↔ LeftAlone s e t) ∧ (LeftAlone s e t → t.Inv) := by
  have hother : (∀ scancode, e ≠ .key scancode) → t.Inv →
      (OneAtATime s e t ↔ LeftAlone s e t) ∧ (LeftAlone s e t → t.Inv) := fun hne ht =>
    ⟨iff_of_true ⟨ht.one, ht.intact⟩ fun scancode he => absurd he (hne scancode), fun _ => ht⟩
  have hst' : s.step e = some t := hst
  have hsame := fun he => h.congr (Shell.step_same hst' he).1 (Shell.step_same hst' he).2
  cases e with
  | key scancode =>
    simp only [Shell.step] at hst'
    by_cases hi : s.intr = true
    · rw [if_pos hi] at hst'
      obtain ⟨h1, h2⟩ := h.key (e := .key scancode) hst'
      have hl : LeftAlone s (.key scancode) t ↔
          (s.active ≠ [] → Harmless s (decodeKey scancode)) :=
        ⟨fun hl => hl scancode rfl, fun hl sc he => by cases he; exact hl⟩
      rw [hl]
      exact ⟨h1, h2⟩
    · rw [if_neg hi] at hst'
      cases hst'
  | timer next => exact hother (fun _ he => (nomatch he)) (hsame (.inr (.inr ⟨next, .inl rfl⟩)))
  | nic => exact hother (fun _ he => (nomatch he)) (hsame (.inl rfl))
  | send => exact hother (fun _ he => (nomatch he)) (hsame (.inr (.inl rfl)))
  | split => exact hother (fun _ he => (nomatch he)) (h.split hst')
  | yield next => exact hother (fun _ he => (nomatch he)) (hsame (.inr (.inr ⟨next, .inr rfl⟩)))
  | ret => exact hother (fun _ he => (nomatch he)) (h.ret hst')

end

/-- after `kernel_main`, with a network card -/
def bootShell : Shell :=
  { keyBuffer := List.replicate 256 NUL, currentTask := 0, intr := true, frames := fun _ => true
    nicPresent := true, active := [] }

/-- `PING 10.0.2.2`, and ENTER again while it waits for the ARP reply -/
def enterTwice : List ShellEvent :=
  ([0x19, 0x17, 0x31, 0x22, 0x39, 0x02, 0x0B, 0x34, 0x0B, 0x34, 0x03, 0x34, 0x03, 0x1C].map
    fun c => ShellEvent.key c) ++ [.send, .key 0x1C]

end Noxis.Fixes
