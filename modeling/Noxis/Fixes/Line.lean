import Noxis.Fixes.Screen
import Noxis.Fixes.Shell

/-!
# 23-fixes: the line editor in the keyboard interrupt

`keyboard_callback` appends a letter to `key_buffer`, or drops the last one, and echoes that; the echo
does not look at the line.

* `Session.step`    the shell with its screen: keys, what the commands print, and what the demo tasks
                    print at their places;
* `Edited`          the line and its NUL are in the 256 bytes of `key_buffer`, and when no command runs
                    the prompt and the line stand in front of the cursor;
* `Careful`         no letter comes behind a line of 255, or moves the prompt off the screen, no
                    BACKSPACE comes in an empty line, and no task prints while a line is edited;
* `edited`          every run of careful steps is edited, and without tasks no other.
-/

namespace Noxis.Fixes
open Run Screen

/-! ## the shell and its screen -/

structure Session where
  shell : Shell
  screen : Screen

inductive SessionEvent where
  | shell (e : ShellEvent)
  /-- the command that runs calls `kprint` -/
  | print (message : List Char)
  /-- `cmd_clear` -/
  | clear
  /-- a demo task calls `kprint_at` with a text that has no backspace -/
  | paint (message : List Char) (col row : Nat)

/-- the name that `shell_run` looks for -/
def commandName (s : List Char) : List Char :=
  ((str s 0).dropWhile isBlank).takeWhile (! isBlank ·)

/-- the end of `shell_run`, when the name is none of a command -/
def unknownCommand (screen : Screen) (name : List Char) : Screen :=
  if name = [] then screen
  else ((screen.kprint "Unknown command: ".toList).kprint name).kprint ['\n']

/-- `user_input` when the command returns, or there is none -/
def newPrompt (screen : Screen) : Screen := screen.kprint ('\n' :: prompt)

def Session.echo (s : Session) : ShellEvent → Screen
  | .key scancode =>
    match decodeKey scancode with
    | .other => s.screen
    | .backspace => s.screen.kprintBackspace
    | .letter c => s.screen.kprint [c]
    | .enter =>
      let screen := s.screen.kprint ['\n']
      if (shellRun s.shell.keyBuffer).cmd = none then
        newPrompt (unknownCommand screen (commandName s.shell.keyBuffer))
      else screen
  | .ret => newPrompt s.screen
  | _ => s.screen

def Session.step (s : Session) : SessionEvent → Option Session
  | .shell e => (s.shell.step e).map fun shell => { shell := shell, screen := s.echo e }
  | .print message =>
    if s.shell.running.isSome then some { s with screen := s.screen.kprint message } else none
  | .clear =>
    if s.shell.running.map Activation.cmd = some .cmdClear then
      some { s with screen := s.screen.clearScreen }
    else none
  | .paint message col row =>
    if s.shell.currentTask ≠ 0 ∧ s.shell.running = none ∧ message ≠ [] ∧ BS ∉ message then
      some { s with screen := s.screen.kprintAt message col row }
    else none

/-- at the end of `kernel_main`; `key_buffer` is all zeros, and `b` and `behind` are behind it -/
def bootSession (screen : Screen) (nicPresent : Bool) (b : Char) (behind : List Char) : Session where
  shell :=
    { keyBuffer := List.replicate 256 NUL ++ b :: behind, currentTask := 0, intr := true
      frames := fun _ => true, nicPresent := nicPresent, active := [] }
  screen := screen.kprint
    ("Welcome to noxis\nType HELP for a list of commands".toList ++ '\n' :: prompt)

/-! ## what the claim is about -/

/-- the prompt and the line are what is in front of the cursor -/
def Session.AtPrompt (s : Session) : Prop :=
  s.screen.sheet.Ends (prompt ++ str s.shell.keyBuffer 0)

structure Edited (_ : Session) (_ : SessionEvent) (t : Session) : Prop where
  bounded : strlen t.shell.keyBuffer < 256
  shown : t.shell.active = [] → t.AtPrompt

/-- a letter comes behind a line of at most 254, and does not move the prompt off the screen;
BACKSPACE comes behind a letter -/
def Session.CarefulKey (s : Session) : Key → Prop
  | .letter _ => strlen s.shell.keyBuffer < 255 ∧ (s.shell.active = [] →
      s.screen.moved + (2 + strlen s.shell.keyBuffer) ≤ s.screen.sheet.pos)
  | .backspace => s.shell.active = [] → strlen s.shell.keyBuffer ≠ 0
  | _ => True

/-- and no task prints while the line is edited -/
def Careful (s : Session) : SessionEvent → Session → Prop
  | .shell (.key scancode), _ => s.CarefulKey (decodeKey scancode)
  | .paint .., _ => s.shell.active ≠ []
  | _, _ => True

instance Session.CarefulKey.decidable (s : Session) : ∀ k, Decidable (s.CarefulKey k)
  | .letter _ => inferInstanceAs (Decidable (_ ∧ (_ → _)))
  | .backspace => inferInstanceAs (Decidable (_ → _))
  | .other => isTrue trivial
  | .enter => isTrue trivial

instance Careful.decidable (s : Session) : ∀ e t, Decidable (Careful s e t)
  | .shell (.key scancode), _ => Session.CarefulKey.decidable s (decodeKey scancode)
  | .shell (.timer _), _ => isTrue trivial
  | .shell .nic, _ => isTrue trivial
  | .shell .send, _ => isTrue trivial
  | .shell .split, _ => isTrue trivial
  | .shell (.yield _), _ => isTrue trivial
  | .shell .ret, _ => isTrue trivial
  | .print _, _ => isTrue trivial
  | .clear, _ => isTrue trivial
  | .paint .., _ => inferInstanceAs (Decidable (_ ≠ _))

def SessionEvent.isPaint : SessionEvent → Bool
  | .paint .. => true
  | _ => false

section
variable {s t : Session} {e : SessionEvent} {l l' : List Char} {c : Char} {q : Nat}

/-! ## the line -/

theorem str_nul_eq (h : strlen l = 0) : str l 0 = [] := List.length_eq_zero_iff.mp h

theorem str_set_nul (h : q < strlen l) : str (l.set q NUL) 0 = (str l 0).take q := by
  show (l.set q NUL).takeWhile (· ≠ NUL) = (l.takeWhile (· ≠ NUL)).take q
  rw [strlen_eq] at h
  induction l generalizing q with
  | nil => cases h
  | cons x l ih =>
    by_cases hx : x = NUL
    · subst hx
      cases h
    · rw [line_cons _ hx, List.length_cons] at h
      cases q with
      | zero => rfl
      | succ q =>
        rw [List.set_cons_succ, line_cons _ hx, line_cons _ hx, List.take_succ_cons,
          ih (Nat.lt_of_succ_lt_succ h)]

theorem str_backspace (l : List Char) : str (backspace l) 0 = (str l 0).dropLast := by
  unfold backspace
  by_cases h0 : strlen l = 0
  · rw [if_pos h0, str_nul_eq h0]
    rfl
  · rw [if_neg h0, str_set_nul (by omega), List.dropLast_eq_take]
    rfl

/-- the letter is at the end of the line -/
theorem str_append (h : append l c = some l') (hc : c ≠ NUL) : str l' 0 = str l 0 ++ [c] := by
  obtain ⟨hl, rfl⟩ := append_eq h
  rw [strlen_eq] at hl
  rw [strlen_eq]
  show ((l.set _ c).set _ NUL).takeWhile (· ≠ NUL) = l.takeWhile (· ≠ NUL) ++ [c]
  clear h
  induction l with
  | nil => cases hl
  | cons x l ih =>
    by_cases hx : x = NUL
    · subst hx
      cases l with
      | nil => exact absurd hl (by decide)
      | cons y l =>
        show (c :: NUL :: l).takeWhile (· ≠ NUL) = [c]
        rw [line_cons _ hc]
        rfl
    · rw [line_cons _ hx, List.length_cons, List.length_cons] at hl
      rw [line_cons _ hx, List.length_cons, List.set_cons_succ, List.set_cons_succ, line_cons _ hx,
        ih (by omega), List.cons_append]

theorem length_append (h : append l c = some l') : l'.length = l.length := by
  obtain ⟨-, rfl⟩ := append_eq h
  rw [List.length_set, List.length_set]

theorem length_backspace (l : List Char) : (backspace l).length = l.length := by
  unfold backspace
  split
  · rfl
  · exact List.length_set

/-- the split of a line cuts it -/
theorem shellRun_le (l : List Char) :
    strlen (shellRun l).buf ≤ strlen l ∧ (shellRun l).buf.length = l.length := by
  unfold shellRun
  simp only
  split
  · rename_i hp
    rw [strlen_set_nul hp]
    exact ⟨Nat.le_of_lt hp, List.length_set⟩
  · exact ⟨Nat.le_refl _, rfl⟩

theorem strlen_set_nul_le (l : List Char) (q : Nat) : strlen (l.set q NUL) ≤ strlen l := by
  by_cases h : q < strlen l
  · rw [strlen_set_nul h]
    exact Nat.le_of_lt h
  · exact Nat.le_of_eq (strlen_set_ge (by omega))

/-- a letter of the table is no control character -/
theorem letter_plain {scancode : UInt8} (h : decodeKey scancode = .letter c) : c ≠ '\n' ∧ c ≠ BS := by
  have hall : (scAscii.all fun c => c ≠ '\n' ∧ c ≠ BS) = true := by decide +kernel
  exact of_decide_eq_true (List.all_eq_true.mp hall c (letter_mem h))

/-! ## the prompt -/

theorem kprint_single {screen : Screen} (h : screen.Valid) (c : Char) :
    screen.kprint [c] = screen.putchar c := Screen.kprint_eq h [c]

theorem valid_unknown {screen : Screen} (h : screen.Valid) (name : List Char) :
    (unknownCommand screen name).Valid := by
  unfold unknownCommand
  split
  · exact h
  · exact valid_kprint (valid_kprint (valid_kprint h _) _) _

/-- the line is empty behind a new prompt -/
theorem newPrompt_ends {screen : Screen} (h : screen.Valid) (hs : strlen l = 0) :
    (newPrompt screen).sheet.Ends (prompt ++ str l 0) := by
  rw [str_nul_eq hs, List.append_nil]
  exact ends_prompt h

/-! ## the invariant -/

structure Session.Inv (s : Session) : Prop where
  valid : s.screen.Valid
  room : 256 < s.shell.keyBuffer.length
  bounded : strlen s.shell.keyBuffer < 256
  shown : s.shell.active = [] → s.AtPrompt

/-- **A letter.** -/
theorem Session.Inv.letter (h : s.Inv) {b : List Char} (hb : append s.shell.keyBuffer c = some b)
    (hc : c ≠ NUL) (hplain : c ≠ '\n' ∧ c ≠ BS) (ht : t.shell.keyBuffer = b)
    (hact : t.shell.active = s.shell.active) (hscreen : t.screen = s.screen.kprint [c]) :
    Edited s e t ↔ strlen s.shell.keyBuffer < 255 ∧ (s.shell.active = [] →
      s.screen.moved + (2 + strlen s.shell.keyBuffer) ≤ s.screen.sheet.pos) := by
  have hlen : strlen t.shell.keyBuffer = strlen s.shell.keyBuffer + 1 := ht ▸ strlen_append hb hc
  have hends (hs : s.shell.active = []) : t.AtPrompt ↔
      s.screen.moved + (2 + strlen s.shell.keyBuffer) ≤ s.screen.sheet.pos := by
    have hputs := puts h.valid hplain.1 hplain.2
    have hiff := hputs.ends_append_iff (h.shown hs)
    rw [List.length_append] at hiff
    unfold AtPrompt
    rw [ht, str_append hb hc, hscreen, kprint_single h.valid, ← List.append_assoc]
    exact hiff
  constructor
  · intro hr
    have hbound := hr.bounded
    exact ⟨by omega, fun hs => (hends hs).mp (hr.shown (hact ▸ hs))⟩
  · rintro ⟨hbound, hmoved⟩
    exact ⟨by omega, fun hs => (hends (hact ▸ hs)).mpr (hmoved (hact ▸ hs))⟩

/-- **BACKSPACE.** -/
theorem Session.Inv.backspace (h : s.Inv) (ht : t.shell.keyBuffer = Fixes.backspace s.shell.keyBuffer)
    (hact : t.shell.active = s.shell.active) (hscreen : t.screen = s.screen.kprintBackspace) :
    Edited s e t ↔ (s.shell.active = [] → strlen s.shell.keyBuffer ≠ 0) := by
  have hlen : strlen t.shell.keyBuffer = strlen s.shell.keyBuffer - 1 := ht ▸ strlen_backspace _
  have hbound := h.bounded
  have hends (hs : s.shell.active = []) : t.AtPrompt ↔ strlen s.shell.keyBuffer ≠ 0 := by
    have hprompt := h.shown hs
    have hpos : 0 < s.screen.sheet.pos := by
      have hle := hprompt.length_le
      rw [List.length_append] at hle
      exact Nat.lt_of_lt_of_le (show 0 < 2 + _ by omega) hle
    have herases := erases h.valid hpos
    unfold AtPrompt at hprompt ⊢
    rw [ht, str_backspace, hscreen]
    constructor
    · intro hend h0
      rw [str_nul_eq h0] at hprompt hend
      exact herases.not_ends (l := []) hprompt (prompt_distinct _) hend
    · intro hne
      have hline : str s.shell.keyBuffer 0 ≠ [] := fun he => hne (congrArg List.length he)
      refine herases.ends (x := (str s.shell.keyBuffer 0).getLast hline) ?_
      rwa [List.append_assoc, List.dropLast_concat_getLast]
  constructor
  · intro hr hs
    exact (hends hs).mp (hr.shown (hact ▸ hs))
  · intro hne
    exact ⟨by omega, fun hs => (hends (hact ▸ hs)).mpr (hne (hact ▸ hs))⟩

/-- a command that has returned, or that was none -/
theorem edited_newPrompt (ht : strlen t.shell.keyBuffer = 0) {screen : Screen} (hv : screen.Valid)
    (hscreen : t.screen = newPrompt screen) : Edited s e t where
  bounded := ht.trans_lt (by decide)
  shown _ := by
    unfold Session.AtPrompt
    rw [hscreen]
    exact newPrompt_ends hv ht

/-- **a key** -/
theorem Session.Inv.key {scancode : UInt8} (h : s.Inv)
    (hst : s.step (.shell (.key scancode)) = some t) :
    (t.screen.Valid ∧ t.shell.keyBuffer.length = s.shell.keyBuffer.length) ∧
      (Edited s (.shell (.key scancode)) t ↔ Careful s (.shell (.key scancode)) t) := by
  obtain ⟨shell, hshell, rfl⟩ := Option.map_eq_some_iff.mp hst
  have hkey : (if s.shell.intr then s.shell.keyboardCallback scancode else none) = some shell := hshell
  by_cases hintr : s.shell.intr
  · rw [if_pos hintr] at hkey
    unfold Shell.keyboardCallback at hkey
    unfold Careful Session.CarefulKey Session.echo
    dsimp only
    cases hd : decodeKey scancode with
    | other =>
      rw [hd] at hkey
      cases hkey
      exact ⟨⟨h.valid, rfl⟩, fun _ => trivial, fun _ => ⟨h.bounded, h.shown⟩⟩
    | backspace =>
      rw [hd] at hkey
      cases hkey
      exact ⟨⟨valid_backspace h.valid, length_backspace _⟩, h.backspace rfl rfl rfl⟩
    | letter c =>
      rw [hd] at hkey
      obtain ⟨b, hb, rfl⟩ := Option.map_eq_some_iff.mp hkey
      exact ⟨⟨valid_kprint h.valid _, length_append hb⟩,
        h.letter hb (letter_ne_nul hd) (letter_plain hd) rfl rfl rfl⟩
    | enter =>
      rw [hd] at hkey
      cases hkey
      obtain ⟨hle, hlen⟩ := shellRun_le s.shell.keyBuffer
      have hbound := h.bounded
      have hvalid := valid_kprint h.valid ['\n']
      cases hcmd : (shellRun s.shell.keyBuffer).cmd with
      | none =>
        have hunknown := valid_unknown hvalid (commandName s.shell.keyBuffer)
        rw [Shell.userInput_none hcmd]
        simp only [if_true]
        refine ⟨⟨valid_kprint hunknown _, ?_⟩, fun _ => trivial, fun _ => ?_⟩
        · show ((shellRun s.shell.keyBuffer).buf.set 0 NUL).length = _
          rw [List.length_set, hlen]
        · exact edited_newPrompt (strlen_set_zero _) hunknown rfl
      | some cmd =>
        rw [Shell.userInput_some hcmd]
        refine ⟨⟨?_, hlen⟩, fun _ => trivial, fun _ => ⟨?_, fun hnil => by cases hnil⟩⟩
        · show (if some cmd = none then _ else s.screen.kprint ['\n']).Valid
          rw [if_neg (by simp)]
          exact hvalid
        · show strlen (shellRun s.shell.keyBuffer).buf < 256
          omega
  · rw [if_neg hintr] at hkey
    cases hkey

theorem active_of_running {s : Shell} {a : Activation} (h : s.running = some a) : s.active ≠ [] :=
  List.ne_nil_of_mem (List.mem_of_find?_eq_some h)

/-- besides keys and the commands that return, nothing in the shell touches the line while no command
runs, and nothing makes the line longer -/
theorem Shell.step_line {s t : Shell} {e : ShellEvent} (hst : s.step e = some t)
    (hkey : ∀ scancode, e ≠ .key scancode) (hret : e ≠ .ret) :
    (t.active = [] → s.active = [] ∧ t.keyBuffer = s.keyBuffer) ∧
      t.keyBuffer.length = s.keyBuffer.length ∧ strlen t.keyBuffer ≤ strlen s.keyBuffer := by
  have hsame (he : e = .nic ∨ e = .send ∨ ∃ next, e = .timer next ∨ e = .yield next) :
      (t.active = [] → s.active = [] ∧ t.keyBuffer = s.keyBuffer) ∧
        t.keyBuffer.length = s.keyBuffer.length ∧ strlen t.keyBuffer ≤ strlen s.keyBuffer := by
    obtain ⟨hbuf, hact⟩ := Shell.step_same hst he
    rw [hbuf, hact]
    exact ⟨fun h => ⟨h, rfl⟩, rfl, Nat.le_refl _⟩
  cases e with
  | key scancode => exact absurd rfl (hkey scancode)
  | timer next => exact hsame (.inr (.inr ⟨next, .inl rfl⟩))
  | nic => exact hsame (.inl rfl)
  | send => exact hsame (.inr (.inl rfl))
  | split =>
    obtain ⟨a, off, hr, -, -, rfl⟩ := Shell.split_some hst
    refine ⟨fun hnil => ?_, List.length_set, strlen_set_nul_le _ _⟩
    have hlen : (s.active.set _ _).length = 0 := congrArg List.length hnil
    rw [List.length_set] at hlen
    exact absurd (List.length_eq_zero_iff.mp hlen) (active_of_running hr)
  | yield next => exact hsame (.inr (.inr ⟨next, .inr rfl⟩))
  | ret => exact absurd rfl hret

theorem Session.echo_same (s : Session) {e : ShellEvent} (hkey : ∀ scancode, e ≠ .key scancode)
    (hret : e ≠ .ret) : s.echo e = s.screen := by
  cases e with
  | key scancode => exact absurd rfl (hkey scancode)
  | ret => exact absurd rfl hret
  | timer next => rfl
  | nic => rfl
  | send => rfl
  | split => rfl
  | yield next => rfl

/-- the line and the screen of an idle shell stay, and the line of another becomes no longer -/
theorem Session.Inv.edited_of_same (h : s.Inv)
    (hle : strlen t.shell.keyBuffer ≤ strlen s.shell.keyBuffer)
    (hidle : t.shell.active = [] → s.shell.active = [] ∧ t.shell.keyBuffer = s.shell.keyBuffer ∧
      t.screen = s.screen) : Edited s e t where
  bounded := Nat.lt_of_le_of_lt hle h.bounded
  shown hnil := by
    obtain ⟨hact, hbuf, hscreen⟩ := hidle hnil
    unfold Session.AtPrompt
    rw [hbuf, hscreen]
    exact h.shown hact

/-- `user_input` behind the handler -/
theorem Session.Inv.ret (h : s.Inv) (hst : s.step (.shell .ret) = some t) :
    (t.screen.Valid ∧ t.shell.keyBuffer.length = s.shell.keyBuffer.length) ∧
      Edited s (.shell .ret) t := by
  obtain ⟨shell, hshell, rfl⟩ := Option.map_eq_some_iff.mp hst
  have hbuf : shell.keyBuffer = s.shell.keyBuffer.set 0 NUL := by
    simp only [Shell.step] at hshell
    cases hr : s.shell.running with
    | none =>
      rw [hr] at hshell
      cases hshell
    | some a =>
      rw [hr] at hshell
      obtain ⟨-, hsome⟩ := Option.ite_none_left_eq_some.mp hshell
      cases hsome
      rfl
  refine ⟨⟨valid_kprint h.valid _, ?_⟩, edited_newPrompt ?_ h.valid rfl⟩
  · show shell.keyBuffer.length = _
    rw [hbuf, List.length_set]
  · show strlen shell.keyBuffer = 0
    rw [hbuf, strlen_set_zero]

/-- **Step rule.** -/
theorem Session.Inv.step (h : s.Inv) (hst : s.step e = some t) :
    (t.screen.Valid ∧ t.shell.keyBuffer.length = s.shell.keyBuffer.length) ∧
      (Careful s e t → Edited s e t) ∧ (e.isPaint = false → Edited s e t → Careful s e t) := by
  have hfree (hvalid : t.screen.Valid) (hlen : t.shell.keyBuffer.length = s.shell.keyBuffer.length)
      (hr : Edited s e t) (hc : Careful s e t) : (t.screen.Valid ∧
        t.shell.keyBuffer.length = s.shell.keyBuffer.length) ∧
      (Careful s e t → Edited s e t) ∧ (e.isPaint = false → Edited s e t → Careful s e t) :=
    ⟨⟨hvalid, hlen⟩, fun _ => hr, fun _ _ => hc⟩
  -- the command that runs prints, so that the shell is not idle
  have hbusy {screen : Screen} (hact : s.shell.active ≠ []) :
      Edited s e { s with screen := screen } :=
    h.edited_of_same (Nat.le_refl _) fun hnil => absurd hnil hact
  cases e with
  | shell e =>
    by_cases hkey : ∃ scancode, e = .key scancode
    · obtain ⟨scancode, rfl⟩ := hkey
      obtain ⟨hkept, hiff⟩ := h.key hst
      exact ⟨hkept, hiff.mpr, fun _ => hiff.mp⟩
    by_cases hret : e = .ret
    · subst hret
      obtain ⟨hkept, hr⟩ := h.ret hst
      exact hfree hkept.1 hkept.2 hr trivial
    have hkey' : ∀ scancode, e ≠ .key scancode := fun scancode he => hkey ⟨scancode, he⟩
    obtain ⟨shell, hshell, rfl⟩ := Option.map_eq_some_iff.mp hst
    obtain ⟨hidle, hlen, hle⟩ := Shell.step_line hshell hkey' hret
    have hecho := s.echo_same hkey' hret
    refine hfree (show (s.echo e).Valid from hecho ▸ h.valid) hlen
      (h.edited_of_same hle fun hnil => ⟨(hidle hnil).1, (hidle hnil).2, hecho⟩) ?_
    cases e with
    | key scancode => exact absurd rfl (hkey' scancode)
    | timer next => trivial
    | nic => trivial
    | send => trivial
    | split => trivial
    | yield next => trivial
    | ret => trivial
  | print message =>
    obtain ⟨hrun, hsome⟩ := Option.ite_none_right_eq_some.mp hst
    cases hsome
    obtain ⟨a, ha⟩ := Option.isSome_iff_exists.mp hrun
    exact hfree (valid_kprint h.valid _) rfl (hbusy (active_of_running ha)) trivial
  | clear =>
    obtain ⟨hrun, hsome⟩ := Option.ite_none_right_eq_some.mp hst
    cases hsome
    obtain ⟨a, ha, -⟩ := Option.map_eq_some_iff.mp hrun
    exact hfree (valid_clear _) rfl (hbusy (active_of_running ha)) trivial
  | paint message col row =>
    obtain ⟨⟨-, -, hne, hbs⟩, hsome⟩ := Option.ite_none_right_eq_some.mp hst
    cases hsome
    exact ⟨⟨valid_kprintAt h.valid hne hbs col row, rfl⟩, fun hact => hbusy hact,
      fun hpaint => by cases hpaint⟩

theorem Session.Inv.next (h : s.Inv) (hst : s.step e = some t) (hr : Edited s e t) : t.Inv := by
  obtain ⟨⟨hvalid, hlen⟩, -⟩ := h.step hst
  exact ⟨hvalid, hlen ▸ h.room, hr.bounded, hr.shown⟩

/-- on the text screen, and on any of more than 256 places and a row, the prompt never moves off -/
theorem Session.Inv.carefulKey_letter (h : s.Inv)
    (hsize : 256 + s.screen.cols < s.screen.rows * s.screen.cols) (c : Char) :
    s.CarefulKey (.letter c) ↔ strlen s.shell.keyBuffer < 255 := by
  refine and_iff_left_of_imp fun hshort hnil => ?_
  have hle := (h.shown hnil).length_le
  rw [List.length_append] at hle
  exact moved_le h.valid (show 2 + strlen s.shell.keyBuffer + _ < _ by omega) hle

/-- with an empty line behind the first prompt -/
theorem inv_boot {screen : Screen} (h : screen.Valid) (nicPresent : Bool) (b : Char)
    (behind : List Char) : (bootSession screen nicPresent b behind).Inv := by
  have hlen : strlen (List.replicate 256 NUL ++ b :: behind) = 0 := rfl
  refine ⟨valid_kprint h _, ?_, ?_, fun _ => ?_⟩
  · show 256 < (List.replicate 256 NUL ++ b :: behind).length
    rw [List.length_append, List.length_replicate, List.length_cons]
    omega
  · show strlen (List.replicate 256 NUL ++ b :: behind) < 256
    rw [hlen]
    decide
  · have hv := valid_kprint h "Welcome to noxis\nType HELP for a list of commands".toList
    show (screen.kprint ("Welcome to noxis\nType HELP for a list of commands".toList ++
      '\n' :: prompt)).sheet.Ends (prompt ++ str (List.replicate 256 NUL ++ b :: behind) 0)
    rw [kprint_append h]
    exact newPrompt_ends hv hlen

end

/-- the text screen, empty, with the cursor at its top -/
def blankScreen : Screen := .text { vidmem := fun _ => (' ', WHITE_ON_BLACK), cursor := 0 }

/-- the key A, in a shell whose interrupts are on -/
theorem letter_step {s : Session} (h : s.Inv) (hintr : s.shell.intr = true) :
    ∃ t, s.step (.shell (.key 0x1E)) = some t ∧ t.shell.intr = true ∧
      strlen t.shell.keyBuffer = strlen s.shell.keyBuffer + 1 := by
  have hroom := h.room
  have hbound := h.bounded
  have hd : decodeKey 0x1E = .letter 'A' := by decide
  obtain ⟨b, hb⟩ : ∃ b, append s.shell.keyBuffer 'A' = some b := ⟨_, if_pos (by omega)⟩
  have hcall : s.shell.step (.key 0x1E) = some { s.shell with keyBuffer := b } := by
    show (if s.shell.intr then s.shell.keyboardCallback 0x1E else none) = _
    rw [if_pos hintr]
    simp only [Shell.keyboardCallback, hd, hb, Option.map_some]
  refine ⟨⟨{ s.shell with keyBuffer := b }, s.echo (.key 0x1E)⟩, ?_, hintr,
    strlen_append hb (by decide)⟩
  show (s.shell.step (.key 0x1E)).map _ = _
  rw [hcall, Option.map_some]

/-- a letter key is kept down: the line reaches its 256th letter -/
theorem not_edited_letters {s : Session} (h : s.Inv) (hintr : s.shell.intr = true) (n : Nat)
    (hn : strlen s.shell.keyBuffer + n = 255) :
    ¬ Always (stepOf Session.step) Edited s (List.replicate (n + 1) (.shell (.key 0x1E))) := by
  induction n generalizing s with
  | zero =>
    intro hr
    obtain ⟨t, ht, -, hlen⟩ := letter_step h hintr
    have hbound := (hr t ht).1.bounded
    omega
  | succ n ih =>
    intro hr
    obtain ⟨t, ht, hintr', hlen⟩ := letter_step h hintr
    obtain ⟨hr0, hrest⟩ := hr t ht
    exact ih (h.next ht hr0) hintr' (by omega) hrest

end Noxis.Fixes
