import Noxis.Net.Task
import Noxis.Wm.Explorer
import Noxis.Wm.Grid

/-!
# The commands of the terminal window

`term_exec` of kernel/desktop.c takes a line apart with one index into it, and runs a command.

* `termParse`          the loops over the line;
* `words`              the words that a line is made of;
* `action`             the command of a line, with what it uses of the line;
* `Files.termExec`     a line is run;
* `termParse_eq`       the loops find the words, and leave nothing of the line;
* `action_iff`         **every line is run as its words say**, save an echo with a text;
* `action_fails`       `echo hi` prints nothing.
-/

namespace Noxis.Wm

/-- the characters before the prompt's two and one behind are left in a row -/
def termInputMax : Nat := wmTermCols - 2 - 1

/-- a string literal -/
def text (s : String) : List UInt8 := s.toList.map fun c => UInt8.ofNat c.toNat

/-- a string of the terminal as the file system has it -/
def bytes (s : List UInt8) : List Byte := s.map UInt8.toBitVec

/-! ## the line is taken apart -/

/-- `while (line[i] == ' ') i++;`, with `line + i` -/
def skipBlanks : List UInt8 → List UInt8
  | [] => []
  | c :: l => if c = blank then skipBlanks l else c :: l

/-- `while (line[i] && line[i] != ' ' && n < TERM_INPUT_MAX)`: the copy, and `line + i` -/
def copyWord : Nat → List UInt8 → List UInt8 × List UInt8
  | 0, l => ([], l)
  | _ + 1, [] => ([], [])
  | n + 1, c :: l =>
    if c ≠ blank then
      let r := copyWord n l
      (c :: r.1, r.2)
    else ([], c :: l)

/-- `while (line[i] && r < TERM_INPUT_MAX)` -/
def copyRest : Nat → List UInt8 → List UInt8 × List UInt8
  | 0, l => ([], l)
  | _ + 1, [] => ([], [])
  | n + 1, c :: l =>
    let r := copyRest n l
    (c :: r.1, r.2)

/-- `c += 'a' - 'A'` -/
def lower (c : UInt8) : UInt8 := if 0x41 ≤ c ∧ c ≤ 0x5A then c + 0x20 else c

/-- what the commands are given -/
structure Words where
  cmd : List UInt8
  arg : List UInt8
  rest : List UInt8
  /-- what echo prints -/
  echo : List UInt8
  deriving DecidableEq

/-- the loops of `term_exec`; `echo` prints `line + i` -/
def termParse (line : List UInt8) : Words :=
  let (cmd, l) := copyWord termInputMax (skipBlanks line)
  let (arg, l) := copyWord termInputMax (skipBlanks l)
  let (rest, l) := copyRest termInputMax (skipBlanks l)
  ⟨cmd.map lower, arg, rest, l⟩

/-- the command, with what it uses -/
inductive Action where
  | nothing
  | help
  | clear
  | echo (s : List UInt8)
  | ver
  | uptime
  | ls
  | cat (name : List UInt8)
  | write (file s : List UInt8)
  | rm (name : List UInt8)
  | ping (arg : List UInt8)
  | poweroff
  | exit
  | unknown (cmd : List UInt8)
  deriving DecidableEq

/-- the chain of `strcmp` -/
def action (w : Words) : Action :=
  if w.cmd = [] then .nothing
  else if w.cmd = text "help" then .help
  else if w.cmd = text "clear" ∨ w.cmd = text "cls" then .clear
  else if w.cmd = text "echo" then .echo w.echo
  else if w.cmd = text "ver" ∨ w.cmd = text "version" then .ver
  else if w.cmd = text "uptime" then .uptime
  else if w.cmd = text "ls" ∨ w.cmd = text "dir" then .ls
  else if w.cmd = text "cat" ∨ w.cmd = text "type" then .cat w.arg
  else if w.cmd = text "write" then .write w.arg w.rest
  else if w.cmd = text "rm" ∨ w.cmd = text "del" then .rm w.arg
  else if w.cmd = text "ping" then .ping w.arg
  else if w.cmd = text "end" ∨ w.cmd = text "poweroff" then .poweroff
  else if w.cmd = text "exit" ∨ w.cmd = text "quit" then .exit
  else .unknown w.cmd

/-! ## the commands -/

/-- what is outside of the desktop while a command runs -/
structure Env where
  fs : Fs
  /-- `get_ticks () / HZ` -/
  seconds : Int
  /-- `open (path, O_CREAT | O_RDWR)` gives a descriptor -/
  opens : List Byte → Bool
  /-- what `write` gives for it -/
  wrote : List Byte → List UInt8 → Int
  /-- NET_RESOLVE -/
  resolve : List UInt8 → Option (BitVec 32)
  /-- NET_PING: the replies and their times, if the next hop is there -/
  ping : BitVec 32 → Option (Int × (Fin 4 → Nat))

/-- the digits that the loop of `term_put_int` stores, the last one of them first -/
def putDigits : Nat → Int → List UInt8
  | 0, _ => []
  | n + 1, value =>
    let d := UInt8.ofNat (0x30 + value.tmod 10).toNat
    if value.tdiv 10 = 0 then [d] else d :: putDigits n (value.tdiv 10)

def termPutInt (value : Int) : List UInt8 :=
  if value < 0 then 0x2D :: (putDigits 12 (int (-value))).reverse else (putDigits 12 value).reverse

/-- `e->kind` -/
def kindChar : Kind → UInt8
  | .unknown => 0x2D
  | .file => 0x66
  | .dir => 0x64
  | .char => 0x63
  | .block => 0x62

/-- `term_puts_row` -/
def termPutsRow (e : Entry) : List UInt8 :=
  let name := ((e.name.takeWhile (· ≠ 0)).take 12).map UInt8.ofBitVec
  name ++ List.replicate (13 - name.length) blank ++
    kindChar e.kind :: (List.replicate 4 blank ++ termPutInt e.size ++ [newline])

/-- `"/"` and the name, as `term_cat`, `term_rm` and `term_write` build it -/
def termPath (name : List UInt8) : List Byte := pathOf (bytes name)

/-- what `cat` shows for a byte of the file -/
def catChar (c : Byte) : List UInt8 :=
  if c = 0x0A then [newline]
  else if c = 0x09 then [blank]
  else if 0x20 ≤ c ∧ c ≤ 0x7E then [UInt8.ofBitVec c]
  else if c = 0x0D then []
  else [0x2E]

def termCatMax : Nat := wmTermCols * (wmTermRows - 2)

/-- the loop of `term_cat`: what it prints, and `shown`; a read gives at least one byte -/
def catLoop : Nat → List Byte → Nat → List UInt8 × Nat
  | 0, _, shown => ([], shown)
  | n + 1, file, shown =>
    if file = [] ∨ ¬ shown < termCatMax then ([], shown)
    else
      let out := (file.take 512).flatMap catChar
      let r := catLoop n (file.drop 512) (shown + out.length)
      (out ++ r.1, r.2)

def I_REGULAR : Nat := 0x8000

/-- `term_cat`, with the texts that it prints -/
def termCat (env : Env) (name : List UInt8) : List (List UInt8) :=
  if name = [] then [text "usage: cat <file>\n"]
  else if ((env.fs.stat (termPath name)).map fun st => st.1 &&& I_TYPE_MASK) ≠ some I_REGULAR then
    [text "cat: not a file: ", name, [newline]]
  else
    match env.fs.file (termPath name) with
    | none => [text "cat: cannot open: ", name, [newline]]
    | some file =>
      let (out, shown) := catLoop (file.length + 1) file 0
      out :: if shown ≥ termCatMax then [text "\n[...truncated]\n"] else []

/-- `ip_to_str` -/
def ipToStr (ip : BitVec 32) : List UInt8 :=
  (List.range 4).flatMap fun i =>
    let v := ip.toNat / 2 ^ (24 - 8 * i) % 256
    (if i ≠ 0 then [0x2E] else []) ++
      ((if v ≥ 100 then [UInt8.ofNat (0x30 + v / 100)] else []) ++
        ((if v ≥ 10 then [UInt8.ofNat (0x30 + v / 10 % 10)] else []) ++ [UInt8.ofNat (0x30 + v % 10)]))

/-- the line for one echo request -/
def pingLine (ip : BitVec 32) (i : Fin 4) (rtt : Nat) : List (List UInt8) :=
  if rtt = 0xFFFFFFFF then [text "timeout for icmp_seq ", termPutInt (i.val + 1), [newline]]
  else
    [text "reply from ", ipToStr ip, text ": icmp_seq=", termPutInt (i.val + 1), text " time=",
      termPutInt (int rtt), text " ms\n"]

/-- `term_ping`; a dotted quad is parsed as the network task does it -/
def termPing (env : Env) (arg : List UInt8) : List (List UInt8) :=
  if arg = [] then [text "usage: ping <a.b.c.d | name>\n"]
  else
    match (Net.dottedQuad (bytes arg)).or (env.resolve arg) with
    | none => [text "cannot resolve: ", arg, [newline]]
    | some ip =>
      [text "PING ", arg, text " (", ipToStr ip, text "): 4 requests\n"] ++
        match env.ping ip with
        | none => [text "no ARP response from ", ipToStr ip, [newline]]
        | some (received, rtts) =>
          ((List.finRange 4).flatMap fun i => pingLine ip i (rtts i)) ++
            [termPutInt received, text " of 4 received\n"]

/-- the texts of `help`, with the line breaks of three of them in the literal -/
def helpTexts : List (List UInt8) :=
  [text "help clear echo ver uptime exit\n", text "ls | dir      list files\n",
    text "cat <file>    show a file\n", text "write <f> <t> create/write a file\n",
    text "rm <file>     delete a file\n", text "ping <ip|name> 4 icmp echoes\n",
    text "end | poweroff  shut down\n"]

/-- texts go to the terminal one behind the other -/
def Files.prints (f : Files) (texts : List (List UInt8)) : Files :=
  { f with desk := texts.foldl Desktop.wmTermPuts f.desk }

/-- `ls` -/
def Files.termLs (f : Files) (env : Env) : Files :=
  let (f, n) := f.explRefresh env.fs
  if n < 0 then f.prints [text "ls: cannot read /\n"]
  else
    f.prints (text "/\n" ::
      (List.range f.desk.expl.nEntries.toNat).map fun k => termPutsRow (f.entries k))

/-- `term_rm` -/
def Files.termRm (f : Files) (env : Env) (name : List UInt8) : Files :=
  if name = [] then f.prints [text "usage: rm <file>\n"]
  else if ¬ env.fs.unlinked (termPath name) then
    f.prints [text "rm: cannot remove: ", name, [newline]]
  else ((f.prints [text "removed ", name, [newline]]).explRefresh env.fs).1

/-- `term_write` -/
def Files.termWrite (f : Files) (env : Env) (file s : List UInt8) : Files :=
  if file = [] then f.prints [text "usage: write <file> <text>\n"]
  else if ¬ env.opens (termPath file) then
    f.prints [text "write: cannot open: ", file, [newline]]
  else
    let f := if env.wrote (termPath file) s ≠ s.length then f.prints [text "write: short write\n"]
      else f
    ((f.prints [text "wrote ", termPutInt s.length, text " bytes to ", file, [newline]]).explRefresh
      env.fs).1

/-- a command is run; `none` where `power_off` does not return -/
def Action.run (env : Env) (f : Files) : Action → Option Files
  | .nothing => some f
  | .help => some (f.prints helpTexts)
  | .clear => some { f with desk := f.desk.wmTermClear }
  | .echo s => some (f.prints [s, [newline]])
  | .ver => some (f.prints [text "noxisOS desktop, TTY window\n"])
  | .uptime => some (f.prints [text "up ", termPutInt env.seconds, text " s\n"])
  | .ls => some (f.termLs env)
  | .cat name => some (f.prints (termCat env name))
  | .write file s => some (f.termWrite env file s)
  | .rm name => some (f.termRm env name)
  | .ping arg => some (f.prints (termPing env arg))
  | .poweroff => none
  | .exit => some { f with desk := { f.desk with running := 0 } }
  | .unknown cmd => some (f.prints [text "unknown: ", cmd, [newline]])

/-- `term_exec` -/
def Files.termExec (f : Files) (env : Env) (line : List UInt8) : Option Files :=
  (action (termParse line)).run env f

/-! ## words -/

/-- the words of a line: the first one in small letters, the second one, what is behind the blanks that
follow it, and what is behind the blanks that follow the first one -/
def words (line : List UInt8) : Words :=
  let l := line.dropWhile (· = blank)
  let l' := (l.dropWhile (· ≠ blank)).dropWhile (· = blank)
  { cmd := (l.takeWhile (· ≠ blank)).map lower
    arg := l'.takeWhile (· ≠ blank)
    rest := (l'.dropWhile (· ≠ blank)).dropWhile (· = blank)
    echo := l' }

section
variable {line l : List UInt8} {n : Nat}

theorem skipBlanks_eq (l : List UInt8) : skipBlanks l = l.dropWhile (· = blank) := by
  induction l with
  | nil => rfl
  | cons c l ih =>
    rw [skipBlanks, List.dropWhile_cons]
    by_cases hc : c = blank
    · rw [if_pos hc, if_pos (decide_eq_true hc), ih]
    · rw [if_neg hc, if_neg (by rw [decide_eq_true_iff]; exact hc)]

/-- the bound of the copy is not met -/
theorem copyWord_eq (h : l.length ≤ n) :
    copyWord n l = (l.takeWhile (· ≠ blank), l.dropWhile (· ≠ blank)) := by
  induction l generalizing n with
  | nil =>
    cases n with
    | zero => rfl
    | succ n => rfl
  | cons c l ih =>
    obtain ⟨n, rfl⟩ : ∃ m, n = m + 1 := by
      rw [List.length_cons] at h
      exact ⟨n - 1, by omega⟩
    rw [copyWord, List.takeWhile_cons, List.dropWhile_cons]
    by_cases hc : c ≠ blank
    · rw [if_pos hc, if_pos (decide_eq_true hc), if_pos (decide_eq_true hc),
        ih (Nat.le_of_succ_le_succ h)]
    · rw [if_neg hc, if_neg (by rw [decide_eq_true_iff]; exact hc),
        if_neg (by rw [decide_eq_true_iff]; exact hc)]

theorem copyRest_eq (h : l.length ≤ n) : copyRest n l = (l, []) := by
  induction l generalizing n with
  | nil =>
    cases n with
    | zero => rfl
    | succ n => rfl
  | cons c l ih =>
    obtain ⟨n, rfl⟩ : ∃ m, n = m + 1 := by
      rw [List.length_cons] at h
      exact ⟨n - 1, by omega⟩
    rw [copyRest, ih (Nat.le_of_succ_le_succ h)]

theorem length_dropWhile_le {p : UInt8 → Bool} (h : l.length ≤ n) : (l.dropWhile p).length ≤ n :=
  Nat.le_trans (List.dropWhile_suffix p).length_le h

/-- **The loops find the words**, and the index stands at the end of the line. -/
theorem termParse_eq (h : line.length ≤ termInputMax) :
    termParse line = ⟨(words line).cmd, (words line).arg, (words line).rest, []⟩ := by
  have h1 : (line.dropWhile (· = blank)).length ≤ termInputMax := length_dropWhile_le h
  have h2 := length_dropWhile_le (p := (· = blank))
    (length_dropWhile_le (p := (· ≠ blank)) h1)
  have h3 := length_dropWhile_le (p := (· = blank))
    (length_dropWhile_le (p := (· ≠ blank)) h2)
  unfold termParse
  rw [skipBlanks_eq, copyWord_eq h1]
  simp only
  rw [skipBlanks_eq, copyWord_eq h2]
  simp only
  rw [skipBlanks_eq, copyRest_eq h3]
  rfl

/-- only echo uses what it prints -/
theorem action_congr {w w' : Words} (hcmd : w.cmd = w'.cmd) (harg : w.arg = w'.arg)
    (hrest : w.rest = w'.rest) :
    action w = action w' ↔ w.echo = w'.echo ∨ w'.cmd ≠ text "echo" := by
  unfold action
  rw [hcmd, harg, hrest]
  by_cases he : w'.cmd = text "echo"
  · rw [he]
    have h0 : text "echo" ≠ [] := by decide
    have h1 : text "echo" ≠ text "help" := by decide
    have h2 : ¬ (text "echo" = text "clear" ∨ text "echo" = text "cls") := by decide
    rw [if_neg h0, if_neg h0, if_neg h1, if_neg h1, if_neg h2, if_neg h2, if_pos rfl, if_pos rfl]
    exact ⟨fun h => .inl (Action.echo.inj h), fun h => h.elim (congrArg Action.echo) (absurd rfl)⟩
  · rw [if_neg he, if_neg he]
    exact iff_of_true rfl (.inr he)

/-- there is something to print exactly if there is a second word -/
theorem echo_eq_nil : (words line).echo = [] ↔ (words line).arg = [] := by
  obtain ⟨l, hl⟩ : ∃ l, l = (line.dropWhile (· = blank)).dropWhile (· ≠ blank) := ⟨_, rfl⟩
  unfold words
  simp only
  rw [← hl]
  have hhead := List.head?_dropWhile_not (· = blank) l
  cases hdrop : l.dropWhile (· = blank) with
  | nil => exact iff_of_true rfl rfl
  | cons c t =>
    rw [hdrop, List.head?_cons] at hhead
    have hc : c ≠ blank := of_decide_eq_false hhead
    rw [List.takeWhile_cons, if_pos (decide_eq_true hc)]
    exact iff_of_false (List.cons_ne_nil _ _) (List.cons_ne_nil _ _)

end

/-- a line that can be typed: a string that fits `term_input` -/
structure Line where
  chars : List UInt8
  ne : ∀ c ∈ chars, c ≠ 0
  short : chars.length ≤ termInputMax

/-- **A line is run as its words say**, exactly if it is no echo with a text behind it. -/
theorem action_iff (line : Line) : action (termParse line.chars) = action (words line.chars) ↔
    ¬ ((words line.chars).cmd = text "echo" ∧ (words line.chars).arg ≠ []) := by
  rw [termParse_eq line.short]
  refine Iff.trans (action_congr rfl rfl rfl) ?_
  show [] = (words line.chars).echo ∨ (words line.chars).cmd ≠ text "echo" ↔ _
  rw [eq_comm, echo_eq_nil]
  tauto

/-- `echo hi` -/
def echoHi : Line := ⟨text "echo hi", by decide +kernel, by decide⟩

/-- nothing is printed of it -/
theorem action_fails :
    ¬ ∀ line : Line, action (termParse line.chars) = action (words line.chars) := by
  intro h
  have hwords : words echoHi.chars = ⟨text "echo", text "hi", [], text "hi"⟩ := rfl
  refine (action_iff echoHi).mp (h echoHi) ?_
  rw [hwords]
  exact ⟨rfl, List.cons_ne_nil _ _⟩

end Noxis.Wm
