import Noxis.Lib.Bytes

/-!
# 25-osfs11/kernel/keyboard.c: from scan codes to keys

* `scan`           the bytes that one turn of the loop takes from the buffer;
* `decode`         the key that a scan code stands for, and what it does to the modifiers;
* `keyboardRead`   `keyboard_read`: the keys that it passes to `in_process`.

A byte that is not there is waited for; `none` stands for a call that still waits when its buffer is
at the end.  The LEDs are left out.
-/

namespace Noxis.Tty

/-! ## keys -/

def FLAG_EXT : Nat := 0x0100
def FLAG_SHIFT_L : Nat := 0x0200
def FLAG_SHIFT_R : Nat := 0x0400
def FLAG_CTRL_L : Nat := 0x0800
def FLAG_CTRL_R : Nat := 0x1000
def FLAG_ALT_L : Nat := 0x2000
def FLAG_ALT_R : Nat := 0x4000
def FLAG_PAD : Nat := 0x8000
def MASK_RAW : Nat := 0x01FF

def ESC : Nat := 0x01 + FLAG_EXT
def TAB : Nat := 0x02 + FLAG_EXT
def ENTER : Nat := 0x03 + FLAG_EXT
def BACKSPACE : Nat := 0x04 + FLAG_EXT
def GUI_L : Nat := 0x05 + FLAG_EXT
def GUI_R : Nat := 0x06 + FLAG_EXT
def APPS : Nat := 0x07 + FLAG_EXT
def SHIFT_L : Nat := 0x08 + FLAG_EXT
def SHIFT_R : Nat := 0x09 + FLAG_EXT
def CTRL_L : Nat := 0x0A + FLAG_EXT
def CTRL_R : Nat := 0x0B + FLAG_EXT
def ALT_L : Nat := 0x0C + FLAG_EXT
def ALT_R : Nat := 0x0D + FLAG_EXT
def CAPS_LOCK : Nat := 0x0E + FLAG_EXT
def NUM_LOCK : Nat := 0x0F + FLAG_EXT
def SCROLL_LOCK : Nat := 0x10 + FLAG_EXT
def F1 : Nat := 0x11 + FLAG_EXT
def F2 : Nat := 0x12 + FLAG_EXT
def F3 : Nat := 0x13 + FLAG_EXT
def F4 : Nat := 0x14 + FLAG_EXT
def F5 : Nat := 0x15 + FLAG_EXT
def F6 : Nat := 0x16 + FLAG_EXT
def F7 : Nat := 0x17 + FLAG_EXT
def F8 : Nat := 0x18 + FLAG_EXT
def F9 : Nat := 0x19 + FLAG_EXT
def F10 : Nat := 0x1A + FLAG_EXT
def F11 : Nat := 0x1B + FLAG_EXT
def F12 : Nat := 0x1C + FLAG_EXT
def PRINTSCREEN : Nat := 0x1D + FLAG_EXT
def PAUSEBREAK : Nat := 0x1E + FLAG_EXT
def INSERT : Nat := 0x1F + FLAG_EXT
def DELETE : Nat := 0x20 + FLAG_EXT
def HOME : Nat := 0x21 + FLAG_EXT
def END : Nat := 0x22 + FLAG_EXT
def PAGEUP : Nat := 0x23 + FLAG_EXT
def PAGEDOWN : Nat := 0x24 + FLAG_EXT
def UP : Nat := 0x25 + FLAG_EXT
def DOWN : Nat := 0x26 + FLAG_EXT
def LEFT : Nat := 0x27 + FLAG_EXT
def RIGHT : Nat := 0x28 + FLAG_EXT
def PAD_SLASH : Nat := 0x2C + FLAG_EXT
def PAD_STAR : Nat := 0x2D + FLAG_EXT
def PAD_MINUS : Nat := 0x2E + FLAG_EXT
def PAD_PLUS : Nat := 0x2F + FLAG_EXT
def PAD_ENTER : Nat := 0x30 + FLAG_EXT
def PAD_DOT : Nat := 0x31 + FLAG_EXT
def PAD_0 : Nat := 0x32 + FLAG_EXT
def PAD_1 : Nat := 0x33 + FLAG_EXT
def PAD_2 : Nat := 0x34 + FLAG_EXT
def PAD_3 : Nat := 0x35 + FLAG_EXT
def PAD_4 : Nat := 0x36 + FLAG_EXT
def PAD_5 : Nat := 0x37 + FLAG_EXT
def PAD_6 : Nat := 0x38 + FLAG_EXT
def PAD_7 : Nat := 0x39 + FLAG_EXT
def PAD_8 : Nat := 0x3A + FLAG_EXT
def PAD_9 : Nat := 0x3B + FLAG_EXT
def PAD_UP : Nat := PAD_8
def PAD_DOWN : Nat := PAD_2
def PAD_LEFT : Nat := PAD_4
def PAD_RIGHT : Nat := PAD_6
def PAD_HOME : Nat := PAD_7
def PAD_END : Nat := PAD_1
def PAD_PAGEUP : Nat := PAD_9
def PAD_PAGEDOWN : Nat := PAD_3
def PAD_INS : Nat := PAD_0
def PAD_MID : Nat := PAD_5

def ch (c : Char) : Nat := c.toNat

/-- `keymap[]`: unshifted, shifted, and after 0xE0; the rows from 0x5E on are zero -/
def keymapRows : List (List Nat) :=
  [[0, 0, 0], [ESC, ESC, 0], [ch '1', ch '!', 0], [ch '2', ch '@', 0], [ch '3', ch '#', 0],
   [ch '4', ch '$', 0], [ch '5', ch '%', 0], [ch '6', ch '^', 0], [ch '7', ch '&', 0],
   [ch '8', ch '*', 0], [ch '9', ch '(', 0], [ch '0', ch ')', 0], [ch '-', ch '_', 0],
   [ch '=', ch '+', 0], [BACKSPACE, BACKSPACE, 0], [TAB, TAB, 0], [ch 'q', ch 'Q', 0],
   [ch 'w', ch 'W', 0], [ch 'e', ch 'E', 0], [ch 'r', ch 'R', 0], [ch 't', ch 'T', 0],
   [ch 'y', ch 'Y', 0], [ch 'u', ch 'U', 0], [ch 'i', ch 'I', 0], [ch 'o', ch 'O', 0],
   [ch 'p', ch 'P', 0], [ch '[', ch '{', 0], [ch ']', ch '}', 0], [ENTER, ENTER, PAD_ENTER],
   [CTRL_L, CTRL_L, CTRL_R], [ch 'a', ch 'A', 0], [ch 's', ch 'S', 0], [ch 'd', ch 'D', 0],
   [ch 'f', ch 'F', 0], [ch 'g', ch 'G', 0], [ch 'h', ch 'H', 0], [ch 'j', ch 'J', 0],
   [ch 'k', ch 'K', 0], [ch 'l', ch 'L', 0], [ch ';', ch ':', 0], [0x27, 0x22, 0],
   [0x60, ch '~', 0], [SHIFT_L, SHIFT_L, 0], [0x5C, ch '|', 0], [ch 'z', ch 'Z', 0],
   [ch 'x', ch 'X', 0], [ch 'c', ch 'C', 0], [ch 'v', ch 'V', 0], [ch 'b', ch 'B', 0],
   [ch 'n', ch 'N', 0], [ch 'm', ch 'M', 0], [ch ',', ch '<', 0], [ch '.', ch '>', 0],
   [ch '/', ch '?', PAD_SLASH], [SHIFT_R, SHIFT_R, 0], [ch '*', ch '*', 0], [ALT_L, ALT_L, ALT_R],
   [ch ' ', ch ' ', 0], [CAPS_LOCK, CAPS_LOCK, 0], [F1, F1, 0], [F2, F2, 0], [F3, F3, 0],
   [F4, F4, 0], [F5, F5, 0], [F6, F6, 0], [F7, F7, 0], [F8, F8, 0], [F9, F9, 0], [F10, F10, 0],
   [NUM_LOCK, NUM_LOCK, 0], [SCROLL_LOCK, SCROLL_LOCK, 0], [PAD_HOME, ch '7', HOME],
   [PAD_UP, ch '8', UP], [PAD_PAGEUP, ch '9', PAGEUP], [PAD_MINUS, ch '-', 0],
   [PAD_LEFT, ch '4', LEFT], [PAD_MID, ch '5', 0], [PAD_RIGHT, ch '6', RIGHT],
   [PAD_PLUS, ch '+', 0], [PAD_END, ch '1', END], [PAD_DOWN, ch '2', DOWN],
   [PAD_PAGEDOWN, ch '3', PAGEDOWN], [PAD_INS, ch '0', INSERT], [PAD_DOT, ch '.', DELETE],
   [0, 0, 0], [0, 0, 0], [0, 0, 0], [F11, F11, 0], [F12, F12, 0], [0, 0, 0], [0, 0, 0],
   [0, 0, GUI_L], [0, 0, GUI_R], [0, 0, APPS]]

def keymap (row column : Nat) : Nat := (keymapRows.getD row []).getD column 0

/-- the modifiers and the locks -/
structure Keyboard where
  shiftL : Bool
  shiftR : Bool
  altL : Bool
  altR : Bool
  ctrlL : Bool
  ctrlR : Bool
  capsLock : Bool
  numLock : Bool
  scrollLock : Bool
  deriving DecidableEq, Repr

/-- after `init_keyboard` -/
def Keyboard.init : Keyboard := ⟨false, false, false, false, false, false, false, true, false⟩

/-! ## scan codes -/

/-- the keys with a sequence of their own -/
inductive Special where
  | pauseBreak
  | printScreen (make : Bool)
  deriving DecidableEq, Repr

/-- what one turn finds: `scan_code` and `code_with_E0`, or a special key -/
structure Scan where
  scanCode : Byte
  codeWithE0 : Bool
  special : Option Special
  deriving DecidableEq, Repr

def pausebreakScanCode : List Byte := [0x1D, 0x45, 0xE1, 0x9D, 0xC5]

/-- `for (i = 1; i < 6; i++)`: the bytes still to come -/
def scanPause : List Byte → List Byte → Option (Scan × List Byte)
  | [], s => some (⟨0xE1, false, some .pauseBreak⟩, s)
  | _ :: _, [] => none
  | want :: l, c :: s => if c = want then scanPause l s else some (⟨0xE1, false, none⟩, s)

/-- after 0xE0 0x2A, or 0xE0 0xB7 -/
def scanPrint (want : Byte) (make : Bool) : List Byte → Option (Scan × List Byte)
  | [] => none
  | c :: s =>
    if c = 0xE0 then
      match s with
      | [] => none
      | c :: s =>
        some (⟨c, true, if c = want then some (.printScreen make) else none⟩, s)
    else some (⟨c, false, none⟩, s)

/-- after 0xE0 -/
def scanE0 : List Byte → Option (Scan × List Byte)
  | [] => none
  | c :: s =>
    if c = 0x2A then scanPrint 0x37 true s
    else if c = 0xB7 then scanPrint 0xAA false s
    else some (⟨c, true, none⟩, s)

/-- what a turn takes from the buffer; `none` if the buffer ends before -/
def scan : List Byte → Option (Scan × List Byte)
  | [] => none
  | c :: s =>
    if c = 0xE1 then scanPause pausebreakScanCode s
    else if c = 0xE0 then scanE0 s
    else some (⟨c, false, none⟩, s)

/-! ## the common path -/

/-- `switch (key)`; both Alt keys set `alt_l` -/
def Keyboard.switch (k : Keyboard) (key : Nat) (make : Bool) : Keyboard :=
  if key = SHIFT_L then { k with shiftL := make }
  else if key = SHIFT_R then { k with shiftR := make }
  else if key = CTRL_L then { k with ctrlL := make }
  else if key = CTRL_R then { k with ctrlR := make }
  else if key = ALT_L then { k with altL := make }
  else if key = ALT_R then { k with altL := make }
  else if key = CAPS_LOCK then if make then { k with capsLock := !k.capsLock } else k
  else if key = NUM_LOCK then if make then { k with numLock := !k.numLock } else k
  else if key = SCROLL_LOCK then if make then { k with scrollLock := !k.scrollLock } else k
  else k

/-- the local variables that live as long as the call -/
structure Local where
  key : Nat
  make : Bool
  deriving DecidableEq, Repr

/-- not `FLAG_BREAK` -/
def Scan.make (x : Scan) : Bool := !x.scanCode.getLsbD 7

/-- `keyrow[column]` -/
def Scan.key (k : Keyboard) (x : Scan) : Nat :=
  let row := x.scanCode.toNat % 0x80
  let caps := k.shiftL || k.shiftR
  let caps := if k.capsLock ∧ ch 'a' ≤ keymap row 0 ∧ keymap row 0 ≤ ch 'z' then !caps else caps
  keymap row (if x.codeWithE0 then 2 else if caps then 1 else 0)

/-- `make or break`, the key, and the modifiers after it -/
def decode (k : Keyboard) (x : Scan) : Keyboard × Local :=
  let key := x.key k
  (k.switch key x.make, ⟨key, x.make⟩)

/-- a key of the num pad, by the num lock -/
def padKey (numLock : Bool) (key : Nat) : Nat :=
  if key = PAD_SLASH then ch '/'
  else if key = PAD_STAR then ch '*'
  else if key = PAD_MINUS then ch '-'
  else if key = PAD_PLUS then ch '+'
  else if key = PAD_ENTER then ENTER
  else if numLock then
    if PAD_0 ≤ key ∧ key ≤ PAD_9 then key - PAD_0 + ch '0'
    else if key = PAD_DOT then ch '.'
    else key
  else if key = PAD_HOME then HOME
  else if key = PAD_END then END
  else if key = PAD_PAGEUP then PAGEUP
  else if key = PAD_PAGEDOWN then PAGEDOWN
  else if key = PAD_INS then INSERT
  else if key = PAD_UP then UP
  else if key = PAD_DOWN then DOWN
  else if key = PAD_LEFT then LEFT
  else if key = PAD_RIGHT then RIGHT
  else if key = PAD_DOT then DELETE
  else key

/-- the flags of the modifiers -/
def Keyboard.flags (k : Keyboard) : Nat :=
  (if k.shiftL then FLAG_SHIFT_L else 0) ||| (if k.shiftR then FLAG_SHIFT_R else 0) |||
    (if k.ctrlL then FLAG_CTRL_L else 0) ||| (if k.ctrlR then FLAG_CTRL_R else 0) |||
    (if k.altL then FLAG_ALT_L else 0) ||| (if k.altR then FLAG_ALT_R else 0)

/-- the key that `in_process` gets -/
def Keyboard.pressed (k : Keyboard) (key : Nat) : Nat :=
  let pad := PAD_SLASH ≤ key ∧ key ≤ PAD_9
  (if pad then padKey k.numLock key else key) ||| (k.flags ||| if pad then FLAG_PAD else 0)

/-- what a special sequence does to the local variables; Pause does not set `make` -/
def Local.special (l : Local) : Option Special → Local
  | none => l
  | some .pauseBreak => { l with key := PAUSEBREAK }
  | some (.printScreen make) => ⟨PRINTSCREEN, make⟩

/-- one turn of the loop: the modifiers, the local variables, and what is passed to `in_process` -/
def turn (k : Keyboard) (l : Local) (x : Scan) : Keyboard × Local × List Nat :=
  let l := l.special x.special
  let (k, l) := if l.key ≠ PAUSEBREAK ∧ l.key ≠ PRINTSCREEN then decode k x else (k, l)
  if l.make then (k, { l with key := k.pressed l.key }, [k.pressed l.key]) else (k, l, [])

/-- `while (kb_in.count > 0)`, each turn with at least one byte less -/
def readLoop : Nat → Keyboard → Local → List Byte → Option (Keyboard × List Nat)
  | _, k, _, [] => some (k, [])
  | 0, _, _, _ :: _ => none
  | n + 1, k, l, c :: s =>
    (scan (c :: s)).bind fun (x, rest) =>
      let (k, l, out) := turn k l x
      (readLoop n k l rest).map fun (k, keys) => (k, out ++ keys)

/-- one call with `buf` in the buffer; `make` is what the uninitialized local variable has in it -/
def keyboardRead (make : Bool) (k : Keyboard) (buf : List Byte) : Option (Keyboard × List Nat) :=
  readLoop buf.length k ⟨0, make⟩ buf

/-- calls one after the other, `junk` being what `make` has in it at the start of each -/
def keyboardReads (junk : Nat → Bool) (k : Keyboard) : List (List Byte) → Option (Keyboard × List Nat)
  | [] => some (k, [])
  | buf :: bufs =>
    (keyboardRead (junk 0) k buf).bind fun (k, keys) =>
      (keyboardReads (fun n => junk (n + 1)) k bufs).map fun (k, more) => (k, keys ++ more)

/-! ## the table -/

/-- what holds of every key of the table, and of 0, holds of `keymap` -/
theorem keymap_all {P : Nat → Prop} (h : ∀ r ∈ keymapRows, ∀ key ∈ r, P key) (h0 : P 0)
    (row column : Nat) : P (keymap row column) := by
  unfold keymap
  by_cases hr : row < keymapRows.length
  · rw [List.getD_eq_getElem _ _ hr]
    by_cases hc : column < keymapRows[row].length
    · rw [List.getD_eq_getElem _ _ hc]
      exact h _ (List.getElem_mem hr) _ (List.getElem_mem hc)
    · rw [List.getD_eq_default _ _ (by omega)]
      exact h0
  · rw [List.getD_eq_default keymapRows _ (by omega)]
    exact h0

/-- the modifiers stand above the key -/
theorem flags_mod (k : Keyboard) : k.flags % 512 = 0 := by
  have h : ∀ a b c d e f : Bool, (Keyboard.flags ⟨a, b, c, d, e, f, false, false, false⟩) % 512 = 0 := by
    decide
  exact h k.shiftL k.shiftR k.altL k.altR k.ctrlL k.ctrlR

theorem pressed_mod (k : Keyboard) (key : Nat) :
    k.pressed key % 512 =
      (if PAD_SLASH ≤ key ∧ key ≤ PAD_9 then padKey k.numLock key else key) % 512 := by
  have hpad : (if PAD_SLASH ≤ key ∧ key ≤ PAD_9 then FLAG_PAD else 0) % 512 = 0 := by
    split <;> rfl
  show (_ ||| (k.flags ||| _)) % 2 ^ 9 = _ % 2 ^ 9
  rw [Nat.or_mod_two_pow, Nat.or_mod_two_pow, show k.flags % 2 ^ 9 = 0 from flags_mod k,
    show (if PAD_SLASH ≤ key ∧ key ≤ PAD_9 then FLAG_PAD else 0) % 2 ^ 9 = 0 from hpad,
    Nat.or_zero, Nat.or_zero]

end Noxis.Tty
