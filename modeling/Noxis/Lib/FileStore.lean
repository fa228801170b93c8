import Mathlib.Logic.Function.Basic
import Mathlib.Data.List.GetD
import Mathlib.Tactic.Common

/-!
# Files as byte strings

What a file server is for: names `N` have byte strings, and the slots `S` of the processes `P` point to
handles `H`, each of them a name and a position.  Two slots may share a handle, so that they share its
position.

* `splice`          the bytes from a position on are replaced
* `Store`           the files, the handles and the slots
* `Store.attach`, `Store.detach`, `Store.move`, `Store.share`, `Store.quit`   the operations
* `Store.Used x`    some slot points to handle `x`
-/

namespace Noxis.FileStore

/-! ## byte strings -/

section
variable {B : Type*} {data bytes : List B} {pos i : Nat}

/-- `data` with `bytes` written from `pos` on -/
def splice (data : List B) (pos : Nat) (bytes : List B) : List B :=
  data.take pos ++ bytes ++ data.drop (pos + bytes.length)

theorem length_splice (h : pos ≤ data.length) :
    (splice data pos bytes).length = max data.length (pos + bytes.length) := by
  unfold splice
  simp only [List.length_append, List.length_take, List.length_drop]
  omega

theorem getD_splice (h : pos ≤ data.length) (d : B) (i : Nat) : (splice data pos bytes).getD i d =
    if pos ≤ i ∧ i < pos + bytes.length then bytes.getD (i - pos) d else data.getD i d := by
  have htake : (data.take pos).length = pos := by
    rw [List.length_take]
    omega
  unfold splice
  by_cases h1 : i < pos
  · rw [if_neg (by omega), List.append_assoc, List.getD_append _ _ _ _ (by omega)]
    rw [List.getD_eq_getElem?_getD, List.getD_eq_getElem?_getD, List.getElem?_take_of_lt h1]
  · by_cases h2 : i < pos + bytes.length
    · rw [if_pos ⟨by omega, h2⟩, List.getD_append _ _ _ _ (by rw [List.length_append]; omega),
        List.getD_append_right _ _ _ _ (by omega), htake]
    · rw [if_neg (by omega), List.getD_append_right _ _ _ _ (by rw [List.length_append]; omega),
        List.length_append, htake, List.getD_eq_getElem?_getD, List.getD_eq_getElem?_getD,
        List.getElem?_drop]
      congr 2
      omega

end

/-! ## stores -/

/-- an open file -/
structure Handle (N : Type*) where
  file : N
  pos : Nat

structure Store (N P S H B : Type*) where
  file : N → Option (List B)
  handle : H → Option (Handle N)
  slot : P → S → Option H

variable {N P S H B : Type*} [DecidableEq N] [DecidableEq P] [DecidableEq S] [DecidableEq H]
  {a : Store N P S H B} {f g : N} {p r : P} {i j : S} {x y : H} {h : Handle N}

namespace Store

/-- the file of the name has other bytes, or is gone -/
def put (a : Store N P S H B) (f : N) (data : Option (List B)) : Store N P S H B :=
  { a with file := Function.update a.file f data }

/-- slot `i` of the process `p` -/
def setSlot (a : Store N P S H B) (p : P) (i : S) (v : Option H) : Store N P S H B :=
  { a with slot := Function.update a.slot p (Function.update (a.slot p) i v) }

/-- a handle gets another file or another position -/
def setHandle (a : Store N P S H B) (x : H) (h : Handle N) : Store N P S H B :=
  { a with handle := Function.update a.handle x (some h) }

/-- slot `i` of `p` is opened, with handle `x` -/
def attach (a : Store N P S H B) (p : P) (i : S) (x : H) (h : Handle N) : Store N P S H B :=
  (a.setHandle x h).setSlot p i (some x)

/-- `child` gets the slots of `parent` -/
def share (a : Store N P S H B) (parent child : P) : Store N P S H B :=
  { a with slot := Function.update a.slot child (a.slot parent) }

/-- the slots of `p` are closed -/
def quit (a : Store N P S H B) (p : P) : Store N P S H B :=
  { a with slot := Function.update a.slot p fun _ => none }

/-- some slot points to the handle -/
def Used (a : Store N P S H B) (x : H) : Prop := ∃ p i, a.slot p i = some x

/-- what a slot has open: its handle, the file and the position, and the bytes of the file -/
def opened (a : Store N P S H B) (p : P) (i : S) : Option (H × Handle N × List B) :=
  (a.slot p i).bind fun x => (a.handle x).bind fun h => (a.file h.file).map fun data => (x, h, data)

omit [DecidableEq P] [DecidableEq S] [DecidableEq H] in
theorem put_file (a : Store N P S H B) (f : N) (data : Option (List B)) :
    (a.put f data).file f = data :=
  Function.update_self ..

omit [DecidableEq N] in
theorem attach_handle (a : Store N P S H B) (p : P) (i : S) (x : H) (h : Handle N) :
    (a.attach p i x h).handle x = some h := Function.update_self ..

omit [DecidableEq N] [DecidableEq P] [DecidableEq S] [DecidableEq H] in
theorem opened_eq {data : List B} (hs : a.slot p i = some x) (hh : a.handle x = some h)
    (hf : a.file h.file = some data) : a.opened p i = some (x, h, data) := by
  unfold opened
  rw [hs, Option.bind_some, hh, Option.bind_some, hf, Option.map_some]

omit [DecidableEq N] [DecidableEq H] in
theorem setSlot_self (a : Store N P S H B) (p : P) (i : S) (v : Option H) :
    (a.setSlot p i v).slot p i = v := by
  show Function.update a.slot p _ p i = v
  rw [Function.update_self, Function.update_self]

omit [DecidableEq N] [DecidableEq H] in
theorem setSlot_other (v : Option H) (hne : r ≠ p ∨ j ≠ i) :
    (a.setSlot p i v).slot r j = a.slot r j := by
  show Function.update a.slot p _ r j = a.slot r j
  by_cases hr : r = p
  · subst hr
    rw [Function.update_self, Function.update_of_ne (hne.resolve_left fun h => h rfl)]
  · rw [Function.update_of_ne hr]

end Store

end Noxis.FileStore
