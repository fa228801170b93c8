import Mathlib.Logic.Function.Basic
import Mathlib.Data.List.Count
import Mathlib.Tactic.Common

/-!
# Fork, exit and wait: what a table of processes is for

The processes are the elements of `α`; `root` adopts the children of a process that exits.

* `Life`      no process, a running one, or one that has exited and waits to be reaped;
* `Note`      what is said between the processes and their table;
* `Turn`      what each note needs and what it does; an adoption says nothing;
* `Replay`    a whole record of notes.

`Replay.once`: **in any record a process is reaped once for each time that it has exited**, the last
exit apart if the process is still a zombie.
-/

namespace Noxis

/-- a process; `none` is a parent outside of the table -/
inductive Life (α : Type*) where
  | free
  | alive (parent : Option α)
  | zombie (parent : Option α) (status : Int)

/-- what is recorded -/
inductive Note (α : Type*) where
  | forked (parent child : α)
  /-- a fork that finds no free slot -/
  | noSlot (parent : α)
  | exited (pid : α) (status : Int)
  | asked (pid : α)
  /-- the answer to a process that has asked: its child `pid` has exited with `status` -/
  | reaped (parent : Option α) (pid : α) (status : Int)
  /-- the answer to a process without children -/
  | noChild (pid : α)
  deriving DecidableEq, Repr

/-- the processes, and which of them wait for an answer -/
structure Lives (α : Type*) where
  life : α → Life α
  asked : α → Bool

variable {α : Type*} [DecidableEq α]

def Life.parent : Life α → Option α
  | .free => none
  | .alive p => p
  | .zombie p _ => p

/-- `p` has exited: `root` is the parent in its place -/
def Life.adopt (root p : α) : Life α → Life α
  | .free => .free
  | .alive q => .alive (if q = some p then some root else q)
  | .zombie q st => .zombie (if q = some p then some root else q) st

def Life.isZombie : Life α → Bool
  | .zombie _ _ => true
  | _ => false

def Life.isAlive : Life α → Bool
  | .alive _ => true
  | _ => false

/-- a process that can say something -/
def Lives.Able (h : Lives α) (p : α) : Prop := (h.life p).isAlive = true ∧ h.asked p = false

/-- what happens, and the notes that it leaves -/
inductive Turn (root : α) (h : Lives α) : List (Note α) → Lives α → Prop
  | forked {p c : α} (able : h.Able p) (free : h.life c = .free) :
      Turn root h [.forked p c] { h with life := Function.update h.life c (.alive (some p)) }
  | noSlot {p : α} (able : h.Able p) (full : ∀ c, h.life c ≠ .free) : Turn root h [.noSlot p] h
  | exited {p : α} {parent : Option α} {status : Int} (quiet : h.asked p = false)
      (alive : h.life p = .alive parent) :
      Turn root h [.exited p status]
        { h with life := Function.update h.life p (.zombie parent status) }
  | adopted {p c : α} (gone : (h.life p).isAlive = false) :
      Turn root h [] { h with life := Function.update h.life c ((h.life c).adopt root p) }
  | asked {p : α} (able : h.Able p) :
      Turn root h [.asked p] { h with asked := Function.update h.asked p true }
  | reaped {p c : α} {status : Int} (asked : h.asked p = true)
      (zombie : h.life c = .zombie (some p) status) :
      Turn root h [.reaped (some p) c status]
        ⟨Function.update h.life c .free, Function.update h.asked p false⟩
  | noChild {p : α} (asked : h.asked p = true) (none : ∀ c, (h.life c).parent ≠ some p) :
      Turn root h [.noChild p] { h with asked := Function.update h.asked p false }

/-- turn after turn -/
inductive Replay (root : α) (h : Lives α) : List (Note α) → Lives α → Prop
  | nil : Replay root h [] h
  | snoc {l l' : List (Note α)} {h' h'' : Lives α} (r : Replay root h l h')
      (t : Turn root h' l' h'') : Replay root h (l ++ l') h''

variable {root p : α} {h h' h'' : Lives α} {l l' : List (Note α)}

theorem Turn.replay (t : Turn root h l h') : Replay root h l h' := .snoc .nil t

theorem Replay.trans (r : Replay root h l h') (r' : Replay root h' l' h'') :
    Replay root h (l ++ l') h'' := by
  induction r' with
  | nil =>
    rw [List.append_nil]
    exact r
  | snoc _ t ih =>
    rw [← List.append_assoc]
    exact .snoc ih t

/-! ## each exit is reaped once -/

def Note.isExit (c : α) : Note α → Bool
  | .exited p _ => p = c
  | _ => false

def Note.isReap (c : α) : Note α → Bool
  | .reaped _ p _ => p = c
  | _ => false

/-- 1 for a zombie -/
def Lives.zombies (h : Lives α) (c : α) : Nat := (h.life c).isZombie.toNat

theorem Life.adopt_isZombie (x : Life α) : (x.adopt root p).isZombie = x.isZombie := by
  cases x <;> rfl

/-- the record of one process, after a turn that changes only `q` -/
theorem zombies_update (h : Lives α) (a : α → Bool) (x : Life α) (c q : α) :
    Lives.zombies ⟨Function.update h.life q x, a⟩ c =
      if q = c then x.isZombie.toNat else h.zombies c := by
  show ((Function.update h.life q x c).isZombie).toNat = _
  by_cases hc : q = c
  · rw [if_pos hc, hc, Function.update_self]
  · rw [if_neg hc, Function.update_of_ne (Ne.symm hc)]
    rfl

theorem Turn.once (t : Turn root h l h') (c : α) :
    h.zombies c + l.countP (Note.isExit c) = h'.zombies c + l.countP (Note.isReap c) := by
  cases t with
  | noSlot _ _ => rfl
  | asked _ => rfl
  | noChild _ _ => rfl
  | @forked p q able free =>
    have hz : Lives.zombies ⟨Function.update h.life q (.alive (some p)), h.asked⟩ c = h.zombies c := by
      rw [zombies_update h _ _ c q]
      split
      · rename_i hq
        show false.toNat = (h.life c).isZombie.toNat
        rw [← hq, free]
        rfl
      · rfl
    show h.zombies c + 0 = _ + 0
    rw [hz]
  | @adopted p q gone =>
    have hz : Lives.zombies ⟨Function.update h.life q ((h.life q).adopt root p), h.asked⟩ c =
        h.zombies c := by
      rw [zombies_update h _ _ c q, Life.adopt_isZombie]
      split
      · rename_i hq
        rw [hq]
        rfl
      · rfl
    show h.zombies c + 0 = _ + 0
    rw [hz]
  | @exited p parent st quiet alive =>
    by_cases hc : p = c
    · subst hc
      have h0 : h.zombies p = 0 := by
        unfold Lives.zombies
        rw [alive]
        rfl
      have h1 : Lives.zombies ⟨Function.update h.life p (.zombie parent st), h.asked⟩ p = 1 := by
        rw [zombies_update h _ _ p p, if_pos rfl]
        rfl
      rw [h0, h1, List.countP_singleton, List.countP_singleton]
      simp [Note.isExit, Note.isReap]
    · rw [zombies_update h _ _ c p, if_neg hc, List.countP_singleton, List.countP_singleton]
      simp [Note.isExit, Note.isReap, hc]
  | @reaped p q st asked zombie =>
    by_cases hc : q = c
    · subst hc
      have h1 : h.zombies q = 1 := by
        unfold Lives.zombies
        rw [zombie]
        rfl
      rw [h1, zombies_update h _ _ q q, if_pos rfl, List.countP_singleton, List.countP_singleton]
      simp [Note.isExit, Note.isReap, Life.isZombie]
    · rw [zombies_update h _ _ c q, if_neg hc, List.countP_singleton, List.countP_singleton]
      simp [Note.isExit, Note.isReap, hc]

/-- **Each exit is reaped once**, unless the process is still a zombie. -/
theorem Replay.once (r : Replay root h l h') (c : α) :
    h.zombies c + l.countP (Note.isExit c) = h'.zombies c + l.countP (Note.isReap c) := by
  induction r with
  | nil => rfl
  | snoc _ t ih =>
    have ht := t.once c
    rw [List.countP_append, List.countP_append]
    omega

end Noxis
