import Noxis.Lib.Bytes
import Noxis.Lib.Run

/-!
# 25-osfs11/kernel/console.c: output and scrolling

Addresses are in words of the video memory.  The CRTC registers, which `flush` writes, are left out.

* `outChar`        `out_char`; `none` is a call that fails an assertion, or still loops;
* `scrollScreen`   `scroll_screen`;
* `Right`          the call ends, the console is as it should be, and nothing outside of it was written;
* `Fits`           read off the state before the call: it is none of the two that go wrong;
* `output_iff`     every call of a run is right exactly if every call of it fits.
-/

namespace Noxis.Tty.Con

def NR_CONSOLES : Nat := 3
def V_MEM_SIZE : Nat := 0x8000
def SCR_WIDTH : Nat := 80
def SCR_SIZE : Nat := 80 * 25
def DEFAULT_CHAR_COLOR : Byte := 0x07

structure Console where
  crtcStart : Nat
  orig : Nat
  conSize : Nat
  cursor : Nat
  isFull : Bool
  deriving DecidableEq, Repr

/-- a console, and the video memory: a character and its colour in each word; `writes` is a record of
the past which nothing reads, of the words that were written -/
structure Video where
  con : Console
  mem : Nat → Byte × Byte
  writes : List Nat

/-! ## the code -/

/-- `init_screen`, before the prompt of the consoles other than the first -/
def initScreen (nrTty dispPos : Nat) : Console :=
  let vMemSize := V_MEM_SIZE / 2
  let sizePerCon := vMemSize / NR_CONSOLES
  let orig := nrTty * sizePerCon
  { crtcStart := orig
    orig := orig
    conSize := sizePerCon / SCR_WIDTH * SCR_WIDTH
    cursor := if nrTty = 0 then dispPos / 2 else orig
    isFull := false }

def Video.put (v : Video) (a : Nat) (w : Byte × Byte) : Video :=
  { v with mem := Function.update v.mem a w, writes := v.writes ++ [a] }

/-- `len` words from `pos` on -/
def clearScreen (v : Video) (pos : Nat) : Nat → Video
  | 0 => v
  | len + 1 => clearScreen (v.put pos (0x20, DEFAULT_CHAR_COLOR)) (pos + 1) len

def wCopy (v : Video) (dst src : Nat) : Nat → Video
  | 0 => v
  | size + 1 => wCopy (v.put dst (v.mem src)) (dst + 1) (src + 1) size

inductive Dir where
  | up
  | down
  deriving DecidableEq, Repr

def scrollScreen (con : Console) : Dir → Console
  | .down =>
    let newest := (con.cursor - con.orig) / SCR_WIDTH * SCR_WIDTH
    let oldest := if con.isFull then (newest + SCR_WIDTH) % con.conSize else 0
    let scrTop := con.crtcStart - con.orig
    if ¬ con.isFull ∧ scrTop > 0 then { con with crtcStart := con.crtcStart - SCR_WIDTH }
    else if con.isFull ∧ scrTop ≠ oldest then
      if con.cursor - con.orig ≥ con.conSize - SCR_SIZE then
        if con.crtcStart ≠ con.orig then { con with crtcStart := con.crtcStart - SCR_WIDTH } else con
      else if con.crtcStart = con.orig then
        { con with crtcStart := con.orig + (con.conSize - SCR_SIZE) }
      else { con with crtcStart := con.crtcStart - SCR_WIDTH }
    else con
  | .up =>
    let newest := (con.cursor - con.orig) / SCR_WIDTH * SCR_WIDTH
    let scrTop := con.crtcStart - con.orig
    if ¬ con.isFull ∧ newest ≥ scrTop + SCR_SIZE then
      { con with crtcStart := con.crtcStart + SCR_WIDTH }
    else if con.isFull ∧ scrTop + SCR_SIZE - SCR_WIDTH ≠ newest then
      if scrTop + SCR_SIZE = con.conSize then { con with crtcStart := con.orig }
      else { con with crtcStart := con.crtcStart + SCR_WIDTH }
    else con

/-- `switch (ch)` -/
def Video.switch (v : Video) (ch : Byte) : Video :=
  let con := v.con
  let cursorY := (con.cursor - con.orig) / SCR_WIDTH
  if ch = 0x0A then
    { v with con := { con with cursor := con.orig + SCR_WIDTH * (cursorY + 1) } }
  else if ch = 0x08 then
    if con.orig < con.cursor then
      ({ v with con := { con with cursor := con.cursor - 1 } } : Video).put (con.cursor - 1)
        (0x20, DEFAULT_CHAR_COLOR)
    else v
  else
    ({ v with con := { con with cursor := con.cursor + 1 } } : Video).put con.cursor
      (ch, DEFAULT_CHAR_COLOR)

/-- the last lines go to the start when the end is reached -/
def Video.wrap (v : Video) : Video :=
  let con := v.con
  if con.conSize ≤ con.cursor - con.orig then
    let cursorX := (con.cursor - con.orig) % SCR_WIDTH
    let cursorY := (con.cursor - con.orig) / SCR_WIDTH
    let cpOrig := con.orig + (cursorY + 1) * SCR_WIDTH - SCR_SIZE
    let v := wCopy v con.orig cpOrig (SCR_SIZE - SCR_WIDTH)
    let cursor := con.orig + (SCR_SIZE - SCR_WIDTH) + cursorX
    let con := { con with crtcStart := con.orig, cursor := cursor, isFull := true }
    clearScreen { v with con := con } cursor SCR_WIDTH
  else v

/-- the cursor is in the window -/
def Console.Shows (con : Console) : Prop :=
  con.crtcStart ≤ con.cursor ∧ con.cursor < con.crtcStart + SCR_SIZE

instance Console.decidableShows (con : Console) : Decidable con.Shows :=
  inferInstanceAs (Decidable (_ ∧ _))

/-- the loop at the end of `out_char`; `none` if it has not ended after `fuel` turns -/
def follow : Nat → Video → Option Video
  | 0, v => if v.con.Shows then some v else none
  | fuel + 1, v =>
    if v.con.Shows then some v
    else
      let v := { v with con := scrollScreen v.con .up }
      follow fuel (clearScreen v v.con.cursor SCR_WIDTH)

/-- `assert(con->cursor - con->orig < con->con_size)` -/
def Console.Inside (con : Console) : Prop := con.cursor - con.orig < con.conSize

instance Console.decidableInside (con : Console) : Decidable con.Inside :=
  inferInstanceAs (Decidable (_ < _))

def outChar (fuel : Nat) (v : Video) (ch : Byte) : Option Video :=
  if ¬ v.con.Inside then none
  else
    let v := (v.switch ch).wrap
    if ¬ v.con.Inside then none else follow fuel v

/-! ## calls -/

inductive Call where
  | outChar (ch : Byte)
  | scroll (dir : Dir)
  deriving DecidableEq, Repr

/-- the call ends with `t` -/
def Ends (v : Video) : Call → Video → Prop
  | .outChar ch, t => ∃ fuel, outChar fuel v ch = some t
  | .scroll dir, t => t = { v with con := scrollScreen v.con dir }

/-- what a call does to the console, and where it has written -/
structure Right (v : Video) (c : Call) (t : Video) : Prop where
  cursor : t.con.orig ≤ t.con.cursor ∧ t.con.cursor < t.con.orig + t.con.conSize
  start : t.con.orig ≤ t.con.crtcStart ∧ t.con.crtcStart < t.con.orig + t.con.conSize
  shows : ∀ ch, c = .outChar ch → t.con.Shows
  same : t.con.orig = v.con.orig ∧ t.con.conSize = v.con.conSize
  writes : ∃ ws, t.writes = v.writes ++ ws ∧
    ∀ a ∈ ws, v.con.orig ≤ a ∧ a < v.con.orig + v.con.conSize

/-- a Backspace does not leave the window at its top while the console is not full; and no character
leaves the cursor behind the first column of the last line while the window ends above it -/
def Fits (v : Video) : Call → Prop
  | .scroll _ => True
  | .outChar ch =>
    let con := v.con
    let fin := con.orig + con.conSize
    if ch = 0x0A then True
    else if ch = 0x08 then
      (con.isFull = false → con.cursor = con.crtcStart → con.crtcStart = con.orig) ∧
        ¬ (fin < con.cursor - 1 + SCR_WIDTH ∧ con.crtcStart + SCR_SIZE ≤ con.cursor - 1)
    else ¬ (fin < con.cursor + 1 + SCR_WIDTH ∧ con.cursor + 1 < fin ∧
      con.crtcStart + SCR_SIZE ≤ con.cursor + 1)

/-! ## places -/

variable {con : Console} {v w t : Video} {ch : Byte} {fuel : Nat}

/-- the window starts at a line and ends in the console, and the cursor is in the console -/
structure Placed (con : Console) : Prop where
  size : con.conSize = 5440
  start : ∃ s, con.crtcStart = con.orig + 80 * s ∧ s ≤ 43
  cursor : ∃ c, con.cursor = con.orig + c ∧ c < 5440

/-- while the console is not full, the cursor is not above the window -/
structure Inv (con : Console) : Prop extends Placed con where
  top : con.isFull = false → con.crtcStart ≤ con.cursor

theorem Placed.inside (h : Placed con) : con.Inside := by
  obtain ⟨c, hc, hlt⟩ := h.cursor
  unfold Console.Inside
  rw [h.size]
  omega

theorem scrollScreen_same (con : Console) (dir : Dir) :
    (scrollScreen con dir).orig = con.orig ∧ (scrollScreen con dir).conSize = con.conSize ∧
      (scrollScreen con dir).cursor = con.cursor ∧ (scrollScreen con dir).isFull = con.isFull := by
  cases dir with
  | up =>
    unfold scrollScreen
    simp only
    split_ifs <;> exact ⟨rfl, rfl, rfl, rfl⟩
  | down =>
    unfold scrollScreen
    simp only
    split_ifs <;> exact ⟨rfl, rfl, rfl, rfl⟩

/-- the window moves by a line, or round the end of the console -/
theorem scrollScreen_start (h : Placed con) (dir : Dir) :
    ∃ s, (scrollScreen con dir).crtcStart = con.orig + 80 * s ∧ s ≤ 43 := by
  obtain ⟨s, hs, hmax⟩ := h.start
  obtain ⟨c, hc, hlt⟩ := h.cursor
  cases dir with
  | up =>
    unfold scrollScreen SCR_WIDTH SCR_SIZE
    simp only
    rw [h.size]
    split_ifs with h1 h2 h3
    · exact ⟨s + 1, by simp only; omega, by omega⟩
    · exact ⟨0, by simp only; omega, by omega⟩
    · exact ⟨s + 1, by simp only; omega, by omega⟩
    · exact ⟨s, hs, hmax⟩
  | down =>
    unfold scrollScreen SCR_WIDTH SCR_SIZE
    simp only
    rw [h.size]
    generalize (if con.isFull then _ else 0) = oldest
    split_ifs with h1 h2 h3 h4 h5
    · exact ⟨s - 1, by simp only; omega, by omega⟩
    · exact ⟨s - 1, by simp only; omega, by omega⟩
    · exact ⟨s, hs, hmax⟩
    · exact ⟨43, by simp only, by omega⟩
    · exact ⟨s - 1, by simp only; omega, by omega⟩
    · exact ⟨s, hs, hmax⟩

theorem Placed.scroll (h : Placed con) (dir : Dir) : Placed (scrollScreen con dir) := by
  obtain ⟨horig, hsize, hcursor, -⟩ := scrollScreen_same con dir
  refine ⟨hsize.trans h.size, ?_, ?_⟩
  · rw [horig]
    exact scrollScreen_start h dir
  · rw [horig, hcursor]
    exact h.cursor

/-- while the console is not full -/
theorem scrollScreen_up (hfull : con.isFull = false) :
    scrollScreen con .up =
      if (con.cursor - con.orig) / SCR_WIDTH * SCR_WIDTH ≥ con.crtcStart - con.orig + SCR_SIZE then
        { con with crtcStart := con.crtcStart + SCR_WIDTH }
      else con := by
  unfold scrollScreen
  simp only [hfull, Bool.false_eq_true, not_false_eq_true, true_and, false_and, if_false]

theorem scrollScreen_down (hfull : con.isFull = false) :
    scrollScreen con .down =
      if con.crtcStart - con.orig > 0 then { con with crtcStart := con.crtcStart - SCR_WIDTH }
      else con := by
  unfold scrollScreen
  simp only [hfull, Bool.false_eq_true, not_false_eq_true, true_and, false_and, if_false]

theorem Inv.scroll (h : Inv con) (dir : Dir) : Inv (scrollScreen con dir) := by
  obtain ⟨-, -, hcursor, hfull⟩ := scrollScreen_same con dir
  refine { h.toPlaced.scroll dir with top := fun hnot => ?_ }
  rw [hfull] at hnot
  have htop := h.top hnot
  obtain ⟨s, hs, -⟩ := h.start
  rw [hcursor]
  cases dir with
  | up =>
    rw [scrollScreen_up hnot]
    unfold SCR_WIDTH SCR_SIZE
    split
    · show con.crtcStart + 80 ≤ con.cursor
      omega
    · exact htop
  | down =>
    rw [scrollScreen_down hnot]
    split
    · exact Nat.le_trans (Nat.sub_le _ _) htop
    · exact htop

/-! ## the loop -/

theorem clearScreen_con (v : Video) (pos len : Nat) : (clearScreen v pos len).con = v.con := by
  induction len generalizing v pos with
  | zero => rfl
  | succ len ih => exact ih (v.put pos _) (pos + 1)

theorem clearScreen_writes (v : Video) (pos len : Nat) :
    (clearScreen v pos len).writes = v.writes ++ List.range' pos len := by
  induction len generalizing v pos with
  | zero => exact (List.append_nil _).symm
  | succ len ih =>
    refine (ih (v.put pos (0x20, DEFAULT_CHAR_COLOR)) (pos + 1)).trans ?_
    show v.writes ++ [pos] ++ List.range' (pos + 1) len = _
    rw [List.append_assoc]
    rfl

theorem wCopy_writes (v : Video) (dst src size : Nat) :
    (wCopy v dst src size).writes = v.writes ++ List.range' dst size := by
  induction size generalizing v dst src with
  | zero => exact (List.append_nil _).symm
  | succ size ih =>
    refine (ih (v.put dst (v.mem src)) (dst + 1) (src + 1)).trans ?_
    show v.writes ++ [dst] ++ List.range' (dst + 1) size = _
    rw [List.append_assoc]
    rfl

/-- one turn of the loop -/
def Video.turn (v : Video) : Video :=
  clearScreen { v with con := scrollScreen v.con .up } (scrollScreen v.con .up).cursor SCR_WIDTH

theorem follow_shows (h : v.con.Shows) (fuel : Nat) : follow fuel v = some v := by
  cases fuel with
  | zero => exact if_pos h
  | succ fuel => exact if_pos h

theorem follow_turn (h : ¬ v.con.Shows) (fuel : Nat) : follow (fuel + 1) v = follow fuel v.turn :=
  if_neg h

theorem turn_con (v : Video) : v.turn.con = scrollScreen v.con .up := clearScreen_con _ _ _

theorem turn_writes (v : Video) : v.turn.writes = v.writes ++ List.range' v.con.cursor 80 := by
  unfold Video.turn
  rw [clearScreen_writes, (scrollScreen_same v.con .up).2.2.1]
  rfl

/-- the fuel does not matter -/
theorem follow_det {n m : Nat} (h : follow n v = some t) (h' : follow m v = some w) : t = w := by
  induction n generalizing v m with
  | zero =>
    by_cases hs : v.con.Shows
    · rw [follow_shows hs] at h h'
      exact Option.some.inj (h.symm.trans h')
    · rw [follow, if_neg hs] at h
      cases h
  | succ n ih =>
    by_cases hs : v.con.Shows
    · rw [follow_shows hs] at h h'
      exact Option.some.inj (h.symm.trans h')
    · rw [follow_turn hs] at h
      cases m with
      | zero =>
        rw [follow, if_neg hs] at h'
        cases h'
      | succ m =>
        rw [follow_turn hs] at h'
        exact ih h h'

/-- the cursor is above the window of a console that is not full: the loop does not end -/
theorem follow_stuck (hfull : v.con.isFull = false) (h : v.con.cursor < v.con.crtcStart) (fuel : Nat) :
    follow fuel v = none := by
  have hs : ¬ v.con.Shows := fun hs => absurd hs.1 (by omega)
  induction fuel generalizing v with
  | zero => exact if_neg hs
  | succ fuel ih =>
    rw [follow_turn hs]
    obtain ⟨-, -, hcursor, hsame⟩ := scrollScreen_same v.con .up
    have hstart : (scrollScreen v.con .up).crtcStart = v.con.crtcStart := by
      rw [scrollScreen_up hfull]
      unfold SCR_WIDTH SCR_SIZE
      rw [if_neg (by omega)]
    refine ih ?_ ?_ ?_
    · rw [turn_con, hsame, hfull]
    · rw [turn_con, hcursor, hstart]
      exact h
    · rw [turn_con]
      unfold Console.Shows
      rw [hcursor, hstart]
      exact hs

/-- once the console is full, the window goes round it -/
theorem scrollScreen_up_full (hfull : con.isFull = true) :
    scrollScreen con .up =
      if con.crtcStart - con.orig + SCR_SIZE - SCR_WIDTH ≠
          (con.cursor - con.orig) / SCR_WIDTH * SCR_WIDTH then
        if con.crtcStart - con.orig + SCR_SIZE = con.conSize then { con with crtcStart := con.orig }
        else { con with crtcStart := con.crtcStart + SCR_WIDTH }
      else con := by
  unfold scrollScreen
  simp only [hfull, not_true_eq_false, false_and, if_false, true_and]

/-- a bound for the turns of the loop: up to the end of the console, and once more round it if the
cursor is above the window -/
def turnsLeft (con : Console) : Nat :=
  if con.cursor < con.crtcStart then 2 * 5440 - (con.crtcStart - con.orig)
  else 5440 - (con.crtcStart - con.orig)

theorem turn_turnsLeft (h : Placed con) (hgo : con.isFull = true ∨ con.crtcStart ≤ con.cursor)
    (hs : ¬ con.Shows) :
    turnsLeft (scrollScreen con .up) < turnsLeft con ∧
      ((scrollScreen con .up).isFull = true ∨
        (scrollScreen con .up).crtcStart ≤ (scrollScreen con .up).cursor) := by
  obtain ⟨s, hstart, hmax⟩ := h.start
  obtain ⟨c, hcursor, hlt⟩ := h.cursor
  unfold Console.Shows SCR_SIZE at hs
  cases hfull : con.isFull with
  | true =>
    have hne : con.crtcStart - con.orig + SCR_SIZE - SCR_WIDTH ≠
        (con.cursor - con.orig) / SCR_WIDTH * SCR_WIDTH := by
      unfold SCR_WIDTH SCR_SIZE
      omega
    by_cases hend : con.crtcStart - con.orig + SCR_SIZE = con.conSize
    · have hup : scrollScreen con .up = { con with crtcStart := con.orig } := by
        rw [scrollScreen_up_full hfull, if_pos hne, if_pos hend]
      rw [h.size] at hend
      unfold SCR_SIZE at hend
      rw [hup]
      refine ⟨?_, .inl hfull⟩
      show (if con.cursor < con.orig then _ else 5440 - (con.orig - con.orig)) < turnsLeft con
      unfold turnsLeft
      rw [if_neg (by omega), if_pos (by omega)]
      omega
    · have hup : scrollScreen con .up = { con with crtcStart := con.crtcStart + 80 } := by
        rw [scrollScreen_up_full hfull, if_pos hne, if_neg hend]
        rfl
      rw [hup]
      refine ⟨?_, .inl hfull⟩
      show (if con.cursor < con.crtcStart + 80 then 2 * 5440 - (con.crtcStart + 80 - con.orig)
        else 5440 - (con.crtcStart + 80 - con.orig)) < turnsLeft con
      unfold turnsLeft
      split_ifs <;> omega
  | false =>
    have htop : con.crtcStart ≤ con.cursor := by
      rcases hgo with hgo | hgo
      · rw [hfull] at hgo
        cases hgo
      · exact hgo
    have hbelow : (con.cursor - con.orig) / SCR_WIDTH * SCR_WIDTH ≥
        con.crtcStart - con.orig + SCR_SIZE := by
      unfold SCR_WIDTH SCR_SIZE
      omega
    have hup : scrollScreen con .up = { con with crtcStart := con.crtcStart + 80 } := by
      rw [scrollScreen_up hfull, if_pos hbelow]
      rfl
    rw [hup]
    refine ⟨?_, .inr (show con.crtcStart + 80 ≤ con.cursor by omega)⟩
    show (if con.cursor < con.crtcStart + 80 then 2 * 5440 - (con.crtcStart + 80 - con.orig)
      else 5440 - (con.crtcStart + 80 - con.orig)) < turnsLeft con
    unfold turnsLeft
    rw [if_neg (by omega), if_neg (by omega)]
    omega

/-- what the loop has done when it ends -/
structure Followed (v t : Video) : Prop where
  placed : Placed t.con
  shows : t.con.Shows
  same : t.con.orig = v.con.orig ∧ t.con.conSize = v.con.conSize ∧
    t.con.cursor = v.con.cursor ∧ t.con.isFull = v.con.isFull
  writes : ∃ ws, t.writes = v.writes ++ ws ∧
    (∀ a ∈ ws, v.con.cursor ≤ a ∧ a < v.con.cursor + 80) ∧
    (if v.con.Shows then ws = [] else v.con.cursor + 79 ∈ ws)

/-- **The loop ends** unless the cursor is above the window of a console that is not full. -/
theorem follow_ends (h : Placed v.con) (hgo : v.con.isFull = true ∨ v.con.crtcStart ≤ v.con.cursor)
    (hfuel : turnsLeft v.con ≤ fuel) : ∃ t, follow fuel v = some t ∧ Followed v t := by
  induction fuel generalizing v with
  | zero =>
    obtain ⟨s, hstart, hmax⟩ := h.start
    unfold turnsLeft at hfuel
    split at hfuel <;> omega
  | succ fuel ih =>
    by_cases hs : v.con.Shows
    · refine ⟨v, follow_shows hs _, h, hs, ⟨rfl, rfl, rfl, rfl⟩, [], (List.append_nil _).symm, ?_, ?_⟩
      · exact fun a ha => absurd ha List.not_mem_nil
      · exact if_pos hs ▸ rfl
    · obtain ⟨hless, hgo'⟩ := turn_turnsLeft h hgo hs
      obtain ⟨horig, hsize, hcursor, hfull⟩ := scrollScreen_same v.con .up
      rw [follow_turn hs]
      obtain ⟨t, ht, hplaced, hshows, ⟨horig', hsize', hcursor', hfull'⟩, ws, hws, hin, -⟩ :=
        ih (v := v.turn) (by rw [turn_con]; exact h.scroll .up) (by rw [turn_con]; exact hgo')
          (by rw [turn_con]; omega)
      rw [turn_con] at horig' hsize' hcursor' hfull' hin
      rw [hcursor] at hcursor' hin
      refine ⟨t, ht, hplaced, hshows,
        ⟨horig'.trans horig, hsize'.trans hsize, hcursor', hfull'.trans hfull⟩,
        List.range' v.con.cursor 80 ++ ws, ?_, ?_, ?_⟩
      · rw [hws, turn_writes, List.append_assoc]
      · intro a ha
        rcases List.mem_append.mp ha with hr | hr
        · exact List.mem_range'_1.mp hr
        · exact hin a hr
      · rw [if_neg hs]
        exact List.mem_append_left _ (List.mem_range'_1.mpr ⟨by omega, by omega⟩)

/-! ## before the loop -/

theorem wrap_of_lt (h : ¬ v.con.conSize ≤ v.con.cursor - v.con.orig) : v.wrap = v := if_neg h

/-- at the end of the console -/
theorem wrap_at_end (hsize : v.con.conSize = 5440) (hcursor : v.con.cursor = v.con.orig + 5440) :
    v.wrap.con = { v.con with crtcStart := v.con.orig, cursor := v.con.orig + 1920, isFull := true } ∧
      v.wrap.writes =
        v.writes ++ (List.range' v.con.orig 1920 ++ List.range' (v.con.orig + 1920) 80) := by
  have hend : v.con.conSize ≤ v.con.cursor - v.con.orig := by omega
  have hlast : SCR_SIZE - SCR_WIDTH = 1920 := rfl
  have hx : v.con.orig + 1920 + (v.con.cursor - v.con.orig) % SCR_WIDTH = v.con.orig + 1920 := by
    unfold SCR_WIDTH
    omega
  unfold Video.wrap
  simp only
  rw [if_pos hend, hlast, hx, clearScreen_con, clearScreen_writes]
  refine ⟨rfl, ?_⟩
  simp only
  rw [wCopy_writes, List.append_assoc]
  rfl

/-- what a character does before the loop -/
structure Ready (v w : Video) : Prop where
  placed : Placed w.con
  same : w.con.orig = v.con.orig ∧ w.con.conSize = v.con.conSize
  writes : ∃ ws, w.writes = v.writes ++ ws ∧ ∀ a ∈ ws, v.con.orig ≤ a ∧ a < v.con.orig + 5440

/-- the window is where it was, and the cursor has moved -/
theorem ready_wrap {u : Video} {cursor : Nat} (h : Placed v.con)
    (hcon : u.con = { v.con with cursor := cursor }) (hlow : v.con.orig ≤ cursor)
    (hhigh : cursor ≤ v.con.orig + 5440)
    (hws : ∃ ws, u.writes = v.writes ++ ws ∧ ∀ a ∈ ws, v.con.orig ≤ a ∧ a < v.con.orig + 5440) :
    Ready v u.wrap ∧
      if cursor < v.con.orig + 5440 then u.wrap.con = { v.con with cursor := cursor }
      else u.wrap.con.isFull = true ∧ u.wrap.con.Shows := by
  have hsize : u.con.conSize = 5440 := by
    rw [hcon]
    exact h.size
  have horig : u.con.orig = v.con.orig := by rw [hcon]
  have hcursor : u.con.cursor = cursor := by rw [hcon]
  by_cases hlt : cursor < v.con.orig + 5440
  · rw [wrap_of_lt (by omega), if_pos hlt]
    refine ⟨⟨⟨hsize, ?_, cursor - v.con.orig, ?_, by omega⟩, ?_, hws⟩, hcon⟩
    · rw [hcon]
      exact h.start
    · omega
    · rw [hcon]
      exact ⟨rfl, rfl⟩
  · obtain ⟨hwcon, hwws⟩ := wrap_at_end hsize (show u.con.cursor = u.con.orig + 5440 by omega)
    rw [if_neg hlt, hwcon]
    refine ⟨⟨?_, ?_, ?_⟩, rfl, ?_⟩
    · rw [hwcon]
      exact ⟨hsize, ⟨0, rfl, by omega⟩, 1920, rfl, by omega⟩
    · rw [hwcon]
      exact ⟨horig, hsize.trans h.size.symm⟩
    · obtain ⟨ws, hws, hin⟩ := hws
      refine ⟨ws ++ (List.range' u.con.orig 1920 ++ List.range' (u.con.orig + 1920) 80), ?_, ?_⟩
      · rw [hwws, hws, List.append_assoc]
      · intro a ha
        rcases List.mem_append.mp ha with ha | ha
        · exact hin a ha
        rcases List.mem_append.mp ha with ha | ha
        · have ha' := List.mem_range'_1.mp ha
          omega
        · have ha' := List.mem_range'_1.mp ha
          omega
    · unfold Console.Shows SCR_SIZE
      simp only
      omega

/-- the loop, behind this, ends and stays in the console -/
def Goes (v w : Video) : Prop :=
  (w.con.isFull = true ∨ w.con.crtcStart ≤ w.con.cursor) ∧
    (w.con.Shows ∨ w.con.cursor + 80 ≤ v.con.orig + 5440)

/-- the window where it was -/
theorem goes_iff {cursor : Nat}
    (h : if cursor < v.con.orig + 5440 then w.con = { v.con with cursor := cursor }
      else w.con.isFull = true ∧ w.con.Shows) :
    Goes v w ↔ (cursor < v.con.orig + 5440 →
      (v.con.isFull = true ∨ v.con.crtcStart ≤ cursor) ∧
        ((v.con.crtcStart ≤ cursor ∧ cursor < v.con.crtcStart + 2000) ∨
          cursor + 80 ≤ v.con.orig + 5440)) := by
  unfold Goes
  by_cases hlt : cursor < v.con.orig + 5440
  · rw [if_pos hlt] at h
    rw [h]
    exact ⟨fun hg _ => hg, fun hg => hg hlt⟩
  · rw [if_neg hlt] at h
    exact ⟨fun _ hc => absurd hc hlt, fun _ => ⟨.inl h.1, .inl h.2⟩⟩

theorem ready_newline (h : Inv v.con) :
    Ready v (v.switch 0x0A).wrap ∧ Goes v (v.switch 0x0A).wrap := by
  obtain ⟨c, hc, hlt⟩ := h.cursor
  obtain ⟨s, hs, hmax⟩ := h.start
  have hnext : v.con.orig + SCR_WIDTH * ((v.con.cursor - v.con.orig) / SCR_WIDTH + 1) =
      v.con.orig + 80 * (c / 80 + 1) := by
    unfold SCR_WIDTH
    omega
  have hcon : (v.switch 0x0A).con = { v.con with cursor := v.con.orig + 80 * (c / 80 + 1) } := by
    rw [← hnext]
    rfl
  obtain ⟨hready, hw⟩ := ready_wrap h.toPlaced hcon (by omega) (by omega)
    ⟨[], (List.append_nil _).symm, fun a ha => absurd ha List.not_mem_nil⟩
  refine ⟨hready, (goes_iff hw).mpr fun hnew => ⟨?_, by omega⟩⟩
  cases hfull : v.con.isFull with
  | true => exact .inl rfl
  | false =>
    have htop := h.top hfull
    exact .inr (by omega)

theorem ready_backspace (h : Inv v.con) :
    Ready v (v.switch 0x08).wrap ∧ (Fits v (.outChar 0x08) ↔ Goes v (v.switch 0x08).wrap) := by
  obtain ⟨c, hc, hlt⟩ := h.cursor
  obtain ⟨s, hs, hmax⟩ := h.start
  have hfits : Fits v (.outChar 0x08) ↔
      (v.con.isFull = false → v.con.cursor = v.con.crtcStart → v.con.crtcStart = v.con.orig) ∧
        ¬ (v.con.orig + v.con.conSize < v.con.cursor - 1 + 80 ∧
          v.con.crtcStart + 2000 ≤ v.con.cursor - 1) := Iff.rfl
  rw [hfits, h.size]
  by_cases hpos : v.con.orig < v.con.cursor
  · have hswitch : v.switch 0x08 =
        ({ v with con := { v.con with cursor := v.con.cursor - 1 } } : Video).put (v.con.cursor - 1)
          (0x20, DEFAULT_CHAR_COLOR) := if_pos hpos
    obtain ⟨hready, hw⟩ := ready_wrap (u := v.switch 0x08) h.toPlaced (by rw [hswitch]; rfl)
      (show v.con.orig ≤ v.con.cursor - 1 by omega) (by omega)
      ⟨[v.con.cursor - 1], by rw [hswitch]; rfl, fun a ha => by
        rw [List.mem_singleton.mp ha]
        omega⟩
    refine ⟨hready, ?_⟩
    rw [goes_iff hw]
    cases hfull : v.con.isFull with
    | true =>
      constructor
      · rintro ⟨-, hend⟩ hnew
        exact ⟨.inl rfl, by omega⟩
      · intro hg
        exact ⟨fun hc => (by cases hc), by omega⟩
    | false =>
      have htop := h.top hfull
      constructor
      · rintro ⟨hback, hend⟩ hnew
        have hne : v.con.cursor ≠ v.con.crtcStart := fun heq => by
          have h0 := hback rfl heq
          omega
        exact ⟨.inr (by omega), by omega⟩
      · intro hg
        obtain ⟨hfirst, hrest⟩ := hg (by omega)
        have hle : v.con.crtcStart ≤ v.con.cursor - 1 := hfirst.resolve_left (by decide)
        exact ⟨fun _ heq => by omega, by omega⟩
  · have hswitch : v.switch 0x08 = v := if_neg hpos
    obtain ⟨hready, hw⟩ := @ready_wrap v (v.switch 0x08) v.con.cursor h.toPlaced (by rw [hswitch])
      (by omega) (by omega)
      ⟨[], by rw [hswitch, List.append_nil], fun a ha => absurd ha List.not_mem_nil⟩
    refine ⟨hready, ?_⟩
    rw [goes_iff hw]
    refine ⟨fun _ hnew => ⟨?_, by omega⟩, fun _ => ⟨fun hfull heq => by omega, by omega⟩⟩
    cases hfull : v.con.isFull with
    | true => exact .inl rfl
    | false => exact .inr (h.top hfull)

theorem ready_print (h : Inv v.con) (hn : ch ≠ 0x0A) (hb : ch ≠ 0x08) :
    Ready v (v.switch ch).wrap ∧ (Fits v (.outChar ch) ↔ Goes v (v.switch ch).wrap) := by
  obtain ⟨c, hc, hlt⟩ := h.cursor
  obtain ⟨s, hs, hmax⟩ := h.start
  have hfits : Fits v (.outChar ch) ↔
      ¬ (v.con.orig + v.con.conSize < v.con.cursor + 1 + 80 ∧
        v.con.cursor + 1 < v.con.orig + v.con.conSize ∧
          v.con.crtcStart + 2000 ≤ v.con.cursor + 1) := by
    unfold Fits
    simp only
    rw [if_neg hn, if_neg hb]
    exact Iff.rfl
  have hswitch : v.switch ch =
      ({ v with con := { v.con with cursor := v.con.cursor + 1 } } : Video).put v.con.cursor
        (ch, DEFAULT_CHAR_COLOR) := by
    unfold Video.switch
    simp only
    rw [if_neg hn, if_neg hb]
  rw [hfits, h.size]
  obtain ⟨hready, hw⟩ := ready_wrap (u := v.switch ch) h.toPlaced (by rw [hswitch]; rfl)
    (show v.con.orig ≤ v.con.cursor + 1 by omega) (by omega)
    ⟨[v.con.cursor], by rw [hswitch]; rfl, fun a ha => by
      rw [List.mem_singleton.mp ha]
      omega⟩
  refine ⟨hready, ?_⟩
  rw [goes_iff hw]
  constructor
  · intro hend hnew
    refine ⟨?_, by omega⟩
    cases hfull : v.con.isFull with
    | true => exact .inl rfl
    | false =>
      have htop := h.top hfull
      exact .inr (by omega)
  · intro hg
    omega

/-- every character -/
theorem ready (h : Inv v.con) (ch : Byte) :
    Ready v (v.switch ch).wrap ∧ (Fits v (.outChar ch) ↔ Goes v (v.switch ch).wrap) := by
  by_cases hn : ch = 0x0A
  · rw [hn]
    obtain ⟨hready, hgoes⟩ := ready_newline h
    exact ⟨hready, fun _ => hgoes, fun _ => trivial⟩
  by_cases hb : ch = 0x08
  · rw [hb]
    exact ready_backspace h
  · exact ready_print h hn hb

/-! ## one call -/

/-- neither assertion fails -/
theorem outChar_eq (h : Inv v.con) (ch : Byte) (fuel : Nat) :
    outChar fuel v ch = follow fuel (v.switch ch).wrap := by
  have hwrap := (ready h ch).1.placed.inside
  unfold outChar
  simp only
  rw [if_neg (not_not.mpr h.toPlaced.inside), if_neg (not_not.mpr hwrap)]

/-- what is known of a call that ends -/
theorem ends_followed (h : Inv v.con) (ht : Ends v (.outChar ch) t) :
    ((v.switch ch).wrap.con.isFull = true ∨
      (v.switch ch).wrap.con.crtcStart ≤ (v.switch ch).wrap.con.cursor) ∧
      Followed (v.switch ch).wrap t := by
  obtain ⟨fuel, hfuel⟩ := ht
  rw [outChar_eq h] at hfuel
  have hgo : (v.switch ch).wrap.con.isFull = true ∨
      (v.switch ch).wrap.con.crtcStart ≤ (v.switch ch).wrap.con.cursor := by
    by_contra hno
    obtain ⟨hfull, htop⟩ := not_or.mp hno
    rw [follow_stuck (Bool.eq_false_iff.mpr hfull) (by omega)] at hfuel
    cases hfuel
  obtain ⟨u, hu, hfollowed⟩ := follow_ends (ready h ch).1.placed hgo (Nat.le_refl _)
  obtain rfl := follow_det hfuel hu
  exact ⟨hgo, hfollowed⟩

theorem ends_inv (h : Inv v.con) (ht : Ends v (.outChar ch) t) : Inv t.con := by
  obtain ⟨-, hfollowed⟩ := ends_followed h ht
  exact { hfollowed.placed with top := fun _ => hfollowed.shows.1 }

/-- **A character is put right** exactly if it fits. -/
theorem out_iff (h : Inv v.con) (ch : Byte) :
    (∃ t, Ends v (.outChar ch) t ∧ Right v (.outChar ch) t) ↔ Fits v (.outChar ch) := by
  obtain ⟨hready, hfits⟩ := ready h ch
  obtain ⟨horig, hsize⟩ := hready.same
  obtain ⟨ws, hws, hin⟩ := hready.writes
  rw [hfits]
  constructor
  · rintro ⟨t, ht, hright⟩
    obtain ⟨hgo, -, -, -, ws', hws', -, hlast⟩ := ends_followed h ht
    refine ⟨hgo, ?_⟩
    by_cases hs : (v.switch ch).wrap.con.Shows
    · exact .inl hs
    · rw [if_neg hs] at hlast
      obtain ⟨all, hall, hinside⟩ := hright.writes
      rw [hws', hws, List.append_assoc] at hall
      obtain rfl := List.append_cancel_left hall
      have hmem := hinside _ (List.mem_append_right ws hlast)
      rw [h.size] at hmem
      exact .inr (by omega)
  · rintro ⟨hgo, hend⟩
    obtain ⟨t, ht, hplaced, hshows, ⟨horig', hsize', hcursor', -⟩, ws', hws', hin', hlast⟩ :=
      follow_ends hready.placed hgo (Nat.le_refl _)
    obtain ⟨c, hc, hlt⟩ := hplaced.cursor
    obtain ⟨s, hs, hmax⟩ := hplaced.start
    have htsize := hplaced.size
    refine ⟨t, ⟨_, (outChar_eq h ch _).trans ht⟩, ⟨by omega, by omega⟩, ⟨by omega, by omega⟩,
      fun _ _ => hshows, ⟨horig'.trans horig, hsize'.trans hsize⟩, ws ++ ws', ?_, ?_⟩
    · rw [hws', hws, List.append_assoc]
    · rw [h.size]
      intro a ha
      rcases List.mem_append.mp ha with ha | ha
      · exact hin a ha
      · by_cases hsh : (v.switch ch).wrap.con.Shows
        · rw [if_pos hsh] at hlast
          rw [hlast] at ha
          exact absurd ha List.not_mem_nil
        · have ha' := hin' a ha
          have hend' := hend.resolve_left hsh
          obtain ⟨cw, hcw, -⟩ := hready.placed.cursor
          omega

theorem scroll_right (h : Inv v.con) (dir : Dir) :
    Right v (.scroll dir) { v with con := scrollScreen v.con dir } := by
  have hinv := h.scroll dir
  obtain ⟨horig, hsize, -, -⟩ := scrollScreen_same v.con dir
  obtain ⟨c, hc, hlt⟩ := hinv.cursor
  obtain ⟨s, hs, hmax⟩ := hinv.start
  have hsz := hinv.size
  refine ⟨⟨?_, ?_⟩, ⟨?_, ?_⟩, ?_, ⟨horig, hsize⟩, [], (List.append_nil _).symm, ?_⟩
  · show (scrollScreen v.con dir).orig ≤ (scrollScreen v.con dir).cursor
    omega
  · show (scrollScreen v.con dir).cursor <
      (scrollScreen v.con dir).orig + (scrollScreen v.con dir).conSize
    omega
  · show (scrollScreen v.con dir).orig ≤ (scrollScreen v.con dir).crtcStart
    omega
  · show (scrollScreen v.con dir).crtcStart <
      (scrollScreen v.con dir).orig + (scrollScreen v.con dir).conSize
    omega
  · intro ch hc
    cases hc
  · exact fun a ha => absurd ha List.not_mem_nil

theorem ends_det {c : Call} (h : Ends v c t) (h' : Ends v c w) : t = w := by
  cases c with
  | scroll dir => exact Eq.trans h (Eq.symm h')
  | outChar ch =>
    obtain ⟨n, hn⟩ := h
    obtain ⟨m, hm⟩ := h'
    unfold outChar at hn hm
    simp only at hn hm
    obtain ⟨-, hn⟩ := Option.ite_none_left_eq_some.mp hn
    obtain ⟨-, hm⟩ := Option.ite_none_left_eq_some.mp hm
    obtain ⟨-, hn⟩ := Option.ite_none_left_eq_some.mp hn
    obtain ⟨-, hm⟩ := Option.ite_none_left_eq_some.mp hm
    exact follow_det hn hm

/-! ## runs -/

theorem init_inv {nrTty dispPos : Nat} (h : (initScreen nrTty dispPos).Inside) :
    Inv (initScreen nrTty dispPos) := by
  have hsize : (initScreen nrTty dispPos).conSize = 5440 := rfl
  have hstart : (initScreen nrTty dispPos).crtcStart = (initScreen nrTty dispPos).orig := rfl
  have hlow : (initScreen nrTty dispPos).orig ≤ (initScreen nrTty dispPos).cursor := by
    show nrTty * 5461 ≤ if nrTty = 0 then dispPos / 2 else nrTty * 5461
    split <;> omega
  unfold Console.Inside at h
  refine ⟨⟨hsize, ⟨0, by omega, by omega⟩, _, (Nat.add_sub_of_le hlow).symm, by omega⟩, ?_⟩
  intro _
  rw [hstart]
  exact hlow

/-- **Every call of a run ends, and leaves the console as it should be**, exactly if every call fits;
at the start the kernel has printed less than the console has room for. -/
theorem output_iff (nrTty dispPos : Nat) (mem : Nat → Byte × Byte) (calls : List Call)
    (h : (initScreen nrTty dispPos).Inside) :
    Run.Through Ends Right ⟨initScreen nrTty dispPos, mem, []⟩ calls ↔
      Run.Before Ends Fits ⟨initScreen nrTty dispPos, mem, []⟩ calls := by
  have hdet : ∀ v c t u, Ends v c t → Ends v c u → t = u := fun v c t u => ends_det
  have hone : ∀ v c, Inv v.con → ((∃ t, Ends v c t ∧ Right v c t) ↔ Fits v c) := by
    intro v c hv
    cases c with
    | scroll dir => exact ⟨fun _ => trivial, fun _ => ⟨_, rfl, scroll_right hv dir⟩⟩
    | outChar ch => exact out_iff hv ch
  have hinv : ∀ v c t, Inv v.con → Ends v c t → Right v c t → Inv t.con := by
    intro v c t hv ht _
    cases c with
    | scroll dir =>
      obtain rfl := ht
      exact hv.scroll dir
    | outChar ch => exact ends_inv hv ht
  exact Run.Through.iff_of_inv hdet hone hinv calls _ (init_inv h)

/-- the prompt of the second console -/
theorem output_prompt :
    Run.Through Ends Right ⟨initScreen 1 0, fun _ => (0, 0), []⟩ [.outChar 0x5B, .outChar 0x0A] ↔
      Run.Before Ends Fits ⟨initScreen 1 0, fun _ => (0, 0), []⟩ [.outChar 0x5B, .outChar 0x0A] :=
  output_iff 1 0 (fun _ => (0, 0)) _ (by decide)

/-! ## twenty-five lines, and back up -/

/-- more Backspaces than there are places behind the top of the window -/
theorem not_through_backspaces {n m : Nat} (h : Inv v.con) (hfull : v.con.isFull = false)
    (hcursor : v.con.cursor = v.con.crtcStart + n) (hn : n ≤ 2000) (hnm : n < m)
    (htop : v.con.orig < v.con.crtcStart) :
    ¬ Run.Through Ends Right v (List.replicate m (.outChar 0x08)) := by
  induction n generalizing v m with
  | zero =>
    obtain ⟨m, rfl⟩ : ∃ k, m = k + 1 := ⟨m - 1, by omega⟩
    rintro ⟨t, ht, hr, -⟩
    have hfits := ((out_iff h 0x08).mp ⟨t, ht, hr⟩).1 hfull hcursor
    omega
  | succ n ih =>
    obtain ⟨m, rfl⟩ : ∃ k, m = k + 1 := ⟨m - 1, by omega⟩
    rintro ⟨t, ht, -, hrest⟩
    have hswitch : v.switch 0x08 =
        ({ v with con := { v.con with cursor := v.con.cursor - 1 } } : Video).put (v.con.cursor - 1)
          (0x20, DEFAULT_CHAR_COLOR) := if_pos (by omega)
    obtain ⟨c, hc, hlt⟩ := h.cursor
    have hwrap : (v.switch 0x08).wrap = v.switch 0x08 := by
      refine wrap_of_lt ?_
      rw [hswitch]
      show ¬ v.con.conSize ≤ v.con.cursor - 1 - v.con.orig
      rw [h.size]
      omega
    have hcon : t.con = { v.con with cursor := v.con.cursor - 1 } := by
      obtain ⟨fuel, hfuel⟩ := ht
      rw [outChar_eq h, hwrap, hswitch, follow_shows] at hfuel
      · rw [← Option.some.inj hfuel]
        rfl
      · show v.con.crtcStart ≤ v.con.cursor - 1 ∧ v.con.cursor - 1 < v.con.crtcStart + 2000
        omega
    have hinv := ends_inv h ht
    refine ih hinv ?_ ?_ (by omega) (Nat.lt_of_succ_lt_succ hnm) ?_ hrest
    · rw [hcon]
      exact hfull
    · rw [hcon]
      show v.con.cursor - 1 = v.con.crtcStart + n
      omega
    · rw [hcon]
      exact htop

/-- a line feed at the start of a line, while the window is at the top of the console -/
theorem line_feed {k : Nat} (h : Inv v.con) (hfull : v.con.isFull = false)
    (hstart : v.con.crtcStart = v.con.orig) (hcursor : v.con.cursor = v.con.orig + 80 * k)
    (hk : k ≤ 24) (ht : Ends v (.outChar 0x0A) t) :
    t.con.orig = v.con.orig ∧ t.con.isFull = false ∧ t.con.cursor = v.con.orig + 80 * (k + 1) ∧
      if k < 24 then t.con.crtcStart = v.con.orig else v.con.orig < t.con.crtcStart := by
  have hy : (v.con.cursor - v.con.orig) / SCR_WIDTH = k := by
    unfold SCR_WIDTH
    omega
  have hcon : (v.switch 0x0A).con = { v.con with cursor := v.con.orig + 80 * (k + 1) } := by
    rw [← hy]
    rfl
  have hwrap : (v.switch 0x0A).wrap = v.switch 0x0A := by
    refine wrap_of_lt ?_
    rw [hcon]
    show ¬ v.con.conSize ≤ v.con.orig + 80 * (k + 1) - v.con.orig
    rw [h.size]
    omega
  obtain ⟨-, -, hshows, ⟨horig, -, hcursor', hfull'⟩, -⟩ := ends_followed h ht
  rw [hwrap, hcon] at horig hcursor' hfull'
  refine ⟨horig, hfull'.trans hfull, hcursor', ?_⟩
  by_cases hlt : k < 24
  · rw [if_pos hlt]
    obtain ⟨fuel, hfuel⟩ := ht
    have hin : (v.switch 0x0A).con.Shows := by
      rw [hcon]
      show v.con.crtcStart ≤ v.con.orig + 80 * (k + 1) ∧
        v.con.orig + 80 * (k + 1) < v.con.crtcStart + 2000
      omega
    rw [outChar_eq h, hwrap, follow_shows hin] at hfuel
    rw [← Option.some.inj hfuel, hcon]
    exact hstart
  · rw [if_neg hlt]
    have hend : t.con.cursor < t.con.crtcStart + 2000 := hshows.2
    have hcur : t.con.cursor = v.con.orig + 80 * (k + 1) := hcursor'
    omega

/-- line feeds to the last line of the window, one more, and then the Backspaces -/
theorem not_through_lines {n : Nat} (h : Inv v.con) (hfull : v.con.isFull = false)
    (hstart : v.con.crtcStart = v.con.orig) (hcursor : v.con.cursor = v.con.orig + 80 * (24 - n))
    (hn : n ≤ 24) :
    ¬ Run.Through Ends Right v
      (List.replicate (n + 1) (.outChar 0x0A) ++ List.replicate 2001 (.outChar 0x08)) := by
  induction n generalizing v with
  | zero =>
    rintro ⟨t, ht, -, hrest⟩
    obtain ⟨horig, hopen, hcur, htop⟩ := line_feed h hfull hstart hcursor (by omega) ht
    rw [if_neg (by omega)] at htop
    have hinv := ends_inv h ht
    have hle := hinv.top hopen
    refine not_through_backspaces (n := t.con.cursor - t.con.crtcStart) hinv hopen (by omega)
      (by omega) (by omega) (by omega) hrest
  | succ n ih =>
    rintro ⟨t, ht, -, hrest⟩
    obtain ⟨horig, hopen, hcur, htop⟩ := line_feed h hfull hstart hcursor (by omega) ht
    rw [if_pos (by omega)] at htop
    refine ih (ends_inv h ht) hopen (htop.trans horig.symm) ?_ (by omega) hrest
    rw [hcur, horig, show 24 - (n + 1) + 1 = 24 - n by omega]

/-- on the first console: 25 line feeds, then Backspaces; one of them does not end -/
theorem output_fails :
    ¬ Run.Through Ends Right ⟨initScreen 0 0, fun _ => (0x20, 0x07), []⟩
      (List.replicate 25 (.outChar 0x0A) ++ List.replicate 2001 (.outChar 0x08)) :=
  not_through_lines (n := 24) (init_inv (by decide)) rfl rfl rfl (Nat.le_refl 24)

end Noxis.Tty.Con
