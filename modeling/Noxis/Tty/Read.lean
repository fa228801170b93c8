import Noxis.Tty.Keyboard
import Noxis.Lib.Run

/-!
# 25-osfs11/kernel/tty.c: processes that read from a terminal

FS forwards DEV_READ to the TTY task, which answers SUSPEND_PROC at once and RESUME_PROC when the line
is complete.  One terminal, its screen left out.

* `Sys`, `Sys.ttyDoRead`, `Sys.ttyDevWrite`   the terminal with the memory it writes to
* `Event`, `Sys.step`       a request, or the keys of one pass of the task's loop
* `Reader`, `Spec`          every reader has a line of its own, which the keys edit
* `Served`                  the readers get what their lines are
* `readers_iff`             so they do exactly if no request has CNT 0 or finds another one waiting
* `readers_fails`           the second reader takes the line of the first
-/

namespace Noxis.Tty.Read

def TTY_IN_BYTES : Nat := 256

/-! ## the code -/

/-- the messages that the task sends to `dest` -/
inductive Message where
  | suspendProc (dest cnt : Nat)
  | resumeProc (dest procNr cnt : Nat)
  deriving DecidableEq, Repr

/-- DEV_READ, with the linear address that `va2la` gives for PROC_NR and BUF -/
structure DevRead where
  source : Nat
  procNr : Nat
  buf : Nat
  cnt : Nat

/-- the fields of `TTY` -/
structure TTY where
  ibuf : List Nat
  caller : Nat
  procnr : Nat
  reqBuf : Nat
  leftCnt : Nat
  transCnt : Nat

structure Sys where
  tty : TTY
  mem : Buffer
  sent : List Message

/-- `init_tty` -/
def Sys.init (s : Sys) : Sys :=
  { s with tty := { s.tty with ibuf := [], leftCnt := 0 }, sent := [] }

/-- `tty_do_read` -/
def Sys.ttyDoRead (s : Sys) (m : DevRead) : Sys :=
  { s with
    tty := { s.tty with caller := m.source, procnr := m.procNr, reqBuf := m.buf, leftCnt := m.cnt,
                        transCnt := 0 }
    sent := s.sent ++ [.suspendProc m.source m.cnt] }

/-- `put_key` -/
def putKey (ibuf : List Nat) (key : Nat) : List Nat :=
  if ibuf.length < TTY_IN_BYTES then ibuf ++ [key] else ibuf

/-- `in_process` on a text console; scrolling and changing the console are left out -/
def inProcess (ibuf : List Nat) (key : Nat) : List Nat :=
  if key &&& FLAG_EXT = 0 then putKey ibuf key
  else if key &&& MASK_RAW = ENTER then putKey ibuf 0x0A
  else if key &&& MASK_RAW = BACKSPACE then putKey ibuf 0x08
  else ibuf

/-- `ch >= ' ' && ch <= '~'` -/
def Printable (c : Byte) : Prop := 0x20 ≤ c ∧ c ≤ 0x7E

instance Printable.decidable (c : Byte) : Decidable (Printable c) := inferInstanceAs (Decidable (_ ∧ _))

/-- the first part of the loop of `tty_dev_write`: the byte goes to the reader, or takes one back -/
def Sys.edit (s : Sys) (c : Byte) : Sys :=
  if Printable c then
    { s with
      mem := Function.update s.mem (s.tty.reqBuf + s.tty.transCnt) c
      tty := { s.tty with transCnt := s.tty.transCnt + 1, leftCnt := s.tty.leftCnt - 1 } }
  else if c = 0x08 ∧ s.tty.transCnt ≠ 0 then
    { s with tty := { s.tty with transCnt := s.tty.transCnt - 1, leftCnt := s.tty.leftCnt + 1 } }
  else s

/-- the second part: the line is complete -/
def Sys.finish (s : Sys) (c : Byte) : Sys :=
  if c = 0x0A ∨ s.tty.leftCnt = 0 then
    { s with
      sent := s.sent ++ [.resumeProc s.tty.caller s.tty.procnr s.tty.transCnt]
      tty := { s.tty with leftCnt := 0 } }
  else s

/-- `if (tty->tty_left_cnt)` -/
def Sys.char (s : Sys) (c : Byte) : Sys := if s.tty.leftCnt ≠ 0 then (s.edit c).finish c else s

/-- `while (tty->ibuf_cnt)` -/
def Sys.drain : List Nat → Sys → Sys
  | [], s => s
  | key :: rest, s =>
    drain rest ({ s with tty := { s.tty with ibuf := rest } }.char (BitVec.ofNat 8 key))

/-- `tty_dev_write` -/
def Sys.ttyDevWrite (s : Sys) : Sys := s.drain s.tty.ibuf

inductive Event where
  | read (m : DevRead)
  | keys (l : List Nat)

/-- one pass: `tty_dev_read` and `tty_dev_write`, or a request -/
def Sys.step (s : Sys) : Event → Sys
  | .read m => s.ttyDoRead m
  | .keys l => { s with tty := { s.tty with ibuf := l.foldl inProcess s.tty.ibuf } }.ttyDevWrite

/-! ## what the readers are promised -/

/-- a process that waits for a line, and what its line is so far -/
structure Reader where
  caller : Nat
  procNr : Nat
  buf : Nat
  cnt : Nat
  line : List Byte

/-- a key edits the line -/
def Reader.edit (r : Reader) (c : Byte) : Reader :=
  { r with line := if Printable c then r.line ++ [c] else if c = 0x08 then r.line.dropLast else r.line }

/-- the line is complete: Enter, or as many bytes as were asked for -/
def Reader.Done (r : Reader) (c : Byte) : Prop := c = 0x0A ∨ r.cnt ≤ r.line.length

instance Reader.decidableDone (r : Reader) (c : Byte) : Decidable (r.Done c) :=
  inferInstanceAs (Decidable (_ ∨ _))

/-- the processes that wait, and those that were resumed, in order -/
structure Spec where
  waiting : List Reader
  served : List Reader

def Spec.char (w : Spec) (c : Byte) : Spec where
  waiting := (w.waiting.map fun r => r.edit c).filter fun r => ¬ r.Done c
  served := w.served ++ (w.waiting.map fun r => r.edit c).filter fun r => r.Done c

/-- the keys that find room in the input queue -/
def Spec.step (w : Spec) : Event → Spec
  | .read m => { w with waiting := w.waiting ++ [⟨m.source, m.procNr, m.buf, m.cnt, []⟩] }
  | .keys l => (l.foldl inProcess []).foldl (fun w key => w.char (BitVec.ofNat 8 key)) w

/-- RESUME_PROC for a reader: its own process number and byte count -/
def Reader.resume (r : Reader) : Message := .resumeProc r.caller r.procNr r.line.length

def Message.isResume : Message → Bool
  | .resumeProc _ _ _ => true
  | .suspendProc _ _ => false

/-- the readers that a pass served -/
def newly (w w' : Spec) : List Reader := w'.served.drop w.served.length

/-- **what every step has to keep** -/
structure Served (s : Sys × Spec) (t : Sys × Spec) : Prop where
  /-- exactly one RESUME_PROC for each complete line -/
  resumed : t.1.sent.filter Message.isResume = t.2.served.map Reader.resume
  /-- Enter would complete the lines of all that wait -/
  enter : (t.1.step (.keys [ENTER])).sent.filter Message.isResume =
    (t.2.step (.keys [ENTER])).served.map Reader.resume
  /-- the bytes in the buffer are the line -/
  bytes : ∀ r ∈ newly s.2 t.2, ∀ j (h : j < r.line.length), t.1.mem (r.buf + j) = r.line[j]
  /-- nothing is written outside of the buffers -/
  inside : ∀ a, (∀ r ∈ s.2.waiting, ¬ (r.buf ≤ a ∧ a < r.buf + r.cnt)) → t.1.mem a = s.1.mem a

def step (s : Sys × Spec) (e : Event) : Sys × Spec := (s.1.step e, s.2.step e)

/-- no request for nothing, and none while a process waits -/
def Fits (s : Sys × Spec) : Event → Prop
  | .read m => 0 < m.cnt ∧ s.1.tty.leftCnt = 0
  | .keys _ => True

variable {s : Sys} {w : Spec} {r : Reader} {c : Byte}

/-! ## one reader -/

/-- the terminal serves `r`, and has its line in the buffer -/
structure Held (s : Sys) (r : Reader) : Prop where
  caller : s.tty.caller = r.caller
  procnr : s.tty.procnr = r.procNr
  reqBuf : s.tty.reqBuf = r.buf
  transCnt : s.tty.transCnt = r.line.length
  leftCnt : s.tty.leftCnt + r.line.length = r.cnt
  mem : ∀ j (h : j < r.line.length), s.mem (r.buf + j) = r.line[j]

/-- nothing outside of the buffer of `r` differs -/
def SameOutside (r : Reader) (mem mem' : Buffer) : Prop :=
  ∀ a, ¬ (r.buf ≤ a ∧ a < r.buf + r.cnt) → mem' a = mem a

theorem Held.edit (h : Held s r) (hlt : r.line.length < r.cnt) (c : Byte) :
    Held (s.edit c) (r.edit c) ∧ SameOutside r s.mem (s.edit c).mem ∧ (s.edit c).sent = s.sent := by
  have hlen := h.leftCnt
  by_cases hp : Printable c
  · have hs : s.edit c = _ := if_pos hp
    have hr : (r.edit c).line = r.line ++ [c] := if_pos hp
    rw [hs]
    refine ⟨⟨h.caller, h.procnr, h.reqBuf, ?_, ?_, ?_⟩, ?_, rfl⟩
    · show s.tty.transCnt + 1 = (r.edit c).line.length
      rw [hr, h.transCnt, List.length_append, List.length_singleton]
    · show s.tty.leftCnt - 1 + (r.edit c).line.length = r.cnt
      rw [hr, List.length_append, List.length_singleton]
      omega
    · intro j hj
      show Function.update s.mem (s.tty.reqBuf + s.tty.transCnt) c (r.buf + j) = (r.edit c).line[j]
      simp only [hr] at hj ⊢
      rw [h.reqBuf, h.transCnt]
      rw [List.length_append, List.length_singleton] at hj
      by_cases hjl : j < r.line.length
      · rw [Function.update_of_ne (by omega), List.getElem_append_left hjl]
        exact h.mem j hjl
      · obtain rfl : j = r.line.length := by omega
        rw [Function.update_self, List.getElem_append_right (Nat.le_refl _)]
        simp only [Nat.sub_self, List.getElem_cons_zero]
    · intro a ha
      show Function.update s.mem (s.tty.reqBuf + s.tty.transCnt) c a = s.mem a
      rw [h.reqBuf, h.transCnt]
      exact Function.update_of_ne (by omega) _ _
  · have hs : s.edit c = if c = 0x08 ∧ s.tty.transCnt ≠ 0 then _ else s := if_neg hp
    have hr : (r.edit c).line = if c = 0x08 then r.line.dropLast else r.line := if_neg hp
    by_cases hb : c = 0x08 ∧ s.tty.transCnt ≠ 0
    · rw [if_pos hb] at hs
      rw [if_pos hb.1] at hr
      have hpos : 0 < r.line.length := by
        have := h.transCnt
        omega
      rw [hs]
      refine ⟨⟨h.caller, h.procnr, h.reqBuf, ?_, ?_, ?_⟩, fun _ _ => rfl, rfl⟩
      · show s.tty.transCnt - 1 = (r.edit c).line.length
        rw [hr, h.transCnt, List.length_dropLast]
      · show s.tty.leftCnt + 1 + (r.edit c).line.length = r.cnt
        rw [hr, List.length_dropLast]
        omega
      · intro j hj
        show s.mem (r.buf + j) = (r.edit c).line[j]
        simp only [hr] at hj ⊢
        rw [List.getElem_dropLast]
        rw [List.length_dropLast] at hj
        exact h.mem j (by omega)
    · rw [if_neg hb] at hs
      -- a backspace in an empty line takes nothing back
      have hline : r.edit c = r := by
        have hsame : (r.edit c).line = r.line := by
          rw [hr]
          split_ifs with hc
          · have h0 : r.line.length = 0 := by
              rw [← h.transCnt]
              by_contra hne
              exact hb ⟨hc, hne⟩
            rw [List.length_eq_zero_iff.mp h0]
            rfl
          · rfl
        show ({ r with line := (r.edit c).line } : Reader) = r
        rw [hsame]
      rw [hs, hline]
      exact ⟨h, fun _ _ => rfl, rfl⟩

/-- the line of the reader after a key, if it goes on -/
theorem Held.char_more (h : Held s r) (hlt : r.line.length < r.cnt) (hd : ¬ (r.edit c).Done c) :
    Held (s.char c) (r.edit c) ∧ (r.edit c).line.length < (r.edit c).cnt ∧
      SameOutside r s.mem (s.char c).mem ∧ (s.char c).sent = s.sent := by
  obtain ⟨he, hout, hsent⟩ := h.edit hlt c
  obtain ⟨hn, hle⟩ := not_or.mp hd
  have hleft : s.tty.leftCnt ≠ 0 := by
    have := h.leftCnt
    omega
  have hmore : ¬ (c = 0x0A ∨ (s.edit c).tty.leftCnt = 0) := by
    rintro (hc | hc)
    · exact hn hc
    · have := he.leftCnt
      omega
  have hs : s.char c = s.edit c := by
    unfold Sys.char Sys.finish
    rw [if_pos hleft, if_neg hmore]
  rw [hs]
  exact ⟨he, not_le.mp hle, hout, hsent⟩

/-- **the line is complete**: one RESUME_PROC, and nobody waits -/
theorem Held.char_done (h : Held s r) (hlt : r.line.length < r.cnt) (hd : (r.edit c).Done c) :
    (s.char c).tty.leftCnt = 0 ∧ (s.char c).sent = s.sent ++ [(r.edit c).resume] ∧
      SameOutside r s.mem (s.char c).mem ∧
      ∀ j (h : j < (r.edit c).line.length), (s.char c).mem (r.buf + j) = (r.edit c).line[j] := by
  obtain ⟨he, hout, hsent⟩ := h.edit hlt c
  have hleft : s.tty.leftCnt ≠ 0 := by
    have := h.leftCnt
    omega
  have hdone : c = 0x0A ∨ (s.edit c).tty.leftCnt = 0 := by
    rcases hd with hc | hc
    · exact .inl hc
    · refine .inr ?_
      have := he.leftCnt
      omega
  have hs : s.char c = { s.edit c with
      sent := (s.edit c).sent ++ [.resumeProc (s.edit c).tty.caller (s.edit c).tty.procnr
        (s.edit c).tty.transCnt]
      tty := { (s.edit c).tty with leftCnt := 0 } } := by
    unfold Sys.char Sys.finish
    rw [if_pos hleft, if_pos hdone]
  rw [hs]
  refine ⟨rfl, ?_, hout, he.mem⟩
  show (s.edit c).sent ++ [.resumeProc (s.edit c).tty.caller (s.edit c).tty.procnr
    (s.edit c).tty.transCnt] = _
  rw [hsent, he.caller, he.procnr, he.transCnt]
  rfl

/-! ## one pass -/

/-- one reader, or none -/
def Waits (s : Sys) (w : Spec) : Prop :=
  (s.tty.leftCnt = 0 ∧ w.waiting = []) ∨
    ∃ r, w.waiting = [r] ∧ Held s r ∧ r.line.length < r.cnt

theorem Waits.ibuf (h : Waits s w) (l : List Nat) :
    Waits { s with tty := { s.tty with ibuf := l } } w := by
  rcases h with h | ⟨r, hr, hh, hlt⟩
  · exact .inl h
  · exact .inr ⟨r, hr, ⟨hh.caller, hh.procnr, hh.reqBuf, hh.transCnt, hh.leftCnt, hh.mem⟩, hlt⟩

/-- with nobody waiting a key is dropped -/
theorem char_idle (hs : s.tty.leftCnt = 0) (hw : w.waiting = []) (c : Byte) :
    s.char c = s ∧ w.char c = w := by
  refine ⟨if_neg (not_not.mpr hs), ?_⟩
  cases w with
  | mk waiting served =>
    obtain rfl : waiting = [] := hw
    show (⟨[], served ++ []⟩ : Spec) = _
    rw [List.append_nil]

theorem spec_more (hw : w.waiting = [r]) (hd : ¬ (r.edit c).Done c) :
    w.char c = ⟨[r.edit c], w.served⟩ := by
  unfold Spec.char
  rw [hw, List.map_singleton]
  simp [hd]

theorem spec_done (hw : w.waiting = [r]) (hd : (r.edit c).Done c) :
    w.char c = ⟨[], w.served ++ [r.edit c]⟩ := by
  unfold Spec.char
  rw [hw, List.map_singleton]
  simp [hd]

/-- the keys of a pass, for the reader and for its line -/
def typed (l : List Nat) (w : Spec) : Spec := l.foldl (fun w key => w.char (BitVec.ofNat 8 key)) w

/-- **a pass serves the reader, once** -/
theorem drain_spec (l : List Nat) (s : Sys) (w : Spec) (h : Waits s w) :
    ∃ new, (typed l w).served = w.served ++ new ∧ (s.drain l).sent = s.sent ++ new.map Reader.resume ∧
      Waits (s.drain l) (typed l w) ∧
      (∀ r ∈ new, ∀ j (h : j < r.line.length), (s.drain l).mem (r.buf + j) = r.line[j]) ∧
      ∀ a, (∀ r ∈ w.waiting, ¬ (r.buf ≤ a ∧ a < r.buf + r.cnt)) → (s.drain l).mem a = s.mem a := by
  induction l generalizing s w with
  | nil =>
    refine ⟨[], (List.append_nil _).symm, (List.append_nil _).symm, h, ?_, fun _ _ => rfl⟩
    exact fun r hr => absurd hr List.not_mem_nil
  | cons key rest ih =>
    have h1 := h.ibuf rest
    have hdrain : s.drain (key :: rest) =
        ({ s with tty := { s.tty with ibuf := rest } }.char (BitVec.ofNat 8 key)).drain rest := rfl
    have htyped : typed (key :: rest) w = typed rest (w.char (BitVec.ofNat 8 key)) := rfl
    rw [hdrain, htyped]
    generalize BitVec.ofNat 8 key = c
    obtain ⟨s1, hs1⟩ : ∃ s1, s1 = { s with tty := { s.tty with ibuf := rest } } := ⟨_, rfl⟩
    have hmem : s1.mem = s.mem := by rw [hs1]
    have hsent : s1.sent = s.sent := by rw [hs1]
    rw [← hs1] at h1 ⊢
    rw [← hmem, ← hsent]
    rcases h1 with ⟨hleft, hw⟩ | ⟨r, hw, hh, hlt⟩
    · obtain ⟨hc, hwc⟩ := char_idle hleft hw c
      rw [hc, hwc]
      exact ih s1 w (.inl ⟨hleft, hw⟩)
    · by_cases hd : (r.edit c).Done c
      · -- the line is complete, and the rest of the pass changes nothing
        obtain ⟨hleft, hs, hout, hbytes⟩ := hh.char_done hlt hd
        rw [spec_done hw hd]
        obtain ⟨new, h2, h3, h4, h5, h6⟩ := ih (s1.char c) ⟨[], w.served ++ [r.edit c]⟩ (.inl ⟨hleft, rfl⟩)
        have hsame : ∀ a, ((s1.char c).drain rest).mem a = (s1.char c).mem a :=
          fun a => h6 a fun r hr => absurd hr List.not_mem_nil
        refine ⟨r.edit c :: new, ?_, ?_, h4, ?_, ?_⟩
        · rw [h2, List.append_assoc]
          rfl
        · rw [h3, hs, List.append_assoc]
          rfl
        · intro q hq j hj
          rcases List.mem_cons.mp hq with rfl | hq
          · rw [hsame]
            exact hbytes j hj
          · exact h5 q hq j hj
        · intro a ha
          rw [hsame]
          exact hout a (ha r (hw ▸ List.mem_singleton_self r))
      · obtain ⟨hh', hlt', hout, hs⟩ := hh.char_more hlt hd
        rw [spec_more hw hd]
        obtain ⟨new, h2, h3, h4, h5, h6⟩ :=
          ih (s1.char c) ⟨[r.edit c], w.served⟩ (.inr ⟨_, rfl, hh', hlt'⟩)
        refine ⟨new, h2, ?_, h4, h5, ?_⟩
        · rw [h3, hs]
        · intro a ha
          have har := ha r (hw ▸ List.mem_singleton_self r)
          rw [h6 a fun q hq => (List.mem_singleton.mp hq).symm ▸ har]
          exact hout a har

theorem edit_ibuf (s : Sys) (c : Byte) : (s.edit c).tty.ibuf = s.tty.ibuf := by
  unfold Sys.edit
  split_ifs <;> rfl

theorem char_ibuf (s : Sys) (c : Byte) : (s.char c).tty.ibuf = s.tty.ibuf := by
  unfold Sys.char Sys.finish
  split_ifs <;> first | exact edit_ibuf s c | rfl

/-- the pass empties the queue -/
theorem drain_ibuf (l : List Nat) (s : Sys) (h : s.tty.ibuf = l) : (s.drain l).tty.ibuf = [] := by
  induction l generalizing s with
  | nil => exact h
  | cons key rest ih => exact ih _ (char_ibuf _ _)

/-! ## the invariant -/

structure Inv (s : Sys × Spec) : Prop where
  ibuf : s.1.tty.ibuf = []
  resumed : s.1.sent.filter Message.isResume = s.2.served.map Reader.resume
  waits : Waits s.1 s.2

theorem filter_resume (l : List Reader) :
    (l.map Reader.resume).filter Message.isResume = l.map Reader.resume := by
  refine List.filter_eq_self.mpr fun m hm => ?_
  obtain ⟨r, -, rfl⟩ := List.mem_map.mp hm
  rfl

theorem step_keys (h : s.tty.ibuf = []) (l : List Nat) :
    s.step (.keys l) = ({ s with tty := { s.tty with ibuf := l.foldl inProcess [] } } : Sys).drain
      (l.foldl inProcess []) := by
  unfold Sys.step Sys.ttyDevWrite
  rw [h]

/-- a pass of keys -/
theorem Inv.keys {s : Sys × Spec} (h : Inv s) (l : List Nat) :
    Inv (step s (.keys l)) ∧
      (∀ r ∈ newly s.2 (step s (.keys l)).2, ∀ j (hj : j < r.line.length),
        (step s (.keys l)).1.mem (r.buf + j) = r.line[j]) ∧
      ∀ a, (∀ r ∈ s.2.waiting, ¬ (r.buf ≤ a ∧ a < r.buf + r.cnt)) →
        (step s (.keys l)).1.mem a = s.1.mem a := by
  have hs : (step s (.keys l)).1 =
      ({ s.1 with tty := { s.1.tty with ibuf := l.foldl inProcess [] } } : Sys).drain
        (l.foldl inProcess []) := step_keys h.ibuf l
  have hw : (step s (.keys l)).2 = typed (l.foldl inProcess []) s.2 := rfl
  obtain ⟨new, h2, h3, h4, h5, h6⟩ :=
    drain_spec (l.foldl inProcess []) _ _ (h.waits.ibuf (l.foldl inProcess []))
  have hnew : newly s.2 (typed (l.foldl inProcess []) s.2) = new := by
    unfold newly
    rw [h2, List.drop_left]
  rw [hs, hw, hnew]
  refine ⟨⟨drain_ibuf _ _ rfl, ?_, ?_⟩, h5, h6⟩
  · rw [hs, hw, h2, h3, List.filter_append, filter_resume, List.map_append]
    exact congrArg (· ++ _) h.resumed
  · rw [hs, hw]
    exact h4

/-- a request, while nobody waits -/
theorem Inv.read {s : Sys × Spec} (h : Inv s) {m : DevRead} (hf : Fits s (.read m)) :
    Inv (step s (.read m)) where
  ibuf := h.ibuf
  resumed := by
    show (s.1.sent ++ [Message.suspendProc m.source m.cnt]).filter Message.isResume = _
    rw [List.filter_append]
    show s.1.sent.filter Message.isResume ++ [] = _
    rw [List.append_nil]
    exact h.resumed
  waits := by
    obtain ⟨hpos, hleft⟩ := hf
    have hw : s.2.waiting = [] := by
      rcases h.waits with ⟨-, hw⟩ | ⟨r, -, hh, hlt⟩
      · exact hw
      · have := hh.leftCnt
        omega
    refine .inr ⟨⟨m.source, m.procNr, m.buf, m.cnt, []⟩, ?_, ?_, hpos⟩
    · show s.2.waiting ++ _ = _
      rw [hw]
      rfl
    · exact ⟨rfl, rfl, rfl, rfl, rfl, fun j hj => absurd hj (Nat.not_lt_zero j)⟩

/-! ## Enter after a request -/

theorem enter_sent (s : Sys) (h : s.tty.ibuf = []) :
    (s.step (.keys [ENTER])).sent = s.sent ++
      if s.tty.leftCnt ≠ 0 then [.resumeProc s.tty.caller s.tty.procnr s.tty.transCnt] else [] := by
  have hin : [ENTER].foldl inProcess [] = [0x0A] := by decide
  rw [step_keys h, hin]
  show ({ s with tty := { s.tty with ibuf := [] } }.char 0x0A).sent = _
  unfold Sys.char
  by_cases hl : s.tty.leftCnt ≠ 0
  · simp only [if_pos hl]
    rfl
  · simp only [if_neg hl]
    exact (List.append_nil _).symm

theorem enter_served (w : Spec) :
    (w.step (.keys [ENTER])).served = w.served ++ w.waiting.map fun r => r.edit 0x0A := by
  have hin : [ENTER].foldl inProcess [] = [0x0A] := by decide
  rw [show w.step (.keys [ENTER]) = typed ([ENTER].foldl inProcess []) w from rfl, hin]
  show w.served ++ ((w.waiting.map fun r => r.edit 0x0A).filter fun r => r.Done 0x0A) = _
  rw [List.filter_eq_self.mpr fun r _ => decide_eq_true (.inl rfl)]

/-- **a reader is lost** if another one waits, or if it asks for nothing -/
theorem not_served_read {s : Sys × Spec} (h : Inv s) {m : DevRead} (hf : ¬ Fits s (.read m)) :
    ¬ Served s (step s (.read m)) := by
  intro hs
  have hlen := congrArg List.length hs.enter
  have hbuf : (step s (.read m)).1.tty.ibuf = [] := h.ibuf
  rw [enter_sent _ hbuf, enter_served, List.filter_append, hs.resumed, List.map_append,
    List.length_append, List.length_append, Nat.add_left_cancel_iff, List.length_map,
    List.length_map] at hlen
  have hwait : (step s (.read m)).2.waiting.length = s.2.waiting.length + 1 := by
    show (s.2.waiting ++ [_]).length = _
    rw [List.length_append, List.length_singleton]
  rw [hwait] at hlen
  have hleft : (step s (.read m)).1.tty.leftCnt = m.cnt := rfl
  rw [hleft] at hlen
  by_cases hpos : m.cnt ≠ 0
  · rw [if_pos hpos] at hlen
    have h0 : s.2.waiting.length = 0 := by
      have h1 : s.2.waiting.length + 1 = 1 := hlen.symm
      omega
    refine hf ⟨Nat.pos_of_ne_zero hpos, ?_⟩
    rcases h.waits with ⟨hl, -⟩ | ⟨r, hr, -⟩
    · exact hl
    · rw [hr] at h0
      exact absurd h0 (Nat.succ_ne_zero _)
  · rw [if_neg hpos] at hlen
    exact absurd hlen.symm (Nat.succ_ne_zero _)

/-! ## runs -/

theorem Inv.served_of {s t : Sys × Spec} (ht : Inv t)
    (hb : ∀ r ∈ newly s.2 t.2, ∀ j (h : j < r.line.length), t.1.mem (r.buf + j) = r.line[j])
    (hi : ∀ a, (∀ r ∈ s.2.waiting, ¬ (r.buf ≤ a ∧ a < r.buf + r.cnt)) → t.1.mem a = s.1.mem a) :
    Served s t :=
  ⟨ht.resumed, (ht.keys [ENTER]).1.resumed, hb, hi⟩

theorem step_inv {s : Sys × Spec} {e : Event} (h : Inv s) (hf : Fits s e) :
    Inv (step s e) ∧ Served s (step s e) := by
  cases e with
  | read m =>
    have hr := h.read hf
    refine ⟨hr, hr.served_of ?_ fun _ _ => rfl⟩
    intro r hm
    unfold newly at hm
    rw [show (step s (.read m)).2.served = s.2.served from rfl, List.drop_length] at hm
    exact absurd hm List.not_mem_nil
  | keys l =>
    obtain ⟨hk, hb, hi⟩ := h.keys l
    exact ⟨hk, hk.served_of hb hi⟩

/-- **Every reader is served exactly once** in every state of a run, with its own process number, its
own count and its own line, exactly if every request asks for something while nobody waits. -/
theorem readers_iff (s : Sys) (es : List Event) :
    Run.Always (fun s e t => t = step s e) (fun s _ t => Served s t) (s.init, ⟨[], []⟩) es ↔
      Run.Always (fun s e t => t = step s e) (fun s e _ => Fits s e) (s.init, ⟨[], []⟩) es := by
  have hinit : Inv (s.init, ⟨[], []⟩) := ⟨rfl, rfl, .inl ⟨rfl, rfl⟩⟩
  refine Run.Always.iff_of_inv (I := Inv) ?_ ?_ es _ hinit
  · rintro s e _ h rfl
    refine ⟨fun hs => ?_, fun hf => (step_inv h hf).2⟩
    by_contra hf
    cases e with
    | read m => exact not_served_read h hf hs
    | keys l => exact hf trivial
  · rintro s e _ h rfl hf
    exact (step_inv h hf).1

/-! ## two shells on one terminal -/

/-- the second request takes the place of the first -/
theorem readers_fails :
    ¬ Run.Always (fun s e t => t = step s e) (fun s _ t => Served s t)
      (Sys.init ⟨⟨[], 0, 0, 0, 0, 0⟩, fun _ => 0, []⟩, ⟨[], []⟩)
      [.read ⟨3, 9, 0x1000, 64⟩, .read ⟨3, 10, 0x2000, 64⟩] := by
  rw [readers_iff]
  intro h
  obtain ⟨-, h⟩ := h _ rfl
  obtain ⟨⟨-, hleft⟩, -⟩ := h _ rfl
  exact absurd hleft (by decide)

end Noxis.Tty.Read
