import Noxis.Lib.Bytes

/-!
# Sequences of labels

A label is a text of 1 to 63 bytes; a sequence of labels is written as each one's length and bytes.
A zero byte ends it.

* `encode ls`        the bytes of the labels, without the zero;
* `decode n l`       what `l` starts with: at most `n` labels and the zero, and what is behind them;
* `decode_encode`    **round trip**.
-/

namespace Noxis.Labels

def IsLabel (l : List Byte) : Prop := 0 < l.length ∧ l.length ≤ 63

instance (l : List Byte) : Decidable (IsLabel l) := inferInstanceAs (Decidable (_ ∧ _))

def encode (ls : List (List Byte)) : List Byte :=
  ls.flatMap fun l => BitVec.ofNat 8 l.length :: l

def decode : Nat → List Byte → Option (List (List Byte) × List Byte)
  | 0, _ => none
  | _ + 1, [] => none
  | n + 1, c :: s =>
    if c = 0 then some ([], s)
    else if c.toNat ≤ 63 ∧ c.toNat ≤ s.length then
      (decode n (s.drop c.toNat)).map fun r => (s.take c.toNat :: r.1, r.2)
    else none

section
variable {l : List Byte} {ls : List (List Byte)}

@[simp] theorem encode_nil : encode [] = [] := rfl

@[simp] theorem encode_cons : encode (l :: ls) = BitVec.ofNat 8 l.length :: (l ++ encode ls) := rfl

theorem encode_append (ls ls' : List (List Byte)) : encode (ls ++ ls') = encode ls ++ encode ls' :=
  List.flatMap_append

/-- the length of a label is a byte -/
theorem IsLabel.toNat (h : IsLabel l) : (BitVec.ofNat 8 l.length).toNat = l.length := by
  have hle := h.2
  rw [BitVec.toNat_ofNat]
  exact Nat.mod_eq_of_lt (by omega)

theorem IsLabel.ne_zero (h : IsLabel l) : BitVec.ofNat 8 l.length ≠ 0 := by
  intro h0
  have hpos := h.1
  have hlen := h.toNat
  rw [h0] at hlen
  exact absurd hlen (Nat.ne_of_lt hpos)

/-- **Round trip of a sequence.** -/
theorem decode_encode (rest : List Byte) (h : ∀ l ∈ ls, IsLabel l) {n : Nat} (hn : ls.length < n) :
    decode n (encode ls ++ 0 :: rest) = some (ls, rest) := by
  induction ls generalizing n with
  | nil =>
    obtain ⟨n, rfl⟩ : ∃ m, n = m + 1 := ⟨n - 1, by omega⟩
    rfl
  | cons l ls ih =>
    obtain ⟨hl, hls⟩ := List.forall_mem_cons.mp h
    obtain ⟨n, rfl⟩ : ∃ m, n = m + 1 := ⟨n - 1, by omega⟩
    rw [encode_cons, List.cons_append, List.append_assoc, decode, if_neg hl.ne_zero, hl.toNat]
    have hlen : l.length ≤ (l ++ (encode ls ++ 0 :: rest)).length := by
      rw [List.length_append]
      omega
    rw [if_pos ⟨hl.2, hlen⟩, List.drop_left, List.take_left, ih hls (Nat.lt_of_succ_lt_succ hn)]
    rfl

end

end Noxis.Labels
