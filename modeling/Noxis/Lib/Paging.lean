import Noxis.Lib.Bytes

/-!
# Page tables with two levels

An entry of the directory or of a table is a word: the frame in the high bits, and bit 0 says that it
is present.

* `walk m dir a`      where the address `a` lies, with the directory at `dir`
* `fill m o v n`      the loop that writes `n` entries from `o` on, for frames one behind the other
* `walk_identity`     **tables for frames from 0 on map every address to itself**
-/

namespace Noxis.Paging

variable {m : Buffer} {dir tbl a o v n : Nat}

def walk (m : Buffer) (dir a : Nat) : Option Nat :=
  let pde := get32 m (dir + 4 * (a / 2 ^ 22))
  if pde % 2 = 0 then none
  else
    let pte := get32 m (pde / 4096 * 4096 + 4 * (a / 4096 % 1024))
    if pte % 2 = 0 then none else some (pte / 4096 * 4096 + a % 4096)

def fill (m : Buffer) (o v : Nat) : Nat → Buffer
  | 0 => m
  | n + 1 => fill (put32 m o v) ((o + 4) % 2 ^ 32) ((v + 4096) % 2 ^ 32) n

/-- the `n` entries from `o` on are for frames one behind the other -/
def Filled (m : Buffer) (o v n : Nat) : Prop := ∀ i < n, get32 m (o + 4 * i) = v + 4096 * i

/-! ## the loop -/

/-- the bytes in another place stay -/
theorem fill_not_mem (ho : o + 4 * n ≤ 2 ^ 32) (ha : ¬ (o ≤ a ∧ a < o + 4 * n)) :
    fill m o v n a = m a := by
  induction n generalizing m o v with
  | zero => rfl
  | succ n ih =>
    show fill (put32 m o v) ((o + 4) % 2 ^ 32) ((v + 4096) % 2 ^ 32) n a = m a
    by_cases hn : n = 0
    · subst hn
      exact put32_not_mem (by omega)
    · rw [Nat.mod_eq_of_lt (show o + 4 < 2 ^ 32 by omega), ih (by omega) (by omega)]
      exact put32_not_mem (by omega)

theorem fill_filled (ho : o + 4 * n ≤ 2 ^ 32) (hv : v + 4096 * n ≤ 2 ^ 32 + 4095) :
    Filled (fill m o v n) o v n := by
  induction n generalizing m o v with
  | zero =>
    intro i hi
    exact absurd hi (Nat.not_lt_zero i)
  | succ n ih =>
    intro i hi
    show get32 (fill (put32 m o v) ((o + 4) % 2 ^ 32) ((v + 4096) % 2 ^ 32) n) _ = _
    by_cases hn : n = 0
    · subst hn
      obtain rfl : i = 0 := by omega
      show get32 (put32 m o v) o = v
      exact get32_put32_of_lt (by omega)
    · rw [Nat.mod_eq_of_lt (show o + 4 < 2 ^ 32 by omega),
        Nat.mod_eq_of_lt (show v + 4096 < 2 ^ 32 by omega)]
      cases i with
      | zero =>
        -- the rounds that follow leave the first entry alone
        have hstay : get32 (fill (put32 m o v) (o + 4) (v + 4096) n) o = get32 (put32 m o v) o :=
          get32_congr fun j hj => fill_not_mem (by omega) (by omega)
        show get32 (fill (put32 m o v) (o + 4) (v + 4096) n) o = v
        rw [hstay]
        exact get32_put32_of_lt (by omega)
      | succ i =>
        have hrest := ih (m := put32 m o v) (o := o + 4) (v := v + 4096) (by omega) (by omega) i
          (by omega)
        rw [show o + 4 * (i + 1) = o + 4 + 4 * i by omega, hrest]
        omega

theorem Filled.congr {m' : Buffer} (h : Filled m o v n)
    (hm : ∀ a, o ≤ a → a < o + 4 * n → m' a = m a) : Filled m' o v n := by
  intro i hi
  rw [← h i hi]
  exact get32_congr fun j hj => hm _ (by omega) (by omega)

/-! ## the walk -/

/-- the bits of an entry below its frame -/
theorem entry_present {f d : Nat} (hf : f % 2 = 1) (hpage : tbl % 4096 = 0) :
    (tbl + f + 4096 * d) % 2 ≠ 0 := by
  omega

theorem entry_frame {f d : Nat} (hf : f < 4096) (hpage : tbl % 4096 = 0) :
    (tbl + f + 4096 * d) / 4096 * 4096 = tbl + 4096 * d := by
  omega

/-- **Tables for frames from 0 on map every address to itself.** -/
theorem walk_identity {f : Nat} (hf : f % 2 = 1) (hf4 : f < 4096) (hpage : tbl % 4096 = 0)
    (hdir : Filled m dir (tbl + f) n) (htbl : Filled m tbl f (n * 1024)) (ha : a < n * 2 ^ 22) :
    walk m dir a = some a := by
  have hd := hdir (a / 2 ^ 22) (by omega)
  have ht := htbl (a / 4096) (by omega)
  have hplace : tbl + 4096 * (a / 2 ^ 22) + 4 * (a / 4096 % 1024) = tbl + 4 * (a / 4096) := by
    omega
  have hpte : (f + 4096 * (a / 4096)) % 2 ≠ 0 := by omega
  have hback : (f + 4096 * (a / 4096)) / 4096 * 4096 + a % 4096 = a := by omega
  simp only [walk, hd, entry_frame hf4 hpage, hplace, ht, if_neg (entry_present hf hpage),
    if_neg hpte, hback]

end Noxis.Paging
