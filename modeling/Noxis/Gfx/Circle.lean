import Noxis.Lib.Midpoint
import Noxis.Lib.Signed

/-!
# 25-osfs11: gfx_circle

The circle of kernel/gfx.c, with all that it writes to the frame buffer.

* `gfxPutpixel`, `gfxCircle`   the functions of the source, as lists of writes
* `NoOverflow r`               no operation of a turn of the loop leaves the range of an `int`
* `gfxCircle_spec`             **it draws the nearest points, in all eight octants and on the screen**
-/

namespace Noxis.Gfx
open Signed Midpoint

def GFX_FB_W : Int := 800
def GFX_FB_H : Int := 600
def GFX_FB_BYTES : Int := GFX_FB_W * GFX_FB_H

/-- an index of `vga_framebuffer` and what is stored there -/
abbrev Write := Int × BitVec 8

/-- `gfx_putpixel` -/
def gfxPutpixel (x y : Int) (color : BitVec 8) : List Write :=
  if x < 0 ∨ x ≥ GFX_FB_W ∨ y < 0 ∨ y ≥ GFX_FB_H then []
  else [(int (int (y * GFX_FB_W) + x), color)]

/-- the variables of `gfx_circle` -/
structure Circle where
  x : Int
  y : Int
  err : Int
  deriving DecidableEq, Repr

def Circle.start (r : Int) : Circle := { x := r, y := 0, err := int (1 - r) }

/-- the calls of `gfx_putpixel` in a turn of the loop -/
def Circle.plot (cx cy : Int) (color : BitVec 8) (c : Circle) : List Write :=
  gfxPutpixel (int (cx + c.x)) (int (cy + c.y)) color ++
  gfxPutpixel (int (cx + c.y)) (int (cy + c.x)) color ++
  gfxPutpixel (int (cx - c.y)) (int (cy + c.x)) color ++
  gfxPutpixel (int (cx - c.x)) (int (cy + c.y)) color ++
  gfxPutpixel (int (cx - c.x)) (int (cy - c.y)) color ++
  gfxPutpixel (int (cx - c.y)) (int (cy - c.x)) color ++
  gfxPutpixel (int (cx + c.y)) (int (cy - c.x)) color ++
  gfxPutpixel (int (cx + c.x)) (int (cy - c.y)) color

/-- the rest of a turn -/
def Circle.step (c : Circle) : Circle :=
  let y := int (c.y + 1)
  if c.err < 0 then { x := c.x, y := y, err := int (c.err + int (int (2 * y) + 1)) }
  else
    let x := int (c.x - 1)
    { x := x, y := y, err := int (c.err + int (int (2 * int (y - x)) + 1)) }

/-- the loop of `gfx_circle` -/
def circleLoop (cx cy : Int) (color : BitVec 8) : (fuel : Nat) → Circle → Option (List Write)
  | 0, _ => none
  | fuel + 1, c =>
    if c.x ≥ c.y then (circleLoop cx cy color fuel c.step).map (c.plot cx cy color ++ ·) else some []

/-- `gfx_circle` -/
def gfxCircle (fuel : Nat) (cx cy r : Int) (color : BitVec 8) : Option (List Write) :=
  circleLoop cx cy color fuel (Circle.start r)

/-! ## overflow -/

/-- no operation that `Circle.step` does to the variables leaves the range -/
def Circle.Fits (c : Circle) : Prop :=
  Signed.Fits (c.y + 1) ∧
  if c.err < 0 then
    Signed.Fits (2 * (c.y + 1)) ∧ Signed.Fits (2 * (c.y + 1) + 1) ∧
      Signed.Fits (c.err + (2 * (c.y + 1) + 1))
  else
    Signed.Fits (c.x - 1) ∧ Signed.Fits (c.y + 1 - (c.x - 1)) ∧
      Signed.Fits (2 * (c.y + 1 - (c.x - 1))) ∧ Signed.Fits (2 * (c.y + 1 - (c.x - 1)) + 1) ∧
      Signed.Fits (c.err + (2 * (c.y + 1 - (c.x - 1)) + 1))

/-- the variables after `n` turns -/
def nth (r : Int) (n : Nat) : Circle := Circle.step^[n] (Circle.start r)

/-- no operation of a turn that the loop reaches overflows -/
def NoOverflow (r : Int) : Prop :=
  Signed.Fits (1 - r) ∧ ∀ n, (∀ m ≤ n, (nth r m).y ≤ (nth r m).x) → (nth r n).Fits

/-! ## the turns -/

section
variable {r cx cy : Int} {color : BitVec 8} {k n : Nat}

/-- the variables in a row of the walk -/
def row (r : Int) (n : Nat) : Circle := { x := walk r n, y := n, err := decision r (walk r n) n }

theorem start_eq (h : Signed.Fits (1 - r)) : Circle.start r = row r 0 := by
  have herr : decision r r 0 = 1 - r := by
    unfold decision
    ring
  unfold Circle.start row
  rw [h.int_eq]
  show _ = Circle.mk r 0 (decision r r 0)
  rw [herr]

/-- a turn without an overflow -/
theorem Circle.step_eq {c : Circle} (h : c.Fits) : c.step =
    if c.err < 0 then { x := c.x, y := c.y + 1, err := c.err + (2 * (c.y + 1) + 1) }
    else { x := c.x - 1, y := c.y + 1, err := c.err + (2 * (c.y + 1 - (c.x - 1)) + 1) } := by
  obtain ⟨hy, hfits⟩ := h
  unfold Circle.step
  by_cases hd : c.err < 0
  · rw [if_pos hd] at hfits ⊢
    obtain ⟨h1, h2, h3⟩ := hfits
    rw [hy.int_eq, h1.int_eq, h2.int_eq, h3.int_eq, if_pos hd]
  · rw [if_neg hd] at hfits ⊢
    obtain ⟨h1, h2, h3, h4, h5⟩ := hfits
    dsimp only
    rw [hy.int_eq, h1.int_eq, h2.int_eq, h3.int_eq, h4.int_eq, h5.int_eq, if_neg hd]

theorem step_row (h : (row r n).Fits) : (row r n).step = row r (n + 1) := by
  rw [Circle.step_eq h]
  unfold row
  by_cases hd : decision r (walk r n) n < 0
  · rw [if_pos hd, walk_stay hd]
    push_cast
    rw [decision_stay]
  · rw [if_neg hd, walk_down hd]
    push_cast
    rw [decision_down]

theorem nth_succ (h : nth r n = row r n) (hfits : (row r n).Fits) :
    nth r (n + 1) = row r (n + 1) := by
  have hstep : nth r (n + 1) = (nth r n).step := Function.iterate_succ_apply' _ _ _
  rw [hstep, h]
  exact step_row hfits

/-- the turns of the loop are the rows of the walk -/
theorem NoOverflow.nth_eq (h : NoOverflow r) (hn : n ≤ walk r n) :
    nth r n = row r n ∧ (row r n).Fits := by
  induction n using Nat.strong_induction_on with
  | _ n ih =>
    have hbefore : ∀ m < n, m ≤ walk r m := fun m hm => by
      have := walk_antitone r hm.le
      omega
    have heq : nth r n = row r n := by
      cases n with
      | zero => exact start_eq h.1
      | succ n =>
        obtain ⟨hnth, hfits⟩ := ih n (by omega) (hbefore n (by omega))
        exact nth_succ hnth hfits
    refine ⟨heq, heq ▸ h.2 n fun m hm => ?_⟩
    rcases Nat.lt_or_eq_of_le hm with hlt | rfl
    · rw [(ih m hlt (hbefore m hlt)).1]
      exact hbefore m hlt
    · rw [heq]
      exact hn

/-- the loop from the row `n` on -/
theorem circleLoop_row (hk : ∀ n : Nat, n < k ↔ n ≤ walk r n) (h : NoOverflow r) (fuel j : Nat)
    (hn : n + j = k) (hfuel : j < fuel) : circleLoop cx cy color fuel (row r n) =
      some ((List.range' n j).flatMap fun m => (row r m).plot cx cy color) := by
  induction j generalizing n fuel with
  | zero =>
    obtain ⟨fuel, rfl⟩ : ∃ f, fuel = f + 1 := ⟨fuel - 1, by omega⟩
    have hend : ¬ (row r n).x ≥ (row r n).y := fun hx => absurd ((hk n).mpr hx) (by omega)
    rw [circleLoop, if_neg hend]
    rfl
  | succ j ih =>
    obtain ⟨fuel, rfl⟩ : ∃ f, fuel = f + 1 := ⟨fuel - 1, by omega⟩
    have hx : (row r n).x ≥ (row r n).y := (hk n).mp (by omega)
    rw [circleLoop, if_pos hx, step_row (h.nth_eq hx).2, ih fuel (by omega) (by omega)]
    rfl

/-! ## small radii -/

/-- a radius of less than 2 ^ 29 is small enough -/
theorem noOverflow_of_lt (hr : 1 ≤ r) (hr' : r < 2 ^ 29) : NoOverflow r := by
  have hfits {n : Nat} (hn : n ≤ walk r n) : (row r n).Fits := by
    have hle := walk_le r n
    obtain ⟨hlow, hhigh⟩ := (walk_nearest hr hn).decision_bounds
    unfold Circle.Fits row Signed.Fits
    dsimp only
    split <;> omega
  have hstart : Signed.Fits (1 - r) := ⟨by omega, by omega⟩
  have hrow (n : Nat) (hn : ∀ m < n, (nth r m).y ≤ (nth r m).x) : nth r n = row r n := by
    induction n with
    | zero => exact start_eq hstart
    | succ n ih =>
      have hnth := ih fun m hm => hn m (by omega)
      have hx := hn n (Nat.lt_succ_self n)
      rw [hnth] at hx
      exact nth_succ hnth (hfits hx)
  refine ⟨hstart, fun n hn => ?_⟩
  have hnth := hrow n fun m hm => hn m (by omega)
  have hx := hn n (le_refl n)
  rw [hnth] at hx ⊢
  exact hfits hx

/-- before the first step to the left -/
theorem walk_eq_of_lt (hn : ∀ m < n, ((m : Int) + 1) ^ 2 < r) : walk r n = r := by
  induction n with
  | zero => rfl
  | succ n ih =>
    have hw := ih fun m hm => hn m (by omega)
    have hlt := hn n (Nat.lt_succ_self n)
    rw [walk_stay, hw]
    unfold decision
    rw [hw]
    nlinarith

/-- a radius without an overflow is far from the end of the range -/
theorem NoOverflow.le (h : NoOverflow r) (hr : 1 ≤ r) (hr' : r < 2 ^ 31) : r ≤ 2 ^ 31 - 800 := by
  by_contra hgt
  have hex : ∃ n : Nat, r ≤ ((n : Int) + 1) ^ 2 := ⟨46340, by omega⟩
  have hle : Nat.find hex ≤ 46340 := Nat.find_le (by omega)
  have hw : walk r (Nat.find hex) = r :=
    walk_eq_of_lt fun m hm => Int.not_le.mp (Nat.find_min hex hm)
  have hfirst := Nat.find_spec hex
  generalize Nat.find hex = n at *
  obtain ⟨-, -, hfits⟩ := h.nth_eq (n := n) (by omega)
  have herr : ¬ (row r n).err < 0 := by
    show ¬ decision r (walk r n) n < 0
    unfold decision
    rw [hw]
    nlinarith
  rw [if_neg herr] at hfits
  obtain ⟨-, -, hdiff, -⟩ := hfits
  have hlow : -2 ^ 31 ≤ 2 * ((n : Int) + 1 - (walk r n - 1)) := hdiff.1
  omega

/-! ## the pixels -/

/-- a pixel of the frame buffer -/
def OnScreen (x y : Int) : Prop := 0 ≤ x ∧ x < GFX_FB_W ∧ 0 ≤ y ∧ y < GFX_FB_H

instance (x y : Int) : Decidable (OnScreen x y) := inferInstanceAs (Decidable (_ ∧ _))

/-- one of the eight points that are symmetric to `(x, y)` -/
def Symmetric (x y dx dy : Int) : Prop := |dx| = x ∧ |dy| = y ∨ |dx| = y ∧ |dy| = x

/-- a coordinate that wraps is not on the screen, and would not be there without it -/
theorem int_cases {c d : Int} (hc : Signed.Fits c) (hd : |d| ≤ 2 ^ 31 - 800) :
    int (c + d) = c + d ∨
      (int (c + d) < 0 ∨ 800 ≤ int (c + d)) ∧ (c + d < 0 ∨ 800 ≤ c + d) := by
  obtain ⟨hlow, hhigh⟩ := hc
  rw [abs_le] at hd
  rcases lt_or_ge (c + d) (-2 ^ 31) with hlt | hge
  · right
    have hadd := int_add_mul (c + d) 1
    rw [int_of_range (by omega) (by omega)] at hadd
    omega
  · rcases lt_or_ge (c + d) (2 ^ 31) with hlt | hge
    · exact .inl (int_of_range (by omega) (by omega))
    · right
      rw [int_high (by omega) (by omega)]
      omega

theorem gfxPutpixel_onScreen {x y : Int} (h : OnScreen x y) :
    gfxPutpixel x y color = [(y * GFX_FB_W + x, color)] := by
  obtain ⟨hx, hx', hy, hy'⟩ := h
  unfold GFX_FB_W at hx'
  unfold GFX_FB_H at hy'
  have hmul : int (y * 800) = y * 800 := int_of_range (by omega) (by omega)
  unfold gfxPutpixel GFX_FB_W GFX_FB_H
  rw [if_neg (by omega), hmul, int_of_range (by omega) (by omega)]

theorem gfxPutpixel_off {x y : Int} (h : ¬ OnScreen x y) : gfxPutpixel x y color = [] := by
  unfold OnScreen at h
  unfold gfxPutpixel
  rw [if_pos (by omega)]

/-- a point is drawn if it is on the screen -/
theorem mem_putpixel {dx dy : Int} {w : Write} (hcx : Signed.Fits cx) (hcy : Signed.Fits cy)
    (hx : |dx| ≤ 2 ^ 31 - 800) (hy : |dy| ≤ 2 ^ 31 - 800) :
    w ∈ gfxPutpixel (int (cx + dx)) (int (cy + dy)) color ↔
      OnScreen (cx + dx) (cy + dy) ∧ w = ((cy + dy) * GFX_FB_W + (cx + dx), color) := by
  have hx' := int_cases hcx hx
  have hy' := int_cases hcy hy
  have hon : OnScreen (int (cx + dx)) (int (cy + dy)) ↔ OnScreen (cx + dx) (cy + dy) := by
    unfold OnScreen GFX_FB_W GFX_FB_H
    omega
  by_cases h : OnScreen (cx + dx) (cy + dy)
  · obtain ⟨h1, h2, h3, h4⟩ := id h
    unfold GFX_FB_W at h2
    unfold GFX_FB_H at h4
    have hwx : int (cx + dx) = cx + dx := by omega
    have hwy : int (cy + dy) = cy + dy := by omega
    rw [gfxPutpixel_onScreen (hon.mpr h), hwx, hwy, List.mem_singleton]
    exact (and_iff_right h).symm
  · rw [gfxPutpixel_off fun h' => h (hon.mp h')]
    constructor
    · intro hw
      cases hw
    · intro hw
      exact absurd hw.1 h

/-- the eight points in the order of the source -/
def octants (x y : Int) : List (Int × Int) :=
  [(x, y), (y, x), (-y, x), (-x, y), (-x, -y), (-y, -x), (y, -x), (x, -y)]

theorem plot_eq (c : Circle) : c.plot cx cy color = (octants c.x c.y).flatMap fun d =>
    gfxPutpixel (int (cx + d.1)) (int (cy + d.2)) color := by
  simp [Circle.plot, octants, sub_eq_add_neg]

theorem mem_octants {x y : Int} {d : Int × Int} (hx : 0 ≤ x) (hy : 0 ≤ y) :
    d ∈ octants x y ↔ Symmetric x y d.1 d.2 := by
  unfold octants Symmetric
  simp only [List.mem_cons, List.not_mem_nil, or_false, Prod.ext_iff]
  rw [abs_eq hx, abs_eq hy, abs_eq hx, abs_eq hy]
  omega

theorem Symmetric.abs_le {x y dx dy b : Int} (h : Symmetric x y dx dy) (hx : x ≤ b) (hy : y ≤ b) :
    |dx| ≤ b ∧ |dy| ≤ b := by
  unfold Symmetric at h
  omega

/-- a turn draws the eight points -/
theorem mem_plot {c : Circle} {w : Write} (hcx : Signed.Fits cx) (hcy : Signed.Fits cy)
    (hy : 0 ≤ c.y) (hyx : c.y ≤ c.x) (hx : c.x ≤ 2 ^ 31 - 800) :
    w ∈ c.plot cx cy color ↔ ∃ dx dy, Symmetric c.x c.y dx dy ∧ OnScreen (cx + dx) (cy + dy) ∧
      w = ((cy + dy) * GFX_FB_W + (cx + dx), color) := by
  rw [plot_eq, List.mem_flatMap]
  constructor
  · rintro ⟨⟨dx, dy⟩, hd, hw⟩
    have hsym := (mem_octants (hy.trans hyx) hy).mp hd
    obtain ⟨hdx, hdy⟩ := hsym.abs_le hx (hyx.trans hx)
    exact ⟨dx, dy, hsym, (mem_putpixel hcx hcy hdx hdy).mp hw⟩
  · rintro ⟨dx, dy, hsym, hw⟩
    obtain ⟨hdx, hdy⟩ := hsym.abs_le hx (hyx.trans hx)
    exact ⟨(dx, dy), (mem_octants (hy.trans hyx) hy).mpr hsym,
      (mem_putpixel hcx hcy hdx hdy).mpr hw⟩

theorem OnScreen.index {x y : Int} (h : OnScreen x y) :
    0 ≤ y * GFX_FB_W + x ∧ y * GFX_FB_W + x < GFX_FB_BYTES := by
  unfold OnScreen at h
  unfold GFX_FB_BYTES GFX_FB_W GFX_FB_H at *
  omega

end

/-! ## gfx_circle -/

/-- what `gfx_circle` does: `k` turns, one for each row from 0 on, with the writes `ws` -/
structure Draws (cx cy r : Int) (color : BitVec 8) (k : Nat) (ws : List Write) : Prop where
  /-- the loop ends after `k` turns -/
  ends : ∀ fuel, k < fuel → gfxCircle fuel cx cy r color = some ws
  turns : ws = (List.range k).flatMap fun n => (nth r n).plot cx cy color
  /-- the turn `n` is at the nearest point of the row `n`, up to the diagonal -/
  row : ∀ n < k, (nth r n).y = n ∧ n ≤ (nth r n).x ∧ Nearest r (nth r n).x n
  rounded : ∀ n < k, (nth r n).x = round (√((r : ℝ) ^ 2 - ((n : ℤ) : ℝ) ^ 2))
  /-- and no row behind the last turn has such a point up to the diagonal -/
  all : ∀ (n : Nat) (x : Int), k ≤ n → n ≤ x → ¬ Nearest r x n
  /-- the eight symmetric points of each turn are drawn, as far as they are on the screen -/
  drawn : ∀ w, w ∈ ws ↔ ∃ n < k, ∃ dx dy, Symmetric (nth r n).x n dx dy ∧
    OnScreen (cx + dx) (cy + dy) ∧ w = ((cy + dy) * GFX_FB_W + (cx + dx), color)
  inside : ∀ w ∈ ws, 0 ≤ w.1 ∧ w.1 < GFX_FB_BYTES

/-- **The circle**: for every radius without an overflow and every centre, the loop ends, its turns
are at the nearest points up to the diagonal, and all eight octants are drawn, on the screen. -/
theorem gfxCircle_spec (cx cy r : Int) (color : BitVec 8) (hcx : Signed.Fits cx)
    (hcy : Signed.Fits cy) (hr : 1 ≤ r) (hr' : r < 2 ^ 31) (h : NoOverflow r) :
    ∃ k ws, Draws cx cy r color k ws := by
  obtain ⟨k, hk⟩ := exists_rows r
  have hnth (n : Nat) (hn : n < k) : nth r n = row r n := (h.nth_eq ((hk n).mp hn)).1
  have hnear (n : Nat) (hn : n < k) : Nearest r (walk r n) n := walk_nearest hr ((hk n).mp hn)
  have hplot (n : Nat) (hn : n < k) (w : Write) : w ∈ (nth r n).plot cx cy color ↔
      ∃ dx dy, Symmetric (nth r n).x n dx dy ∧ OnScreen (cx + dx) (cy + dy) ∧
        w = ((cy + dy) * GFX_FB_W + (cx + dx), color) := by
    have hle := (walk_le r n).trans (h.le hr hr')
    rw [hnth n hn]
    exact mem_plot hcx hcy (by show (0 : Int) ≤ n; omega) ((hk n).mp hn) hle
  have hdrawn (w : Write) : (w ∈ (List.range k).flatMap fun n => (nth r n).plot cx cy color) ↔
      ∃ n < k, ∃ dx dy, Symmetric (nth r n).x n dx dy ∧ OnScreen (cx + dx) (cy + dy) ∧
        w = ((cy + dy) * GFX_FB_W + (cx + dx), color) := by
    rw [List.mem_flatMap]
    constructor
    · rintro ⟨n, hn, hw⟩
      have hn := List.mem_range.mp hn
      exact ⟨n, hn, (hplot n hn w).mp hw⟩
    · rintro ⟨n, hn, hw⟩
      exact ⟨n, List.mem_range.mpr hn, (hplot n hn w).mpr hw⟩
  refine ⟨k, _, ?_, rfl, fun n hn => ?_, fun n hn => ?_, fun n x hn hx hnear => ?_, hdrawn, ?_⟩
  · intro fuel hfuel
    unfold gfxCircle
    rw [start_eq h.1, circleLoop_row hk h fuel k (Nat.zero_add k) hfuel, ← List.range_eq_range']
    congr 1
    refine List.flatMap_congr fun n hn => ?_
    rw [hnth n (List.mem_range.mp hn)]
  · rw [hnth n hn]
    exact ⟨rfl, (hk n).mp hn, hnear n hn⟩
  · rw [hnth n hn]
    have hx := (hk n).mp hn
    exact ((hnear n hn).round_sqrt (by omega)).symm
  · have hw := (nearest_iff_walk hr hx).mp hnear
    exact absurd ((hk n).mpr (by omega)) (by omega)
  · intro w hw
    obtain ⟨n, hn, dx, dy, -, hon, rfl⟩ := (hdrawn w).mp hw
    exact hon.index

/-- the ball of the demonstration -/
theorem gfxCircle_spec_ball : ∃ k ws, Draws 160 100 20 15 k ws :=
  gfxCircle_spec 160 100 20 15 (by decide) (by decide) (by decide) (by decide)
    (noOverflow_of_lt (by decide) (by decide))

end Noxis.Gfx
