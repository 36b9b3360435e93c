import Mathlib.Algebra.Order.Field.Basic
import Mathlib.Tactic.Ring
import PriceAction.Liquidity.Pool
import PriceAction.Proofs.Scalar.Rational

/-!
# Rescaled prices

Every price is multiplied by one factor other than zero. A negative factor turns the market upside
down: high and low change places, and so do the two sides of everything that has sides (`turned`).
What is here is how the comparison of prices, their extremes and the anatomy of a bar respond.
-/

namespace PriceAction

/-! ## Sides -/

/-- Types whose values have opposites. -/
class Sided (β : Type) where
  opposite : β → β
  opposite_opposite (x : β) : opposite (opposite x) = x

/-- What a value becomes when prices are multiplied by a factor. -/
def turned {β : Type} [Sided β] (c : Rat) (x : β) : β :=
  if c < 0 then Sided.opposite x else x

section Turned

variable {β γ : Type} [Sided β] [Sided γ] {c k : Rat}

@[simp] theorem turned_of_pos (hk : 0 < k) (x : β) : turned k x = x :=
  if_neg (not_lt_of_gt hk)

@[simp] theorem turned_eq_id (hk : 0 < k) : (turned k : β → β) = id :=
  funext (turned_of_pos hk)

theorem turned_of_neg (hc : c < 0) (x : β) : turned c x = Sided.opposite x :=
  if_pos hc

@[simp] theorem turned_turned (c : Rat) (x : β) : turned c (turned c x) = x := by
  unfold turned
  split
  · exact Sided.opposite_opposite x
  · rfl

@[simp] theorem turned_inj {x y : β} : turned c x = turned c y ↔ x = y := by
  refine ⟨fun h => ?_, congrArg _⟩
  rw [← turned_turned c x, h, turned_turned]

theorem map_turned {f : β → γ} (h : ∀ x, f (Sided.opposite x) = Sided.opposite (f x)) (c : Rat)
    (x : β) : f (turned c x) = turned c (f x) := by
  unfold turned
  split
  · exact h x
  · rfl

end Turned

instance : Sided Direction where
  opposite := Direction.opposite
  opposite_opposite := Direction.opposite_opposite

/-! ## Prices -/

namespace Scalar

theorem abs_rescale (c x : Rat) : Scalar.abs (c * x) = |c| * Scalar.abs x := by
  rw [abs_eq, abs_eq, abs_mul]

theorem abs_sub_rescale (c x y : Rat) :
    Scalar.abs (c * x - c * y) = |c| * Scalar.abs (x - y) := by
  rw [← mul_sub, abs_rescale]

theorem rescale_nonpos_iff {k : Rat} (hk : 0 < k) {x : Rat} : k * x ≤ 0 ↔ x ≤ 0 := by
  rw [← not_lt, mul_pos_iff_of_pos_left hk, not_lt]

theorem max_rescale {k : Rat} (hk : 0 ≤ k) (x y : Rat) :
    Scalar.max (k * x) (k * y) = k * Scalar.max x y := by
  rw [max_eq, max_eq, mul_max_of_nonneg x y hk]

theorem min_rescale {k : Rat} (hk : 0 ≤ k) (x y : Rat) :
    Scalar.min (k * x) (k * y) = k * Scalar.min x y := by
  rw [min_eq, min_eq, mul_min_of_nonneg x y hk]

theorem max_rescale_of_neg {c : Rat} (hc : c < 0) (x y : Rat) :
    Scalar.max (c * x) (c * y) = c * Scalar.min x y := by
  rw [max_eq, min_eq]
  exact ((antitone_mul_left hc.le).map_min (a := x) (b := y)).symm

theorem min_rescale_of_neg {c : Rat} (hc : c < 0) (x y : Rat) :
    Scalar.min (c * x) (c * y) = c * Scalar.max x y := by
  rw [max_eq, min_eq]
  exact ((antitone_mul_left hc.le).map_max (a := x) (b := y)).symm

theorem sum_rescale (c : Rat) (xs : List Rat) :
    Scalar.sum (xs.map (c * ·)) = c * Scalar.sum xs := by
  cases xs with
  | nil => exact (by norm_num : (0.0 : Rat) = c * 0.0)
  | cons x rest => exact List.foldl_map_hom fun x y => (mul_add c x y).symm

end Scalar

section Prices

variable {c : Rat} (hc : c ≠ 0)
include hc

theorem Direction.beyond_rescale (d : Direction) (x y : Rat) :
    (turned c d).beyond (c * x) (c * y) = d.beyond x y := by
  rcases lt_or_gt_of_ne hc with h | h
  · rw [turned_of_neg h]
    cases d
    · exact decide_eq_decide.2 (mul_lt_mul_left_of_neg h)
    · exact decide_eq_decide.2 (mul_lt_mul_left_of_neg h)
  · rw [turned_of_pos h]
    cases d
    · exact decide_eq_decide.2 (mul_lt_mul_iff_right₀ h)
    · exact decide_eq_decide.2 (mul_lt_mul_iff_right₀ h)

theorem Pool.outermost_rescale (d : Direction) (xs : List Rat) :
    outermost (turned c d) (xs.map (c * ·)) = c * outermost d xs := by
  cases xs with
  | nil =>
    cases turned c d
    all_goals cases d
    all_goals exact (by norm_num : (0.0 : Rat) = c * 0.0)
  | cons x rest =>
    rcases lt_or_gt_of_ne hc with h | h
    · rw [turned_of_neg h]
      cases d
      · exact List.foldl_map_hom (Scalar.min_rescale_of_neg h)
      · exact List.foldl_map_hom (Scalar.max_rescale_of_neg h)
    · rw [turned_of_pos h]
      cases d
      · exact List.foldl_map_hom (Scalar.max_rescale h.le)
      · exact List.foldl_map_hom (Scalar.min_rescale h.le)

end Prices

theorem Direction.beyond_rescale_of_pos {k : Rat} (hk : 0 < k) (d : Direction) (x y : Rat) :
    d.beyond (k * x) (k * y) = d.beyond x y := by
  have hbeyond := beyond_rescale hk.ne' d x y
  rwa [turned_of_pos hk] at hbeyond

theorem Pool.outermost_rescale_of_pos {k : Rat} (hk : 0 < k) (d : Direction) (xs : List Rat) :
    outermost d (xs.map (k * ·)) = k * outermost d xs := by
  rw [← outermost_rescale hk.ne', turned_of_pos hk]

/-! ## Bars -/

namespace Bar

/-- The bar with its prices multiplied by a factor. Its high stays the high for a positive factor
(`high_rescale`), and for a negative one it becomes the low (`low_rescale_of_neg`). -/
def rescale (c : Rat) (b : Bar Rat) : Bar Rat where
  time := b.time
  opening := c * b.opening
  high := c * b.extreme (turned c .bullish)
  low := c * b.extreme (turned c .bearish)
  close := c * b.close
  volume := b.volume

@[simp] theorem time_rescale (c : Rat) (b : Bar Rat) : (b.rescale c).time = b.time := rfl

@[simp] theorem opening_rescale (c : Rat) (b : Bar Rat) :
    (b.rescale c).opening = c * b.opening := rfl

@[simp] theorem close_rescale (c : Rat) (b : Bar Rat) : (b.rescale c).close = c * b.close := rfl

variable {c : Rat}

theorem extreme_rescale (c : Rat) (b : Bar Rat) (d : Direction) :
    (b.rescale c).extreme d = c * b.extreme (turned c d) := by
  cases d <;> rfl

theorem extreme_turned (c : Rat) (b : Bar Rat) (d : Direction) :
    (b.rescale c).extreme (turned c d) = c * b.extreme d := by
  rw [extreme_rescale, turned_turned]

@[simp] theorem high_rescale {k : Rat} (hk : 0 < k) (b : Bar Rat) :
    (b.rescale k).high = k * b.high := by
  show k * b.extreme (turned k .bullish) = _
  rw [turned_of_pos hk]
  rfl

@[simp] theorem low_rescale {k : Rat} (hk : 0 < k) (b : Bar Rat) :
    (b.rescale k).low = k * b.low := by
  show k * b.extreme (turned k .bearish) = _
  rw [turned_of_pos hk]
  rfl

theorem high_rescale_of_neg (hc : c < 0) (b : Bar Rat) : (b.rescale c).high = c * b.low := by
  show c * b.extreme (turned c .bullish) = _
  rw [turned_of_neg hc]
  rfl

theorem low_rescale_of_neg (hc : c < 0) (b : Bar Rat) : (b.rescale c).low = c * b.high := by
  show c * b.extreme (turned c .bearish) = _
  rw [turned_of_neg hc]
  rfl

theorem range_rescale (hc : c ≠ 0) (b : Bar Rat) : (b.rescale c).range = |c| * b.range := by
  rcases lt_or_gt_of_ne hc with h | h
  · rw [range, range, high_rescale_of_neg h, low_rescale_of_neg h, abs_of_neg h]
    show c * b.low - c * b.high = -c * (b.high - b.low)
    ring
  · rw [range, range, high_rescale h, low_rescale h, abs_of_pos h]
    exact (mul_sub c b.high b.low).symm

theorem trueRange_rescale (hc : c ≠ 0) (b : Bar Rat) (previousClose : Rat) :
    (b.rescale c).trueRange (c * previousClose) = |c| * b.trueRange previousClose := by
  have hdist := Scalar.abs_sub_rescale c
  have hrange := range_rescale hc b
  have hmax := Scalar.max_rescale (abs_nonneg c)
  rw [range, range] at hrange
  rcases lt_or_gt_of_ne hc with h | h
  · -- the distances of the high and of the low to the close before change places
    rw [trueRange, hrange, high_rescale_of_neg h, low_rescale_of_neg h, hdist, hdist, hmax, hmax,
      trueRange]
    simp only [Scalar.max_eq]
    rw [max_right_comm]
  · rw [trueRange, hrange, high_rescale h, low_rescale h, hdist, hdist, hmax, hmax, trueRange]

section Positive

variable {k : Rat} (hk : 0 < k)
include hk

theorem extreme_rescale_of_pos (b : Bar Rat) (d : Direction) :
    (b.rescale k).extreme d = k * b.extreme d := by
  rw [extreme_rescale, turned_of_pos hk]

theorem range_rescale_of_pos (b : Bar Rat) : (b.rescale k).range = k * b.range := by
  rw [range_rescale hk.ne', abs_of_pos hk]

theorem bodyHigh_rescale (b : Bar Rat) : (b.rescale k).bodyHigh = k * b.bodyHigh :=
  Scalar.max_rescale hk.le b.opening b.close

theorem bodyLow_rescale (b : Bar Rat) : (b.rescale k).bodyLow = k * b.bodyLow :=
  Scalar.min_rescale hk.le b.opening b.close

theorem wick_rescale (b : Bar Rat) (d : Direction) : (b.rescale k).wick d = k * b.wick d := by
  cases d with
  | bullish =>
    rw [wick, upperWick, high_rescale hk, bodyHigh_rescale hk]
    exact (mul_sub ..).symm
  | bearish =>
    rw [wick, lowerWick, low_rescale hk, bodyLow_rescale hk]
    exact (mul_sub ..).symm

theorem share_rescale (b : Bar Rat) (part : Rat) :
    (b.rescale k).share (k * part) = b.share part := by
  simp only [share, range_rescale_of_pos hk, Scalar.zero_eq, mul_pos_iff_of_pos_left hk,
    mul_div_mul_left _ _ hk.ne']

theorem bodyRatio_rescale (b : Bar Rat) : (b.rescale k).bodyRatio = b.bodyRatio := by
  have hbody : (b.rescale k).body = k * b.body := by
    show Scalar.abs (k * b.close - k * b.opening) = k * b.body
    rw [Scalar.abs_sub_rescale, abs_of_pos hk]
    rfl
  rw [bodyRatio, hbody, share_rescale hk, bodyRatio]

end Positive

end Bar

end PriceAction
