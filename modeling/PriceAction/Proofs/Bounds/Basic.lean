import Mathlib.Algebra.BigOperators.Ring.List
import Mathlib.Algebra.Order.BigOperators.Group.List
import Mathlib.Algebra.Order.Interval.Set.Instances
import Mathlib.Tactic.Linarith
import PriceAction.Proofs.Scalar.Rational
import PriceAction.Proofs.Snapshot.Sanitation

/-!
# Shares

A share is a number from zero to one. The shares that the analysis computes are sums, products and
quotients of others, or of the parts of a bar that sanitation keeps.
-/

namespace PriceAction

/-- The numbers from zero to one. -/
abbrev Shares : Set Rat := Set.Icc 0 1

namespace Scalar

@[simp] theorem one_eq : (OfScientific.ofScientific 10 true 1 : Rat) = 1 := by norm_num

theorem sum_eq (xs : List Rat) : Scalar.sum xs = xs.sum := by
  cases xs with
  | nil => exact zero_eq
  | cons x rest =>
    rw [List.sum_eq_foldl, List.foldl_cons, zero_add]
    rfl

/-! ## Making shares of shares -/

theorem zero_mem : 0.0 ∈ Shares := by
  rw [zero_eq]
  exact ⟨le_refl 0, zero_le_one⟩

theorem clamp_mem (x : Rat) : Scalar.clamp x 0.0 1.0 ∈ Shares := by
  rw [zero_eq, one_eq, Scalar.clamp]
  split
  · norm_num
  · split
    · norm_num
    · next hlow hhigh => exact ⟨not_lt.1 hlow, not_lt.1 hhigh⟩

theorem min_one_mem {x : Rat} (h : 0 ≤ x) : Scalar.min x 1.0 ∈ Shares := by
  rw [min_eq, one_eq]
  exact ⟨le_min h zero_le_one, min_le_right x 1⟩

theorem mul_mem {x y : Rat} (hx : x ∈ Shares) (hy : y ∈ Shares) : x * y ∈ Shares :=
  ⟨mul_nonneg hx.1 hy.1, mul_le_one₀ hx.2 hy.1 hy.2⟩

theorem div_mem {x y : Rat} (h : 0 ≤ x) (hxy : x ≤ y) : x / y ∈ Shares :=
  ⟨div_nonneg h (h.trans hxy), div_le_one_of_le₀ hxy (h.trans hxy)⟩

theorem add_mul_mem {a b x : Rat} (ha : 0 ≤ a) (hb : 0 ≤ b) (hab : a + b ≤ 1) (hx : x ∈ Shares) :
    a + b * x ∈ Shares :=
  ⟨add_nonneg ha (mul_nonneg hb hx.1), by linarith [mul_le_of_le_one_right hb hx.2]⟩

theorem one_sub_mem {x : Rat} (h : x ∈ Shares) : 1.0 - x ∈ Shares := by
  rw [one_eq]
  exact Set.Icc.one_sub_mem h

theorem product_mem {xs : List Rat} (h : ∀ x ∈ xs, x ∈ Shares) : Scalar.product xs ∈ Shares := by
  rw [product, one_eq, ← List.prod_eq_foldl]
  induction xs with
  | nil => exact ⟨zero_le_one, le_refl 1⟩
  | cons x rest ih =>
    rw [List.forall_mem_cons] at h
    rw [List.prod_cons]
    exact mul_mem h.1 (ih h.2)

theorem product_le_of_mem {xs : List Rat} (h : ∀ x ∈ xs, x ∈ Shares) {x : Rat} (hx : x ∈ xs) :
    Scalar.product xs ≤ x := by
  induction xs with
  | nil => cases hx
  | cons y rest ih =>
    obtain ⟨hy, hrest⟩ := List.forall_mem_cons.1 h
    have hproduct : Scalar.product (y :: rest) = y * Scalar.product rest := by
      simp only [product, one_eq, ← List.prod_eq_foldl, List.prod_cons]
    obtain ⟨hpos, hle⟩ := product_mem hrest
    rw [hproduct]
    rcases List.mem_cons.1 hx with rfl | hx
    · exact mul_le_of_le_one_right hy.1 hle
    · exact (mul_le_of_le_one_left hpos hy.2).trans (ih hrest hx)

theorem clamp_eq_of_mem {x : Rat} (h : x ∈ Shares) : Scalar.clamp x 0.0 1.0 = x := by
  rw [zero_eq, one_eq, Scalar.clamp, if_neg (not_lt.2 h.1), if_neg (not_lt.2 h.2)]

/-! ## Lists -/

theorem least_le_of_mem {xs : List Rat} {x : Rat} (h : x ∈ xs) : least xs ≤ x :=
  (isLeast_least (List.ne_nil_of_mem h)).2 h

theorem le_greatest_of_mem {xs : List Rat} {x : Rat} (h : x ∈ xs) : x ≤ greatest xs :=
  (isGreatest_greatest (List.ne_nil_of_mem h)).2 h

theorem sum_mul_mem {ι : Type} {items : List ι} {price weight : ι → Rat} {low high : Rat}
    (hweight : ∀ x ∈ items, 0 ≤ weight x) (hlow : ∀ x ∈ items, low ≤ price x)
    (hhigh : ∀ x ∈ items, price x ≤ high) :
    low * (items.map weight).sum ≤ (items.map fun x => price x * weight x).sum ∧
      (items.map fun x => price x * weight x).sum ≤ high * (items.map weight).sum := by
  rw [← List.sum_map_mul_left, ← List.sum_map_mul_left]
  exact ⟨List.sum_le_sum fun x hx => mul_le_mul_of_nonneg_right (hlow x hx) (hweight x hx),
    List.sum_le_sum fun x hx => mul_le_mul_of_nonneg_right (hhigh x hx) (hweight x hx)⟩

end Scalar

/-! ## Bars -/

namespace Bar

variable {b : Bar Rat}

/-- Whether the high and the low enclose the body. -/
structure Encloses (b : Bar Rat) : Prop where
  low_le : b.low ≤ b.bodyLow
  le_high : b.bodyHigh ≤ b.high

theorem encloses_of_isWellFormed (h : b.isWellFormed = true) : b.Encloses := by
  obtain ⟨-, hhigh, hlow⟩ := not_lt_of_isWellFormed h
  exact ⟨not_lt.1 hlow, not_lt.1 hhigh⟩

theorem bodyLow_le_bodyHigh (b : Bar Rat) : b.bodyLow ≤ b.bodyHigh := by
  rw [bodyLow, bodyHigh, Scalar.min_eq, Scalar.max_eq]
  exact min_le_max

theorem Encloses.low_le_high (h : b.Encloses) : b.low ≤ b.high :=
  h.low_le.trans (b.bodyLow_le_bodyHigh.trans h.le_high)

theorem Encloses.wick_nonneg (h : b.Encloses) (side : Direction) : 0 ≤ b.wick side := by
  cases side with
  | bullish => exact sub_nonneg.2 h.le_high
  | bearish => exact sub_nonneg.2 h.low_le

theorem Encloses.wick_le_range (h : b.Encloses) (side : Direction) : b.wick side ≤ b.range := by
  have hbody := b.bodyLow_le_bodyHigh
  cases side with
  | bullish => exact sub_le_sub_left (h.low_le.trans hbody) b.high
  | bearish => exact sub_le_sub_right (hbody.trans h.le_high) b.low

theorem share_mem {part : Rat} (h : 0 ≤ part) (hle : part ≤ b.range) : b.share part ∈ Shares := by
  rw [share]
  split
  · exact Scalar.div_mem h hle
  · exact Scalar.zero_mem

end Bar

theorem IsClean.encloses {bars : List (Bar Rat)} (h : IsClean bars) {b : Bar Rat} (hb : b ∈ bars) :
    b.Encloses :=
  Bar.encloses_of_isWellFormed (h.wellFormed b hb)

end PriceAction
