import Mathlib.Algebra.Order.Ring.Abs
import Mathlib.Algebra.Order.Ring.Rat
import Mathlib.Order.Bounds.Basic
import Mathlib.Tactic.NormNum
import PriceAction.Proofs.Selection
import PriceAction.Scalar.Rational

/-!
# Rational scalars are ordered

What the comparison of scalars, their maximum and minimum, and the extremes of a list are when the
scalars are rational.
-/

namespace PriceAction.Scalar

@[simp] theorem zero_eq : (OfScientific.ofScientific 0 true 1 : Rat) = 0 := by norm_num

@[simp] theorem max_eq (a b : Rat) : Scalar.max a b = Max.max a b := by
  rw [Scalar.max]
  split
  · next h => exact (max_eq_right (le_of_lt h)).symm
  · next h =>
    rw [if_pos (show a ≤ a from le_refl a)]
    exact (max_eq_left (not_lt.1 h)).symm

@[simp] theorem min_eq (a b : Rat) : Scalar.min a b = Min.min a b := by
  rw [Scalar.min]
  split
  · next h => exact (min_eq_right (le_of_lt h)).symm
  · next h =>
    rw [if_pos (show a ≤ a from le_refl a)]
    exact (min_eq_left (not_lt.1 h)).symm

theorem abs_eq (x : Rat) : Scalar.abs x = |x| := by
  show Rat.abs x = |x|
  rw [Rat.abs]
  split
  · next h => exact (abs_of_nonneg h).symm
  · next h => exact (abs_of_neg (not_le.1 h)).symm

theorem order_eq (a b : Rat) : order a b = if a < b then .lt else if b < a then .gt else .eq := rfl

/-! ## Lists -/

theorem isGreatest_foldl_max (a : Rat) (xs : List Rat) :
    IsGreatest {x | x ∈ a :: xs} (xs.foldl Scalar.max a) := by
  obtain ⟨hmem, hall⟩ := foldl_choice (f := Scalar.max) (r := fun x y : Rat => y ≤ x) le_refl
    (fun _ _ _ hab hbc => le_trans hbc hab)
    (fun x y => by rw [max_eq]; exact max_choice x y)
    (fun x y => by rw [max_eq]; exact le_max_left x y)
    (fun x y => by rw [max_eq]; exact le_max_right x y) a xs
  exact ⟨hmem, hall⟩

theorem isLeast_foldl_min (a : Rat) (xs : List Rat) :
    IsLeast {x | x ∈ a :: xs} (xs.foldl Scalar.min a) := by
  obtain ⟨hmem, hall⟩ := foldl_choice (f := Scalar.min) (r := fun x y : Rat => x ≤ y) le_refl
    (fun _ _ _ => le_trans)
    (fun x y => by rw [min_eq]; exact min_choice x y)
    (fun x y => by rw [min_eq]; exact min_le_left x y)
    (fun x y => by rw [min_eq]; exact min_le_right x y) a xs
  exact ⟨hmem, hall⟩

theorem isGreatest_greatest {xs : List Rat} (h : xs ≠ []) :
    IsGreatest {x | x ∈ xs} (greatest xs) := by
  cases xs with
  | nil => exact absurd rfl h
  | cons a rest => exact isGreatest_foldl_max a rest

theorem isLeast_least {xs : List Rat} (h : xs ≠ []) : IsLeast {x | x ∈ xs} (least xs) := by
  cases xs with
  | nil => exact absurd rfl h
  | cons a rest => exact isLeast_foldl_min a rest

end PriceAction.Scalar
