import PriceAction.Proofs.Floating.Order
import PriceAction.Proofs.Scalar.Rational

/-!
# The laws of comparison

What holds of the comparisons of binary floating point as well as of exact rationals. Chains of
comparisons hold of all values, and of ordinary numbers one is always at or below the other. The
order that sorting uses is total on all values.
-/

namespace PriceAction

/-- The laws of comparison that do not depend on how exact a scalar is. -/
class LawfulScalar (α : Type) [Scalar α] : Prop where
  lt_irrefl (a : α) : ¬a < a
  le_of_lt {a b : α} : a < b → a ≤ b
  lt_of_lt_of_le {a b c : α} : a < b → b ≤ c → a < c
  lt_of_le_of_lt {a b c : α} : a ≤ b → b < c → a < c
  /-- Ordinary numbers are ordered linearly. -/
  le_of_not_lt {a b : α} : Scalar.isFinite a = true → Scalar.isFinite b = true → ¬a < b → b ≤ a
  transCmp_order : Std.TransCmp (Scalar.order (α := α))

attribute [instance] LawfulScalar.transCmp_order

namespace LawfulScalar

variable {α : Type} [Scalar α] [LawfulScalar α] {a b c : α}

theorem lt_trans (hab : a < b) (hbc : b < c) : a < c :=
  lt_of_lt_of_le hab (le_of_lt hbc)

theorem not_lt_of_lt (h : a < b) : ¬b < a :=
  fun hback => lt_irrefl a (lt_trans h hback)

theorem le_self (h : Scalar.isFinite a = true) : a ≤ a :=
  le_of_not_lt h h (lt_irrefl a)

theorem isFinite_max (ha : Scalar.isFinite a = true) (hb : Scalar.isFinite b = true) :
    Scalar.isFinite (Scalar.max a b) = true := by
  rw [Scalar.max, if_pos (le_self ha)]
  split
  · exact hb
  · exact ha

theorem isFinite_min (ha : Scalar.isFinite a = true) (hb : Scalar.isFinite b = true) :
    Scalar.isFinite (Scalar.min a b) = true := by
  rw [Scalar.min, if_pos (le_self ha)]
  split
  · exact hb
  · exact ha

theorem le_iff_not_lt (ha : Scalar.isFinite a = true) (hb : Scalar.isFinite b = true) :
    a ≤ b ↔ ¬b < a :=
  ⟨fun hle hlt => lt_irrefl a (lt_of_le_of_lt hle hlt), le_of_not_lt hb ha⟩

theorem le_max_right (ha : Scalar.isFinite a = true) (hb : Scalar.isFinite b = true) :
    b ≤ Scalar.max a b := by
  rw [Scalar.max, if_pos (le_self ha)]
  split
  · exact le_self hb
  · next h => exact le_of_not_lt ha hb h

theorem min_le_right (ha : Scalar.isFinite a = true) (hb : Scalar.isFinite b = true) :
    Scalar.min a b ≤ b := by
  rw [Scalar.min, if_pos (le_self ha)]
  split
  · exact le_self hb
  · next h => exact le_of_not_lt hb ha h

end LawfulScalar

/-! ## Floating point -/

namespace Floating

open Float.Model

variable {a b : Float}

theorem lt_irrefl (a : Float) : ¬a < a := by
  rw [lt_iff]
  rintro ⟨x, hx, y, hy, hxy⟩
  rw [hx] at hy
  cases hy
  exact Rank.Below.irrefl x hxy

theorem le_of_lt (h : a < b) : a ≤ b := by
  obtain ⟨x, hx, y, hy, hxy⟩ := lt_iff.1 h
  exact le_iff.2 ⟨x, hx, y, hy, fun hyx => Rank.Below.irrefl x (hxy.trans hyx)⟩

theorem exists_rankOf? (h : Scalar.isFinite a = true) : ∃ x, rankOf? a = some x := by
  have hfinite : a.toModel.unpack.isFinite = true := h
  rw [rankOf?]
  generalize a.toModel.unpack = u at hfinite ⊢
  rcases u with (_ | _) | _ | (_ | _) | ⟨_ | _, m, e, hm⟩
  all_goals first
    | exact ⟨_, rfl⟩
    | cases hfinite

theorem le_of_not_lt (ha : Scalar.isFinite a = true) (hb : Scalar.isFinite b = true)
    (h : ¬a < b) : b ≤ a := by
  obtain ⟨x, hx⟩ := exists_rankOf? ha
  obtain ⟨y, hy⟩ := exists_rankOf? hb
  exact le_iff.2 ⟨y, hy, x, hx, fun hxy => h (lt_iff.2 ⟨x, hx, y, hy, hxy⟩)⟩

end Floating

instance : LawfulScalar Float where
  lt_irrefl := Floating.lt_irrefl
  le_of_lt := Floating.le_of_lt
  lt_of_lt_of_le := Floating.lt_of_lt_of_le
  lt_of_le_of_lt := Floating.lt_of_le_of_lt
  le_of_not_lt := Floating.le_of_not_lt
  transCmp_order := inferInstanceAs (Std.TransCmp (compareOn floatOrderKey))

/-! ## Exact rationals -/

namespace Scalar

theorem isLE_order {a b : Rat} : (order a b).isLE = true ↔ a ≤ b := by
  rw [order_eq]
  split
  · next h => simpa using le_of_lt h
  · next h =>
    split
    · next hgt => simpa using hgt
    · next hge => simpa using not_lt.1 hge

theorem order_swap (a b : Rat) : order a b = (order b a).swap := by
  rcases lt_trichotomy a b with h | rfl | h
  · simp [order_eq, h, not_lt_of_gt h]
  · simp [order_eq]
  · simp [order_eq, h, not_lt_of_gt h]

end Scalar

instance : LawfulScalar Rat where
  lt_irrefl := lt_irrefl
  le_of_lt := le_of_lt
  lt_of_lt_of_le := lt_of_lt_of_le
  lt_of_le_of_lt := lt_of_le_of_lt
  le_of_not_lt _ _ := not_lt.1
  transCmp_order :=
    { eq_swap := Scalar.order_swap _ _
      isLE_trans := fun hab hbc =>
        Scalar.isLE_order.2 (le_trans (Scalar.isLE_order.1 hab) (Scalar.isLE_order.1 hbc)) }

end PriceAction
