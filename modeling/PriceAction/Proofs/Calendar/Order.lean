import Mathlib.Order.Defs.LinearOrder
import PriceAction.Calendar.Instant

/-!
# The order of instants

Instants are ordered by their seconds and then by their nanoseconds, and this order is linear.
-/

namespace PriceAction.Instant

instance instLinearOrder : LinearOrder Instant where
  le_refl a := by rw [le_iff]; omega
  le_trans a b c hab hbc := by rw [le_iff] at *; omega
  lt_iff_le_not_ge a b := by rw [lt_iff, le_iff, le_iff]; omega
  le_antisymm a b hab hba := by
    obtain ⟨s, n⟩ := a
    obtain ⟨s', n'⟩ := b
    rw [le_iff] at hab hba
    dsimp only at hab hba
    rw [Instant.mk.injEq]
    omega
  le_total a b := by rw [le_iff, le_iff]; omega
  toDecidableLE := inferInstance
  toDecidableLT := inferInstance
  toDecidableEq := inferInstance

end PriceAction.Instant
