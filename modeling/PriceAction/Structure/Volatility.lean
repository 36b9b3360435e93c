import PriceAction.Bar

/-!
# Volatility and drift

The average true range of the latest bars, the drift of the closes, and how often the closes cross
a level.
-/

namespace PriceAction

variable {α : Type} [Scalar α]

/-- Each element with the one after it. -/
def adjacent {β : Type} (xs : List β) : List (β × β) :=
  xs.zip xs.tail

/-- The average of the latest `period` true ranges. There is none without that many bars and one
more before them, nor if it is not positive. -/
def averageTrueRange? (bars : List (Bar α)) (period : Nat) : Option α :=
  if period = 0 ∨ bars.length < period + 1 then none
  else
    let latest := bars.drop (bars.length - period - 1)
    let ranges := (adjacent latest).map fun (a, b) => b.trueRange a.close
    let average := Scalar.sum ranges / (period : α)
    if Scalar.isFinite average && decide (0.0 < average) then some average else none

/-- The way the closes went. -/
structure Drift (α : Type) where
  /-- From the first close to the last. -/
  net : α
  /-- The net change as a share of the whole path. -/
  efficiency : α

/-- The drift of three bars or more whose closes moved at all. -/
def closeDrift? (bars : List (Bar α)) : Option (Drift α) :=
  match bars.head?, bars.getLast? with
  | some first, some last =>
    if bars.length < 3 then none
    else
      let net := last.close - first.close
      let path := Scalar.sum ((adjacent bars).map fun (a, b) => Scalar.abs (b.close - a.close))
      if path ≤ 0.0 then none else some ⟨net, Scalar.abs net / path⟩
  | _, _ => none

/-- How often consecutive closes lie on different sides of a level; on it counts as below. -/
def crossings (bars : List (Bar α)) (level : α) : Nat :=
  (adjacent bars).countP fun (a, b) => decide (level < a.close) != decide (level < b.close)

end PriceAction
