import PriceAction.Zone.Basic

/-!
# The life of a zone

A zone of demand is invalidated by a close below it and a zone of supply by a close above it;
until then a bar that reaches the near side mitigates it. An invalidated zone stays so.
-/

namespace PriceAction.Zone

variable {α : Type} [Scalar α]

/-- Whether a bar closes through the far side of a band. -/
def closesThrough (low high : α) : Direction → Bar α → Bool
  | .bullish, b => b.close < low
  | .bearish, b => high < b.close

/-- Whether a bar reaches the near side of a band. -/
def reaches (low high : α) : Direction → Bar α → Bool
  | .bullish, b => b.low ≤ high
  | .bearish, b => low ≤ b.high

/-- The status after one more bar. -/
def revisit (low high : α) (d : Direction) (status : ZoneStatus) (b : Bar α) : ZoneStatus :=
  if status = .invalidated then .invalidated
  else if closesThrough low high d b then .invalidated
  else if reaches low high d b then .mitigated
  else status

/-- The status of a band after the bars that follow the bar at `origin`. -/
def lifecycle (bars : List (Bar α)) (origin : Nat) (low high : α) (d : Direction) : ZoneStatus :=
  (bars.drop (origin + 1)).foldl (revisit low high d) .active

end PriceAction.Zone
