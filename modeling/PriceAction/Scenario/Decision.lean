import PriceAction.Bar

/-!
# Scenario decisions

A decision names a scenario, with a direction, a confidence, reasons and key levels. When no
scenario can be named it says what stood in the way.
-/

namespace PriceAction

inductive Scenario where
  /-- An extreme of the higher timeframe was swept and the price is back inside. -/
  | sweepReversal
  /-- The trend goes on, with a zone to work from. -/
  | trendContinuation
  | unclear
deriving DecidableEq, Repr, Inhabited

def Scenario.text : Scenario → String
  | sweepReversal => "SWEEP_REVERSAL"
  | trendContinuation => "TREND_CONTINUATION"
  | unclear => "UNCLEAR"

/-- The gate at which a scenario failed. -/
inductive Obstacle where
  | noBars
  | noHigherRange
  | noHigherSweep
  | notBackInside
  | noConfirmation
  | noBias
  | trendNotAligned
  | referenceLost
  | noPrimaryZone
deriving DecidableEq, Repr, Inhabited

namespace Obstacle

/-- The name of the obstacle in data files. -/
def text : Obstacle → String
  | noBars => "NO_BARS"
  | noHigherRange => "NO_HTF_RANGE"
  | noHigherSweep => "NO_HTF_SWEEP"
  | notBackInside => "NOT_BACK_INSIDE"
  | noConfirmation => "NO_REVERSAL_CONFIRMATION"
  | noBias => "NO_BIAS"
  | trendNotAligned => "TREND_NOT_ALIGNED"
  | referenceLost => "REFERENCE_LOST"
  | noPrimaryZone => "NO_PRIMARY_ZONE"

/-- The obstacle in words. -/
def message : Obstacle → String
  | noBars => "no bars"
  | noHigherRange => "no higher-timeframe range"
  | noHigherSweep => "no recent sweep of a higher-timeframe extreme"
  | notBackInside => "price did not close back inside the higher-timeframe range"
  | noConfirmation => "no change of character or manipulation confirming the reversal"
  | noBias => "no directional bias"
  | trendNotAligned => "trend not aligned with bias"
  | referenceLost => "price lost the reference level"
  | noPrimaryZone => "no primary zone or OTE in the bias direction"

end Obstacle

structure KeyLevel (α : Type) where
  name : String
  price : α

structure Decision (α : Type) where
  scenario : Scenario
  direction : Option Direction
  /-- From zero to one. -/
  confidence : α
  reasons : List String
  keyLevels : List (KeyLevel α)
  /-- What kept the scenario unclear. -/
  obstacle : Option Obstacle

namespace Decision

variable {α : Type}

/-- What makes two decisions the same for the stable scenario. -/
def key (d : Decision α) : Scenario × Option Direction := (d.scenario, d.direction)

def unclear (obstacle : Obstacle) (confidence : α) (reasons : List String)
    (keyLevels : List (KeyLevel α)) : Decision α where
  scenario := .unclear
  direction := none
  confidence := confidence
  reasons := reasons
  keyLevels := keyLevels
  obstacle := some obstacle

end Decision

end PriceAction
