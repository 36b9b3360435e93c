/-!
# Directions

The direction of a move, the trend read off the pivots, the bias that the analysis takes, and the
role of something relative to that bias.
-/

namespace PriceAction

/-- Up or down. -/
inductive Direction where
  | bullish
  | bearish
deriving DecidableEq, Repr, Inhabited

namespace Direction

def opposite : Direction → Direction
  | bullish => bearish
  | bearish => bullish

/-- One for up, minus one for down. -/
def sign : Direction → Int
  | bullish => 1
  | bearish => -1

def text : Direction → String
  | bullish => "BULLISH"
  | bearish => "BEARISH"

@[simp] theorem opposite_opposite (d : Direction) : d.opposite.opposite = d := by
  cases d <;> rfl

@[simp] theorem opposite_ne (d : Direction) : d.opposite ≠ d := by
  cases d <;> decide

end Direction

/-- What the pivots, or failing them the drift of the closes, say about the market. -/
inductive Trend where
  | up
  | down
  | range
  | unknown
deriving DecidableEq, Repr, Inhabited

namespace Trend

def direction? : Trend → Option Direction
  | up => some .bullish
  | down => some .bearish
  | range => none
  | unknown => none

def text : Trend → String
  | up => "UP"
  | down => "DOWN"
  | range => "RANGE"
  | unknown => "UNKNOWN"

end Trend

/-- The side that the analysis takes. -/
inductive Bias where
  | bullish
  | bearish
  | neutral
deriving DecidableEq, Repr, Inhabited

namespace Bias

def direction? : Bias → Option Direction
  | bullish => some .bullish
  | bearish => some .bearish
  | neutral => none

def ofDirection : Direction → Bias
  | .bullish => bullish
  | .bearish => bearish

/-- The side of a trend, if it has one. -/
def ofTrend (t : Trend) : Bias :=
  (t.direction?.map ofDirection).getD neutral

def text : Bias → String
  | bullish => "BULLISH"
  | bearish => "BEARISH"
  | neutral => "NEUTRAL"

end Bias

/-- How a direction stands to the bias. -/
inductive Role where
  /-- In the direction of the bias. -/
  | primary
  /-- Against the bias. -/
  | countertrend
  /-- There is no bias. -/
  | neutral
deriving DecidableEq, Repr, Inhabited

namespace Role

def relative (d : Direction) (b : Bias) : Role :=
  match b.direction? with
  | some side => if side = d then primary else countertrend
  | none => neutral

def text : Role → String
  | primary => "PRIMARY"
  | countertrend => "COUNTERTREND"
  | neutral => "NEUTRAL"

end Role

end PriceAction
