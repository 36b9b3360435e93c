import PriceAction.Calendar.Instant
import PriceAction.Direction
import PriceAction.Scalar

/-!
# Price bars

A closed bar of a price series and its anatomy: range, body and wicks.
-/

namespace PriceAction

structure Bar (α : Type) where
  time : Instant
  opening : α
  high : α
  low : α
  close : α
  volume : α

namespace Bar

variable {α : Type} [Scalar α]

/-- Whether the bar closes at or above its opening. -/
def isBullish (b : Bar α) : Bool :=
  b.opening ≤ b.close

def range (b : Bar α) : α := b.high - b.low

def body (b : Bar α) : α := Scalar.abs (b.close - b.opening)

def bodyLow (b : Bar α) : α := Scalar.min b.opening b.close

def bodyHigh (b : Bar α) : α := Scalar.max b.opening b.close

/-- A part of the bar as a share of its range, zero if there is no range. -/
def share (b : Bar α) (part : α) : α :=
  if 0.0 < b.range then part / b.range else 0.0

/-- The body as a share of the range. -/
def bodyRatio (b : Bar α) : α := b.share b.body

def upperWick (b : Bar α) : α := b.high - b.bodyHigh

def lowerWick (b : Bar α) : α := b.bodyLow - b.low

/-- The wick on the side of a direction. -/
def wick (b : Bar α) : Direction → α
  | .bullish => b.upperWick
  | .bearish => b.lowerWick

/-- The extreme on the side of a direction. -/
def extreme (b : Bar α) : Direction → α
  | .bullish => b.high
  | .bearish => b.low

def mid (b : Bar α) : α := (b.high + b.low) / 2.0

/-- The range, widened to the close of the bar before. -/
def trueRange (b : Bar α) (previousClose : α) : α :=
  Scalar.max (Scalar.max (b.high - b.low) (Scalar.abs (b.high - previousClose)))
    (Scalar.abs (b.low - previousClose))

end Bar

/-- Whether a price lies strictly beyond a level in a direction. -/
def Direction.beyond {α : Type} [Scalar α] (d : Direction) (price level : α) : Bool :=
  match d with
  | .bullish => level < price
  | .bearish => price < level

end PriceAction
