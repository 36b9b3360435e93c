import PriceAction.Structure.Swing

/-!
# Legs

Swings of one kind in a row are reduced to the most extreme of them; what is left alternates
between highs and lows. A leg runs from one of these pivots to the next, and the labels of the
latest pivots give the trend.
-/

namespace PriceAction

/-- How a pivot compares with the one of the same kind before it. -/
inductive SwingLabel where
  | higherHigh
  | higherLow
  | lowerHigh
  | lowerLow
deriving DecidableEq, Repr, Inhabited

namespace SwingLabel

def direction : SwingLabel → Direction
  | higherHigh => .bullish
  | higherLow => .bullish
  | lowerHigh => .bearish
  | lowerLow => .bearish

def text : SwingLabel → String
  | higherHigh => "HH"
  | higherLow => "HL"
  | lowerHigh => "LH"
  | lowerLow => "LL"

/-- A price that is not beyond the earlier one counts as short of it. -/
def of {α : Type} [Scalar α] (kind : SwingKind) (price earlier : α) : SwingLabel :=
  match kind, kind.beyond price earlier with
  | .high, true => higherHigh
  | .high, false => lowerHigh
  | .low, true => lowerLow
  | .low, false => higherLow

end SwingLabel

structure Leg (α : Type) where
  start : Swing α
  stop : Swing α
  /-- Absent when the end is the first pivot of its kind. -/
  label : Option SwingLabel

namespace Leg

variable {α : Type} [Scalar α]

/-- A leg moves towards the kind of its end. -/
def direction (l : Leg α) : Direction := l.stop.kind.side

def amplitude (l : Leg α) : α := Scalar.abs (l.stop.price - l.start.price)

def mid (l : Leg α) : α := (l.stop.price + l.start.price) / 2.0

end Leg

variable {α : Type} [Scalar α]

/-- Adds a swing to pivots listed from the latest on: it replaces a less extreme one of its kind. -/
def addPivot (pivots : List (Swing α)) (s : Swing α) : List (Swing α) :=
  match pivots with
  | [] => [s]
  | last :: earlier =>
    if last.kind = s.kind then
      if s.kind.beyond s.price last.price then s :: earlier else last :: earlier
    else s :: last :: earlier

/-- The swings with runs of one kind reduced to their most extreme, the earliest on a tie. -/
def alternate (swings : List (Swing α)) : List (Swing α) :=
  (swings.foldl addPivot []).reverse

/-- Legs along alternating pivots. `prior?` is the pivot before the first: like each pivot two
places on, it has the kind of the next leg's end. -/
def legsAlong : (prior? : Option (Swing α)) → List (Swing α) → List (Leg α)
  | prior?, a :: b :: rest =>
    ⟨a, b, prior?.map fun p => .of b.kind b.price p.price⟩ :: legsAlong (some a) (b :: rest)
  | _, _ => []

/-- The labelled legs of a list of swings. -/
def Leg.ofSwings (swings : List (Swing α)) : List (Leg α) :=
  legsAlong none (alternate swings)

def Leg.labels (legs : List (Leg α)) : List SwingLabel :=
  legs.filterMap (·.label)

/-- The trend of the latest `window` labels, two at least: up or down if they all agree. There is
none with fewer than two labels. -/
def Trend.ofLabels? (labels : List SwingLabel) (window : Nat) : Option Trend :=
  if labels.length < 2 then none
  else
    let latest := labels.drop (labels.length - max window 2)
    if latest.all fun l => l.direction = .bullish then some .up
    else if latest.all fun l => l.direction = .bearish then some .down
    else some .range

end PriceAction
