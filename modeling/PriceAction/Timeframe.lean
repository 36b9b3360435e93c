import PriceAction.Power
import PriceAction.Text.Blank

/-!
# Timeframes

A timeframe is a label such as `5m` or `1d`. A label of digits and a known unit has a length in
minutes; any other label is just a name.
-/

namespace PriceAction

structure Timeframe where
  label : String
deriving DecidableEq, Repr, Inhabited

namespace Timeframe

/-- The minutes of a unit. -/
def unitMinutes? (unit : List Char) : Option Nat :=
  if unit = ['m'] ∨ unit = ['m', 'i', 'n'] then some 1
  else if unit = ['h'] ∨ unit = ['H'] then some 60
  else if unit = ['d'] ∨ unit = ['D'] then some (24 * 60)
  else if unit = ['w'] ∨ unit = ['W'] then some (7 * 24 * 60)
  else none

/-- The length in minutes, a word of 64 bits. The count must be one too, and there must be a
unit after it. -/
def minutes? (tf : Timeframe) : Option Nat :=
  let label := Text.trim tf.label.toList
  let digits := label.takeWhile Text.isDigit
  let unit := label.drop digits.length
  if digits.isEmpty ∨ unit.isEmpty ∨ pow2 64 ≤ Text.number digits then none
  else (unitMinutes? unit).map fun m => Text.number digits * m % pow2 64

def isDaily (tf : Timeframe) : Bool :=
  tf.minutes? = some (24 * 60)

/-- The length of a bar in seconds, zero without a length. Its minutes are read as a signed
word. -/
def barSeconds (tf : Timeframe) : Int :=
  match tf.minutes? with
  | some m => Int.bmod m (pow2 64) * 60
  | none => 0

end Timeframe

end PriceAction
