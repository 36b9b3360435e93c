import PriceAction.Calendar.Text
import PriceAction.Decimal.Notation
import PriceAction.Scalar

/-!
# Faults and shortfalls

Nothing ends an analysis. A bar that cannot be used is set aside with a `BarFault`, and a stage
that cannot give a result gives a neutral one and a `Shortfall`.
-/

namespace PriceAction

/-- Why a bar is set aside. -/
inductive BarFault (α : Type) where
  | nonFinite (index : Nat) (time : Instant)
  | inconsistent (index : Nat) (time : Instant) (high low : α)
  | negativeVolume (index : Nat) (time : Instant)
  | outOfOrder (index : Nat) (time previous : Instant)

namespace BarFault

variable {α : Type}

/-- The position of the bar in its series. -/
def index : BarFault α → Nat
  | nonFinite i _ => i
  | inconsistent i _ _ _ => i
  | negativeVolume i _ => i
  | outOfOrder i _ _ => i

def message : BarFault Float → String
  | nonFinite i t => s!"bar {i} at {t.plainText} has non-finite prices"
  | inconsistent i t high low =>
    s!"bar {i} at {t.plainText} has inconsistent OHLC (high " ++ Decimal.Layout.plain.float high ++
      ", low " ++ Decimal.Layout.plain.float low ++ ")"
  | negativeVolume i t => s!"bar {i} at {t.plainText} has negative volume"
  | outOfOrder i t previous =>
    s!"bar {i} at {t.plainText} is not after previous bar at {previous.plainText}"

end BarFault

/-- Why a stage has no result. -/
inductive Shortfall where
  | bars (stage : String) (needed present : Nat)
  | volatility (stage : String)
  | range (stage : String)
  | series (timeframe : String)
deriving DecidableEq, Repr

def Shortfall.message : Shortfall → String
  | bars stage needed present => s!"{stage}: insufficient bars (need {needed}, have {present})"
  | volatility stage => s!"{stage}: ATR unavailable"
  | range stage => s!"{stage}: no active range"
  | series timeframe => s!"primary timeframe {timeframe} missing from input"

end PriceAction
