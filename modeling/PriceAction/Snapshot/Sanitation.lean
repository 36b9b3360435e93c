import PriceAction.Bar
import PriceAction.Fault

/-!
# Sanitation

A bar is well formed when its numbers are finite, its high and low enclose its opening and close,
and its volume is not negative. Of the well-formed bars those are kept that come later than every
one kept before; all others are set aside with their fault.
-/

namespace PriceAction

variable {α : Type} [Scalar α]

namespace Bar

/-- Whether all numbers of a bar are finite. -/
def isFinite (b : Bar α) : Bool :=
  [b.opening, b.high, b.low, b.close, b.volume].all Scalar.isFinite

/-- Whether the high and the low do not enclose the opening and the close. -/
def isInconsistent (b : Bar α) : Bool :=
  decide (b.high < b.low) || decide (b.high < b.bodyHigh) || decide (b.bodyLow < b.low)

/-- The fault of a bar after the last one that was kept, if it has one. -/
def fault? (index : Nat) (b : Bar α) (previous : Option Instant) : Option (BarFault α) :=
  if !b.isFinite then some (.nonFinite index b.time)
  else if b.isInconsistent then some (.inconsistent index b.time b.high b.low)
  else if b.volume < 0.0 then some (.negativeVolume index b.time)
  else match previous with
    | some t => if b.time ≤ t then some (.outOfOrder index b.time t) else none
    | none => none

end Bar

/-- The bars that are kept, and the faults of the others. -/
structure Sanitized (α : Type) where
  clean : List (Bar α)
  rejected : List (BarFault α)

/-- Sanitizes the bars from number `index` on, given the time of the last bar kept. -/
def sanitizeFrom : (index : Nat) → (previous : Option Instant) → List (Bar α) → Sanitized α
  | _, _, [] => ⟨[], []⟩
  | index, previous, b :: rest =>
    match b.fault? index previous with
    | some fault =>
      let later := sanitizeFrom (index + 1) previous rest
      ⟨later.clean, fault :: later.rejected⟩
    | none =>
      let later := sanitizeFrom (index + 1) (some b.time) rest
      ⟨b :: later.clean, later.rejected⟩

def sanitize (bars : List (Bar α)) : Sanitized α :=
  sanitizeFrom 0 none bars

/-- The latest `lookback` of the clean bars, with the faults of all bars. -/
def prepare (bars : List (Bar α)) (lookback : Nat) : Sanitized α :=
  let s := sanitize bars
  { s with clean := s.clean.drop (s.clean.length - lookback) }

end PriceAction
