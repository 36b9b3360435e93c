import PriceAction.Bar
import PriceAction.Json.Decode
import PriceAction.Scalar.Floating

/-!
# Bars as data

A bar is a record of its time, four prices and the volume, which is zero when left out.
-/

namespace PriceAction

open Json (fallback? float? instant? ofFloat required?)

def Instant.toJson (t : Instant) : Json := .text t.text

def Direction.toJson (d : Direction) : Json := .text d.text

namespace Bar

def fields : List String := ["timestamp", "open", "high", "low", "close", "volume"]

def toJson (b : Bar Float) : Json :=
  .object (fields.zip [b.time.toJson, ofFloat b.opening, ofFloat b.high, ofFloat b.low,
    ofFloat b.close, ofFloat b.volume])

def ofJson? (j : Json) : Option (Bar Float) := do
  match ← j.slots? fields with
  | [a, b, c, d, e, f] =>
    some
      { time := ← required? instant? a
        opening := ← required? float? b
        high := ← required? float? c
        low := ← required? float? d
        close := ← required? float? e
        volume := ← fallback? float? 0.0 f }
  | _ => none

end Bar

end PriceAction
