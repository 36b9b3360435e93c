import PriceAction.Bar.Codec
import PriceAction.Context

/-!
# Market context as data

Every part of the context may be left out or, except for the sessions, be `null`.
-/

namespace PriceAction

open Json (fallback? float? instant? list? ofFloat optional? orNull required? text?)

namespace Bias

def toJson (b : Bias) : Json := .text b.text

def ofText? : String → Option Bias
  | "BULLISH" => some bullish
  | "BEARISH" => some bearish
  | "NEUTRAL" => some neutral
  | _ => none

/-- The name of a bias, or an object with that name as its only field and nothing in it. -/
def ofJson? : Json → Option Bias
  | .text s => ofText? s
  | .object [(name, .null)] => ofText? name
  | _ => none

end Bias

namespace DailyRange

def fields : List String := ["high", "low"]

def toJson (r : DailyRange Float) : Json :=
  .object (fields.zip [ofFloat r.high, ofFloat r.low])

def ofJson? (j : Json) : Option (DailyRange Float) := do
  match ← j.slots? fields with
  | [a, b] => some ⟨← required? float? a, ← required? float? b⟩
  | _ => none

end DailyRange

namespace Session

def fields : List String := ["name", "start", "end"]

def toJson (s : Session) : Json :=
  .object (fields.zip [.text s.name, s.start.toJson, s.stop.toJson])

def ofJson? (j : Json) : Option Session := do
  match ← j.slots? fields with
  | [a, b, c] => some ⟨← required? text? a, ← required? instant? b, ← required? instant? c⟩
  | _ => none

end Session

namespace MarketContext

def fields : List String := ["daily_range", "sessions", "htf_bias", "htf_atr"]

def toJson (c : MarketContext Float) : Json :=
  .object (fields.zip [orNull DailyRange.toJson c.dailyRange, .arrayOf Session.toJson c.sessions,
    orNull Bias.toJson c.higherBias, orNull ofFloat c.higherVolatility])

def ofJson? (j : Json) : Option (MarketContext Float) := do
  match ← j.slots? fields with
  | [a, b, c, d] =>
    some
      { dailyRange := ← fallback? (optional? DailyRange.ofJson?) none a
        sessions := ← fallback? (list? Session.ofJson?) [] b
        higherBias := ← fallback? (optional? Bias.ofJson?) none c
        higherVolatility := ← fallback? (optional? float?) none d }
  | _ => none

end MarketContext

end PriceAction
