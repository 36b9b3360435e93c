import PriceAction.Bar.Codec
import PriceAction.Context.Codec
import PriceAction.Json.Reader
import PriceAction.Snapshot.Market

/-!
# Market data as data

A market is a record of its symbol, the label of the primary timeframe, the series by timeframe
and the context, which may be left out. A file holds one market or a list of them.
-/

namespace PriceAction

open Json (arrayOf fallback? list? object? required? text?)

namespace Market

def fields : List String := ["symbol", "primary_timeframe", "series", "context"]

def toJson (m : Market Float) : Json :=
  .object (fields.zip [.text m.symbol, .text m.primary.label,
    .object (m.series.entries.map fun e => (e.1, arrayOf Bar.toJson e.2)), m.context.toJson])

/-- An object of series; of two with one label the later one counts, but both must be readable. -/
def seriesOfJson? (j : Json) : Option (Register (List (Bar Float))) := do
  let fields ← j.object?
  let entries ← fields.mapM fun f => (list? Bar.ofJson? f.2).map fun bars => (f.1, bars)
  some (.ofList entries)

def ofJson? (j : Json) : Option (Market Float) := do
  match ← j.slots? fields with
  | [a, b, c, d] =>
    some
      { symbol := ← required? text? a
        primary := ⟨← required? text? b⟩
        series := ← required? seriesOfJson? c
        context := ← fallback? MarketContext.ofJson? {} d }
  | _ => none

/-- The market that a text holds. -/
def read? (text : String) : Option (Market Float) :=
  (Json.read? .scaled text).bind ofJson?

/-! ## Files -/

/-- A list of markets, or else a single one. -/
def listOfJson? (j : Json) : Option (List (Market Float)) :=
  (list? ofJson? j).or ((ofJson? j).map fun m => [m])

/-- The markets of a file that holds the given value. All of it must be readable, with fewer than
128 open brackets. -/
def fileOfJson? (j : Json) : Option (List (Market Float)) :=
  if j.readableWithin 127 then listOfJson? j else none

/-- The markets of a file. -/
def readFile? (text : String) : Option (List (Market Float)) :=
  (Json.read? .scaled text).bind fileOfJson?

end Market

end PriceAction
