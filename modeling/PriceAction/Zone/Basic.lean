import PriceAction.Calendar.Text
import PriceAction.Digest.NameId
import PriceAction.Fault
import PriceAction.Liquidity.State
import PriceAction.Timeframe

/-!
# Zones

A zone is a band of prices where supply or demand is expected, with what it was made from. Its id
is made from its origin alone, so that a longer series finds it again under the same id.
-/

namespace PriceAction

inductive ZoneKind where
  /-- The last opposing candle before a break. -/
  | orderBlock
  /-- An order block that was swept and then broken. -/
  | breaker
  /-- A gap that three candles leave. -/
  | imbalance
  /-- A point of interest: zones of one direction that lie together. -/
  | confluence
deriving DecidableEq, Repr, Inhabited

namespace ZoneKind

def text : ZoneKind → String
  | orderBlock => "ORDER_BLOCK"
  | breaker => "BREAKER"
  | imbalance => "IMBALANCE"
  | confluence => "POI"

/-- The name of the kind in the names that ids are made from. -/
def slug : ZoneKind → String
  | orderBlock => "order_block"
  | breaker => "breaker"
  | imbalance => "imbalance"
  | confluence => "poi"

/-- The name of the kind's search in shortfalls. -/
def stage (k : ZoneKind) : String := "zones." ++ k.slug

end ZoneKind

inductive ZoneStatus where
  /-- Not revisited. -/
  | active
  /-- Price came back into the band. -/
  | mitigated
  /-- A gap that has been filled. -/
  | filled
  /-- A bar closed through the far side. -/
  | invalidated
  /-- Too old. -/
  | expired
deriving DecidableEq, Repr, Inhabited

namespace ZoneStatus

def isLive : ZoneStatus → Bool
  | active => true
  | mitigated => true
  | filled => false
  | invalidated => false
  | expired => false

def text : ZoneStatus → String
  | active => "ACTIVE"
  | mitigated => "MITIGATED"
  | filled => "FILLED"
  | invalidated => "INVALIDATED"
  | expired => "EXPIRED"

end ZoneStatus

/-- What a zone was made from. -/
inductive Provenance (α : Type) where
  | event (kind : BreakKind) (direction : Direction) (eventIndex legIndex : Nat) (time : Instant)
  | gap (first last : Instant)
  | sweep (level : α) (side : Direction) (time : Instant)
  | zone (id : NameId) (kind : ZoneKind)

structure Zone (α : Type) where
  id : NameId
  kind : ZoneKind
  timeframe : Timeframe
  low : α
  high : α
  originTime : Instant
  originIndex : Nat
  direction : Direction
  role : Role
  strength : α
  status : ZoneStatus
  /-- How much of a gap has been filled, from zero to one. -/
  fill : α
  provenance : List (Provenance α)

/-- What the zones of a series are looked for in. -/
structure ZoneView (α : Type) where
  bars : List (Bar α)
  structural : Structure α
  liquidity : Liquidity α
  timeframe : Timeframe
  settings : ZoneSettings α

namespace Zone

variable {α : Type} [Scalar α]

def span (z : Zone α) : α := z.high - z.low

def mid (z : Zone α) : α := (z.high + z.low) / 2.0

def contains (z : Zone α) (price : α) : Bool :=
  Scalar.between price z.low z.high

/-- The distance of a price from the band, zero inside it. -/
def distance (z : Zone α) (price : α) : α :=
  if z.high < price then price - z.high
  else if price < z.low then z.low - price
  else 0.0

/-- The id of a zone of a kind with the given origin. -/
def idOf (kind : ZoneKind) (timeframe : Timeframe) (origin : String) : NameId :=
  .ofName (kind.slug ++ "|" ++ timeframe.label ++ "|" ++ origin)

/-- A displacement as a strength: three volatilities or more count as one. -/
def impulse (displacement volatility : α) : α :=
  Scalar.min (displacement / (3.0 * volatility)) 1.0

end Zone

/-- A break as the source of a zone. -/
def Break.provenance {α : Type} (e : Break α) (index : Nat) : Provenance α :=
  .event e.kind e.direction index e.legIndex e.time

end PriceAction
