import PriceAction.Power
import PriceAction.Register
import PriceAction.Zone.Breaker
import PriceAction.Zone.Confluence
import PriceAction.Zone.Imbalance
import PriceAction.Zone.OrderBlock

/-!
# The zones of a series

The searches run one after the other, and each sees the zones found before it. A zone is active
while it is live and young; an order block must also be near the last close.
-/

namespace PriceAction

structure ZoneCounts where
  byKind : Register Nat
  byRole : Register Nat
  activeByKind : Register Nat

structure ZoneReport (α : Type) where
  all : List (Zone α)
  active : List (Zone α)
  counts : ZoneCounts
  /-- The searches that could not run. -/
  skipped : List Shortfall

namespace Zone

variable {α : Type} [Scalar α]

/-- The zones of one kind, given the zones found before. Every search needs a volatility. -/
def detect (view : ZoneView α) (kind : ZoneKind) (prior : List (Zone α)) :
    Except Shortfall (List (Zone α)) :=
  match view.structural.volatility with
  | none => .error (.volatility kind.stage)
  | some v => .ok <| match kind with
    | .orderBlock => orderBlocks view v
    | .imbalance => imbalances view v
    | .breaker => breakers view v prior
    | .confluence => confluences view v prior

/-- The order in which the searches run. -/
def searchOrder : List ZoneKind := [.orderBlock, .imbalance, .breaker, .confluence]

/-- One search more: its zones join those found before, or it is skipped. -/
def search (view : ZoneView α) (found : List (Zone α) × List Shortfall) (kind : ZoneKind) :
    List (Zone α) × List Shortfall :=
  match detect view kind found.1 with
  | .ok zones => (found.1 ++ zones, found.2)
  | .error shortfall => (found.1, found.2 ++ [shortfall])

/-- Whether a zone is still active. -/
def isActive (view : ZoneView α) (z : Zone α) : Bool :=
  z.status.isLive && view.bars.length ≤ z.originIndex + view.settings.lookback &&
    (z.kind ≠ .orderBlock ||
      match view.bars.getLast?, view.structural.volatility with
      | some last, some v => z.distance last.close ≤ view.settings.orderBlock.distanceVolatilities * v
      | _, _ => false)

end Zone

namespace ZoneReport

variable {α : Type} [Scalar α]

/-- The active zones of a kind. -/
def activeOf (r : ZoneReport α) (kind : ZoneKind) : List (Zone α) :=
  r.active.filter (·.kind = kind)

/-- The zones of a series. -/
def analyze (view : ZoneView α) : ZoneReport α :=
  let (all, skipped) := Zone.searchOrder.foldl (Zone.search view) ([], [])
  let active := all.filter (Zone.isActive view)
  { all := all
    active := active
    counts :=
      { byKind := .tally (all.map (·.kind.text))
        byRole := .tally (all.map (·.role.text))
        activeByKind := .tally (active.map (·.kind.text)) }
    skipped := skipped }

/-- Whether the bar up to which each live zone stays active can be counted in a word of 64 bits. -/
def Countable (lookback : Nat) (r : ZoneReport α) : Prop :=
  ∀ z ∈ r.all, z.status.isLive → z.originIndex + lookback < pow2 64

instance (lookback : Nat) (r : ZoneReport α) : Decidable (r.Countable lookback) :=
  inferInstanceAs (Decidable (∀ z ∈ r.all, z.status.isLive → z.originIndex + lookback < pow2 64))

/-- The zones of a series, if the bars up to which they stay active can be counted. -/
def analyze? (view : ZoneView α) : Option (ZoneReport α) :=
  let report := analyze view
  if report.Countable view.settings.lookback then some report else none

end ZoneReport

end PriceAction
