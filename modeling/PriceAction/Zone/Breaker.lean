import PriceAction.Zone.Lifecycle

/-!
# Breakers

An order block turns into a breaker when the liquidity at its far edge is swept soon after it, and
soon after that the structure breaks against it with force. The first such sweep counts, with the
first break that goes with it.
-/

namespace PriceAction.Zone

variable {α : Type} [Scalar α]

/-- The edge through which a block is invalidated. -/
def farEdge (block : Zone α) : α :=
  match block.direction with
  | .bullish => block.low
  | .bearish => block.high

/-- How far from the far edge a sweep may be. -/
def edgeTolerance (settings : BreakerSettings α) (block : Zone α) : α :=
  Scalar.max (block.span * settings.spanTolerance)
    (Scalar.abs block.farEdge * settings.edgeTolerance)

/-- Whether a sweep takes the liquidity at the far edge of a block, soon after it. -/
def isSweptBy (settings : BreakerSettings α) (block : Zone α) (s : Sweep α) : Bool :=
  s.side = block.direction.opposite && block.originIndex < s.barIndex &&
    s.barIndex - block.originIndex ≤ settings.delay &&
    decide (Scalar.abs (s.level - block.farEdge) ≤ edgeTolerance settings block)

/-- Whether a break goes against a block with force, soon after a sweep. -/
def isBrokenBy (settings : BreakerSettings α) (volatility : α) (block : Zone α) (s : Sweep α)
    (e : Break α) : Bool :=
  e.direction = block.direction.opposite && s.barIndex ≤ e.barIndex &&
    e.barIndex - s.barIndex ≤ settings.delay &&
    decide (settings.breakVolatilities * volatility ≤ e.displacement)

/-- The sweep and the break that turn a block into a breaker. -/
def turn? (view : ZoneView α) (volatility : α) (block : Zone α) :
    Option (Sweep α × Break α × Nat) :=
  (view.liquidity.sweeps.filter (isSweptBy view.settings.breaker block)).findSome? fun s =>
    (view.structural.breaks.zipIdx.find? fun (e, _) =>
      isBrokenBy view.settings.breaker volatility block s e).map fun (e, i) => (s, e, i)

/-- The breaker of a block. -/
def ofTurn (view : ZoneView α) (volatility : α) (block : Zone α) (s : Sweep α) (e : Break α)
    (eventIndex : Nat) : Zone α :=
  let d := block.direction.opposite
  { id := idOf .breaker view.timeframe
      (block.id.text ++ "|" ++ s.time.offsetText ++ "|" ++ e.time.offsetText)
    kind := .breaker
    timeframe := view.timeframe
    low := block.low
    high := block.high
    originTime := e.time
    originIndex := e.barIndex
    direction := d
    role := .relative d view.structural.bias
    strength := 0.5 * block.strength + 0.5 * impulse e.displacement volatility
    status := lifecycle view.bars e.barIndex block.low block.high d
    fill := 0.0
    provenance := [.zone block.id .orderBlock, .sweep s.level s.side s.time,
      e.provenance eventIndex] }

/-- The breakers among the zones found so far, given the volatility. -/
def breakers (view : ZoneView α) (volatility : α) (prior : List (Zone α)) : List (Zone α) :=
  (prior.filter (·.kind = .orderBlock)).filterMap fun block =>
    (turn? view volatility block).map fun (s, e, i) => ofTurn view volatility block s e i

end PriceAction.Zone
