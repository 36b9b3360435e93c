import PriceAction.Context
import PriceAction.Liquidity.Cluster
import PriceAction.Liquidity.Sweep
import PriceAction.Selection
import PriceAction.Settings.Basic
import PriceAction.Structure.State

/-!
# Liquidity pools

Levels where resting orders are likely. A pool above the price holds the orders of buyers and has
a bullish direction, one below has a bearish direction; its role is relative to the bias.
-/

namespace PriceAction

inductive PoolKind where
  | rangeExtreme
  | sessionExtreme
  | trendLiquidity
  | equalHighs
  | equalLows
  | wickCluster
  | sweep
deriving DecidableEq, Repr, Inhabited

namespace PoolKind

/-- The rank in which kinds are listed at one price. -/
def rank : PoolKind → Nat
  | rangeExtreme => 0
  | sessionExtreme => 1
  | trendLiquidity => 2
  | equalHighs => 3
  | equalLows => 4
  | wickCluster => 5
  | sweep => 6

/-- The kind of lowest priority number names a magnet. -/
def priority : PoolKind → Nat
  | rangeExtreme => 0
  | sessionExtreme => 1
  | trendLiquidity => 2
  | equalHighs => 3
  | equalLows => 3
  | wickCluster => 4
  | sweep => 5

def text : PoolKind → String
  | rangeExtreme => "RANGE_EXTREME"
  | sessionExtreme => "SESSION_EXTREME"
  | trendLiquidity => "TREND_LIQUIDITY"
  | equalHighs => "EQUAL_HIGHS"
  | equalLows => "EQUAL_LOWS"
  | wickCluster => "WICK_CLUSTER"
  | sweep => "SWEEP"

/-- The kind of equal swings of one kind. -/
def ofEqual : SwingKind → PoolKind
  | .high => equalHighs
  | .low => equalLows

end PoolKind

structure Pool (α : Type) where
  kind : PoolKind
  price : α
  direction : Direction
  role : Role
  strength : α
  touches : Nat
  firstTouch : Instant
  lastTouch : Instant
  firstIndex : Nat
  lastIndex : Nat
  /-- The name of the session whose extreme it is. -/
  session : Option String

/-- Long wicks that end at one level. -/
structure WickCluster (α : Type) where
  price : α
  side : Direction
  touches : Nat
  barIndices : List Nat

namespace Pool

variable {α : Type} [Scalar α]

/-- The extreme of prices on a side. -/
def outermost : Direction → List α → α
  | .bullish, prices => Scalar.greatest prices
  | .bearish, prices => Scalar.least prices

/-- How far into the series a bar lies, from zero to one. -/
def recency (index barCount : Nat) : α :=
  if barCount < 2 then 1.0 else (index : α) / ((barCount - 1 : Nat) : α)

/-- The time of a bar. -/
def timeAt (bars : List (Bar α)) (index : Nat) (fallback : Instant) : Instant :=
  (bars[index]?.map (·.time)).getD fallback

/-! ## Equal levels -/

/-- The pool of two or more swings of one kind at about one price. -/
def ofEqualSwings? (barCount : Nat) (bias : Bias) (kind : SwingKind) (swings : List (Swing α)) :
    Option (Pool α) :=
  match choose? (fun x kept => decide (x.index < kept.index)) swings,
      choose? (fun x kept => decide (kept.index ≤ x.index)) swings with
  | some first, some last =>
    if swings.length < 2 then none
    else
      let touches := swings.length
      some
        { kind := .ofEqual kind
          price := outermost kind.side (swings.map (·.price))
          direction := kind.side
          role := .relative kind.side bias
          strength := Scalar.min (0.25 * (touches : α)) 1.0 *
            (0.5 + 0.5 * recency last.index barCount)
          touches := touches
          firstTouch := first.time
          lastTouch := last.time
          firstIndex := first.index
          lastIndex := last.index
          session := none }
  | _, _ => none

/-- Equal highs, then equal lows. -/
def equalLevels (bars : List (Bar α)) (swings : List (Swing α)) (bias : Bias)
    (settings : LiquiditySettings α) : List (Pool α) :=
  [SwingKind.high, SwingKind.low].flatMap fun kind =>
    (clusters (·.price) settings.tolerance (swings.filter (·.kind = kind))).filterMap
      (ofEqualSwings? bars.length bias kind)

/-! ## Trend liquidity -/

/-- The kind of swing that lies against a direction. -/
def against : Direction → SwingKind
  | .bullish => .low
  | .bearish => .high

/-- The latest swing against the bias. -/
def trendLiquidity? (structural : Structure α) : Option (Pool α) := do
  let kind := against (← structural.bias.direction?)
  let swing ← structural.lastSwing? kind
  some
    { kind := .trendLiquidity
      price := swing.price
      direction := kind.side
      role := .relative kind.side structural.bias
      strength := Scalar.min (0.4 + 0.15 * (swing.strength : α)) 1.0
      touches := 1
      firstTouch := swing.time
      lastTouch := swing.time
      firstIndex := swing.index
      lastIndex := swing.index
      session := none }

/-! ## Range extremes -/

/-- The pool at one extreme of the range, touched by the bars of the range that come near it. -/
def ofRange? (bars : List (Bar α)) (range : TradingRange α) (bias : Bias)
    (settings : LiquiditySettings α) (side : Direction) : Option (Pool α) :=
  let price := range.extreme side
  let touching := ((range.window bars).zipIdx range.startIndex).filter fun (bar, _) =>
    near settings.tolerance (bar.extreme side) price
  match touching.head?, touching.getLast? with
  | some (first, firstIndex), some (last, lastIndex) =>
    some
      { kind := .rangeExtreme
        price := price
        direction := side
        role := .relative side bias
        strength := 0.8
        touches := touching.length
        firstTouch := first.time
        lastTouch := last.time
        firstIndex := firstIndex
        lastIndex := lastIndex
        session := none }
  | _, _ => none

def rangeExtremes (bars : List (Bar α)) (range : TradingRange α) (bias : Bias)
    (settings : LiquiditySettings α) : List (Pool α) :=
  [Direction.bullish, Direction.bearish].filterMap (ofRange? bars range bias settings)

/-! ## Sweeps -/

def ofSweep (bars : List (Bar α)) (bias : Bias) (s : Sweep α) : Pool α where
  kind := .sweep
  price := s.level
  direction := s.side
  role := .relative s.side bias
  strength := Scalar.min (0.3 + 0.5 * s.wickRatio) 1.0
  touches := 1
  firstTouch := timeAt bars s.swingIndex s.time
  lastTouch := s.time
  firstIndex := s.swingIndex
  lastIndex := s.barIndex
  session := none

/-! ## Wick clusters -/

/-- The bars with a long wick on a side, each with the price at the tip of the wick. -/
def wickTips (bars : List (Bar α)) (side : Direction) (settings : LiquiditySettings α) :
    List (Nat × α) :=
  bars.zipIdx.filterMap fun (bar, i) =>
    if decide (0.0 < bar.range) && decide (settings.wickShare ≤ bar.wick side / bar.range) then
      some (i, bar.extreme side)
    else none

/-- The clusters of long wicks, those above first. -/
def wickClusters (bars : List (Bar α)) (settings : LiquiditySettings α) : List (WickCluster α) :=
  [Direction.bullish, Direction.bearish].flatMap fun side =>
    ((clusters (·.2) settings.tolerance (wickTips bars side settings)).filter
        fun group => settings.wickTouches ≤ group.length).map fun group =>
      { price := outermost side (group.map (·.2))
        side := side
        touches := group.length
        barIndices := (group.map (·.1)).mergeSort (· ≤ ·) }

def ofWickCluster? (bars : List (Bar α)) (bias : Bias) (c : WickCluster α) : Option (Pool α) := do
  let firstIndex ← c.barIndices.head?
  let lastIndex ← c.barIndices.getLast?
  some
    { kind := .wickCluster
      price := c.price
      direction := c.side
      role := .relative c.side bias
      strength := Scalar.min (0.2 * (c.touches : α)) 1.0
      touches := c.touches
      firstTouch := timeAt bars firstIndex default
      lastTouch := timeAt bars lastIndex default
      firstIndex := firstIndex
      lastIndex := lastIndex
      session := none }

/-! ## Sessions -/

/-- The pool at the first bar of a session that reaches its extreme on a side. -/
def ofSession? (bars : List (Bar α)) (bias : Bias) (session : Session) (side : Direction) :
    Option (Pool α) :=
  let inside := bars.zipIdx.filter fun (bar, _) => session.contains bar.time
  (choose? (fun x kept => side.beyond (x.1.extreme side) (kept.1.extreme side)) inside).map
    fun (bar, index) =>
      { kind := .sessionExtreme
        price := bar.extreme side
        direction := side
        role := .relative side bias
        strength := 0.7
        touches := 1
        firstTouch := bar.time
        lastTouch := bar.time
        firstIndex := index
        lastIndex := index
        session := some session.name }

/-- The extremes of each session, the high first. -/
def sessionExtremes (bars : List (Bar α)) (sessions : List Session) (bias : Bias) :
    List (Pool α) :=
  sessions.flatMap fun session =>
    [Direction.bullish, Direction.bearish].filterMap (ofSession? bars bias session)

/-- The order in which pools are listed: by price, and at one price by the rank of their kind. -/
def notAfter (a b : Pool α) : Bool :=
  match Scalar.order a.price b.price with
  | .lt => true
  | .eq => a.kind.rank ≤ b.kind.rank
  | .gt => false

end Pool

end PriceAction
