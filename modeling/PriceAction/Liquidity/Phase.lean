import PriceAction.Liquidity.Magnet

/-!
# The phase of the market

A strong wick through an extreme of the active range makes a manipulation; a clean drift away from
old pools a distribution; a range whose middle is crossed again and again an accumulation. The
first that holds, in this order, is the phase.
-/

namespace PriceAction

inductive Phase where
  | accumulation
  | manipulation
  | distribution
  | unknown
deriving DecidableEq, Repr, Inhabited

def Phase.text : Phase → String
  | accumulation => "ACCUMULATION"
  | manipulation => "MANIPULATION"
  | distribution => "DISTRIBUTION"
  | unknown => "UNKNOWN"

/-- A strong wick through an extreme of the active range. -/
structure RangeSweep (α : Type) where
  side : Direction
  barIndex : Nat
  wickRatio : α

/-- What the phase is judged by. -/
structure PhaseView (α : Type) where
  bars : List (Bar α)
  structural : Structure α
  pools : List (Pool α)
  magnets : List (Magnet α)
  sweeps : List (Sweep α)

namespace Phase

variable {α : Type} [Scalar α]

/-- The first bar that counts as recent. -/
def recentFrom (barCount recentBars : Nat) : Nat := barCount - max recentBars 1

/-- The wick ratio of a bar that trades through the range on a side, closes at or inside the
extreme and has a strong wick. -/
def strongWick? (settings : LiquiditySettings α) (range : TradingRange α) (side : Direction)
    (bar : Bar α) : Option α :=
  let level := range.extreme side
  let ratio := bar.wick side / bar.range
  let inside := match side with
    | .bullish => decide (bar.close ≤ level)
    | .bearish => decide (level ≤ bar.close)
  if side.beyond (bar.extreme side) level && inside && decide (settings.strongWickShare ≤ ratio)
  then some ratio else none

/-- A strong wick of one bar, above before below. -/
def barSweep? (settings : LiquiditySettings α) (range : TradingRange α) (bar : Bar α)
    (index : Nat) : Option (RangeSweep α) :=
  if bar.range ≤ 0.0 then none
  else
    [Direction.bullish, Direction.bearish].findSome? fun side =>
      (strongWick? settings range side bar).map fun ratio => ⟨side, index, ratio⟩

/-- The latest recent range sweep: by a strong wick of a bar, or else by a sweep of a swing at an
extreme of the range. -/
def rangeSweep? (settings : LiquiditySettings α) (view : PhaseView α) (range : TradingRange α) :
    Option (RangeSweep α) :=
  let first := recentFrom view.bars.length settings.recentBars
  let byBar := (view.bars.zipIdx.drop first).reverse.findSome? fun (bar, i) =>
    barSweep? settings range bar i
  let bySwing := (view.sweeps.reverse.find? fun s =>
    decide (first ≤ s.barIndex) && decide (settings.strongWickShare ≤ s.wickRatio) &&
      near settings.tolerance s.level (range.extreme s.side)).map fun s =>
        (⟨s.side, s.barIndex, s.wickRatio⟩ : RangeSweep α)
  byBar.or bySwing

/-- The reason for a manipulation. -/
def manipulation? (settings : LiquiditySettings α) (view : PhaseView α) : Option String :=
  (view.structural.activeRange.bind (rangeSweep? settings view)).map fun s =>
    let extreme := match s.side with
      | .bullish => "high"
      | .bearish => "low"
    "range " ++ extreme ++ " swept at bar " ++ toString s.barIndex ++ " with wick ratio " ++
      Scalar.hundredths s.wickRatio

/-- The reason for a distribution: a trend whose drift is clean, no new pools, and a magnet. -/
def distribution? (settings : LiquiditySettings α) (view : PhaseView α) : Option String :=
  let first := recentFrom view.bars.length settings.recentBars
  let efficiency := view.structural.details.driftEfficiency.getD 0.0
  if view.structural.trend.direction?.isSome && decide (settings.cleanEfficiency ≤ efficiency) &&
      !(view.pools.any fun p => decide (first ≤ p.firstIndex)) && !view.magnets.isEmpty then
    some ("trend " ++ view.structural.trend.text ++ " with drift efficiency " ++
      Scalar.hundredths efficiency ++ " and no new pools in the last " ++
      toString settings.recentBars ++ " bars")
  else none

/-- The reason for an accumulation: two magnets, and closes that cross the middle of the range at
least twice and end inside it. -/
def accumulation? (view : PhaseView α) : Option String :=
  view.structural.activeRange.bind fun range =>
    let crosses := crossings (range.window view.bars) range.equilibrium
    if range.state = .inside ∧ 2 ≤ view.magnets.length ∧ 2 ≤ crosses then
      some ("inside range with " ++ toString view.magnets.length ++ " magnets and " ++
        toString crosses ++ " equilibrium crosses")
    else none

/-- The phase and the reason for it. -/
def classify (settings : LiquiditySettings α) (view : PhaseView α) : Phase × List String :=
  match manipulation? settings view, distribution? settings view, accumulation? view with
  | some reason, _, _ => (manipulation, [reason])
  | none, some reason, _ => (distribution, [reason])
  | none, none, some reason => (accumulation, [reason])
  | none, none, none => (unknown, ["no phase condition met"])

end Phase

end PriceAction
