import PriceAction.Power
import PriceAction.Structure.Break
import PriceAction.Structure.Range
import PriceAction.Structure.Retracement
import PriceAction.Structure.Volatility

/-!
# The structure of a series

Swings, legs, trend and bias, breaks, the active range and the retracement bands of one series of
bars. The bias is the direction of the last change of character, or else that of the trend.
-/

namespace PriceAction

/-- What the trend was read off. -/
inductive TrendSource where
  | swings
  | drift
  | inconclusive
deriving DecidableEq, Repr, Inhabited

def TrendSource.text : TrendSource → String
  | swings => "SWINGS"
  | drift => "DRIFT"
  | inconclusive => "INCONCLUSIVE"

/-- The numbers behind a structure. -/
structure StructureMeta (α : Type) where
  barCount : Nat
  volatilityPeriod : Nat
  volatility : Option α
  /-- The volatility part of what a leg has to exceed. -/
  breakThreshold : Option α
  /-- The volatility as a share of the last close. -/
  volatilityShare : Option α
  trendSource : TrendSource
  driftEfficiency : Option α
  lastCharacter : Option Instant
  shortfalls : List Shortfall

structure Structure (α : Type) where
  trend : Trend
  bias : Bias
  swings : List (Swing α)
  legs : List (Leg α)
  activeRange : Option (TradingRange α)
  breaks : List (Break α)
  retracements : List (Retracement α)
  details : StructureMeta α

/-- Whether the bars that every search needs can be counted in a word of 64 bits. -/
structure Settings.Countable {α : Type} (s : Settings α) : Prop where
  swing : 2 * s.swing.window + 1 < pow2 64
  volatility : s.structural.volatilityPeriod + 1 < pow2 64
  range : max s.range.leastBars 1 + 1 < pow2 64

instance {α : Type} (s : Settings α) : Decidable s.Countable :=
  decidable_of_iff (2 * s.swing.window + 1 < pow2 64 ∧
      s.structural.volatilityPeriod + 1 < pow2 64 ∧ max s.range.leastBars 1 + 1 < pow2 64)
    ⟨fun h => ⟨h.1, h.2.1, h.2.2⟩, fun h => ⟨h.swing, h.volatility, h.range⟩⟩

namespace Structure

variable {α : Type} [Scalar α]

def volatility (s : Structure α) : Option α := s.details.volatility

def lastCharacter? (s : Structure α) : Option (Break α) :=
  s.breaks.reverse.find? (·.isCharacter)

/-- The latest swing of a kind. -/
def lastSwing? (s : Structure α) (kind : SwingKind) : Option (Swing α) :=
  s.swings.reverse.find? (·.kind = kind)

/-- The trend of the labels, or else of a drift that is efficient enough. -/
def trendOf (settings : StructureSettings α) (labels : List SwingLabel) (drift : Option (Drift α)) :
    Trend × TrendSource :=
  match Trend.ofLabels? labels settings.trendLabels, drift with
  | some trend, _ => (trend, .swings)
  | none, some d =>
    if settings.driftEfficiency ≤ d.efficiency then
      (if 0.0 < d.net then .up else .down, .drift)
    else (.unknown, .inconclusive)
  | none, none => (.unknown, .inconclusive)

/-- The bias of a trend and breaks. -/
def biasOf (trend : Trend) (lastCharacter : Option (Break α)) : Bias :=
  match lastCharacter with
  | some e => .ofDirection e.direction
  | none => .ofTrend trend

/-- The structure of a series. -/
def analyze (bars : List (Bar α)) (settings : Settings α) : Structure α :=
  let window := settings.swing.window
  let swings := Swing.detect bars window settings.swing.strengthCap
  let legs := Leg.ofSwings swings
  let drift := closeDrift? bars
  let (trend, source) := trendOf settings.structural (Leg.labels legs) drift
  let volatility := averageTrueRange? bars settings.structural.volatilityPeriod
  let breaks := match volatility with
    | some v => Break.detect bars legs v settings.structural
    | none => []
  let lastCharacter := breaks.reverse.find? (·.isCharacter)
  let bias := biasOf trend lastCharacter
  let range := TradingRange.detect bars settings.range
  let firstLeg := (lastCharacter.map (·.legIndex)).getD 0
  let retracements := match volatility with
    | some v => Retracement.detect legs firstLeg v bias settings.retracement
    | none => []
  let lacking (stage : String) : List Shortfall :=
    if volatility.isNone then [.volatility stage] else []
  { trend := trend
    bias := bias
    swings := swings
    legs := legs
    activeRange := range.toOption
    breaks := breaks
    retracements := retracements
    details :=
      { barCount := bars.length
        volatilityPeriod := settings.structural.volatilityPeriod
        volatility := volatility
        breakThreshold := volatility.map (· * settings.structural.breakVolatilities)
        volatilityShare := volatility.bind fun v => bars.getLast?.bind fun b =>
          if 0.0 < b.close then some (v / b.close) else none
        trendSource := source
        driftEfficiency := drift.map (·.efficiency)
        lastCharacter := lastCharacter.map (·.time)
        shortfalls :=
          (if bars.length < 2 * window + 1 then
            [.bars "swings" (2 * window + 1) bars.length] else []) ++
          lacking "structure.events" ++
          (match range with
            | .ok _ => []
            | .error shortfall => [shortfall]) ++
          lacking "structure.ote" } }

/-- The structure of a series, if the bars that its searches need can be counted. -/
def analyze? (bars : List (Bar α)) (settings : Settings α) : Option (Structure α) :=
  if settings.Countable then some (analyze bars settings) else none

end Structure

end PriceAction
