import PriceAction.Scenario.Decision
import PriceAction.Selection
import PriceAction.Zone.Report

/-!
# The gates of a scenario

Each named scenario is a list of four gates. The first scenario whose gates all open is the
decision; otherwise it is unclear, with the obstacle of the scenario that came further, the
earlier scenario on a tie.
-/

namespace PriceAction

/-- What a decision is made from. -/
structure ScenarioView (α : Type) where
  bars : List (Bar α)
  structural : Structure α
  liquidity : Liquidity α
  zones : ZoneReport α
  context : MarketContext α

/-- How far a scenario came. -/
inductive Walk (α : Type) where
  /-- All gates opened. -/
  | reached (direction : Direction) (confidence : α) (reasons : List String)
      (keyLevels : List (KeyLevel α))
  /-- A gate stayed closed after `passed` others. -/
  | blocked (passed : Nat) (obstacle : Obstacle) (reasons : List String)
      (keyLevels : List (KeyLevel α))

namespace Scenario

variable {α : Type} [Scalar α]

/-- A bonus that counts only under a condition. -/
def bonus (condition : Bool) (amount confidence : α) : α :=
  if condition then confidence + amount else confidence

/-- A reason that counts only under a condition. -/
def reasonIf (condition : Bool) (reason : String) : List String :=
  if condition then [reason] else []

def failed (o : Obstacle) : String := "failed: " ++ o.message

/-! ## Sweep reversal -/

/-- The latest recent bar outside the daily range, with the direction back and the extreme; above
comes before below. -/
def excursion? (view : ScenarioView α) (settings : ScenarioSettings) (range : DailyRange α) :
    Option (Nat × Direction × α) :=
  let first := view.bars.length - max settings.sweepBars 1
  (view.bars.zipIdx.drop first).reverse.findSome? fun (bar, i) =>
    if range.high < bar.high then some (i, .bearish, bar.high)
    else if bar.low < range.low then some (i, .bullish, bar.low)
    else none

/-- The latest change of character in a direction from a bar on. -/
def confirmation? (view : ScenarioView α) (d : Direction) (first : Nat) : Option (Break α) :=
  view.structural.breaks.reverse.find? fun e =>
    e.isCharacter && e.direction = d && first ≤ e.barIndex

/-- The side of the daily range that was swept before a reversal. -/
def sweptSide : Direction → String
  | .bearish => "high"
  | .bullish => "low"

/-- The end of the walk, with the change of character or the manipulation that confirms it. -/
def confirmReversal (view : ScenarioView α) (d : Direction) (character : Option (Break α))
    (reasons : List String) (levels : List (KeyLevel α)) : Walk α :=
  let manipulation : Bool := view.liquidity.phase = .manipulation
  let agrees : Bool := view.context.higherDirection? = some d
  if character.isNone && !manipulation then
    .blocked 3 .noConfirmation (reasons ++ [failed .noConfirmation]) levels
  else
    let confidence := bonus agrees 0.1 (bonus manipulation 0.1 (bonus character.isSome 0.15 0.55))
    .reached d (Scalar.min confidence 0.95)
      (reasons ++
        (character.map fun e =>
          e.direction.text ++ " change of character at " ++ Scalar.hundredths e.price).toList ++
        reasonIf manipulation "manipulation phase" ++
        reasonIf agrees "higher-timeframe bias agrees")
      (levels ++ (character.map fun e => ⟨"choch_level", e.price⟩).toList)

/-- The reversal after a sweep: a daily range, a recent bar outside it, the last close back
inside, and a confirmation. -/
def reversalWalk (view : ScenarioView α) (settings : ScenarioSettings) (last : Bar α) : Walk α :=
  match view.context.dailyRange with
  | none => .blocked 0 .noHigherRange [failed .noHigherRange] []
  | some range =>
    let levels : List (KeyLevel α) := [⟨"htf_high", range.high⟩, ⟨"htf_low", range.low⟩]
    let reasons := ["higher-timeframe range " ++ Scalar.hundredths range.low ++ "-" ++
      Scalar.hundredths range.high]
    match excursion? view settings range with
    | none => .blocked 1 .noHigherSweep (reasons ++ [failed .noHigherSweep]) levels
    | some (first, d, extreme) =>
      let levels := levels ++ [⟨"swept_extreme", extreme⟩]
      let reasons := reasons ++
        ["swept higher-timeframe " ++ sweptSide d ++ " at " ++ Scalar.hundredths extreme]
      if range.contains last.close then
        confirmReversal view d (confirmation? view d first)
          (reasons ++ ["closed back inside at " ++ Scalar.hundredths last.close]) levels
      else .blocked 2 .notBackInside (reasons ++ [failed .notBackInside]) levels

/-! ## Trend continuation -/

/-- The level that a trend has to hold: the latest swing against it, or else the far extreme of
the active range. -/
def reference? (structural : Structure α) (d : Direction) : Option α :=
  ((structural.lastSwing? (Pool.against d)).map (·.price)).or
    (structural.activeRange.map fun r => r.extreme d.opposite)

/-- The zone to work from: the youngest active zone of primary role, or else the latest primary
retracement band; with its name and its edges. -/
def workingZone? (view : ScenarioView α) (d : Direction) : Option (String × α × α) :=
  let zones := view.zones.active.filter fun z =>
    z.direction = d && z.role = .primary && z.status ≠ .invalidated
  let zone := (choose? (fun x kept => decide (kept.originIndex ≤ x.originIndex)) zones).map
    fun z => (z.kind.text, z.low, z.high)
  let band := (view.structural.retracements.reverse.find? fun z =>
    z.direction = d && z.role = .primary).map fun z => ("OTE", z.low, z.high)
  zone.or band

/-- The end of the walk, with what speaks for the continuation. -/
def confirmContinuation (view : ScenarioView α) (d : Direction) (last : Bar α) (low high : α)
    (reasons : List String) (levels : List (KeyLevel α)) : Walk α :=
  let continues : Bool := match view.structural.breaks.getLast? with
    | some e => e.kind = .structural && e.direction = d
    | none => false
  let agrees : Bool := view.context.higherDirection? = some d
  let inside := Scalar.between last.close low high
  let confidence := bonus inside 0.05 (bonus agrees 0.1 (bonus continues 0.1 0.6))
  .reached d (Scalar.min confidence 0.95)
    (reasons ++ reasonIf continues "last break continues the bias" ++
      reasonIf agrees "higher-timeframe bias agrees" ++ reasonIf inside "price inside the zone")
    levels

/-- The continuation of the trend: a bias, a trend that agrees with it and is not opposed from
above, a reference level that holds, and a zone to work from. -/
def continuationWalk (view : ScenarioView α) (last : Bar α) : Walk α :=
  match view.structural.bias.direction? with
  | none => .blocked 0 .noBias [failed .noBias] []
  | some d =>
    let reasons := ["bias " ++ d.text]
    let opposed : Bool := view.context.higherDirection? = some d.opposite
    if view.structural.trend.direction? ≠ some d ∨ opposed then
      .blocked 1 .trendNotAligned (reasons ++ [failed .trendNotAligned]) []
    else
      let reasons := reasons ++ ["trend " ++ view.structural.trend.text ++ " aligned"]
      match (reference? view.structural d).filter fun level => d.beyond last.close level with
      | none => .blocked 2 .referenceLost (reasons ++ [failed .referenceLost]) []
      | some level =>
        let levels : List (KeyLevel α) := [⟨"reference", level⟩]
        let reasons := reasons ++ ["holding reference " ++ Scalar.hundredths level]
        match workingZone? view d with
        | none => .blocked 3 .noPrimaryZone (reasons ++ [failed .noPrimaryZone]) levels
        | some (name, low, high) =>
          confirmContinuation view d last low high
            (reasons ++ ["primary " ++ name ++ " " ++ Scalar.hundredths low ++ "-" ++
              Scalar.hundredths high])
            (levels ++ [⟨"zone_low", low⟩, ⟨"zone_high", high⟩])

/-! ## The decision -/

/-- The decision of a scenario that was reached. -/
def decided (scenario : Scenario) (d : Direction) (confidence : α) (reasons : List String)
    (levels : List (KeyLevel α)) : Decision α where
  scenario := scenario
  direction := some d
  confidence := Scalar.clamp confidence 0.0 1.0
  reasons := reasons
  keyLevels := levels
  obstacle := none

/-- The decision when no scenario was reached; its confidence is half the share of open gates. -/
def undecided (nearest : Scenario) (passed : Nat) (o : Obstacle) (reasons : List String)
    (levels : List (KeyLevel α)) : Decision α :=
  .unclear o ((passed : α) / 4.0 * 0.5) ((nearest.text ++ ": " ++ o.message) :: reasons) levels

/-- The decision for the latest bar. -/
def classify (view : ScenarioView α) (settings : ScenarioSettings) : Decision α :=
  match view.bars.getLast? with
  | none => .unclear .noBars 0.0 [Obstacle.noBars.message] []
  | some last =>
    match reversalWalk view settings last, continuationWalk view last with
    | .reached d confidence reasons levels, _ =>
      decided .sweepReversal d confidence reasons levels
    | .blocked _ _ _ _, .reached d confidence reasons levels =>
      decided .trendContinuation d confidence reasons levels
    | .blocked passed o reasons levels, .blocked passed' o' reasons' levels' =>
      if passed' ≤ passed then undecided .sweepReversal passed o reasons levels
      else undecided .trendContinuation passed' o' reasons' levels'

end Scenario

end PriceAction
