import PriceAction.Proofs.Rescaling.Break
import PriceAction.Proofs.Rescaling.Range

/-!
# The structure of rescaled prices

Each part of the structure of a series responds to a factor as the swings and legs do. So a positive
factor multiplies the prices of a structure and leaves all else (`Structure.analyze_rescale`), and
the structure of a series that is turned upside down is the mirror image of its structure, where no
threshold is a share of a price (`Structure.analyze_mirror`).
-/

namespace PriceAction

variable {c k : Rat}

theorem Bias.ofDirection_turned (c : Rat) (d : Direction) :
    Bias.ofDirection (turned c d) = turned c (Bias.ofDirection d) :=
  map_turned (fun d => by cases d <;> rfl) c d

theorem Bias.ofTrend_turned (c : Rat) (t : Trend) :
    Bias.ofTrend (turned c t) = turned c (Bias.ofTrend t) :=
  map_turned (fun t => by cases t <;> rfl) c t

/-! ## The structure -/

/-- The numbers behind a structure whose prices are multiplied by a factor. The volatility as a
share of the last close stays. -/
@[simps] def StructureMeta.rescale (c : Rat) (m : StructureMeta Rat) : StructureMeta Rat :=
  { m with
    volatility := m.volatility.map (|c| * ·)
    breakThreshold := m.breakThreshold.map (|c| * ·) }

namespace Structure

/-- The structure with its prices multiplied by a factor. Sizes are multiplied by the size of the
factor, and a negative factor turns all that has sides. -/
@[simps] def rescale (c : Rat) (s : Structure Rat) : Structure Rat where
  trend := turned c s.trend
  bias := turned c s.bias
  swings := s.swings.map (Swing.rescale c)
  legs := s.legs.map (Leg.rescale c)
  activeRange := s.activeRange.map (TradingRange.rescale c)
  breaks := s.breaks.map (Break.rescale c)
  retracements := s.retracements.map (Retracement.rescale c)
  details := s.details.rescale c

/-- The structure without the volatility as a share of the last close. -/
def withoutShare (s : Structure Rat) : Structure Rat :=
  { s with details := { s.details with volatilityShare := none } }

theorem eq_of_withoutShare {s t : Structure Rat} (h : s.withoutShare = t.withoutShare)
    (hshare : s.details.volatilityShare = t.details.volatilityShare) : s = t := by
  obtain ⟨_, _, _, _, _, _, _, details⟩ := s
  obtain ⟨_, _, _, _, _, _, _, details'⟩ := t
  cases details
  cases details'
  simp_all [withoutShare]

/-- What leaves nothing in a structure that tells up from down: no bar that closes where it opened
is a swing of both kinds, no threshold is a share of a price, and closes that stand still have no
drift. -/
structure Sideless (bars : List (Bar Rat)) (settings : Settings Rat) : Prop where
  oneKind : Swing.OneKindEach bars
    (Swing.detect bars settings.swing.window settings.swing.strengthCap)
  breakShare : settings.structural.breakShare = 0
  driftEfficiency : 0 < settings.structural.driftEfficiency

theorem biasOf_rescale (c : Rat) (trend : Trend) (e? : Option (Break Rat)) :
    biasOf (turned c trend) (e?.map (Break.rescale c)) = turned c (biasOf trend e?) := by
  cases e? with
  | none => exact Bias.ofTrend_turned c trend
  | some e => exact Bias.ofDirection_turned c e.direction

theorem trend_analyze (bars : List (Bar Rat)) (settings : Settings Rat) :
    (analyze bars settings).trend =
      (trendOf settings.structural (Leg.labels (analyze bars settings).legs)
        (closeDrift? bars)).1 := rfl

theorem trendSource_analyze (bars : List (Bar Rat)) (settings : Settings Rat) :
    (analyze bars settings).details.trendSource =
      (trendOf settings.structural (Leg.labels (analyze bars settings).legs)
        (closeDrift? bars)).2 := rfl

theorem retracements_analyze (bars : List (Bar Rat)) (settings : Settings Rat) :
    (analyze bars settings).retracements =
      match averageTrueRange? bars settings.structural.volatilityPeriod with
      | some v => Retracement.detect (analyze bars settings).legs
          (((analyze bars settings).lastCharacter?.map (·.legIndex)).getD 0) v
          (analyze bars settings).bias settings.retracement
      | none => [] := by
  unfold analyze lastCharacter?
  cases averageTrueRange? bars settings.structural.volatilityPeriod with
  | none => rfl
  | some v => rfl

theorem shortfalls_analyze (bars : List (Bar Rat)) (settings : Settings Rat) :
    (analyze bars settings).details.shortfalls =
      (if bars.length < 2 * settings.swing.window + 1 then
        [.bars "swings" (2 * settings.swing.window + 1) bars.length] else []) ++
      (if (analyze bars settings).volatility.isNone then
        [.volatility "structure.events"] else []) ++
      (match TradingRange.detect bars settings.range with
        | .ok _ => []
        | .error shortfall => [shortfall]) ++
      (if (analyze bars settings).volatility.isNone then
        [.volatility "structure.ote"] else []) := by
  unfold analyze
  cases TradingRange.detect bars settings.range with
  | ok range => rfl
  | error shortfall => rfl

section Parts

variable (hc : c ≠ 0) {bars : List (Bar Rat)} {settings : Settings Rat}
  (h : c < 0 → Sideless bars settings)
include hc

theorem volatility_rescale :
    (analyze (bars.map (Bar.rescale c)) settings).volatility =
      (analyze bars settings).volatility.map (|c| * ·) :=
  averageTrueRange?_rescale hc bars settings.structural.volatilityPeriod

theorem breakThreshold_rescale :
    (analyze (bars.map (Bar.rescale c)) settings).details.breakThreshold =
      (analyze bars settings).details.breakThreshold.map (|c| * ·) := by
  show (analyze (bars.map (Bar.rescale c)) settings).volatility.map
      (· * settings.structural.breakVolatilities) =
    ((analyze bars settings).volatility.map
      (· * settings.structural.breakVolatilities)).map (|c| * ·)
  rw [volatility_rescale hc, Option.map_map, Option.map_map]
  refine congrArg (Option.map · _) (funext fun v => ?_)
  exact mul_assoc ..

theorem activeRange_rescale :
    (analyze (bars.map (Bar.rescale c)) settings).activeRange =
      (analyze bars settings).activeRange.map (TradingRange.rescale c) := by
  show (TradingRange.detect (bars.map (Bar.rescale c)) settings.range).toOption =
    (TradingRange.detect bars settings.range).toOption.map (TradingRange.rescale c)
  rw [TradingRange.detect_rescale hc]
  cases TradingRange.detect bars settings.range <;> rfl

theorem shortfalls_rescale :
    (analyze (bars.map (Bar.rescale c)) settings).details.shortfalls =
      (analyze bars settings).details.shortfalls := by
  rw [shortfalls_analyze, shortfalls_analyze, List.length_map, volatility_rescale hc,
    TradingRange.detect_rescale hc, Option.isNone_map]
  cases TradingRange.detect bars settings.range <;> rfl

include h

theorem swings_rescale :
    (analyze (bars.map (Bar.rescale c)) settings).swings =
      (analyze bars settings).swings.map (Swing.rescale c) :=
  Swing.detect_rescale hc fun hneg => (h hneg).oneKind

theorem legs_rescale :
    (analyze (bars.map (Bar.rescale c)) settings).legs =
      (analyze bars settings).legs.map (Leg.rescale c) := by
  show Leg.ofSwings (analyze (bars.map (Bar.rescale c)) settings).swings = _
  rw [swings_rescale hc h, Leg.ofSwings_rescale hc]
  rfl

theorem trend_rescale :
    (analyze (bars.map (Bar.rescale c)) settings).trend = turned c (analyze bars settings).trend ∧
      (analyze (bars.map (Bar.rescale c)) settings).details.trendSource =
        (analyze bars settings).details.trendSource := by
  have hstill : ∀ d ∈ closeDrift? bars, d.net = 0 → d.efficiency = 0 := fun d hd =>
    efficiency_eq_zero hd
  have htrend := trendOf_rescale hc (fun hneg => (h hneg).driftEfficiency)
    (Leg.labels (analyze bars settings).legs) hstill
  rw [← Leg.labels_rescale, ← legs_rescale hc h, ← closeDrift?_rescale hc] at htrend
  rw [trend_analyze, trendSource_analyze, htrend]
  exact ⟨rfl, rfl⟩

theorem breaks_rescale :
    (analyze (bars.map (Bar.rescale c)) settings).breaks =
      (analyze bars settings).breaks.map (Break.rescale c) := by
  rw [breaks_analyze, breaks_analyze, averageTrueRange?_rescale hc, legs_rescale hc h]
  cases averageTrueRange? bars settings.structural.volatilityPeriod with
  | none => rfl
  | some v => exact Break.detect_rescale hc (fun hneg => (h hneg).breakShare) bars _ v

theorem lastCharacter?_rescale :
    (analyze (bars.map (Bar.rescale c)) settings).lastCharacter? =
      (analyze bars settings).lastCharacter?.map (Break.rescale c) := by
  rw [lastCharacter?, breaks_rescale hc h, Break.lastCharacter_rescale]
  rfl

theorem bias_rescale :
    (analyze (bars.map (Bar.rescale c)) settings).bias = turned c (analyze bars settings).bias := by
  show biasOf (analyze (bars.map (Bar.rescale c)) settings).trend
    (analyze (bars.map (Bar.rescale c)) settings).lastCharacter? = _
  rw [(trend_rescale hc h).1, lastCharacter?_rescale hc h, biasOf_rescale]
  rfl

theorem retracements_rescale :
    (analyze (bars.map (Bar.rescale c)) settings).retracements =
      (analyze bars settings).retracements.map (Retracement.rescale c) := by
  rw [retracements_analyze, retracements_analyze, averageTrueRange?_rescale hc, legs_rescale hc h,
    lastCharacter?_rescale hc h, bias_rescale hc h, Option.map_map]
  cases averageTrueRange? bars settings.structural.volatilityPeriod with
  | none => rfl
  | some v => exact Retracement.detect_rescale hc _ _ v _ settings.retracement

theorem withoutShare_analyze_rescale :
    (analyze (bars.map (Bar.rescale c)) settings).withoutShare =
      ((analyze bars settings).rescale c).withoutShare := by
  rw [withoutShare, withoutShare, Structure.mk.injEq, StructureMeta.mk.injEq]
  refine ⟨(trend_rescale hc h).1, bias_rescale hc h, swings_rescale hc h, legs_rescale hc h,
    activeRange_rescale hc, breaks_rescale hc h, retracements_rescale hc h, List.length_map _, rfl,
    volatility_rescale hc, breakThreshold_rescale hc, rfl, (trend_rescale hc h).2, ?_, ?_,
    shortfalls_rescale hc⟩
  · show (closeDrift? (bars.map (Bar.rescale c))).map (·.efficiency) = _
    rw [closeDrift?_rescale hc, Option.map_map]
    rfl
  · show (analyze (bars.map (Bar.rescale c)) settings).lastCharacter?.map (·.time) = _
    rw [lastCharacter?_rescale hc h, Option.map_map]
    rfl

end Parts

theorem volatilityShare_rescale (hk : 0 < k) (bars : List (Bar Rat)) (settings : Settings Rat) :
    (analyze (bars.map (Bar.rescale k)) settings).details.volatilityShare =
      (analyze bars settings).details.volatilityShare := by
  show (analyze (bars.map (Bar.rescale k)) settings).volatility.bind (fun v =>
    (bars.map (Bar.rescale k)).getLast?.bind fun b =>
      if 0.0 < b.close then some (v / b.close) else none) =
    (analyze bars settings).volatility.bind fun v => bars.getLast?.bind fun b =>
      if 0.0 < b.close then some (v / b.close) else none
  rw [volatility_rescale hk.ne', List.getLast?_map, Option.bind_map, abs_of_pos hk]
  simp only [Option.bind_map, Function.comp_def, Bar.close_rescale, Scalar.zero_eq,
    mul_pos_iff_of_pos_left hk, mul_div_mul_left _ _ hk.ne']

theorem analyze_rescale (hk : 0 < k) (bars : List (Bar Rat)) (settings : Settings Rat) :
    analyze (bars.map (Bar.rescale k)) settings = (analyze bars settings).rescale k := by
  have hsideless (hneg : k < 0) : Sideless bars settings := absurd hneg hk.not_gt
  exact eq_of_withoutShare (withoutShare_analyze_rescale hk.ne' hsideless)
    (volatilityShare_rescale hk bars settings)

end Structure

/-! ## The mirror image -/

/-- The bar upside down. -/
def Bar.mirror (b : Bar Rat) : Bar Rat where
  time := b.time
  opening := -b.opening
  high := -b.low
  low := -b.high
  close := -b.close
  volume := b.volume

theorem Bar.mirror_eq (b : Bar Rat) : b.mirror = b.rescale (-1) := by
  have hneg (x : Rat) : -1 * x = -x := neg_one_mul x
  have hturn (d : Direction) : turned (-1) d = d.opposite := turned_of_neg (by norm_num) d
  rw [mirror, rescale, hneg, hneg, hneg, hneg, hturn, hturn]
  rfl

namespace Structure

/-- The structure upside down: prices are negated, high and low change places, and so do the sides
of all that has sides. Sizes stay, and with them the volatility. -/
def mirror (s : Structure Rat) : Structure Rat := s.rescale (-1)

/-- **Long and short are mirror images.** Turned upside down, a series has the structure of the
series turned upside down, if no bar that closes where it opened is a swing of both kinds, no
threshold is a share of a price, and closes that stand still have no drift. Only the volatility as
a share of the last close has no mirror image. -/
theorem analyze_mirror {bars : List (Bar Rat)} {settings : Settings Rat}
    (hkinds : Swing.OneKindEach bars
      (Swing.detect bars settings.swing.window settings.swing.strengthCap))
    (hshare : settings.structural.breakShare = 0)
    (hdrift : 0 < settings.structural.driftEfficiency) :
    (analyze (bars.map Bar.mirror) settings).withoutShare =
      (analyze bars settings).mirror.withoutShare := by
  rw [funext Bar.mirror_eq, mirror]
  exact withoutShare_analyze_rescale (by norm_num) fun _ => ⟨hkinds, hshare, hdrift⟩

/-- A rise that turns down and up again, one price a bar. -/
def zigzag : List (Bar Rat) :=
  [105, 100, 110, 105, 115, 108, 120, 104, 125, 120].zipIdx.map fun (p, i) =>
    ⟨.ofSeconds (60 * i), p, p, p, p, 100⟩

/-- Settings that make every bar between two lower or two higher ones a pivot, and have no threshold
that is a share of a price. -/
def zigzagSettings : Settings Rat :=
  { Settings.standard with
    swing := { window := 1 }
    structural := { StructureSettings.standard with volatilityPeriod := 1, breakShare := 0 } }

theorem analyze_mirror_zigzag :
    Swing.OneKindEach zigzag (Swing.detect zigzag 1 4) ∧
      zigzagSettings.structural.breakShare = 0 ∧
      0 < zigzagSettings.structural.driftEfficiency ∧
      (analyze zigzag zigzagSettings).breaks.map (fun e => (e.kind, e.direction, e.price)) =
        [(.structural, .bullish, 110), (.structural, .bullish, 115), (.character, .bearish, 108),
          (.character, .bullish, 120)] ∧
      (analyze (zigzag.map Bar.mirror) zigzagSettings).breaks.map
          (fun e => (e.kind, e.direction, e.price)) =
        [(.structural, .bearish, -110), (.structural, .bearish, -115), (.character, .bullish, -108),
          (.character, .bearish, -120)] ∧
      (analyze (zigzag.map Bar.mirror) zigzagSettings).withoutShare =
        (analyze zigzag zigzagSettings).mirror.withoutShare := by
  have hkinds : Swing.OneKindEach zigzag (Swing.detect zigzag 1 4) := by
    unfold Swing.OneKindEach
    decide
  have hdrift : 0 < zigzagSettings.structural.driftEfficiency := by decide +kernel
  exact ⟨hkinds, rfl, hdrift, by decide +kernel, by decide +kernel,
    analyze_mirror hkinds rfl hdrift⟩

end Structure

end PriceAction