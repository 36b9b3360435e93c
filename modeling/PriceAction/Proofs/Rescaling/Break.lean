import PriceAction.Proofs.Rescaling.Leg
import PriceAction.Proofs.Structure.Break

/-!
# The breaks of rescaled prices

The volatility of rescaled prices and the sizes of their legs are multiplied by the size of the
factor, so a leg that broke an earlier pivot breaks it still (`Break.close?_rescale`). A negative
factor turns every break around (`Break.detect_rescale`), unless a threshold is a share of a price:
such a share changes its sign, while a size does not.
-/

namespace PriceAction

variable {c : Rat}

/-! ## Volatility and drift -/

theorem adjacent_map {β γ : Type} (f : β → γ) (xs : List β) :
    adjacent (xs.map f) = (adjacent xs).map (Prod.map f f) := by
  rw [adjacent, adjacent, ← List.map_tail, List.zip_map]

theorem averageTrueRange?_rescale (hc : c ≠ 0) (bars : List (Bar Rat)) (period : Nat) :
    averageTrueRange? (bars.map (Bar.rescale c)) period =
      (averageTrueRange? bars period).map (|c| * ·) := by
  have hpos := abs_pos.2 hc
  rw [averageTrueRange?, averageTrueRange?, List.length_map]
  split
  · rfl
  · have hranges (latest : List (Bar Rat)) :
        ((adjacent (latest.map (Bar.rescale c))).map fun (a, b) => b.trueRange a.close) =
          ((adjacent latest).map fun (a, b) => b.trueRange a.close).map (|c| * ·) := by
      rw [adjacent_map, List.map_map, List.map_map]
      exact List.map_congr_left fun (a, b) _ => Bar.trueRange_rescale hc b a.close
    simp only [← List.map_drop, hranges, Scalar.sum_rescale]
    rw [mul_div_assoc, apply_ite (Option.map _)]
    simp only [Scalar.zero_eq, mul_pos_iff_of_pos_left hpos]
    rfl

/-- The drift with its prices multiplied by a factor. -/
@[simps] def Drift.rescale (c : Rat) (d : Drift Rat) : Drift Rat where
  net := c * d.net
  efficiency := d.efficiency

theorem closeDrift?_rescale (hc : c ≠ 0) (bars : List (Bar Rat)) :
    closeDrift? (bars.map (Bar.rescale c)) = (closeDrift? bars).map (Drift.rescale c) := by
  have hpos := abs_pos.2 hc
  have hpath : ((adjacent (bars.map (Bar.rescale c))).map fun (a, b) =>
      Scalar.abs (b.close - a.close)) =
        ((adjacent bars).map fun (a, b) => Scalar.abs (b.close - a.close)).map (|c| * ·) := by
    rw [adjacent_map, List.map_map, List.map_map]
    refine List.map_congr_left fun (a, b) _ => ?_
    exact Scalar.abs_sub_rescale c b.close a.close
  rw [closeDrift?, closeDrift?, List.head?_map, List.getLast?_map]
  cases bars.head? with
  | none => rfl
  | some first =>
    cases bars.getLast? with
    | none => rfl
    | some last =>
      have hnet : c * last.close - c * first.close = c * (last.close - first.close) :=
        (mul_sub ..).symm
      simp only [Option.map_some, List.length_map, hpath, hnet, Bar.close_rescale,
        Scalar.sum_rescale, Scalar.abs_rescale, Scalar.zero_eq, Scalar.rescale_nonpos_iff hpos,
        mul_div_mul_left _ _ hpos.ne', apply_ite (Option.map _), Option.map_none]
      rfl

theorem efficiency_eq_zero {bars : List (Bar Rat)} {d : Drift Rat} (h : closeDrift? bars = some d)
    (hnet : d.net = 0) : d.efficiency = 0 := by
  unfold closeDrift? at h
  split at h
  · simp only [Option.ite_none_left_eq_some, Option.some.injEq] at h
    obtain ⟨-, -, rfl⟩ := h
    have habs : Scalar.abs (0 : Rat) = 0 := by rw [Scalar.abs_eq, abs_zero]
    show Scalar.abs _ / _ = (0 : Rat)
    rw [show _ - _ = (0 : Rat) from hnet, habs, zero_div]
  · cases h

/-- The drift turns with the trend unless it stands still, and then it is not efficient. -/
theorem Structure.trendOf_rescale (hc : c ≠ 0) {settings : StructureSettings Rat}
    (heff : c < 0 → 0 < settings.driftEfficiency) (labels : List SwingLabel)
    {drift : Option (Drift Rat)} (hdrift : ∀ d ∈ drift, d.net = 0 → d.efficiency = 0) :
    trendOf settings (labels.map (turned c)) (drift.map (Drift.rescale c)) =
      (turned c (trendOf settings labels drift).1, (trendOf settings labels drift).2) := by
  unfold trendOf
  rw [Trend.ofLabels?_rescale hc]
  cases Trend.ofLabels? labels settings.trendLabels with
  | some trend => rfl
  | none =>
    cases drift with
    | none =>
      show (Trend.unknown, _) = (turned c Trend.unknown, _)
      unfold turned
      split <;> rfl
    | some d =>
      have hunknown : turned c Trend.unknown = .unknown := by
        unfold turned
        split <;> rfl
      simp only [Option.map_some, Option.map_none, Drift.rescale, Scalar.zero_eq]
      by_cases hclean : settings.driftEfficiency ≤ d.efficiency
      · simp only [if_pos hclean]
        rcases lt_or_gt_of_ne hc with h | h
        · -- a drift of zero would be a fall on both sides
          have hnet : d.net ≠ 0 := fun hstill =>
            (heff h).not_ge (hclean.trans_eq (hdrift d rfl hstill))
          have hfalls : 0 < c * d.net ↔ ¬0 < d.net := by
            rw [← mul_zero c, mul_lt_mul_left_of_neg h, mul_zero, not_lt, hnet.le_iff_lt]
          simp only [hfalls, ite_not, turned_of_neg h]
          split <;> rfl
        · simp only [mul_pos_iff_of_pos_left h, turned_of_pos h]
      · simp only [if_neg hclean, hunknown]

/-! ## Breaks -/

theorem Trend.direction?_turned (c : Rat) (t : Trend) :
    (turned c t).direction? = t.direction?.map (turned c) := by
  unfold turned
  split <;> cases t <;> rfl

/-- The break with its prices multiplied by a factor. -/
@[simps] def Break.rescale (c : Rat) (e : Break Rat) : Break Rat where
  kind := e.kind
  direction := turned c e.direction
  price := c * e.price
  time := e.time
  barIndex := e.barIndex
  legIndex := e.legIndex
  displacement := |c| * e.displacement

namespace Break

variable {settings : StructureSettings Rat}

theorem threshold_rescale (hc : c ≠ 0) (hshare : c < 0 → settings.breakShare = 0)
    (volatility : Rat) (leg : Leg Rat) :
    threshold settings (|c| * volatility) (leg.rescale c) =
      |c| * threshold settings volatility leg := by
  have hvolatile : settings.breakVolatilities * (|c| * volatility) =
      |c| * (settings.breakVolatilities * volatility) := mul_left_comm ..
  have hshared : settings.breakShare * (c * leg.mid) = |c| * (settings.breakShare * leg.mid) := by
    rcases lt_or_gt_of_ne hc with h | h
    · rw [hshare h, zero_mul, zero_mul, mul_zero]
    · rw [abs_of_pos h, mul_left_comm]
  rw [threshold, Leg.mid_rescale, hvolatile, hshared, Scalar.max_rescale (abs_nonneg c), threshold]

theorem firstClose?_rescale (hc : c ≠ 0) (bars : List (Bar Rat)) (leg : Leg Rat) (level : Rat) :
    firstClose? (bars.map (Bar.rescale c)) (leg.rescale c) (c * level) =
      (firstClose? bars leg level).map (Prod.map id (Bar.rescale c)) := by
  have hbeyond (b : Bar Rat) :
      (leg.rescale c).direction.beyond (b.rescale c).close (c * level) =
        leg.direction.beyond b.close level := by
    rw [Leg.direction_rescale, Bar.close_rescale, Direction.beyond_rescale hc]
  simp only [firstClose?, ← List.map_drop, ← List.map_take, List.zipIdx_map,
    List.findSome?_map, List.map_findSome?, Function.comp_def, Prod.map_fst, hbeyond,
    apply_ite (Option.map _), Option.map_none]
  rfl

theorem close?_rescale (hc : c ≠ 0) (hshare : c < 0 → settings.breakShare = 0) (volatility : Rat)
    (bars : List (Bar Rat)) (leg : Leg Rat) (prior : Swing Rat) :
    close? settings (|c| * volatility) (bars.map (Bar.rescale c)) (leg.rescale c)
        (prior.rescale c) =
      (close? settings volatility bars leg prior).map (Prod.map id (Bar.rescale c)) := by
  have hbeyond := SwingKind.beyond_rescale hc leg.stop.kind leg.stop.price prior.price
  have hsmall : |c| * leg.amplitude ≤ |c| * threshold settings volatility leg ↔
      leg.amplitude ≤ threshold settings volatility leg :=
    mul_le_mul_iff_of_pos_left (abs_pos.2 hc)
  have hclose := firstClose?_rescale hc bars leg prior.price
  show (if SwingKind.beyond (turned c leg.stop.kind) (c * leg.stop.price) (c * prior.price) then
    if _ then _ else firstClose? _ _ (c * prior.price) else _) = _
  rw [Leg.amplitude_rescale, threshold_rescale hc hshare, hbeyond, hclose, close?]
  simp only [hsmall, apply_ite (Option.map _), Option.map_none]

theorem standing?_rescale (hc : c ≠ 0) (settings : StructureSettings Rat)
    (last : Option Direction) (labels : List SwingLabel) :
    standing? settings (last.map (turned c)) (labels.map (turned c)) =
      (standing? settings last labels).map (turned c) := by
  rw [standing?, standing?, Trend.ofLabels?_rescale hc, Option.map_or, Option.map_bind,
    Option.bind_map]
  simp only [Function.comp_def, Trend.direction?_turned]

theorem kindOf_turned (c : Rat) (standing? : Option Direction) (d : Direction) :
    kindOf (standing?.map (turned c)) (turned c d) = kindOf standing? d := by
  cases standing? with
  | none => rfl
  | some standing => simp only [kindOf, Option.map_some, turned_inj]

theorem ofLeg?_rescale (hc : c ≠ 0) (hshare : c < 0 → settings.breakShare = 0) (volatility : Rat)
    (bars : List (Bar Rat)) (last : Option Direction) (labels : List SwingLabel)
    (prior? : Option (Swing Rat)) (index : Nat) (leg : Leg Rat) :
    ofLeg? settings (|c| * volatility) (bars.map (Bar.rescale c)) (last.map (turned c))
        (labels.map (turned c)) (prior?.map (Swing.rescale c)) index (leg.rescale c) =
      (ofLeg? settings volatility bars last labels prior? index leg).map (rescale c) := by
  cases prior? with
  | none => rfl
  | some prior =>
    rw [Option.map_some, ofLeg?, Option.bind_some, close?_rescale hc hshare, standing?_rescale hc,
      Leg.direction_rescale, kindOf_turned, Leg.amplitude_rescale, ofLeg?, Option.bind_some,
      Option.map_map, Option.map_map]
    rfl

theorem lastCharacter_rescale (c : Rat) (events : List (Break Rat)) :
    (events.map (rescale c)).reverse.find? (·.isCharacter) =
      (events.reverse.find? (·.isCharacter)).map (rescale c) := by
  rw [← List.map_reverse, List.find?_map]
  rfl

theorem lastTurn_rescale (c : Rat) (last : Option Direction) (events : List (Break Rat)) :
    lastTurn (last.map (turned c)) (events.map (rescale c)) =
      (lastTurn last events).map (turned c) := by
  rw [lastTurn, lastTurn, lastCharacter_rescale, Option.map_or, Option.map_map, Option.map_map]
  rfl

theorem along_rescale (hc : c ≠ 0) (hshare : c < 0 → settings.breakShare = 0) (volatility : Rat)
    (bars : List (Bar Rat)) (last : Option Direction) (labels : List SwingLabel)
    (prior? : Option (Swing Rat)) (index : Nat) (legs : List (Leg Rat)) :
    along settings (|c| * volatility) (bars.map (Bar.rescale c)) (last.map (turned c))
        (labels.map (turned c)) (prior?.map (Swing.rescale c)) index (legs.map (Leg.rescale c)) =
      (along settings volatility bars last labels prior? index legs).map (rescale c) := by
  induction legs generalizing last labels prior? index with
  | nil => rfl
  | cons leg rest ih =>
    have hlabels : labels.map (turned c) ++ (leg.rescale c).label.toList =
        (labels ++ leg.label.toList).map (turned c) := by
      rw [List.map_append, Leg.rescale, Option.toList_map]
    have hstart : some (leg.rescale c).start = (some leg.start).map (Swing.rescale c) := rfl
    rw [List.map_cons, along_cons, along_cons, ofLeg?_rescale hc hshare, Option.toList_map]
    simp only [lastTurn_rescale, hlabels, hstart]
    rw [ih, List.map_append]

theorem detect_rescale (hc : c ≠ 0) (hshare : c < 0 → settings.breakShare = 0)
    (bars : List (Bar Rat)) (legs : List (Leg Rat)) (volatility : Rat) :
    detect (bars.map (Bar.rescale c)) (legs.map (Leg.rescale c)) (|c| * volatility) settings =
      (detect bars legs volatility settings).map (rescale c) :=
  along_rescale hc hshare volatility bars none [] none 0 legs

end Break

end PriceAction
