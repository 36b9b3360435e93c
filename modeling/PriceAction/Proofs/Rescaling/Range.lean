import PriceAction.Proofs.Rescaling.Leg
import PriceAction.Structure.State

/-!
# The range and the retracements of rescaled prices

A negative factor exchanges the two bounds of a range and the two ends of a band. The active range
of the bars turns with them (`TradingRange.detect_rescale`), and so do the bands that the legs leave
behind (`Retracement.detect_rescale`): what is at the near end of a leg stays there.
-/

namespace PriceAction

variable {c k : Rat}

/-! ## The active range -/

instance : Sided RangeState where
  opposite
    | .inside => .inside
    | .deviatedUp => .deviatedDown
    | .deviatedDown => .deviatedUp
  opposite_opposite s := by cases s <;> rfl

namespace TradingRange

/-- The range with its prices multiplied by a factor. -/
@[simps startIndex stopIndex equilibrium state]
def rescale (c : Rat) (r : TradingRange Rat) : TradingRange Rat where
  high := c * r.extreme (turned c .bullish)
  low := c * r.extreme (turned c .bearish)
  equilibrium := c * r.equilibrium
  start := r.start
  stop := r.stop
  startIndex := r.startIndex
  stopIndex := r.stopIndex
  state := turned c r.state

theorem extreme_rescale (c : Rat) (r : TradingRange Rat) (d : Direction) :
    (r.rescale c).extreme d = c * r.extreme (turned c d) := by
  cases d <;> rfl

theorem extreme_rescale_of_pos (hk : 0 < k) (r : TradingRange Rat) (d : Direction) :
    (r.rescale k).extreme d = k * r.extreme d := by
  rw [extreme_rescale, turned_of_pos hk]

theorem window_rescale (c : Rat) (r : TradingRange Rat) (bars : List (Bar Rat)) :
    (r.rescale c).window (bars.map (Bar.rescale c)) = (r.window bars).map (Bar.rescale c) := by
  rw [window, ← List.map_take, ← List.map_drop]
  rfl

/-- The outermost extreme on a side, of bars listed from the latest on. -/
def bound (bars : List (Bar Rat)) (d : Direction) : Rat :=
  Pool.outermost d (bars.map (·.extreme d)).reverse

/-- The bars that stay within bounds, up to the first that does not. -/
def joining (bounds : Direction → Rat) (bars : List (Bar Rat)) : List (Bar Rat) :=
  bars.takeWhile fun b =>
    !(decide (bounds .bullish < b.high) || decide (b.low < bounds .bearish))

/-- The range with the given bounds, of `count` bars with their latest, the `least` bars before it
and those that join them. -/
def ofBounds (bounds : Direction → Rat) (count least : Nat) (latest newest oldest : Bar Rat)
    (joined : List (Bar Rat)) : TradingRange Rat where
  high := bounds .bullish
  low := bounds .bearish
  equilibrium := (bounds .bullish + bounds .bearish) / 2.0
  start := (joined.getLast?.getD oldest).time
  stop := newest.time
  startIndex := count - 1 - (least + joined.length)
  stopIndex := count - 2
  state := stateOf latest.close (bounds .bullish) (bounds .bearish)

theorem extreme_ofBounds (bounds : Direction → Rat) (count least : Nat)
    (latest newest oldest : Bar Rat) (joined : List (Bar Rat)) :
    (ofBounds bounds count least latest newest oldest joined).extreme = bounds := by
  funext d
  cases d <;> rfl

/-- The range of the bars that set its bounds and of the older bars that join them, if it has a
width. -/
def ofBase (base older : List (Bar Rat)) (count least : Nat) (latest newest oldest : Bar Rat) :
    Except Shortfall (TradingRange Rat) :=
  if bound base .bullish ≤ bound base .bearish then .error (.range "range")
  else .ok (ofBounds (bound base) count least latest newest oldest (joining (bound base) older))

/-- The bounds of rescaled bars. -/
def rescaledBounds (c : Rat) (bounds : Direction → Rat) (d : Direction) : Rat :=
  c * bounds (turned c d)

section Bounds

variable (hc : c ≠ 0)
include hc

theorem bound_rescale (bars : List (Bar Rat)) :
    bound (bars.map (Bar.rescale c)) = rescaledBounds c (bound bars) := by
  funext d
  have hmap : (bars.map (Bar.rescale c)).map (·.extreme d) =
      (bars.map (·.extreme (turned c d))).map (c * ·) := by
    rw [List.map_map, List.map_map]
    exact List.map_congr_left fun b _ => Bar.extreme_rescale c b d
  have houter := Pool.outermost_rescale hc (turned c d) (bars.map (·.extreme (turned c d))).reverse
  rw [turned_turned] at houter
  rw [bound, hmap, ← List.map_reverse, houter, rescaledBounds, bound]

variable (bounds : Direction → Rat)

theorem rescaledBounds_le :
    rescaledBounds c bounds .bullish ≤ rescaledBounds c bounds .bearish ↔
      bounds .bullish ≤ bounds .bearish := by
  rw [rescaledBounds, rescaledBounds]
  rcases lt_or_gt_of_ne hc with h | h
  · rw [turned_of_neg h, turned_of_neg h]
    exact mul_le_mul_left_of_neg h
  · rw [turned_of_pos h, turned_of_pos h]
    exact mul_le_mul_iff_of_pos_left h

theorem joining_rescale (bars : List (Bar Rat)) :
    joining (rescaledBounds c bounds) (bars.map (Bar.rescale c)) =
      (joining bounds bars).map (Bar.rescale c) := by
  have hleaves (b : Bar Rat) :
      (decide (rescaledBounds c bounds .bullish < (b.rescale c).high) ||
          decide ((b.rescale c).low < rescaledBounds c bounds .bearish)) =
        (decide (bounds .bullish < b.high) || decide (b.low < bounds .bearish)) := by
    rw [rescaledBounds, rescaledBounds]
    rcases lt_or_gt_of_ne hc with h | h
    · rw [turned_of_neg h, turned_of_neg h, Bar.high_rescale_of_neg h, Bar.low_rescale_of_neg h,
        Bool.or_comm]
      simp only [mul_lt_mul_left_of_neg h]
      rfl
    · rw [turned_of_pos h, turned_of_pos h, Bar.high_rescale h, Bar.low_rescale h]
      simp only [mul_lt_mul_iff_of_pos_left h]
  rw [joining, joining, List.takeWhile_map]
  simp only [Function.comp_def, hleaves]

variable {bounds}

theorem stateOf_rescale (hbounds : bounds .bearish < bounds .bullish) (close : Rat) :
    stateOf (c * close) (rescaledBounds c bounds .bullish) (rescaledBounds c bounds .bearish) =
      turned c (stateOf close (bounds .bullish) (bounds .bearish)) := by
  rw [rescaledBounds, rescaledBounds]
  rcases lt_or_gt_of_ne hc with h | h
  · rw [turned_of_neg h, turned_of_neg h, turned_of_neg h]
    simp only [stateOf, Sided.opposite, Direction.opposite, mul_lt_mul_left_of_neg h]
    -- the two tests change places, and no close is beyond both bounds
    by_cases hbelow : close < bounds .bearish
    · rw [if_pos hbelow, if_neg (hbelow.trans hbounds).not_gt, if_pos hbelow]
    · rw [if_neg hbelow, if_neg hbelow]
      split <;> rfl
  · simp only [stateOf, turned_of_pos h, mul_lt_mul_iff_of_pos_left h]

theorem ofBounds_rescale (hbounds : bounds .bearish < bounds .bullish) (count least : Nat)
    (latest newest oldest : Bar Rat) (joined : List (Bar Rat)) :
    ofBounds (rescaledBounds c bounds) count least (latest.rescale c) (newest.rescale c)
        (oldest.rescale c) (joined.map (Bar.rescale c)) =
      (ofBounds bounds count least latest newest oldest joined).rescale c := by
  have hmid : (rescaledBounds c bounds .bullish + rescaledBounds c bounds .bearish) / 2.0 =
      c * ((bounds .bullish + bounds .bearish) / 2.0) := by
    rw [rescaledBounds, rescaledBounds, ← mul_add, mul_div_assoc]
    rcases lt_or_gt_of_ne hc with h | h
    · rw [turned_of_neg h, turned_of_neg h, add_comm]
      rfl
    · rw [turned_of_pos h, turned_of_pos h]
  have hstart : ((joined.map (Bar.rescale c)).getLast?.getD (oldest.rescale c)).time =
      (joined.getLast?.getD oldest).time := by
    rw [List.getLast?_map]
    cases joined.getLast? <;> rfl
  have hstate := stateOf_rescale hc hbounds latest.close
  rw [rescale, extreme_ofBounds, ofBounds, hmid, hstart, List.length_map, Bar.close_rescale, hstate]
  rfl

theorem ofBase_rescale (base older : List (Bar Rat)) (count least : Nat)
    (latest newest oldest : Bar Rat) :
    ofBase (base.map (Bar.rescale c)) (older.map (Bar.rescale c)) count least (latest.rescale c)
        (newest.rescale c) (oldest.rescale c) =
      (ofBase base older count least latest newest oldest).map (rescale c) := by
  rw [ofBase, bound_rescale hc, joining_rescale hc, ofBase, apply_ite (Except.map _)]
  by_cases hnone : bound base .bullish ≤ bound base .bearish
  · rw [if_pos hnone, if_pos ((rescaledBounds_le hc _).2 hnone)]
    rfl
  · rw [if_neg hnone, if_neg (mt (rescaledBounds_le hc _).1 hnone),
      ofBounds_rescale hc (not_le.1 hnone)]
    rfl

end Bounds

theorem detect_rescale (hc : c ≠ 0) (bars : List (Bar Rat)) (settings : RangeSettings) :
    detect (bars.map (Bar.rescale c)) settings = (detect bars settings).map (rescale c) := by
  rw [detect, detect, ← List.map_reverse]
  cases bars.reverse with
  | nil => rfl
  | cons latest earlier =>
    simp only [List.map_cons, ← List.map_take, ← List.map_drop, List.head?_map, List.getLast?_map,
      List.length_map]
    generalize max settings.leastBars 1 = least
    generalize (earlier.drop least).take _ = older
    generalize earlier.take least = base
    cases base.head? with
    | none => rfl
    | some newest =>
      cases base.getLast? with
      | none => rfl
      | some oldest =>
        show (if _ then _ else ofBase (base.map (Bar.rescale c)) (older.map (Bar.rescale c))
            bars.length least (latest.rescale c) (newest.rescale c) (oldest.rescale c)) =
          Except.map _ (if _ then _ else ofBase base older bars.length least latest newest oldest)
        rw [ofBase_rescale hc, apply_ite (Except.map _)]
        rfl

end TradingRange

/-! ## Retracements -/

instance : Sided Bias where
  opposite
    | .bullish => .bearish
    | .bearish => .bullish
    | .neutral => .neutral
  opposite_opposite b := by cases b <;> rfl

theorem Role.relative_turned (c : Rat) (d : Direction) (b : Bias) :
    Role.relative (turned c d) (turned c b) = Role.relative d b := by
  unfold turned
  split <;> cases d <;> cases b <;> rfl

namespace Retracement

/-- The band with its prices multiplied by a factor. -/
@[simps direction role] def rescale (c : Rat) (z : Retracement Rat) : Retracement Rat where
  low := c * if c < 0 then z.high else z.low
  high := c * if c < 0 then z.low else z.high
  direction := turned c z.direction
  role := z.role
  legIndex := z.legIndex
  legStart := z.legStart
  legStop := z.legStop
  amplitude := |c| * z.amplitude

theorem low_rescale (hk : 0 < k) (z : Retracement Rat) : (z.rescale k).low = k * z.low := by
  rw [rescale, if_neg hk.not_gt]

theorem high_rescale (hk : 0 < k) (z : Retracement Rat) : (z.rescale k).high = k * z.high := by
  rw [rescale, if_neg hk.not_gt, if_neg hk.not_gt]

theorem band_rescale_of_neg (hc : c < 0) (settings : RetracementSettings Rat) (leg : Leg Rat) :
    band settings (leg.rescale c) = (c * (band settings leg).2, c * (band settings leg).1) := by
  unfold band
  rw [Leg.direction_rescale, Leg.amplitude_rescale, turned_of_neg hc, abs_of_neg hc]
  cases leg.direction with
  | bullish =>
    refine Prod.ext ?_ ?_
    · show c * leg.stop.price + settings.nearShare * (-c * leg.amplitude) =
        c * (leg.stop.price - settings.nearShare * leg.amplitude)
      ring
    · show c * leg.stop.price + settings.farShare * (-c * leg.amplitude) =
        c * (leg.stop.price - settings.farShare * leg.amplitude)
      ring
  | bearish =>
    refine Prod.ext ?_ ?_
    · show c * leg.stop.price - settings.farShare * (-c * leg.amplitude) =
        c * (leg.stop.price + settings.farShare * leg.amplitude)
      ring
    · show c * leg.stop.price - settings.nearShare * (-c * leg.amplitude) =
        c * (leg.stop.price + settings.nearShare * leg.amplitude)
      ring

theorem band_rescale (hk : 0 < k) (settings : RetracementSettings Rat) (leg : Leg Rat) :
    band settings (leg.rescale k) = (k * (band settings leg).1, k * (band settings leg).2) := by
  unfold band
  rw [Leg.direction_rescale, Leg.amplitude_rescale, turned_of_pos hk, abs_of_pos hk]
  have hshare (share : Rat) : share * (k * leg.amplitude) = k * (share * leg.amplitude) :=
    mul_left_comm ..
  cases leg.direction with
  | bullish => simp only [Leg.rescale, Swing.rescale, hshare, mul_sub]
  | bearish => simp only [Leg.rescale, Swing.rescale, hshare, mul_add]

theorem ofLeg_rescale (hc : c ≠ 0) (settings : RetracementSettings Rat) (bias : Bias)
    (leg : Leg Rat) (index : Nat) :
    ofLeg settings (turned c bias) (leg.rescale c) index =
      (ofLeg settings bias leg index).rescale c := by
  rw [ofLeg, Leg.direction_rescale, Leg.amplitude_rescale, Role.relative_turned]
  rcases lt_or_gt_of_ne hc with h | h
  · rw [band_rescale_of_neg h, rescale, if_pos h, if_pos h]
    rfl
  · rw [band_rescale h, rescale, if_neg h.not_gt, if_neg h.not_gt]
    rfl

theorem countOne_turned (c : Rat) (kept : Direction → Nat) (d : Direction) :
    countOne (kept ∘ turned c) (turned c d) = countOne kept d ∘ turned c := by
  funext e
  have hsame : e = turned c d ↔ turned c e = d := by rw [← turned_inj, turned_turned]
  simp only [countOne, Function.comp_apply, hsame]

theorem keepNewest_rescale (c : Rat) (most : Nat) (zones : List (Retracement Rat)) :
    keepNewest most (zones.map (rescale c)) =
      Prod.map (· ∘ turned c) (List.map (rescale c)) (keepNewest most zones) := by
  rw [keepNewest, List.foldr_map]
  refine @List.foldr_hom _ _ _ (Prod.map (· ∘ turned c) (List.map (rescale c))) _ _ zones
    (fun _ => 0, []) fun z (kept, rest) => ?_
  simp only [Prod.map_apply, rescale_role, rescale_direction, Function.comp_apply, turned_turned,
    countOne_turned, apply_ite (Prod.map (· ∘ turned c) (List.map (rescale c))), List.map_cons]

theorem detect_rescale (hc : c ≠ 0) (legs : List (Leg Rat)) (firstLeg : Nat) (volatility : Rat)
    (bias : Bias) (settings : RetracementSettings Rat) :
    detect (legs.map (Leg.rescale c)) firstLeg (|c| * volatility) (turned c bias) settings =
      (detect legs firstLeg volatility bias settings).map (rescale c) := by
  have hlarge (leg : Leg Rat) : settings.legVolatilities * (|c| * volatility) <
      (leg.rescale c).amplitude ↔ settings.legVolatilities * volatility < leg.amplitude := by
    rw [Leg.amplitude_rescale, mul_left_comm]
    exact mul_lt_mul_iff_of_pos_left (abs_pos.2 hc)
  rw [detect, List.zipIdx_map, ← List.map_drop, List.filter_map, detect]
  simp only [Function.comp_def, Prod.map_fst, hlarge, List.map_map, Prod.map_snd,
    ofLeg_rescale hc, id]
  generalize List.filter _ _ = large
  have hkept := keepNewest_rescale c settings.mostPrimary
    (large.map fun (leg, i) => ofLeg settings bias leg i)
  rw [List.map_map] at hkept
  exact congrArg Prod.snd hkept

end Retracement

end PriceAction
