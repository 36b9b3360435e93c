import Mathlib.Algebra.Order.Field.Basic
import Mathlib.Order.Bounds.Image
import PriceAction.Proofs.Bounds.Zone

/-!
# Gaps only fill

The fill of a gap is the greatest of zero and of the shares that later bars have reached into it, so
it grows with the series (`fillOf_le_append`), while the age of the gap grows too. The status is read
off both in an order that no growth of either turns back (`movesForward_ofCandles?`). Hence every
imbalance is found again on a longer series, further on (`detect_movesForward`).
-/

namespace PriceAction

/-- Whether a view shows a longer series, and what else gaps depend on is the same. -/
structure ZoneView.Prolongs {α : Type} (view view' : ZoneView α) (later : List (Bar α)) : Prop where
  bars : view'.bars = view.bars ++ later
  volatility : view'.structural.volatility = view.structural.volatility
  bias : view'.structural.bias = view.structural.bias
  timeframe : view'.timeframe = view.timeframe
  settings : view'.settings.imbalance = view.settings.imbalance

namespace Zone

/-! ## What moves and what stays -/

/-- Whether a bar trades to or through the far side of a gap. -/
def IsFilledBy (z : Zone Rat) (b : Bar Rat) : Prop :=
  match z.direction with
  | .bullish => b.low ≤ z.low
  | .bearish => z.high ≤ b.high

/-- Whether a bar trades through the near side of a gap. -/
def IsEnteredBy (z : Zone Rat) (b : Bar Rat) : Prop :=
  match z.direction with
  | .bullish => b.low < z.high
  | .bearish => z.low < b.high

/-- Whether a gap is found again: the same one, filled no less and no stronger, with a status that
has not moved back. -/
structure MovesForward (z z' : Zone Rat) : Prop where
  id_eq : z'.id = z.id
  kind_eq : z'.kind = z.kind
  timeframe_eq : z'.timeframe = z.timeframe
  low_eq : z'.low = z.low
  high_eq : z'.high = z.high
  originTime_eq : z'.originTime = z.originTime
  originIndex_eq : z'.originIndex = z.originIndex
  direction_eq : z'.direction = z.direction
  role_eq : z'.role = z.role
  provenance_eq : z'.provenance = z.provenance
  fill_le : z.fill ≤ z'.fill
  strength_le : z'.strength ≤ z.strength
  active : z'.status = .active → z.status = .active
  filled : z.status = .filled → z'.status = .filled
  expired : z.status = .expired → z'.status ≠ .mitigated

/-! ## The fill -/

section Fill

variable {low high : Rat} {d : Direction}

/-- A depth as a share of a gap, one where it is deeper than the gap. -/
def depthShare (size depth : Rat) : Rat := min (depth / size) 1

theorem depthShare_mono {size : Rat} (hsize : 0 < size) : Monotone (depthShare size) :=
  fun _ _ h => min_le_min_right 1 ((div_le_div_iff_of_pos_right hsize).2 h)

/-- The fill is the greatest of zero and of what later bars have reached. -/
theorem isGreatest_fillOf (hlt : low < high) (later : List (Bar Rat)) (d : Direction) :
    IsGreatest (depthShare (high - low) '' {x | x ∈ 0 :: later.map (penetration low high d)})
      (fillOf later low high d) := by
  have hsize : 0 < high - low := sub_pos.2 hlt
  have hdeepest := Scalar.isGreatest_foldl_max 0 (later.map (penetration low high d))
  have hnonneg := hdeepest.2 (List.mem_cons_self : (0 : Rat) ∈ 0 :: later.map _)
  have hfill : fillOf later low high d = depthShare (high - low)
      ((later.map (penetration low high d)).foldl Scalar.max 0) := by
    rw [fillOf]
    simp only [Scalar.zero_eq, Scalar.one_eq]
    rw [if_neg (not_le.2 hsize), Scalar.clamp, if_neg (not_lt.2 (div_nonneg hnonneg hsize.le)),
      depthShare]
    split
    · next h => exact (min_eq_right h.le).symm
    · next h => exact (min_eq_left (not_lt.1 h)).symm
  rw [hfill]
  exact (depthShare_mono hsize).map_isGreatest hdeepest

theorem fillOf_le_append (hlt : low < high) (later more : List (Bar Rat)) (d : Direction) :
    fillOf later low high d ≤ fillOf (later ++ more) low high d := by
  refine (isGreatest_fillOf hlt later d).mono (isGreatest_fillOf hlt (later ++ more) d) ?_
  refine Set.image_mono fun x hx => ?_
  rw [Set.mem_ofPred_eq, List.map_append, ← List.cons_append]
  exact List.mem_append_left _ hx

theorem fillOf_eq_one_iff (hlt : low < high) {later : List (Bar Rat)} :
    fillOf later low high d = 1 ↔ ∃ b ∈ later, high - low ≤ penetration low high d b := by
  have hsize : 0 < high - low := sub_pos.2 hlt
  obtain ⟨⟨x, hx, hfill⟩, hgreatest⟩ := isGreatest_fillOf hlt later d
  constructor
  · intro hone
    have hle : high - low ≤ x := by
      rw [hone, depthShare, min_eq_right_iff, one_le_div hsize] at hfill
      exact hfill
    rcases List.mem_cons.1 hx with rfl | hx
    · exact absurd hsize (not_lt.2 hle)
    · obtain ⟨b, hb, rfl⟩ := List.mem_map.1 hx
      exact ⟨b, hb, hle⟩
  · rintro ⟨b, hb, hle⟩
    refine le_antisymm (fillOf_mem later low high d).2 (hgreatest ⟨penetration low high d b, ?_, ?_⟩)
    · exact List.mem_cons_of_mem 0 (List.mem_map_of_mem hb)
    · exact min_eq_right ((one_le_div hsize).2 hle)

theorem fillOf_eq_zero_iff (hlt : low < high) {later : List (Bar Rat)} :
    fillOf later low high d = 0 ↔ ∀ b ∈ later, ¬0 < penetration low high d b := by
  have hsize : 0 < high - low := sub_pos.2 hlt
  obtain ⟨⟨x, hx, hfill⟩, hgreatest⟩ := isGreatest_fillOf hlt later d
  constructor
  · intro hzero b hb hpos
    have hle := hgreatest ⟨penetration low high d b,
      List.mem_cons_of_mem 0 (List.mem_map_of_mem hb), rfl⟩
    rw [hzero] at hle
    exact absurd hle (not_le.2 (lt_min (div_pos hpos hsize) one_pos))
  · intro hnone
    have hle : x ≤ 0 := by
      rcases List.mem_cons.1 hx with rfl | hx
      · exact le_refl 0
      · obtain ⟨b, hb, rfl⟩ := List.mem_map.1 hx
        exact not_lt.1 (hnone b hb)
    refine le_antisymm ?_ (fillOf_mem later low high d).1
    rw [← hfill]
    exact (min_le_left _ _).trans (div_nonpos_of_nonpos_of_nonneg hle hsize.le)

end Fill

/-! ## The status -/

section Status

variable {settings : ImbalanceSettings Rat} {fill fill' : Rat} {age age' : Nat}

theorem gapStatus_eq_filled_iff : gapStatus settings fill age = .filled ↔ 1 ≤ fill := by
  rw [gapStatus, Scalar.one_eq]
  split_ifs <;> simp [*]

theorem gapStatus_eq_active_iff :
    gapStatus settings fill age = .active ↔ fill ≤ 0 ∧ age ≤ settings.mostAge := by
  rw [gapStatus, Scalar.one_eq, Scalar.zero_eq]
  split_ifs with hfull hold hentered
  · simp [one_pos.trans_le hfull]
  · simp [hold]
  · simp [hentered]
  · simp [not_lt.1 hentered, Nat.not_lt.1 hold]

theorem gapStatus_eq_expired_iff :
    gapStatus settings fill age = .expired ↔ fill < 1 ∧ settings.mostAge < age := by
  rw [gapStatus, Scalar.one_eq, Scalar.zero_eq]
  split_ifs with hfull hold
  · simp [hfull]
  · simp [hold, not_le.1 hfull]
  · simp [Nat.not_lt.1 hold]
  · simp [Nat.not_lt.1 hold]

theorem gapStatus_eq_mitigated_iff :
    gapStatus settings fill age = .mitigated ↔
      0 < fill ∧ fill < 1 ∧ age ≤ settings.mostAge := by
  rw [gapStatus, Scalar.one_eq, Scalar.zero_eq]
  split_ifs with hfull hold hentered
  · simp [hfull]
  · simp [hold]
  · simp [hentered, not_le.1 hfull, Nat.not_lt.1 hold]
  · simp [hentered]

end Status

/-! ## Gaps of a longer series -/

section Longer

variable {view view' : ZoneView Rat} {later : List (Bar Rat)} {volatility : Rat} {z : Zone Rat}

theorem movesForward_ofCandles? (h : view.Prolongs view' later) (hvolatility : 0 < volatility)
    (index : Nat) (first middle last : Bar Rat) (after : List (Bar Rat)) :
    Option.Rel MovesForward (ofCandles? view volatility index first middle last after)
      (ofCandles? view' volatility index first middle last (after ++ later)) := by
  rw [ofCandles?, ofCandles?]
  cases hgap : gap? first last with
  | none => exact .none
  | some edges =>
    obtain ⟨low, high, d⟩ := edges
    have hlt := lt_of_gap? hgap
    have hfill := fillOf_le_append hlt after later d
    have hage : after.length + 1 ≤ (after ++ later).length + 1 := by
      rw [List.length_append]
      omega
    simp only [Option.bind_some, h.settings, h.bias, h.timeframe]
    split
    · exact .none
    refine .some ⟨rfl, rfl, rfl, rfl, rfl, rfl, rfl, rfl, rfl, rfl, hfill, ?_, ?_, ?_, ?_⟩
    · -- the impulse of the gap is a share of one, and less of it is left
      refine mul_le_mul_of_nonneg_left (sub_le_sub_left hfill _) (Scalar.min_one_mem ?_).1
      exact div_nonneg (sub_nonneg.2 hlt.le) (mul_nonneg (by norm_num) hvolatility.le)
    · intro hactive
      obtain ⟨hempty, hyoung⟩ := gapStatus_eq_active_iff.1 hactive
      exact gapStatus_eq_active_iff.2 ⟨hfill.trans hempty, hage.trans hyoung⟩
    · intro hfilled
      exact gapStatus_eq_filled_iff.2 ((gapStatus_eq_filled_iff.1 hfilled).trans hfill)
    · intro hexpired hmitigated
      have hold := (gapStatus_eq_expired_iff.1 hexpired).2
      have hyoung := (gapStatus_eq_mitigated_iff.1 hmitigated).2.2
      omega

theorem forall₂_toList {β γ : Type} {R : β → γ → Prop} {o : Option β} {o' : Option γ}
    (h : Option.Rel R o o') : List.Forall₂ R o.toList o'.toList := by
  cases h with
  | none => exact .nil
  | some h => exact .cons h .nil

theorem movesForward_imbalancesFrom (h : view.Prolongs view' later) (hvolatility : 0 < volatility)
    (index : Nat) (bars : List (Bar Rat)) :
    ∃ grown more, imbalancesFrom view' volatility index (bars ++ later) = grown ++ more ∧
      List.Forall₂ MovesForward (imbalancesFrom view volatility index bars) grown := by
  fun_induction imbalancesFrom view volatility index bars with
  | case1 index first middle last after ih =>
    obtain ⟨grown, more, heq, hgrown⟩ := ih
    refine ⟨(ofCandles? view' volatility (index + 1) first middle last (after ++ later)).toList ++
      grown, more, ?_, ?_⟩
    · rw [List.cons_append, List.cons_append, List.cons_append, imbalancesFrom, List.append_assoc,
        ← heq]
      rfl
    · refine List.rel_append ?_ hgrown
      exact forall₂_toList (movesForward_ofCandles? h hvolatility (index + 1) first middle last after)
  | case2 => exact ⟨[], _, rfl, .nil⟩

/-- How far a gap is filled by the bars after its third candle. -/
theorem fill_iff_of_mem_imbalances (h : z ∈ imbalances view volatility) :
    (z.fill = 1 ↔ ∃ b ∈ view.bars.drop (z.originIndex + 2), z.IsFilledBy b) ∧
      (z.fill = 0 ↔ ∀ b ∈ view.bars.drop (z.originIndex + 2), ¬z.IsEnteredBy b) := by
  obtain ⟨i, first, middle, last, after, hdrop, hz⟩ := exists_of_mem_imbalances h
  have hafter : view.bars.drop (i + 1 + 2) = after := by
    rw [show i + 1 + 2 = i + 3 from rfl, ← List.drop_drop, hdrop]
    rfl
  rw [ofCandles?, Option.bind_eq_some_iff] at hz
  obtain ⟨⟨low, high, d⟩, hgap, hz⟩ := hz
  have hlt := lt_of_gap? hgap
  dsimp only at hz
  rw [Option.ite_none_left_eq_some, Option.some.injEq] at hz
  obtain ⟨-, rfl⟩ := hz
  dsimp only [IsFilledBy, IsEnteredBy]
  rw [hafter, fillOf_eq_one_iff hlt, fillOf_eq_zero_iff hlt]
  cases d with
  | bullish => simp only [penetration, sub_le_sub_iff_left, sub_pos, and_self]
  | bearish => simp only [penetration, sub_le_sub_iff_right, sub_pos, and_self]

/-- **Gaps only fill.** Every imbalance of a series is found again on a longer one under the same
volatility, bias, timeframe and settings, at the same place in the list: it is filled no less and no
stronger, it does not become active again, a filled one stays filled, and an expired one does not
come back to life. It is full exactly if a bar after its third candle has traded to the far side,
and empty exactly if none has traded through the near one. The volatility of a structure is always
positive (`pos_of_averageTrueRange?`). -/
theorem detect_movesForward (h : view.Prolongs view' later)
    (hvolatility : view.structural.volatility = some volatility) (hpositive : 0 < volatility)
    (prior prior' : List (Zone Rat)) :
    ∃ found grown more, detect view .imbalance prior = .ok found ∧
      detect view' .imbalance prior' = .ok (grown ++ more) ∧
      List.Forall₂ MovesForward found grown ∧
      ∀ z ∈ found,
        (z.fill = 1 ↔ ∃ b ∈ view.bars.drop (z.originIndex + 2), z.IsFilledBy b) ∧
        (z.fill = 0 ↔ ∀ b ∈ view.bars.drop (z.originIndex + 2), ¬z.IsEnteredBy b) := by
  obtain ⟨grown, more, heq, hforward⟩ :=
    movesForward_imbalancesFrom h hpositive 0 view.bars
  rw [← h.bars] at heq
  refine ⟨imbalances view volatility, grown, more, ?_, ?_, hforward,
    fun z hz => fill_iff_of_mem_imbalances hz⟩
  · rw [detect, hvolatility]
  · rw [detect, h.volatility, hvolatility, ← heq]
    rfl

end Longer

/-- Three candles that leave a gap from 101 to 103, and a bar that comes back into it. -/
def gapBars : List (Bar Rat) :=
  [(100, 101, 99, 100), (101, 105, 100, 104), (105, 106, 103, 105), (105, 106, 102, 104)].zipIdx.map
    fun ((opening, high, low, close), i) => ⟨.ofSeconds (60 * i), opening, high, low, close, 100⟩

/-- A bar that trades through the whole gap. -/
def closingBar : Bar Rat := ⟨.ofSeconds 240, 104, 105, 100, 101, 100⟩

/-- The bars and more, in the structure of the bars alone. -/
def gapView (later : List (Bar Rat)) : ZoneView Rat :=
  let settings : Settings Rat :=
    { Settings.standard with structural := { StructureSettings.standard with volatilityPeriod := 3 } }
  let structural := Structure.analyze gapBars settings
  { bars := gapBars ++ later
    structural := structural
    liquidity := Liquidity.analyze gapBars structural {} settings.liquidity
    timeframe := ⟨"1m"⟩
    settings := settings.zones }

theorem detect_movesForward_closing :
    (gapView []).Prolongs (gapView [closingBar]) [closingBar] ∧
      (gapView []).structural.volatility = some 4 ∧ (0 : Rat) < 4 ∧
      ∃ found grown more, detect (gapView []) .imbalance [] = .ok found ∧
        detect (gapView [closingBar]) .imbalance [] = .ok (grown ++ more) ∧
        List.Forall₂ MovesForward found grown ∧
        found.map (fun z => (z.fill, z.status)) = [(1 / 2, .mitigated)] := by
  have hprolongs : (gapView []).Prolongs (gapView [closingBar]) [closingBar] :=
    ⟨by rw [gapView, gapView, List.append_nil], rfl, rfl, rfl, rfl⟩
  have hvolatility : (gapView []).structural.volatility = some 4 := by decide +kernel
  have hpositive : (0 : Rat) < 4 := by decide
  obtain ⟨found, grown, more, hfound, hgrown, hforward, -⟩ :=
    detect_movesForward hprolongs hvolatility hpositive [] []
  refine ⟨hprolongs, hvolatility, hpositive, found, grown, more, hfound, hgrown, hforward, ?_⟩
  rw [detect, hvolatility, Except.ok.injEq] at hfound
  rw [← hfound]
  decide +kernel

end Zone

end PriceAction
