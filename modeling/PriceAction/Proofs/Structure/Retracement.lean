import Mathlib.Data.List.DropRight
import PriceAction.Proofs.Search
import PriceAction.Proofs.Structure.Dated
import PriceAction.Scalar.Rational
import PriceAction.Structure.Retracement

/-!
# The newest bands are kept

The walk from the newest band back keeps all bands that are not primary, and the last primary ones
of each direction up to their number (`Retracement.filter_keepNewest`). Only the direction of the
bias has primary bands, so the bands of a structure are those of the large legs, less the oldest in
that direction (`Retracement.detect_keepsNewest`).
-/

namespace PriceAction

theorem Role.relative_eq_primary_iff {d : Direction} {b : Bias} :
    Role.relative d b = .primary ↔ b.direction? = some d := by
  cases b <;> cases d <;> decide

theorem rtake_cons {β : Type} (x : β) (xs : List β) (n : Nat) :
    (x :: xs).rtake n = if xs.length < n then x :: xs else xs.rtake n := by
  split
  · next h => rw [List.rtake, List.length_cons, Nat.sub_eq_zero_of_le h, List.drop_zero]
  · next h =>
    rw [List.rtake, List.rtake, List.length_cons, Nat.succ_sub (Nat.not_lt.1 h), List.drop_succ_cons]

namespace Retracement

variable {α : Type} {zones : List (Retracement α)}

/-! ## The walk back -/

/-- Whether the band is a primary one of a direction. -/
def isPrimaryOf (d : Direction) (z : Retracement α) : Bool :=
  decide (z.role = .primary) && decide (z.direction = d)

theorem keepNewest_cons (most : Nat) (z : Retracement α) (newer : List (Retracement α)) :
    keepNewest most (z :: newer) =
      if z.role ≠ .primary then ((keepNewest most newer).1, z :: (keepNewest most newer).2)
      else if (keepNewest most newer).1 z.direction < most then
        (countOne (keepNewest most newer).1 z.direction, z :: (keepNewest most newer).2)
      else keepNewest most newer := rfl

theorem fst_keepNewest (most : Nat) (zones : List (Retracement α)) (d : Direction) :
    (keepNewest most zones).1 d = min most (zones.filter (isPrimaryOf d)).length := by
  induction zones with
  | nil => exact (Nat.min_zero most).symm
  | cons z newer ih =>
    rw [keepNewest_cons]
    by_cases hside : z.direction = d
    · subst hside
      rw [List.filter_cons]
      split_ifs <;> simp_all [isPrimaryOf, countOne] <;> omega
    · have hother : ¬isPrimaryOf d z = true := by simp [isPrimaryOf, hside]
      rw [List.filter_cons_of_neg hother]
      split_ifs
      · exact ih
      · have hsame : countOne (keepNewest most newer).1 z.direction d =
            (keepNewest most newer).1 d := if_neg (Ne.symm hside)
        exact hsame.trans ih
      · exact ih

theorem filter_keepNewest_others (most : Nat) (zones : List (Retracement α)) :
    (keepNewest most zones).2.filter (·.role ≠ .primary) = zones.filter (·.role ≠ .primary) := by
  induction zones with
  | nil => rfl
  | cons z newer ih =>
    rw [keepNewest_cons]
    split_ifs with hrole
    · rw [List.filter_cons, List.filter_cons, ih]
    · rw [List.filter_cons_of_neg (by simpa using hrole),
        List.filter_cons_of_neg (by simpa using hrole), ih]
    · rw [List.filter_cons_of_neg (by simpa using hrole), ih]

theorem filter_keepNewest (most : Nat) (zones : List (Retracement α)) (d : Direction) :
    (keepNewest most zones).2.filter (isPrimaryOf d) =
      (zones.filter (isPrimaryOf d)).rtake most := by
  induction zones with
  | nil => exact (List.rtake_nil most).symm
  | cons z newer ih =>
    rw [keepNewest_cons]
    by_cases hprimary : isPrimaryOf d z = true
    · obtain ⟨hrole, rfl⟩ : z.role = .primary ∧ z.direction = d := by
        simpa [isPrimaryOf] using hprimary
      rw [if_neg (not_not.2 hrole), fst_keepNewest, List.filter_cons_of_pos hprimary, rtake_cons]
      generalize newer.filter (isPrimaryOf z.direction) = primary at ih ⊢
      split_ifs with hroom hlength hlength
      · rw [List.filter_cons_of_pos hprimary, ih, List.rtake, Nat.sub_eq_zero_of_le hlength.le,
          List.drop_zero]
      · omega
      · omega
      · exact ih
    · -- a band of another kind changes nothing here, whether it is kept or not
      rw [List.filter_cons_of_neg hprimary, ← ih]
      split_ifs
      · rw [List.filter_cons_of_neg hprimary]
      · rw [List.filter_cons_of_neg hprimary]
      · rfl

/-- Where only one direction can be primary, the last primary bands of all are kept. -/
theorem filter_keepNewest_of_bias {bias : Bias}
    (h : ∀ z ∈ zones, z.role = .primary → bias.direction? = some z.direction) (most : Nat) :
    (keepNewest most zones).2.filter (·.role = .primary) =
      (zones.filter (·.role = .primary)).rtake most := by
  have hkept : ∀ z ∈ (keepNewest most zones).2, z.role = .primary →
      bias.direction? = some z.direction := fun z hz => h z ((keepNewest_sublist ..).subset hz)
  cases hbias : bias.direction? with
  | none =>
    have hnone {ys : List (Retracement α)}
        (hys : ∀ z ∈ ys, z.role = .primary → bias.direction? = some z.direction) :
        ys.filter (·.role = .primary) = [] := by
      refine List.filter_eq_nil_iff.2 fun z hz hrole => ?_
      have hside := hys z hz (of_decide_eq_true hrole)
      rw [hbias] at hside
      cases hside
    rw [hnone hkept, hnone h, List.rtake_nil]
  | some d =>
    have hone {ys : List (Retracement α)}
        (hys : ∀ z ∈ ys, z.role = .primary → bias.direction? = some z.direction) :
        ys.filter (·.role = .primary) = ys.filter (isPrimaryOf d) := by
      refine List.filter_congr fun z hz => ?_
      by_cases hrole : z.role = .primary
      · have hside := hys z hz hrole
        rw [hbias, Option.some.injEq] at hside
        simp [isPrimaryOf, hrole, hside]
      · simp [isPrimaryOf, hrole]
    rw [hone hkept, hone h, filter_keepNewest]

theorem keepNewest_sublist_of_le {most more : Nat} (h : most ≤ more)
    (zones : List (Retracement α)) :
    (keepNewest most zones).2.Sublist (keepNewest more zones).2 := by
  induction zones with
  | nil => exact .slnil
  | cons z newer ih =>
    rw [keepNewest_cons, keepNewest_cons, fst_keepNewest, fst_keepNewest]
    split_ifs with hrole hroom hroom' hroom'
    · exact ih.cons_cons z
    · exact ih.cons_cons z
    · omega
    · exact ih.cons z
    · exact ih

/-! ## The bands of a structure -/

variable [Scalar α]

/-- The legs from number `firstLeg` on that exceed the least amplitude, each with its number. -/
def qualifying (legs : List (Leg α)) (firstLeg : Nat) (volatility : α)
    (settings : RetracementSettings α) : List (Leg α × Nat) :=
  legs.zipIdx.filter fun (leg, i) =>
    decide (firstLeg ≤ i) && decide (settings.legVolatilities * volatility < leg.amplitude)

/-- Whether bands are, in the order of their legs, those of all qualifying legs that are not
primary and those of the last qualifying legs that are, up to the number that is kept. -/
structure KeepsNewest (legs : List (Leg α)) (firstLeg : Nat) (volatility : α) (bias : Bias)
    (settings : RetracementSettings α) (zones : List (Retracement α)) : Prop where
  ordered : zones.Pairwise fun a b => a.legIndex < b.legIndex
  others : zones.filter (·.role ≠ .primary) =
    ((qualifying legs firstLeg volatility settings).filter
      fun (leg, _) => Role.relative leg.direction bias ≠ .primary).map
        fun (leg, i) => ofLeg settings bias leg i
  primary : zones.filter (·.role = .primary) =
    (((qualifying legs firstLeg volatility settings).filter
      fun (leg, _) => Role.relative leg.direction bias = .primary).rtake settings.mostPrimary).map
        fun (leg, i) => ofLeg settings bias leg i

section Detect

variable (legs : List (Leg α)) (firstLeg : Nat) (volatility : α) (bias : Bias)
  (settings : RetracementSettings α)

theorem detect_eq : detect legs firstLeg volatility bias settings =
    (keepNewest settings.mostPrimary ((qualifying legs firstLeg volatility settings).map
      fun (leg, i) => ofLeg settings bias leg i)).2 := by
  rw [detect, drop_zipIdx_eq_filter, List.filter_filter, qualifying]
  congr 3
  refine List.filter_congr fun x _ => Bool.and_comm ..

theorem pairwise_qualifying : (qualifying legs firstLeg volatility settings).Pairwise
    fun x y => x.2 < y.2 :=
  (pairwise_lt_zipIdx legs 0).filter _

theorem keepsNewest_detect : KeepsNewest legs firstLeg volatility bias settings
    (detect legs firstLeg volatility bias settings) := by
  rw [detect_eq]
  refine ⟨?_, ?_, ?_⟩
  · refine List.Pairwise.sublist (keepNewest_sublist ..) ?_
    rw [List.pairwise_map]
    exact pairwise_qualifying ..
  · rw [filter_keepNewest_others, List.filter_map]
    rfl
  · have hside : ∀ z ∈ (qualifying legs firstLeg volatility settings).map
        (fun (leg, i) => ofLeg settings bias leg i), z.role = .primary →
          bias.direction? = some z.direction := by
      intro z hz hprimary
      obtain ⟨x, -, rfl⟩ := List.mem_map.1 hz
      exact Role.relative_eq_primary_iff.1 hprimary
    rw [filter_keepNewest_of_bias hside, List.filter_map, List.rtake, List.length_map,
      ← List.map_drop]
    rfl

/-- **The newest primary bands.** The bands of a list of legs are, in their order, one for every
qualifying leg that is not primary to the bias and one for each of the last qualifying legs that
are, and nothing else. So no more than the number that is kept are primary, these lie in the
direction of the bias, and keeping more of them only adds bands. -/
theorem detect_keepsNewest : KeepsNewest legs firstLeg volatility bias settings
      (detect legs firstLeg volatility bias settings) ∧
    ((detect legs firstLeg volatility bias settings).filter (·.role = .primary)).length ≤
      settings.mostPrimary ∧
    (∀ z ∈ detect legs firstLeg volatility bias settings,
      z.role = .primary → bias.direction? = some z.direction) ∧
    ∀ more, settings.mostPrimary ≤ more →
      (detect legs firstLeg volatility bias settings).Sublist
        (detect legs firstLeg volatility bias { settings with mostPrimary := more }) := by
  have hkeeps := keepsNewest_detect legs firstLeg volatility bias settings
  refine ⟨hkeeps, ?_, fun z hz hprimary => ?_, fun more hmore => ?_⟩
  · rw [hkeeps.primary, List.length_map, List.rtake, List.length_drop]
    omega
  · obtain ⟨leg, -, hleg⟩ := exists_of_mem_detect hz
    rw [hleg] at hprimary ⊢
    exact Role.relative_eq_primary_iff.1 hprimary
  · rw [detect_eq, detect_eq]
    exact keepNewest_sublist_of_le hmore _

end Detect

/-- Five legs between pivots that rise. -/
def risingLegs : List (Leg Rat) :=
  Leg.ofSwings ([(100, .low), (110, .high), (104, .low), (115, .high), (108, .low),
    (121, .high)].zipIdx.map fun ((price, kind), i) => ⟨i, .ofSeconds (60 * i), price, kind, 1⟩)

/-- Of the three rises two are kept, the first being the oldest. -/
theorem detect_keepsNewest_rising :
    KeepsNewest risingLegs 0 1 .bullish .standard (detect risingLegs 0 1 .bullish .standard) ∧
      (detect risingLegs 0 1 .bullish .standard).map (fun z => (z.legIndex, z.role)) =
        [(1, .countertrend), (2, .primary), (3, .countertrend), (4, .primary)] ∧
      (∃ z ∈ detect risingLegs 0 1 .bullish .standard,
        z.role = .primary ∧ Bias.bullish.direction? = some z.direction) ∧
      (RetracementSettings.standard (α := Rat)).mostPrimary ≤ 3 ∧
      (detect risingLegs 0 1 .bullish .standard).Sublist
        (detect risingLegs 0 1 .bullish { RetracementSettings.standard with mostPrimary := 3 }) := by
  obtain ⟨hkeeps, -, hside, hmore⟩ := detect_keepsNewest risingLegs 0 1 .bullish .standard
  obtain ⟨z, hz, hprimary⟩ : ∃ z ∈ detect risingLegs 0 1 .bullish .standard, z.role = .primary := by
    decide +kernel
  have hroom : (RetracementSettings.standard (α := Rat)).mostPrimary ≤ 3 := by decide
  exact ⟨hkeeps, by decide +kernel, ⟨z, hz, hprimary, hside z hz hprimary⟩, hroom, hmore 3 hroom⟩

end Retracement

end PriceAction
