import PriceAction.Proofs.Digest.Numbers
import PriceAction.Proofs.Zone.Report
import PriceAction.Proofs.Zone.Turning

/-!
# Breakers and the breaks of their blocks

A block is left by a break some bars after its candle, while the search for its breaker counts from
the candle. So a breaker comes after the break of its block, except when the sweep and the break
against the block fall between its candle and its own break, and no bar in between would do as its
candle (`Zone.detect_breaker_succeeds`).
-/

namespace PriceAction.Zone

variable {α : Type} [Scalar α]

/-! ## The candle of a break -/

section Candle

variable {settings : OrderBlockSettings α} {bars : List (Bar α)} {e : Break α} {bar : Bar α}
  {i : Nat}

/-- Whether a break could leave a block at the bar at a place. -/
def Suits (settings : OrderBlockSettings α) (bars : List (Bar α)) (e : Break α) (i : Nat) : Prop :=
  ∃ bar, bars[i]? = some bar ∧ opposes e.direction bar = true ∧
    settings.leastBodyShare ≤ bar.bodyRatio

theorem of_candle?_eq_some (h : candle? settings bars e = some (bar, i)) :
    i < e.barIndex ∧ e.barIndex ≤ i + settings.prelude ∧ Suits settings bars e i ∧
      ∀ j, i < j → j < e.barIndex → ¬Suits settings bars e j := by
  obtain ⟨hle, hlt, hbar, hsuits, hnone⟩ :=
    of_find?_reverse_eq_some (p := fun b =>
      opposes e.direction b && decide (settings.leastBodyShare ≤ b.bodyRatio)) h
  simp only [Bool.and_eq_true, decide_eq_true_eq] at hsuits
  refine ⟨hlt, by omega, ⟨bar, hbar, hsuits⟩, ?_⟩
  rintro j hij hj ⟨b, hb, hopposes, hbody⟩
  have hfails := hnone j b hij hj hb
  simp [hopposes, hbody] at hfails

end Candle

/-! ## Which comes first -/

variable {view : ZoneView α} {volatility : α} {z block : Zone α}

/-- Whether a break against a block comes before the break that left it, which looked back past it
to the candle, as no bar in between suits it. -/
structure TurnedEarly (view : ZoneView α) (block : Zone α) (own turning : Break α) : Prop where
  before_own : turning.barIndex < own.barIndex
  own_soon : own.barIndex ≤ block.originIndex + view.settings.orderBlock.prelude
  not_suits : ∀ i, block.originIndex < i → i < own.barIndex →
    ¬Suits view.settings.orderBlock view.bars own i

/-- How a breaker stands to a block that it names: it lies at the break that turned the block, and
this comes after the break that left the block, or else early. -/
structure Succeeds (view : ZoneView α) (volatility : α) (z block : Zone α) : Prop where
  exists_breaks : ∃ own i s turning j,
    view.structural.breaks[i]? = some own ∧ block.provenance = [own.provenance i] ∧
    s ∈ view.liquidity.sweeps ∧ view.structural.breaks[j]? = some turning ∧
    block.TurnedBy view.settings.breaker volatility s turning ∧
    z.provenance = [.zone block.id .orderBlock, .sweep s.level s.side s.time,
      turning.provenance j] ∧
    z.originIndex = turning.barIndex ∧
    (own.barIndex < z.originIndex ∨ TurnedEarly view block own turning)

omit [Scalar α] in
theorem barIndex_ne_of_direction_ne {breaks : List (Break α)}
    (hbreaks : breaks.Pairwise fun a b => a.barIndex < b.barIndex) {i j : Nat} {a b : Break α}
    (ha : breaks[i]? = some a) (hb : breaks[j]? = some b) (hne : a.direction ≠ b.direction) :
    a.barIndex ≠ b.barIndex := by
  obtain ⟨hi, rfl⟩ := List.getElem?_eq_some_iff.1 ha
  obtain ⟨hj, rfl⟩ := List.getElem?_eq_some_iff.1 hb
  rw [List.pairwise_iff_getElem] at hbreaks
  rcases Nat.lt_trichotomy i j with hlt | rfl | hlt
  · exact (hbreaks i j hi hj hlt).ne
  · exact absurd rfl hne
  · exact (hbreaks j i hj hi hlt).ne'

theorem exists_succeeds
    (hbreaks : view.structural.breaks.Pairwise fun a b => a.barIndex < b.barIndex)
    (h : z ∈ breakers view volatility (orderBlocks view volatility)) :
    ∃ block ∈ orderBlocks view volatility, Succeeds view volatility z block := by
  obtain ⟨block, s, turning, j, hblock, -, hs, hj, hturn, rfl⟩ := exists_of_mem_breakers h
  refine ⟨block, hblock, ?_⟩
  have hturned := (turn?_eq_some_iff.1 hturn).turned
  obtain ⟨own, i, candle, index, hi, hcandle, rfl⟩ := exists_candle?_of_mem_orderBlocks hblock
  refine ⟨own, i, s, turning, j, hi, rfl, hs, hj, hturned, rfl, rfl, ?_⟩
  obtain ⟨-, hsoon, -, hnone⟩ := of_candle?_eq_some hcandle
  have hne : own.barIndex ≠ turning.barIndex := by
    refine barIndex_ne_of_direction_ne hbreaks hi hj fun heq => ?_
    exact Direction.opposite_ne own.direction (hturned.break_direction.symm.trans heq.symm)
  rcases Nat.lt_or_gt_of_ne hne with hlt | hgt
  · exact .inl hlt
  · exact .inr ⟨hgt, hsoon, hnone⟩

/-- **When a block turns.** The breaks being in the order of their bars, the breakers of the order
blocks of a view name each the block that it was and lie at the break that turned it. This comes
after the break that left the block, unless it is early. -/
theorem detect_breaker_succeeds (view : ZoneView α) (volatility : α)
    (h : view.structural.volatility = some volatility)
    (hbreaks : view.structural.breaks.Pairwise fun a b => a.barIndex < b.barIndex) :
    ∃ blocks found, (∀ prior, detect view .orderBlock prior = .ok blocks) ∧
      detect view .breaker blocks = .ok found ∧ (blocks.Pairwise fun a b => a.id ≠ b.id) ∧
      ∀ z ∈ found, ∃ block ∈ blocks, Succeeds view volatility z block := by
  refine ⟨orderBlocks view volatility, breakers view volatility (orderBlocks view volatility), ?_,
    ?_, pairwise_orderBlocks view volatility, fun z hz => exists_succeeds hbreaks hz⟩
  · intro prior
    rw [detect, h]
  · rw [detect, h]

/-- A fall under a low of 100 (bar 12), which breaks the structure downwards, and a rise from there
that breaks it upwards (bar 16). -/
def reversingBars : List (Bar Float) :=
  [(103.0, 104.0, 102.5, 103.5), (103.5, 104.0, 102.0, 102.5), (102.5, 103.0, 101.0, 101.5),
    (101.5, 102.0, 100.5, 101.0), (101.0, 101.5, 100.0, 101.2), (101.2, 102.5, 101.0, 102.3),
    (102.3, 103.5, 102.0, 103.3), (103.3, 104.5, 103.0, 104.3), (104.3, 106.0, 104.0, 105.7),
    (105.7, 105.8, 104.0, 104.3), (104.3, 104.4, 102.0, 102.2), (102.2, 102.3, 100.05, 100.1),
    (98.5, 99.8, 98.0, 99.5), (99.6, 101.5, 99.4, 101.3), (101.3, 103.0, 101.2, 102.8),
    (102.8, 105.0, 102.7, 104.9), (104.9, 107.0, 104.8, 106.8), (106.8, 109.0, 106.7, 108.8),
    (108.8, 109.5, 108.0, 109.0), (109.0, 109.2, 108.0, 108.3), (108.3, 108.6, 107.5, 107.8)].zipIdx.map
      fun ((opening, high, low, close), i) =>
        ⟨.ofSeconds (60 * i), opening, high, low, close, 100.0⟩

/-- The view of `reversingBars`. -/
def reversingView : ZoneView Float :=
  let structural := Structure.analyze reversingBars Settings.standard
  { bars := reversingBars
    structural := structural
    liquidity := Liquidity.analyze reversingBars structural {} .standard
    timeframe := ⟨"1m"⟩
    settings := .standard }

theorem barIndex_reversingView :
    (reversingView.structural.breaks.Pairwise fun a b => a.barIndex < b.barIndex) ∧
      ∀ e ∈ reversingView.structural.breaks,
        e.barIndex = match e.direction with | .bearish => 12 | .bullish => 16 := by
  decide +kernel

theorem exists_turnedBy_reversingView :
    ∃ v ∈ reversingView.structural.volatility, ∃ block ∈ orderBlocks reversingView v,
      block.direction = .bullish ∧
      ∃ s ∈ reversingView.structural.swings.filterMap (Sweep.ofSwing? reversingBars),
        ∃ e ∈ reversingView.structural.breaks,
          block.TurnedBy reversingView.settings.breaker v s e := by
  unfold orderBlocks ofBreak? ofCandle idOf
  rw [NameId.ofName_eq_calculate]
  decide +kernel

theorem sweeps_reversingView : reversingView.liquidity.sweeps =
    Sweep.detect reversingBars reversingView.structural.swings :=
  Liquidity.sweeps_analyze ..

/-- The rise leaves a block that the fall before it turns. -/
theorem exists_breaker_reversingView : ∃ v, reversingView.structural.volatility = some v ∧
    ∃ z ∈ breakers reversingView v (orderBlocks reversingView v),
    ∃ block ∈ orderBlocks reversingView v, ∃ (own : Break Float) (i : Nat) (turning : Break Float)
      (j : Nat),
      z.provenance.head? = some (.zone block.id .orderBlock) ∧
      reversingView.structural.breaks[i]? = some own ∧ block.provenance = [own.provenance i] ∧
      reversingView.structural.breaks[j]? = some turning ∧ z.originIndex = turning.barIndex ∧
      own.direction = .bullish ∧ turning.direction = .bearish := by
  obtain ⟨v, hv, block, hblock, hbullish, s, hs, e, he, hturned⟩ := exists_turnedBy_reversingView
  have hsweep : s ∈ reversingView.liquidity.sweeps := by
    rw [sweeps_reversingView]
    exact Sweep.mem_detect_iff.2 (List.mem_filterMap.1 hs)
  obtain ⟨⟨s', turning, j⟩, hturn⟩ :=
    Option.isSome_iff_exists.1 (isSome_turn?_iff.2 ⟨s, hsweep, e, he, hturned⟩)
  have hfirst := turn?_eq_some_iff.1 hturn
  obtain ⟨own, i, candle, index, hown, -, rfl⟩ := exists_candle?_of_mem_orderBlocks hblock
  refine ⟨v, hv, ofTurn reversingView v _ s' turning j, ?_, _, hblock, own, i, turning, j, rfl,
    hown, rfl, hfirst.break_at, rfl, hbullish, ?_⟩
  · exact List.mem_filterMap.2 ⟨_, List.mem_filter.2 ⟨hblock, rfl⟩, by rw [hturn]; rfl⟩
  · rw [hfirst.turned.break_direction, hbullish]
    rfl

/-- The breaker lies at bar 12, and the break that left its block at bar 16. -/
theorem breaker_before_block :
    ∃ v, reversingView.structural.volatility = some v ∧
      (reversingView.structural.breaks.Pairwise fun a b => a.barIndex < b.barIndex) ∧
      ∃ z ∈ breakers reversingView v (orderBlocks reversingView v),
      ∃ block ∈ orderBlocks reversingView v, ∃ (own : Break Float) (i : Nat),
        z.provenance.head? = some (.zone block.id .orderBlock) ∧
        reversingView.structural.breaks[i]? = some own ∧
        block.provenance = [own.provenance i] ∧ z.originIndex = 12 ∧ own.barIndex = 16 := by
  obtain ⟨hordered, hindex⟩ := barIndex_reversingView
  obtain ⟨v, hv, z, hz, block, hblock, own, i, turning, j, hprovenance, hown, hblockFrom, hturning,
    horigin, hup, hdown⟩ := exists_breaker_reversingView
  refine ⟨v, hv, hordered, z, hz, block, hblock, own, i, hprovenance, hown, hblockFrom, ?_, ?_⟩
  · rw [horigin, hindex turning (List.mem_of_getElem? hturning), hdown]
  · rw [hindex own (List.mem_of_getElem? hown), hup]

theorem detect_breaker_succeeds_reversing :
    ∃ v, reversingView.structural.volatility = some v ∧
      (reversingView.structural.breaks.Pairwise fun a b => a.barIndex < b.barIndex) ∧
      ∃ blocks found, detect reversingView .orderBlock [] = .ok blocks ∧
        detect reversingView .breaker blocks = .ok found ∧
        ∃ z ∈ found, ∃ block ∈ blocks, Succeeds reversingView v z block := by
  obtain ⟨v, hv, z, hz, -⟩ := exists_breaker_reversingView
  obtain ⟨blocks, found, hblocks, hfound, -, hall⟩ :=
    detect_breaker_succeeds reversingView v hv barIndex_reversingView.1
  have hz' : z ∈ found := by
    have hsame := hblocks []
    rw [detect, hv, Except.ok.injEq] at hsame
    rw [detect, hv, Except.ok.injEq] at hfound
    dsimp only at hsame hfound
    rwa [← hfound, ← hsame]
  exact ⟨v, hv, barIndex_reversingView.1, blocks, found, hblocks [], hfound, z, hz', hall z hz'⟩

end PriceAction.Zone
