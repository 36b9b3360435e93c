import PriceAction.Proofs.Bounds.Structure
import PriceAction.Proofs.Liquidity.Pool

/-!
# The numbers of the liquidity

Wicks are shares of their bars, every pool has a share as its strength, and the band of a magnet
holds the centre of its pools (`Liquidity.bounded_analyze`).
-/

namespace PriceAction

variable {bars : List (Bar Rat)}

/-! ## Sweeps -/

namespace Sweep

variable {s : Swing Rat} {sweep : Sweep Rat}

theorem exists_wickRatio_of_ofSwing? (h : ofSwing? bars s = some sweep) :
    ∃ bar ∈ bars, sweep.wickRatio = bar.share (bar.wick sweep.side) := by
  rw [ofSwing?] at h
  cases hthrough : firstThrough? s.kind.side s.price (s.index + 1) (bars.drop (s.index + 1)) with
  | none => simp [hthrough] at h
  | some hit =>
    obtain ⟨j, bar, after⟩ := hit
    simp only [hthrough] at h
    obtain ⟨reclaim, -, rfl⟩ := Option.map_eq_some_iff.1 h
    obtain ⟨-, hdrop⟩ := drop_of_firstThrough? hthrough
    have hmem : bar ∈ (bars.drop (s.index + 1)).drop (j - (s.index + 1)) :=
      hdrop ▸ List.mem_cons_self
    exact ⟨bar, List.mem_of_mem_drop (List.mem_of_mem_drop hmem), rfl⟩

theorem wickRatio_mem (hclean : IsClean bars) {swings : List (Swing Rat)}
    (h : sweep ∈ detect bars swings) : sweep.wickRatio ∈ Shares := by
  obtain ⟨s, -, hs⟩ := mem_detect_iff.1 h
  obtain ⟨bar, hbar, hwick⟩ := exists_wickRatio_of_ofSwing? hs
  have hencloses := hclean.encloses hbar
  rw [hwick]
  exact Bar.share_mem (hencloses.wick_nonneg _) (hencloses.wick_le_range _)

end Sweep

/-! ## Pools -/

namespace Pool

variable {bias : Bias} {settings : LiquiditySettings Rat} {p : Pool Rat}

theorem recency_mem {index barCount : Nat} (h : index < barCount) :
    (recency index barCount : Rat) ∈ Shares := by
  rw [recency]
  split
  · rw [Scalar.one_eq]
    exact ⟨zero_le_one, le_refl 1⟩
  · exact Scalar.div_mem (Nat.cast_nonneg index) (Nat.cast_le.2 (Nat.le_sub_one_of_lt h))

theorem strength_mem_of_equalLevels {swings : List (Swing Rat)}
    (hswings : ∀ s ∈ swings, s.index < bars.length)
    (h : p ∈ equalLevels bars swings bias settings) : p.strength ∈ Shares := by
  obtain ⟨kind, -, hkind⟩ := List.mem_flatMap.1 h
  obtain ⟨group, hgroup, hp⟩ := List.mem_filterMap.1 hkind
  rw [ofEqualSwings?] at hp
  split at hp
  · next first last hfirst hlast =>
    obtain ⟨-, hp⟩ := Option.ite_none_left_eq_some.1 hp
    cases hp
    have hmem := List.mem_of_mem_filter ((clusters_spec hgroup).2 (mem_of_choose? hlast))
    refine Scalar.mul_mem (Scalar.min_one_mem ?_) (Scalar.add_mul_mem ?_ ?_ ?_
      (recency_mem (hswings last hmem)))
    · exact mul_nonneg (by norm_num) (Nat.cast_nonneg _)
    all_goals norm_num
  · cases hp

theorem strength_mem_of_trendLiquidity? {structural : Structure Rat}
    (h : trendLiquidity? structural = some p) : p.strength ∈ Shares := by
  obtain ⟨d, -, h⟩ := Option.bind_eq_some_iff.1 h
  obtain ⟨swing, -, h⟩ := Option.bind_eq_some_iff.1 h
  cases h
  exact Scalar.min_one_mem (add_nonneg (by norm_num)
    (mul_nonneg (by norm_num) (Nat.cast_nonneg _)))

theorem strength_mem_of_ofRange? {range : TradingRange Rat} {side : Direction}
    (h : ofRange? bars range bias settings side = some p) : p.strength ∈ Shares := by
  unfold ofRange? at h
  extract_lets price touching at h
  split at h
  · cases h
    norm_num
  · cases h

theorem strength_mem_of_ofSweep {s : Sweep Rat} (h : s.wickRatio ∈ Shares) :
    (ofSweep bars bias s).strength ∈ Shares :=
  Scalar.min_one_mem (add_nonneg (by norm_num) (mul_nonneg (by norm_num) h.1))

theorem strength_mem_of_ofWickCluster? {c : WickCluster Rat}
    (h : ofWickCluster? bars bias c = some p) : p.strength ∈ Shares := by
  obtain ⟨first, -, h⟩ := Option.bind_eq_some_iff.1 h
  obtain ⟨last, -, h⟩ := Option.bind_eq_some_iff.1 h
  cases h
  exact Scalar.min_one_mem (mul_nonneg (by norm_num) (Nat.cast_nonneg _))

theorem strength_mem_of_ofSession? {session : Session} {side : Direction}
    (h : ofSession? bars bias session side = some p) : p.strength ∈ Shares := by
  obtain ⟨⟨bar, index⟩, -, rfl⟩ := Option.map_eq_some_iff.1 h
  norm_num

end Pool

/-! ## Magnets -/

namespace Magnet

variable {pools : List (Pool Rat)} {m : Magnet Rat}

/-- Whether a magnet has its edges in order, its price between them and a share as its strength. -/
structure Bounded (m : Magnet Rat) : Prop where
  low_le : m.low ≤ m.price
  le_high : m.price ≤ m.high
  strength : m.strength ∈ Shares

theorem Bounded.low_le_high (h : m.Bounded) : m.low ≤ m.high :=
  h.low_le.trans h.le_high

theorem centre_mem (hne : pools ≠ []) (h : ∀ p ∈ pools, p.strength ∈ Shares) {low high : Rat}
    (hlow : ∀ p ∈ pools, low ≤ p.price) (hhigh : ∀ p ∈ pools, p.price ≤ high) :
    centre pools low high ∈ Set.Icc low high := by
  rw [centre]
  simp only [Scalar.sum_eq, Scalar.zero_eq]
  split
  · next hpos =>
    obtain ⟨hbelow, habove⟩ := Scalar.sum_mul_mem (fun p hp => (h p hp).1) hlow hhigh
    exact ⟨(le_div_iff₀ hpos).2 hbelow, (div_le_iff₀ hpos).2 habove⟩
  · obtain ⟨p, hp⟩ := List.exists_mem_of_ne_nil pools hne
    have hle := (hlow p hp).trans (hhigh p hp)
    norm_num
    constructor <;> linarith

theorem bounded_of_ofPools? (h : ∀ p ∈ pools, p.strength ∈ Shares) (hm : ofPools? pools = some m) :
    m.Bounded := by
  obtain ⟨dominant, hdominant, rfl⟩ := Option.map_eq_some_iff.1 hm
  have hcentre := centre_mem (List.ne_nil_of_mem (mem_of_choose? hdominant)) h
    (fun p hp => Scalar.least_le_of_mem (List.mem_map_of_mem hp))
    (fun p hp => Scalar.le_greatest_of_mem (List.mem_map_of_mem hp))
  refine ⟨hcentre.1, hcentre.2, Scalar.one_sub_mem (Scalar.product_mem fun x hx => ?_)⟩
  obtain ⟨p, -, rfl⟩ := List.mem_map.1 hx
  exact Scalar.one_sub_mem (Scalar.clamp_mem p.strength)

theorem exists_of_mem_markPrimary {most : Nat} {magnets : List (Magnet Rat)}
    (h : m ∈ markPrimary most magnets) :
    ∃ m' ∈ magnets, m = m' ∨ m = { m' with primary := true } := by
  obtain ⟨⟨m', i⟩, hm', rfl⟩ := List.mem_map.1 h
  refine ⟨m', List.mem_of_getElem? (List.mem_zipIdx_iff_getElem?.1 hm'), ?_⟩
  dsimp only
  split
  · exact .inr rfl
  · exact .inl rfl

theorem bounded_of_mem_ofPools {tolerance : Rat} {most : Nat}
    (h : ∀ p ∈ pools, p.strength ∈ Shares) (hm : m ∈ ofPools pools tolerance most) :
    m.Bounded := by
  obtain ⟨m', hm', hmarked⟩ := exists_of_mem_markPrimary hm
  obtain ⟨group, hgroup, hfound⟩ := List.mem_filterMap.1 hm'
  have hbounded := bounded_of_ofPools? (fun p hp => h p ((clusters_spec hgroup).2 hp)) hfound
  rcases hmarked with rfl | rfl
  · exact hbounded
  · exact ⟨hbounded.low_le, hbounded.le_high, hbounded.strength⟩

end Magnet

/-! ## The liquidity -/

/-- The bounds of the numbers of a liquidity. -/
structure Liquidity.Bounded (l : Liquidity Rat) : Prop where
  sweeps : ∀ s ∈ l.sweeps, s.wickRatio ∈ Shares
  pools : ∀ p ∈ l.pools, p.strength ∈ Shares
  magnets : ∀ m ∈ l.magnets, m.Bounded

namespace Liquidity

variable {structural : Structure Rat} {context : MarketContext Rat}
  {settings : LiquiditySettings Rat}

theorem strength_mem_of_mem_pools (hclean : IsClean bars) (hstructural : structural.Coherent bars)
    {p : Pool Rat} (h : p ∈ (analyze bars structural context settings).pools) :
    p.strength ∈ Shares := by
  rcases cases_of_mem_pools h with hequal | htrend | ⟨range, side, hrange⟩ | ⟨s, hs, rfl⟩ |
    ⟨c, -, hp⟩ | ⟨session, side, hsession⟩
  · exact Pool.strength_mem_of_equalLevels
      (fun s hs => (hstructural.swings s hs).lt_length) hequal
  · exact Pool.strength_mem_of_trendLiquidity? htrend
  · exact Pool.strength_mem_of_ofRange? hrange
  · exact Pool.strength_mem_of_ofSweep (Sweep.wickRatio_mem hclean hs)
  · exact Pool.strength_mem_of_ofWickCluster? hp
  · exact Pool.strength_mem_of_ofSession? hsession

theorem bounded_analyze (hclean : IsClean bars) (hstructural : structural.Coherent bars)
    (context : MarketContext Rat) (settings : LiquiditySettings Rat) :
    (analyze bars structural context settings).Bounded := by
  have hpools (p : Pool Rat) (hp : p ∈ (analyze bars structural context settings).pools) :
      p.strength ∈ Shares := strength_mem_of_mem_pools hclean hstructural hp
  exact ⟨fun _ hs => Sweep.wickRatio_mem hclean hs, hpools,
    fun _ hm => Magnet.bounded_of_mem_ofPools hpools hm⟩

end Liquidity

end PriceAction
