import PriceAction.Proofs.Bounds.Structure
import PriceAction.Proofs.Zone.Report

/-!
# The numbers of the zones

Whatever search finds a zone, its edges are in order and its strength and its fill are shares
(`Zone.bounded_of_mem_all`).
-/

namespace PriceAction.Zone

variable {view : ZoneView Rat} {volatility : Rat} {z : Zone Rat} {prior : List (Zone Rat)}

/-- Whether a zone has its edges in order and shares as its strength and its fill. -/
@[mk_iff]
structure Bounded (z : Zone Rat) : Prop where
  low_le : z.low ≤ z.high
  strength : z.strength ∈ Shares
  fill : z.fill ∈ Shares

theorem impulse_mem {displacement : Rat} (hvolatility : 0 < volatility) (h : 0 ≤ displacement) :
    impulse displacement volatility ∈ Shares :=
  Scalar.min_one_mem (div_nonneg h (mul_nonneg (by norm_num) hvolatility.le))

/-! ## Order blocks -/

theorem bounded_ofCandle (hvolatility : 0 < volatility) {e : Break Rat} (he : 0 ≤ e.displacement)
    {candle : Bar Rat} (hcandle : candle.Encloses) (i index : Nat) :
    (ofCandle view volatility e i candle index).Bounded where
  low_le := by
    dsimp only [ofCandle]
    split
    · exact candle.bodyLow_le_bodyHigh
    · exact hcandle.low_le_high
  strength := Scalar.add_mul_mem (by norm_num) (by norm_num) (by norm_num)
    (impulse_mem hvolatility he)
  fill := Scalar.zero_mem

/-! ## Imbalances -/

theorem lt_of_gap? {first last : Bar Rat} {low high : Rat} {d : Direction}
    (h : gap? first last = some (low, high, d)) : low < high := by
  rw [gap?] at h
  split at h
  · next hup =>
    cases h
    exact hup
  · split at h
    · next hdown =>
      cases h
      exact hdown
    · cases h

theorem fillOf_mem (later : List (Bar Rat)) (low high : Rat) (d : Direction) :
    fillOf later low high d ∈ Shares := by
  rw [fillOf]
  dsimp only
  split
  · exact Scalar.zero_mem
  · exact Scalar.clamp_mem _

theorem bounded_of_ofCandles? (hvolatility : 0 < volatility) {index : Nat}
    {first middle last : Bar Rat} {later : List (Bar Rat)}
    (h : ofCandles? view volatility index first middle last later = some z) : z.Bounded := by
  rw [ofCandles?, Option.bind_eq_some_iff] at h
  obtain ⟨⟨low, high, d⟩, hgap, h⟩ := h
  have hlt := lt_of_gap? hgap
  have hfill := fillOf_mem later low high d
  dsimp only at h
  rw [Option.ite_none_left_eq_some, Option.some.injEq] at h
  obtain ⟨-, rfl⟩ := h
  refine ⟨hlt.le, Scalar.mul_mem (Scalar.min_one_mem ?_) (Scalar.one_sub_mem hfill), hfill⟩
  exact div_nonneg (sub_nonneg.2 hlt.le) (mul_nonneg (by norm_num) hvolatility.le)

/-! ## Breakers -/

theorem bounded_ofTurn (hvolatility : 0 < volatility) {block : Zone Rat} (hblock : block.Bounded)
    {s : Sweep Rat} {e : Break Rat} (he : 0 ≤ e.displacement) (i : Nat) :
    (ofTurn view volatility block s e i).Bounded := by
  obtain ⟨hlow, hhigh⟩ := hblock.strength
  obtain ⟨hlow', hhigh'⟩ := impulse_mem hvolatility he
  -- the two zones are taken apart first: comparing them whole would compute their ids
  rw [bounded_iff]
  dsimp only [ofTurn]
  refine ⟨hblock.low_le, ?_, Scalar.zero_mem⟩
  norm_num
  constructor <;> linarith

/-! ## Points of interest -/

theorem bounded_of_ofGroup? {d : Direction} {group : List (Zone Rat)}
    (hgroup : ∀ m ∈ group, m.Bounded) (h : ofGroup? view d group = some z) : z.Bounded := by
  obtain ⟨youngest, hyoungest, rfl⟩ := Option.map_eq_some_iff.1 h
  have hmem := mem_of_choose? hyoungest
  refine ⟨?_, ?_, Scalar.zero_mem⟩
  · calc Scalar.least (group.map (·.low)) ≤ youngest.low :=
        Scalar.least_le_of_mem (List.mem_map_of_mem hmem)
      _ ≤ youngest.high := (hgroup youngest hmem).low_le
      _ ≤ Scalar.greatest (group.map (·.high)) :=
        Scalar.le_greatest_of_mem (List.mem_map_of_mem hmem)
  · -- the greatest strength is one of them, or the zero that the search starts from
    dsimp only
    rcases List.mem_cons.1 (Scalar.isGreatest_foldl_max 0.0 (group.map (·.strength))).1 with
      hzero | hstrength
    · rw [hzero]
      exact Scalar.zero_mem
    · obtain ⟨m, hm, heq⟩ := List.mem_map.1 hstrength
      rw [← heq]
      exact (hgroup m hm).strength

/-! ## All zones -/

section

variable (hvolatility : 0 < volatility) (hclean : IsClean view.bars)
  (hbreaks : ∀ e ∈ view.structural.breaks, 0 ≤ e.displacement)
include hvolatility hclean hbreaks

theorem bounded_of_mem_orderBlocks (h : z ∈ orderBlocks view volatility) : z.Bounded := by
  obtain ⟨e, i, candle, index, he, hcandle, rfl⟩ := exists_of_mem_orderBlocks h
  exact bounded_ofCandle hvolatility (hbreaks e (List.mem_of_getElem? he))
    (hclean.encloses (List.mem_of_getElem? hcandle)) i index

theorem bounded_of_mem_beforeConfluences (h : z ∈ beforeConfluences view volatility) :
    z.Bounded := by
  simp only [beforeConfluences, List.mem_append] at h
  rcases h with (hblock | hgap) | hbreaker
  · exact bounded_of_mem_orderBlocks hvolatility hclean hbreaks hblock
  · obtain ⟨i, first, middle, last, later, -, hz⟩ := exists_of_mem_imbalances hgap
    exact bounded_of_ofCandles? hvolatility hz
  · obtain ⟨block, s, e, i, hblock, -, -, he, -, rfl⟩ := exists_of_mem_breakers hbreaker
    exact bounded_ofTurn hvolatility
      (bounded_of_mem_orderBlocks hvolatility hclean hbreaks hblock)
      (hbreaks e (List.mem_of_getElem? he)) i

end

theorem bounded_of_mem_all (hclean : IsClean view.bars) (hstructural : view.structural.Bounded)
    (h : z ∈ (ZoneReport.analyze view).all) : z.Bounded := by
  rw [ZoneReport.all_analyze] at h
  split at h
  · next v hv =>
    have hbefore (x : Zone Rat) (hx : x ∈ beforeConfluences view v) : x.Bounded :=
      bounded_of_mem_beforeConfluences (hstructural.volatility v hv) hclean hstructural.breaks hx
    rcases List.mem_append.1 h with hearlier | hconfluence
    · exact hbefore z hearlier
    · obtain ⟨d, root, -, hz⟩ := exists_of_mem_confluences hconfluence
      refine bounded_of_ofGroup? (fun m hm => ?_) hz
      exact hbefore m (mem_members_iff.1 (mem_members_of_mem_membersAt hm)).1
  · cases h

end PriceAction.Zone
