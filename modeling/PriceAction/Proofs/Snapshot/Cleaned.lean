import PriceAction.Proofs.Register
import PriceAction.Proofs.Selection
import PriceAction.Proofs.Snapshot.Sanitation
import PriceAction.Snapshot.Limits

/-!
# Only clean bars count

A market may leave out the bars that sanitation rejects, and those of its primary series that the
lookback cuts off, before it is analysed (`Market.analyze_cleaned`). Bars enter an analysis as the
primary series, as the daily range and as the micro timeframe, and the lemmas follow them.
-/

namespace PriceAction

variable {α : Type} [Scalar α]

/-- The analysis without the faults of the bars. -/
def Analysis.withoutFaults (a : Analysis α) : Analysis α :=
  { a with details := { a.details with rejected := [] } }

namespace Market

/-- The market with the clean bars of each series, the primary one cut to the latest `lookback`. -/
def cleaned (m : Market α) (lookback : Nat) : Market α :=
  { m with
    series := m.series.map fun label bars =>
      if label = m.primary.label then (prepare bars lookback).clean else (sanitize bars).clean }

/-! ## The primary series -/

theorem primaryBars?_cleaned (m : Market α) (lookback : Nat) :
    (m.cleaned lookback).primaryBars? =
      m.primaryBars?.map fun bars => (prepare bars lookback).clean := by
  simp [primaryBars?, cleaned]

theorem prepared_cleaned (m : Market α) (settings : Settings α) :
    (m.cleaned settings.structural.lookback).prepared settings =
      ⟨(m.prepared settings).clean, []⟩ := by
  rw [prepared, prepared, primaryBars?_cleaned]
  cases m.primaryBars? with
  | none => rfl
  | some bars => exact prepare_prepare_clean bars settings.structural.lookback

/-! ## The daily range -/

theorem dailySeries?_cleaned (m : Market α) (lookback : Nat) :
    (m.cleaned lookback).dailySeries? =
      m.dailySeries?.map fun e => (e.1, (sanitize e.2).clean) := by
  simp only [dailySeries?, cleaned, Register.map, List.find?_map, Option.map_map]
  apply Option.map_congr
  intro e he
  have hdaily := List.find?_some he
  rw [Function.comp_apply, Bool.and_eq_true] at hdaily
  have hne : e.1 ≠ m.primary.label := of_decide_eq_true hdaily.2
  simp [hne]

theorem derivedRange?_cleaned (m : Market α) (lookback : Nat) (closed : Option Instant) :
    (m.cleaned lookback).derivedRange? closed = m.derivedRange? closed := by
  rw [derivedRange?, derivedRange?, dailySeries?_cleaned]
  cases m.dailySeries? with
  | none => rfl
  | some e => simp

theorem resolveContext_cleaned (m : Market α) (lookback : Nat) (closed : Option Instant) :
    (m.cleaned lookback).resolveContext closed = m.resolveContext closed := by
  rw [resolveContext, resolveContext, derivedRange?_cleaned]
  rfl

theorem dailyFits_cleaned (m : Market α) (lookback : Nat) (closed : Instant) :
    (m.cleaned lookback).dailyFits closed = m.dailyFits closed := by
  have hcontext : (m.cleaned lookback).context = m.context := rfl
  rw [dailyFits, dailyFits, dailySeries?_cleaned, hcontext]
  cases m.context.dailyRange with
  | some range => rfl
  | none =>
    cases m.dailySeries? with
    | none => rfl
    | some e => simp

/-! ## The micro timeframe -/

omit [Scalar α] in
theorem label_ne_of_microTimeframe? {m : Market α} {tf : Timeframe}
    (h : m.microTimeframe? = some tf) : tf.label ≠ m.primary.label := by
  obtain ⟨limit, hlimit, hfold⟩ := Option.bind_eq_some_iff.1 h
  obtain ⟨⟨n, label⟩, hkept, rfl⟩ := Option.map_eq_some_iff.1 hfold
  have hmem := (mem_of_foldl_keep (fun kept x => ?_) hkept).resolve_left (by simp)
  · obtain ⟨key, -, hshorter⟩ := List.mem_filterMap.1 hmem
    obtain ⟨minutes, hminutes, hfits⟩ := Option.bind_eq_some_iff.1 hshorter
    obtain ⟨hlt, heq⟩ := Option.ite_none_right_eq_some.1 hfits
    cases heq
    intro hlabel
    have hsame : m.primary = ⟨label⟩ := congrArg Timeframe.mk hlabel.symm
    rw [hsame, hminutes, Option.some.injEq] at hlimit
    omega
  · cases kept with
    | none => exact .inr rfl
    | some k =>
      dsimp only
      split
      · exact .inr rfl
      · exact .inl rfl

theorem microSignal?_cleaned (m : Market α) (lookback : Nat) (settings : Settings α) :
    (m.cleaned lookback).microSignal? settings = m.microSignal? settings := by
  have hkeys : (m.cleaned lookback).microTimeframe? = m.microTimeframe? := by
    simp [microTimeframe?, cleaned, Register.keys, Register.map]
  rw [microSignal?, microSignal?, hkeys]
  cases h : m.microTimeframe? with
  | none => rfl
  | some tf =>
    have hne := label_ne_of_microTimeframe? h
    have hseries : (m.cleaned lookback).series.get? tf.label =
        (m.series.get? tf.label).map fun bars => (sanitize bars).clean := by
      simp [cleaned, hne]
    show ((m.cleaned lookback).series.get? tf.label).bind _ = (m.series.get? tf.label).bind _
    rw [hseries, Option.bind_map]
    simp only [Function.comp_def, prepare_sanitize_clean]

/-! ## The analysis -/

theorem analysisFits_cleaned (m : Market α) (settings : Settings α) :
    (m.cleaned settings.structural.lookback).analysisFits settings = m.analysisFits settings := by
  rw [analysisFits, analysisFits, prepared_cleaned]
  simp only [dailyFits_cleaned]
  rfl

/-- **Only clean bars count.** A market without the bars that sanitation rejects, and without those
of its primary series that the lookback cuts off, has the same analysis, which then lists no faults.
Neither analysis leaves the calendar unless the other does. -/
theorem analyze_cleaned (m : Market α) (settings : Settings α) :
    (m.cleaned settings.structural.lookback).analyze settings =
        (m.analyze settings).withoutFaults ∧
      (m.cleaned settings.structural.lookback).analyze? settings =
        (m.analyze? settings).map Analysis.withoutFaults := by
  have hanalysis : (m.cleaned settings.structural.lookback).analyze settings =
      (m.analyze settings).withoutFaults := by
    simp only [analyze, prepared_cleaned, resolveContext_cleaned, microSignal?_cleaned,
      primaryBars?_cleaned, Option.isNone_map]
    rfl
  refine ⟨hanalysis, ?_⟩
  simp only [analyze?, analysisFits_cleaned, hanalysis, apply_ite (Option.map _), Option.map_some,
    Option.map_none]
  rfl

end Market

end PriceAction
