import PriceAction.Proofs.Digest.Numbers
import PriceAction.Proofs.Register
import PriceAction.Proofs.Scalar.Rational
import PriceAction.Proofs.Snapshot.Sanitation
import PriceAction.Proofs.Structure.Dated
import PriceAction.Proofs.Zone.Identity

/-!
# The references of a report hold

Whatever structure and liquidity its zones are looked for in, a report names zones that it lists and
breaks that the structure has, by ids that no two zones share, and counts every zone once
(`ZoneReport.integral_of_regular`). A series has such a report unless a count of bars does not fit a
word (`ZoneReport.integral_analyze`). The times must be regular: a leap second within a minute reads
like the second after it, so two gaps at these times have one id
(`ZoneReport.not_integral_analyze_leap`).
-/

namespace PriceAction

variable {α : Type}

/-! ## What a zone names -/

namespace Zone

/-- Whether a breaker is made of a block of the report, which it turns, a sweep and a break. -/
def TurnsBlock (view : ZoneView α) (zones : List (Zone α)) (z : Zone α) : Prop :=
  ∃ block ∈ zones, ∃ s ∈ view.liquidity.sweeps, ∃ (e : Break α) (i : Nat),
    block.kind = .orderBlock ∧ view.structural.breaks[i]? = some e ∧
    z.provenance = [.zone block.id .orderBlock, .sweep s.level s.side s.time, e.provenance i] ∧
    z.low = block.low ∧ z.high = block.high ∧ z.direction = block.direction.opposite

/-- Whether a point of interest names two zones of the report or more, each once, and all of them
live, of its direction and no points of interest. -/
def NamesMembers (zones : List (Zone α)) (z : Zone α) : Prop :=
  ∃ group : List (Zone α), 2 ≤ group.length ∧ (group.map (·.id)).Nodup ∧
    (z.provenance = group.map fun m => .zone m.id m.kind) ∧
    ∀ m ∈ group, m ∈ zones ∧ m.kind ≠ .confluence ∧ m.status.isLive = true ∧
      m.direction = z.direction

/-- Whether the breaks that a zone was made from are those of the structure. -/
def NamesBreaks (view : ZoneView α) (z : Zone α) : Prop :=
  ∀ kind d i legIndex time, .event kind d i legIndex time ∈ z.provenance →
    ∃ e, view.structural.breaks[i]? = some e ∧ e.kind = kind ∧ e.direction = d ∧
      e.legIndex = legIndex ∧ e.time = time

theorem NamesBreaks.of_provenance {view : ZoneView α} {z : Zone α} {e : Break α} {i : Nat}
    (he : view.structural.breaks[i]? = some e)
    (h : ∀ kind d j legIndex time, Provenance.event kind d j legIndex time ∈ z.provenance →
      Provenance.event kind d j legIndex time = e.provenance i) : NamesBreaks view z := by
  intro kind d j legIndex time hmem
  cases h kind d j legIndex time hmem
  exact ⟨e, he, rfl, rfl, rfl, rfl⟩

theorem map_calculate {view : ZoneView α} {zones : List (Zone α)}
    (h : ∀ z ∈ zones, Named view z) :
    (zones.map fun z => { z with id := .calculate z.name }) = zones := by
  refine (List.map_congr_left fun z hz => ?_).trans (List.map_id zones)
  rw [← NameId.ofName_eq_calculate, ← (h z hz).id]
  rfl

variable [Scalar α] {view : ZoneView α} {volatility : α} {z : Zone α} {prior zones : List (Zone α)}

theorem turnsBlock_of_mem_breakers (h : z ∈ breakers view volatility prior) (hsub : prior ⊆ zones) :
    z.TurnsBlock view zones := by
  obtain ⟨block, s, e, i, hblock, hkind, hs, he, -, rfl⟩ := exists_of_mem_breakers h
  refine ⟨block, hsub hblock, s, hs, e, i, hkind, he, ?_⟩
  simp only [ofTurn, and_self]

theorem nodup_id_membersAt (hprior : prior.Pairwise fun a b => a.id ≠ b.id) (d : Direction)
    (root : Nat) : ((membersAt view volatility d prior root).map (·.id)).Nodup := by
  have hsub : (membersAt view volatility d prior root).Sublist (members d prior) := by
    have hzip := (List.filter_sublist (p := fun x => decide
      ((joined view.settings.confluence volatility (members d prior)).root x.2 = root))
      (l := (members d prior).zipIdx)).map (·.1)
    rwa [List.zipIdx_map_fst] at hzip
  exact List.pairwise_map.2 ((pairwise_members d hprior).sublist hsub)

theorem namesMembers_of_mem_confluences (hprior : prior.Pairwise fun a b => a.id ≠ b.id)
    (h : z ∈ confluences view volatility prior) (hsub : prior ⊆ zones) : z.NamesMembers zones := by
  obtain ⟨d, root, htwo, hz⟩ := exists_of_mem_confluences h
  obtain ⟨-, hdirection, -, hprovenance, -⟩ := exists_of_ofGroup? hz
  refine ⟨_, htwo, nodup_id_membersAt hprior d root, hprovenance, fun m hm => ?_⟩
  obtain ⟨hmem, hmember, hkind, hlive⟩ := mem_members_iff.1 (mem_members_of_mem_membersAt hm)
  exact ⟨hsub hmem, hkind, hlive, hmember.trans hdirection.symm⟩

theorem namesBreaks_of_mem_all (h : z ∈ (ZoneReport.analyze view).all) : z.NamesBreaks view := by
  rw [ZoneReport.all_analyze] at h
  split at h
  · simp only [beforeConfluences, List.mem_append] at h
    rcases h with ((hblock | hgap) | hbreaker) | hconfluence
    · obtain ⟨e, i, candle, index, he, -, rfl⟩ := exists_of_mem_orderBlocks hblock
      exact .of_provenance he fun _ _ _ _ _ hmem => List.mem_singleton.1 hmem
    · obtain ⟨i, first, middle, last, later, -, hz⟩ := exists_of_mem_imbalances hgap
      intro kind d j legIndex time hmem
      rw [(of_ofCandles? hz).2.2.2.2.2.2, List.mem_singleton] at hmem
      cases hmem
    · obtain ⟨block, s, e, i, -, -, -, he, -, rfl⟩ := exists_of_mem_breakers hbreaker
      exact .of_provenance he fun _ _ _ _ _ hmem => by simpa [ofTurn] using hmem
    · obtain ⟨d, root, -, hz⟩ := exists_of_mem_confluences hconfluence
      intro kind d' j legIndex time hmem
      rw [(exists_of_ofGroup? hz).2.2.2.1] at hmem
      obtain ⟨m, -, hm⟩ := List.mem_map.1 hmem
      cases hm
  · cases h

end Zone

/-! ## The report -/

/-- What makes a report whole. -/
structure ZoneReport.Integral (view : ZoneView α) (r : ZoneReport α) : Prop where
  distinct : r.all.Pairwise fun a b => a.id ≠ b.id
  breakers : ∀ z ∈ r.all, z.kind = .breaker → z.TurnsBlock view r.all
  confluences : ∀ z ∈ r.all, z.kind = .confluence → z.NamesMembers r.all
  membersOnce : (r.all.filter (·.kind = .confluence)).Pairwise fun a b =>
    a.sourceIds.Disjoint b.sourceIds
  breaks : ∀ z ∈ r.all, z.NamesBreaks view
  active : r.active.Sublist r.all
  byKind : r.counts.byKind.total = r.all.length
  byRole : r.counts.byRole.total = r.all.length
  activeByKind : r.counts.activeByKind.total = r.active.length

namespace ZoneReport

variable [Scalar α] {view : ZoneView α}

open Zone

theorem filter_confluences (view : ZoneView α) (volatility : α) :
    (beforeConfluences view volatility ++
        confluences view volatility (beforeConfluences view volatility)).filter
          (·.kind = .confluence) =
      confluences view volatility (beforeConfluences view volatility) := by
  have hbefore : (beforeConfluences view volatility).filter (·.kind = .confluence) = [] := by
    rw [List.filter_eq_nil_iff]
    intro z hz
    simpa using kind_ne_of_mem_beforeConfluences hz
  have hafter : (confluences view volatility (beforeConfluences view volatility)).filter
      (·.kind = .confluence) = confluences view volatility (beforeConfluences view volatility) := by
    rw [List.filter_eq_self]
    intro z hz
    simpa using kind_of_mem_confluences hz
  rw [List.filter_append, hbefore, hafter, List.nil_append]

theorem turnsBlock_of_mem_all {z : Zone α} (h : z ∈ (analyze view).all)
    (hkind : z.kind = .breaker) : z.TurnsBlock view (analyze view).all := by
  rw [all_analyze] at h ⊢
  split at h
  · simp only [beforeConfluences, List.mem_append] at h ⊢
    rcases h with ((hblock | hgap) | hbreaker) | hconfluence
    · rw [kind_of_mem_orderBlocks hblock] at hkind
      cases hkind
    · rw [kind_of_mem_imbalances hgap] at hkind
      cases hkind
    · apply turnsBlock_of_mem_breakers hbreaker
      simp only [List.append_assoc]
      exact List.subset_append_left ..
    · rw [kind_of_mem_confluences hconfluence] at hkind
      cases hkind
  · cases h

theorem integral_of_regular (hbars : view.bars.Pairwise fun a b => a.time < b.time)
    (hregular : ∀ bar ∈ view.bars, bar.time.IsRegular)
    (hids : IdsTellNames (analyze view).all) : (analyze view).Integral view := by
  have hdistinct := pairwise_id_all hbars hregular hids
  have hconfluences : (∀ z ∈ (analyze view).all, z.kind = .confluence →
        z.NamesMembers (analyze view).all) ∧
      ((analyze view).all.filter (·.kind = .confluence)).Pairwise fun a b =>
        a.sourceIds.Disjoint b.sourceIds := by
    rw [all_analyze] at hdistinct ⊢
    cases hv : view.structural.volatility with
    | none => simp
    | some v =>
      simp only [hv] at hdistinct ⊢
      have hprior := (List.pairwise_append.1 hdistinct).1
      rw [filter_confluences]
      refine ⟨?_, pairwise_sourceIds_confluences hprior⟩
      intro z hz hkind
      rcases List.mem_append.1 hz with hbefore | hconfluence
      · exact absurd hkind (kind_ne_of_mem_beforeConfluences hbefore)
      · exact namesMembers_of_mem_confluences hprior hconfluence (List.subset_append_left ..)
  refine ⟨hdistinct, fun z hz => turnsBlock_of_mem_all hz, hconfluences.1, hconfluences.2,
    fun z hz => namesBreaks_of_mem_all hz, active_sublist view, ?_, ?_, ?_⟩
  · exact (Register.total_tally _).trans (List.length_map _)
  · exact (Register.total_tally _).trans (List.length_map _)
  · exact (Register.total_tally _).trans (List.length_map _)

/-- The view of a series with its structure. -/
def viewOf (bars : List (Bar α)) (structural : Structure α) (context : MarketContext α)
    (timeframe : Timeframe) (settings : Settings α) : ZoneView α where
  bars := bars
  structural := structural
  liquidity := Liquidity.analyze bars structural context settings.liquidity
  timeframe := timeframe
  settings := settings.zones

/-- **The references of a report hold.** Bars of regular times, in the order of time, have a report
if all counts of bars fit a word, and it is whole if the ids of its zones tell their names apart. -/
theorem integral_analyze {bars : List (Bar α)} {settings : Settings α}
    (hcount : settings.Countable) (hlookback : bars.length + settings.zones.lookback ≤ pow2 64)
    (hbars : bars.Pairwise fun a b => a.time < b.time)
    (hregular : ∀ bar ∈ bars, bar.time.IsRegular) (context : MarketContext α)
    (timeframe : Timeframe) :
    ∃ s, Structure.analyze? bars settings = some s ∧
      ∃ report, analyze? (viewOf bars s context timeframe settings) = some report ∧
        (IdsTellNames report.all →
          report.Integral (viewOf bars s context timeframe settings)) := by
  refine ⟨Structure.analyze bars settings, if_pos hcount, _,
    if_pos (countable_analyze ?_ hlookback), integral_of_regular hbars hregular⟩
  exact (Structure.coherent_analyze bars settings).breaks

/-! ### A report with zones of all kinds -/

/-- Nine bars with a block that is swept and broken, and a gap next to it. -/
def turnedBars : List (Bar Rat) :=
  [(109, 110, 104, 105), (106, 112, 106, 111), (110, 112, 98, 100), (110, 113, 109, 113),
    (104, 106, 101, 101), (114, 114, 105, 105), (107, 109, 98, 100), (111, 112, 102, 102),
    (110, 113, 110, 111)].zipIdx.map fun ((opening, high, low, close), i) =>
      ⟨.ofSeconds (60 * i), opening, high, low, close, 1⟩

/-- Settings under which every leg breaks what it passes, every gap counts, and a block lies within
two bars of its break. -/
def turnedSettings : Settings Rat :=
  { Settings.standard with
    swing := { window := 1 }
    structural :=
      { StructureSettings.standard with volatilityPeriod := 2, breakVolatilities := 0, breakShare := 0 }
    zones :=
      { ZoneSettings.standard with
        orderBlock := { (OrderBlockSettings.standard : OrderBlockSettings Rat) with prelude := 2 }
        breaker :=
          { (BreakerSettings.standard : BreakerSettings Rat) with
            edgeTolerance := 1 / 20, breakVolatilities := 0 }
        imbalance :=
          { (ImbalanceSettings.standard : ImbalanceSettings Rat) with
            gapVolatilities := 0, gapShare := 0 } } }

/-- The view that the analysis of the bars makes. -/
def turnedView : ZoneView Rat :=
  viewOf turnedBars (Structure.analyze turnedBars turnedSettings) {} ⟨"1h"⟩ turnedSettings

theorem volatility_turnedView : turnedView.structural.volatility = some (23 / 2) := by
  decide +kernel

theorem sweeps_turnedView : turnedView.liquidity.sweeps =
    turnedView.structural.swings.filterMap (Sweep.ofSwing? turnedBars) :=
  List.mergeSort_of_pairwise (by decide)

/-- Its zones before the points of interest. -/
def turnedZones : List (Zone Rat) :=
  orderBlocks turnedView (23 / 2) ++ imbalances turnedView (23 / 2) ++
    ((orderBlocks turnedView (23 / 2)).filter (·.kind = .orderBlock)).filterMap fun block =>
      (((turnedView.structural.swings.filterMap (Sweep.ofSwing? turnedBars)).filter
          (isSweptBy turnedView.settings.breaker block)).findSome? fun s =>
        (turnedView.structural.breaks.zipIdx.find? fun (e, _) =>
          isBrokenBy turnedView.settings.breaker (23 / 2) block s e).map fun (e, i) =>
            (s, e, i)).map fun (s, e, i) => ofTurn turnedView (23 / 2) block s e i

theorem turnedZones_eq : beforeConfluences turnedView (23 / 2) = turnedZones := by
  unfold beforeConfluences breakers turn?
  rw [sweeps_turnedView, turnedZones]

theorem members_turnedZones (d : Direction) : members d turnedZones =
    turnedZones.filter fun z => z.direction = d && z.kind ≠ .confluence && z.status.isLive := by
  apply List.mergeSort_of_pairwise
  cases d <;> decide +kernel

theorem id_turnedView : (analyze turnedView).all.map (·.id.value) =
    [46292036038012880641364642948773002404, 308885889805110571860972926310047246479,
      171685822082143187033432194491298621130, 183731689128497931596000154482852943595] := by
  have htexts (texts : List String) :
      (texts.mergeSort fun a b => decide (a ≤ b)) = texts.insertionSort (· ≤ ·) :=
    List.mergeSort_eq_insertionSort (· ≤ ·) texts
  have hgaps := map_calculate fun z (hz : z ∈ imbalances turnedView (23 / 2)) =>
    named_of_mem_imbalances hz
  rw [all_analyze, volatility_turnedView]
  dsimp only
  unfold confluences ofGroup?
  simp only [turnedZones_eq, members_turnedZones, htexts]
  unfold turnedZones orderBlocks ofBreak? ofCandle ofTurn idOf
  rw [NameId.ofName_eq_calculate, ← hgaps]
  decide +kernel

theorem idsTellNames_turned : IdsTellNames (analyze turnedView).all := by
  apply idsTellNames_of_nodup fun z hz => named_of_mem_all hz
  have hvalues : ((analyze turnedView).all.map (·.id.value)).Nodup := by
    rw [id_turnedView]
    decide
  exact List.Nodup.of_map NameId.value (by rwa [List.map_map])

theorem integral_analyze_turned :
    turnedSettings.Countable ∧ turnedBars.length + turnedSettings.zones.lookback ≤ pow2 64 ∧
      (turnedBars.Pairwise fun a b => a.time < b.time) ∧
      (∀ bar ∈ turnedBars, bar.time.IsRegular) ∧
      ∃ s, Structure.analyze? turnedBars turnedSettings = some s ∧
        ∃ report, analyze? (viewOf turnedBars s {} ⟨"1h"⟩ turnedSettings) = some report ∧
          report.all.length = 4 ∧
          report.Integral (viewOf turnedBars s {} ⟨"1h"⟩ turnedSettings) := by
  have hcount : turnedSettings.Countable := by decide
  have hlookback : turnedBars.length + turnedSettings.zones.lookback ≤ pow2 64 := by decide
  have hbars : turnedBars.Pairwise fun a b => a.time < b.time := by decide
  have hregular : ∀ bar ∈ turnedBars, bar.time.IsRegular := by decide
  obtain ⟨s, hs, report, hreport, hintegral⟩ :=
    integral_analyze hcount hlookback hbars hregular {} ⟨"1h"⟩
  obtain rfl : Structure.analyze turnedBars turnedSettings = s := by
    rwa [Structure.analyze?, if_pos hcount, Option.some_inj] at hs
  obtain ⟨-, heq⟩ := Option.ite_none_right_eq_some.1 hreport
  cases heq
  have hlength := congrArg List.length id_turnedView
  rw [List.length_map] at hlength
  exact ⟨hcount, hlookback, hbars, hregular, _, hs, _, hreport, hlength,
    hintegral idsTellNames_turned⟩

/-! ### A report with two gaps of one name -/

/-- Five bars with two gaps, both of which the last bar closes. The second bar lies in a leap second
within a minute, so that its time reads like that of the third. -/
def leapBars : List (Bar Rat) :=
  [⟨⟨0, 0⟩, 100, 101, 99, 100, 1⟩, ⟨⟨30, 1500000000⟩, 101, 103, 100, 102, 1⟩,
    ⟨⟨31, 500000000⟩, 103, 105, 102, 104, 1⟩, ⟨⟨60, 0⟩, 105, 107, 104, 106, 1⟩,
    ⟨⟨120, 0⟩, 105, 106, 98, 99, 1⟩]

def leapView : ZoneView Rat :=
  viewOf leapBars (Structure.analyze leapBars turnedSettings) {} ⟨"1h"⟩ turnedSettings

theorem isClean_leapBars : IsClean leapBars :=
  ⟨by decide +kernel, by decide⟩

theorem volatility_leapView : leapView.structural.volatility = some (11 / 2) := by
  decide +kernel

theorem closed_beforeConfluences_leapView :
    (beforeConfluences leapView (11 / 2)).length = 2 ∧
      ∀ z ∈ beforeConfluences leapView (11 / 2), z.status = .filled ∧
        z.name = "imbalance|1h|1970-01-01T00:00:31.500+00:00|BULLISH" := by
  decide +kernel

theorem all_leapView : (analyze leapView).all = beforeConfluences leapView (11 / 2) := by
  have hconfluences : confluences leapView (11 / 2) (beforeConfluences leapView (11 / 2)) = [] := by
    rw [List.eq_nil_iff_forall_not_mem]
    intro z hz
    obtain ⟨d, root, htwo, -⟩ := exists_of_mem_confluences hz
    obtain ⟨m, hm⟩ := List.exists_mem_of_length_pos (Nat.lt_of_lt_of_le Nat.zero_lt_two htwo)
    obtain ⟨hm, -, -, hlive⟩ := mem_members_iff.1 (mem_members_of_mem_membersAt hm)
    rw [(closed_beforeConfluences_leapView.2 m hm).1] at hlive
    cases hlive
  rw [all_analyze, volatility_leapView]
  dsimp only
  rw [hconfluences, List.append_nil]

theorem idsTellNames_leap : IdsTellNames (analyze leapView).all := by
  rw [all_leapView]
  rintro _ ⟨a, ha, rfl⟩ _ ⟨b, hb, rfl⟩ -
  rw [(closed_beforeConfluences_leapView.2 a ha).2, (closed_beforeConfluences_leapView.2 b hb).2]

theorem not_integral_leapView : ¬(analyze leapView).Integral leapView := by
  intro h
  obtain ⟨a, b, hall⟩ := List.length_eq_two.1 closed_beforeConfluences_leapView.1
  have hid (z : Zone Rat) (hz : z ∈ [a, b]) :
      z.id = .ofName "imbalance|1h|1970-01-01T00:00:31.500+00:00|BULLISH" := by
    rw [← hall] at hz
    rw [(named_of_mem_all (all_leapView ▸ hz)).id, (closed_beforeConfluences_leapView.2 z hz).2]
  have hdistinct := h.distinct
  rw [all_leapView, hall, List.pairwise_pair] at hdistinct
  exact hdistinct ((hid a (by simp)).trans (hid b (by simp)).symm)

/-- Two gaps share their name and their id, and a window that is too wide for a word to count the bars
on both sides leaves no report. -/
theorem not_integral_analyze_leap :
    IsClean leapBars ∧ turnedSettings.Countable ∧
      (∃ s, Structure.analyze? leapBars turnedSettings = some s ∧
        ∃ report, analyze? (viewOf leapBars s {} ⟨"1h"⟩ turnedSettings) = some report ∧
          IdsTellNames report.all ∧
          ¬report.Integral (viewOf leapBars s {} ⟨"1h"⟩ turnedSettings)) ∧
      ¬∃ s, Structure.analyze? leapBars { turnedSettings with swing := { window := pow2 63 } } =
        some s := by
  have hcount : turnedSettings.Countable := by decide
  have hbreaks := (Structure.coherent_analyze leapBars turnedSettings).breaks
  have hreport : analyze? leapView = some (analyze leapView) :=
    if_pos (countable_analyze hbreaks (by decide))
  refine ⟨isClean_leapBars, hcount, ⟨_, if_pos hcount, _, hreport, idsTellNames_leap,
    not_integral_leapView⟩, ?_⟩
  rintro ⟨s, hs⟩
  rw [Structure.analyze?, if_neg (by decide)] at hs
  cases hs

end ZoneReport

end PriceAction
