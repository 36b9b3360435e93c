import PriceAction.Proofs.Indexed.Break
import PriceAction.Proofs.Indexed.Range
import PriceAction.Proofs.Indexed.Swing

/-!
# The structure by position

Volatility, drift, swings, breaks, the range and the retracement bands of a series, each with its
reads by position. Together they are the structure of the series (`structure?_eq`).
-/

namespace PriceAction.Indexed

variable {α : Type} [Scalar α]

/-! ## Volatility and drift -/

def volatility? (bars : List (Bar α)) (period : Nat) : Option (Option α) :=
  if period = 0 then some none
  else do
    let needed ← plus? period 1
    if bars.length < needed then some none
    else do
      let rest ← minus? bars.length period
      let first ← minus? rest 1
      let latest ← slice? bars first bars.length
      let ranges := (adjacent latest).map fun (a, b) => b.trueRange a.close
      let average := Scalar.sum ranges / (period : α)
      some (if Scalar.isFinite average && decide (0.0 < average) then some average else none)

def drift? (bars : List (Bar α)) : Option (Option (Drift α)) :=
  if bars.length < 3 then some none
  else do
    let place ← minus? bars.length 1
    let last ← bars[place]?
    let first ← bars[0]?
    let net := last.close - first.close
    let path := Scalar.sum ((adjacent bars).map fun (a, b) => Scalar.abs (b.close - a.close))
    some (if path ≤ 0.0 then none else some ⟨net, Scalar.abs net / path⟩)

theorem volatility?_eq (bars : List (Bar α)) {period : Nat} (hperiod : period + 1 < 2 ^ 64) :
    volatility? bars period = some (averageTrueRange? bars period) := by
  rw [volatility?, averageTrueRange?]
  by_cases hzero : period = 0
  · rw [if_pos hzero, if_pos (.inl hzero)]
  · rw [if_neg hzero, plus?_eq hperiod]
    simp only [Option.bind_eq_bind, Option.bind_some]
    by_cases hshort : bars.length < period + 1
    · rw [if_pos hshort, if_pos (.inr hshort)]
    · rw [if_neg hshort, if_neg (by omega), minus?_eq (by omega), Option.bind_some,
        minus?_eq (by omega), Option.bind_some, slice?_eq_drop (by omega), Option.bind_some]

theorem succ_lt_of_volatility? {bars : List (Bar α)} {period : Nat} {v : Option α}
    (h : volatility? bars period = some v) : period + 1 < 2 ^ 64 := by
  by_contra hcount
  rw [volatility?, if_neg (by omega), plus?_eq_none (by omega)] at h
  cases h

theorem drift?_eq (bars : List (Bar α)) : drift? bars = some (closeDrift? bars) := by
  rw [drift?, closeDrift?, List.head?_eq_getElem?, List.getLast?_eq_getElem?]
  by_cases hshort : bars.length < 3
  · rw [if_pos hshort]
    split
    · rw [if_pos hshort]
    · rfl
  · have hfirst : bars[0]? = some bars[0] := List.getElem?_eq_getElem (by omega)
    have hlast : bars[bars.length - 1]? = some bars[bars.length - 1] :=
      List.getElem?_eq_getElem (by omega)
    rw [if_neg hshort, minus?_eq (by omega)]
    simp only [Option.bind_eq_bind, Option.bind_some, hfirst, hlast, if_neg hshort]

/-! ## Retracement bands -/

section Retracement

variable {β : Type}

/-- The elements with a raised flag. -/
def flagged (xs : List β) (flags : List Bool) : List β :=
  (xs.zip flags).filterMap fun (x, flag) => if flag then some x else none

/-- Lowers the flags of the primary bands beyond the first `most` of their direction, in the order
they are listed. -/
def lower? (most : Nat) : (kept : Direction → Nat) → (flags : List Bool) →
    List (Retracement α × Nat) → Option (List Bool)
  | _, flags, [] => some flags
  | kept, flags, (z, i) :: older =>
    if z.role ≠ .primary then lower? most kept flags older
    else if kept z.direction < most then
      lower? most (Retracement.countOne kept z.direction) flags older
    else do
      let flags ← write? flags i false
      lower? most kept flags older

/-- The bands without the older primary ones. -/
def keepNewest? (most : Nat) (zones : List (Retracement α)) : Option (List (Retracement α)) := do
  let flags ← lower? most (fun _ => 0) (List.replicate zones.length true) zones.zipIdx.reverse
  some (flagged zones flags)

def retracements? (legs : List (Leg α)) (firstLeg : Nat) (volatility : α) (bias : Bias)
    (settings : RetracementSettings α) : Option (List (Retracement α)) :=
  let large := (legs.zipIdx.drop firstLeg).filter fun (leg, _) =>
    settings.legVolatilities * volatility < leg.amplitude
  keepNewest? settings.mostPrimary (large.map fun (leg, i) => .ofLeg settings bias leg i)

omit [Scalar α] in
theorem lower?_eq (most : Nat) (older newer : List (Retracement α)) (flags : List Bool)
    (hflags : flagged newer flags = (Retracement.keepNewest most newer).2) :
    ∃ all, lower? most (Retracement.keepNewest most newer).1
        (List.replicate older.length true ++ flags) older.zipIdx.reverse = some all ∧
      flagged (older ++ newer) all = (Retracement.keepNewest most (older ++ newer)).2 := by
  induction older using List.reverseRecOn generalizing newer flags with
  | nil => exact ⟨flags, rfl, hflags⟩
  | append_singleton older z ih =>
    have hreplicate : List.replicate (older ++ [z]).length true ++ flags =
        List.replicate older.length true ++ true :: flags := by
      rw [List.length_append, List.length_singleton, List.replicate_succ', List.append_assoc]
      rfl
    have hplaces : (older ++ [z]).zipIdx.reverse = (z, older.length) :: older.zipIdx.reverse := by
      rw [List.zipIdx_append, List.reverse_append]
      simp
    have hkeep : Retracement.keepNewest most (z :: newer) =
        if z.role ≠ .primary then ((Retracement.keepNewest most newer).1,
          z :: (Retracement.keepNewest most newer).2)
        else if (Retracement.keepNewest most newer).1 z.direction < most then
          (Retracement.countOne (Retracement.keepNewest most newer).1 z.direction,
            z :: (Retracement.keepNewest most newer).2)
        else ((Retracement.keepNewest most newer).1, (Retracement.keepNewest most newer).2) := rfl
    have htrue : flagged (z :: newer) (true :: flags) = z :: flagged newer flags := rfl
    have hfalse : flagged (z :: newer) (false :: flags) = flagged newer flags := rfl
    rw [hreplicate, hplaces, List.append_assoc, List.singleton_append, lower?]
    split_ifs at hkeep ⊢ with hrole hroom
    · have := ih (z :: newer) (true :: flags) (by rw [htrue, hflags, hkeep])
      rwa [hkeep] at this
    · have := ih (z :: newer) (true :: flags) (by rw [htrue, hflags, hkeep])
      rwa [hkeep] at this
    · have := ih (z :: newer) (false :: flags) (by rw [hfalse, hflags, hkeep])
      rw [hkeep] at this
      rw [write?_eq (by simp)]
      simpa using this

omit [Scalar α] in
theorem keepNewest?_eq (most : Nat) (zones : List (Retracement α)) :
    keepNewest? most zones = some (Retracement.keepNewest most zones).2 := by
  obtain ⟨flags, hlower, hkept⟩ := lower?_eq most zones [] [] rfl
  rw [List.append_nil] at hlower hkept
  change lower? most (fun _ => 0) _ _ = some flags at hlower
  rw [keepNewest?, hlower, ← hkept]
  rfl

theorem retracements?_eq (legs : List (Leg α)) (firstLeg : Nat) (volatility : α) (bias : Bias)
    (settings : RetracementSettings α) :
    retracements? legs firstLeg volatility bias settings =
      some (Retracement.detect legs firstLeg volatility bias settings) :=
  keepNewest?_eq ..

end Retracement

/-! ## The whole structure -/

def trendOf? (settings : StructureSettings α) (labels : List SwingLabel)
    (drift : Option (Drift α)) : Option (Trend × TrendSource) := do
  match ← trend? labels settings.trendLabels, drift with
  | some trend, _ => some (trend, .swings)
  | none, some d =>
    if settings.driftEfficiency ≤ d.efficiency then
      some (if 0.0 < d.net then .up else .down, .drift)
    else some (.unknown, .inconclusive)
  | none, none => some (.unknown, .inconclusive)

/-- The breaks, if there is a volatility. -/
def breaksAt? (bars : List (Bar α)) (legs : List (Leg α)) (settings : StructureSettings α) :
    Option α → Option (List (Break α))
  | some volatility => breaks? bars legs volatility settings
  | none => some []

/-- The retracement bands, if there is a volatility. -/
def retracementsAt? (legs : List (Leg α)) (firstLeg : Nat) (bias : Bias)
    (settings : RetracementSettings α) : Option α → Option (List (Retracement α))
  | some volatility => retracements? legs firstLeg volatility bias settings
  | none => some []

def structure? (bars : List (Bar α)) (settings : Settings α) : Option (Structure α) := do
  let window := settings.swing.window
  let swings ← swings? bars window settings.swing.strengthCap
  let twice ← times? 2 window
  let needed ← plus? twice 1
  let legs := Leg.ofSwings swings
  let drift ← drift? bars
  let (trend, source) ← trendOf? settings.structural (Leg.labels legs) drift
  let volatility ← volatility? bars settings.structural.volatilityPeriod
  let breaks ← breaksAt? bars legs settings.structural volatility
  let lastCharacter := breaks.reverse.find? (·.isCharacter)
  let bias := Structure.biasOf trend lastCharacter
  let range ← range? bars settings.range
  let firstLeg := (lastCharacter.map (·.legIndex)).getD 0
  let retracements ← retracementsAt? legs firstLeg bias settings.retracement volatility
  let lacking (stage : String) : List Shortfall :=
    if volatility.isNone then [.volatility stage] else []
  some
    { trend := trend
      bias := bias
      swings := swings
      legs := legs
      activeRange := range.toOption
      breaks := breaks
      retracements := retracements
      details :=
        { barCount := bars.length
          volatilityPeriod := settings.structural.volatilityPeriod
          volatility := volatility
          breakThreshold := volatility.map (· * settings.structural.breakVolatilities)
          volatilityShare := volatility.bind fun v => bars.getLast?.bind fun b =>
            if 0.0 < b.close then some (v / b.close) else none
          trendSource := source
          driftEfficiency := drift.map (·.efficiency)
          lastCharacter := lastCharacter.map (·.time)
          shortfalls :=
            (if bars.length < needed then [.bars "swings" needed bars.length] else []) ++
            lacking "structure.events" ++
            (match range with
              | .ok _ => []
              | .error shortfall => [shortfall]) ++
            lacking "structure.ote" } }

theorem trendOf?_eq (settings : StructureSettings α) (labels : List SwingLabel)
    (drift : Option (Drift α)) :
    trendOf? settings labels drift = some (Structure.trendOf settings labels drift) := by
  unfold trendOf? Structure.trendOf
  rw [trend?_eq]
  simp only [Option.bind_eq_bind, Option.bind_some]
  cases Trend.ofLabels? labels settings.trendLabels with
  | some trend => rfl
  | none =>
    cases drift with
    | none => rfl
    | some d =>
      dsimp only
      split <;> rfl

variable {bars : List (Bar α)} {settings : Settings α}

theorem breaksAt?_eq (hbars : bars.length ≤ 2 ^ 32) {legs : List (Leg α)}
    (hlegs : ∀ l ∈ legs, l.start.index < bars.length ∧ l.stop.index < bars.length)
    (volatility : Option α) :
    breaksAt? bars legs settings.structural volatility =
      some (match volatility with
        | some v => Break.detect bars legs v settings.structural
        | none => []) := by
  cases volatility with
  | none => rfl
  | some v => exact breaks?_eq hbars hlegs

theorem retracementsAt?_eq (legs : List (Leg α)) (firstLeg : Nat) (bias : Bias)
    (volatility : Option α) :
    retracementsAt? legs firstLeg bias settings.retracement volatility =
      some (match volatility with
        | some v => Retracement.detect legs firstLeg v bias settings.retracement
        | none => []) := by
  cases volatility with
  | none => rfl
  | some v => exact retracements?_eq ..

theorem structure?_eq_of_countable (hbars : bars.length ≤ 2 ^ 32) (hcount : settings.Countable) :
    structure? bars settings = some (Structure.analyze bars settings) := by
  have hcoherent := Structure.coherent_analyze bars settings
  have hlegs : ∀ l ∈ Leg.ofSwings
      (Swing.detect bars settings.swing.window settings.swing.strengthCap),
      l.start.index < bars.length ∧ l.stop.index < bars.length := by
    intro l hl
    obtain ⟨hstart, hstop⟩ := hcoherent.legs l hl
    exact ⟨(hcoherent.swings _ hstart).lt_length, (hcoherent.swings _ hstop).lt_length⟩
  have hwindow := hcount.swing
  rw [structure?, swings?_eq hbars, Swing.detect?, if_pos hwindow,
    times?_eq (Nat.lt_of_succ_lt hwindow)]
  simp only [Option.bind_eq_bind, Option.bind_some]
  rw [plus?_eq hwindow, Option.bind_some, drift?_eq, Option.bind_some, trendOf?_eq,
    Option.bind_some, volatility?_eq bars hcount.volatility, Option.bind_some,
    breaksAt?_eq hbars hlegs, Option.bind_some, range?_eq hbars, TradingRange.detect?,
    if_pos hcount.range, Option.bind_some, retracementsAt?_eq, Option.bind_some]
  rfl

theorem countable_of_structure? (hbars : bars.length ≤ 2 ^ 32) {s : Structure α}
    (h : structure? bars settings = some s) : settings.Countable := by
  obtain ⟨swings, hswings, h⟩ := Option.bind_eq_some_iff.1 h
  obtain ⟨twice, -, h⟩ := Option.bind_eq_some_iff.1 h
  obtain ⟨needed, -, h⟩ := Option.bind_eq_some_iff.1 h
  obtain ⟨drift, -, h⟩ := Option.bind_eq_some_iff.1 h
  obtain ⟨trend, -, h⟩ := Option.bind_eq_some_iff.1 h
  obtain ⟨volatility, hvolatility, h⟩ := Option.bind_eq_some_iff.1 h
  obtain ⟨breaks, -, h⟩ := Option.bind_eq_some_iff.1 h
  obtain ⟨range, hrange, -⟩ := Option.bind_eq_some_iff.1 h
  rw [swings?_eq hbars] at hswings
  rw [range?_eq hbars] at hrange
  exact ⟨(Option.ite_none_right_eq_some.1 hswings).1, succ_lt_of_volatility? hvolatility,
    (Option.ite_none_right_eq_some.1 hrange).1⟩

/-- The words fail exactly where the settings call for more bars than a word can count. -/
theorem structure?_eq (hbars : bars.length ≤ 2 ^ 32) :
    structure? bars settings = Structure.analyze? bars settings := by
  by_cases hcount : settings.Countable
  · rw [structure?_eq_of_countable hbars hcount, Structure.analyze?, if_pos hcount]
  · rw [Structure.analyze?, if_neg hcount, Option.eq_none_iff_forall_ne_some]
    exact fun s hs => hcount (countable_of_structure? hbars hs)

end PriceAction.Indexed
