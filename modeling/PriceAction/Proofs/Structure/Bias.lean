import PriceAction.Proofs.Structure.Appended
import PriceAction.Settings.Validation
import PriceAction.Snapshot.Sanitation

/-!
# What turns the bias

Every series is analysed afresh, with the volatility of its own latest bars. So a longer series
may turn the bias by a new change of character, and also by withdrawing an old one
(`bias_turns_without_character`). Nothing else turns it (`bias_turns`).
-/

namespace PriceAction.Break

/-! ## Strengths have no part in breaks -/

theorem along_bare {α : Type} [Scalar α] (settings : StructureSettings α) (volatility : α)
    (bars : List (Bar α)) (last : Option Direction) (labels : List SwingLabel)
    (prior? : Option (Swing α)) (index : Nat) (legs : List (Leg α)) :
    along settings volatility bars last labels (prior?.map Swing.bare) index
        (legs.map Leg.bare) =
      along settings volatility bars last labels prior? index legs := by
  induction legs generalizing last labels prior? index with
  | nil => rfl
  | cons leg rest ih =>
    have hfound : ofLeg? settings volatility bars last labels (prior?.map Swing.bare) index
        leg.bare = ofLeg? settings volatility bars last labels prior? index leg := by
      cases prior? <;> rfl
    rw [List.map_cons, along_cons, along_cons, hfound]
    exact congrArg (_ ++ ·) (ih _ _ (some leg.start) _)

/-! ## All legs of a longer series -/

variable {settings : StructureSettings Float} {volatility volatility' : Float}
  {bars : List (Bar Float)} {leg leg' : Leg Float} {legs legs' : List (Leg Float)}
  {last : Option Direction} {labels : List SwingLabel} {prior? : Option (Swing Float)}
  {index : Nat} {e : Break Float}

/-- Whether every change of character still exceeds what its leg now has to exceed. -/
def Kept (settings : StructureSettings Float) (volatility : Float) (legs : List (Leg Float))
    (index : Nat) (events : List (Break Float)) : Prop :=
  ∀ e ∈ events, e.isCharacter → ∀ k leg, e.legIndex = index + k → legs[k]? = some leg →
    ¬leg.amplitude ≤ threshold settings volatility leg

/-- Whether every later change of character belongs to a leg that had one. -/
def NoneNew (events later : List (Break Float)) : Prop :=
  ∀ e' ∈ later, e'.isCharacter → ∃ e ∈ events, e.isCharacter ∧ e.legIndex = e'.legIndex

variable {later : List (Bar Float)}

/-- The first leg leaves the same last change of character in both series. -/
theorem lastTurn_first (hruns : leg.RunsOn leg')
    (hkept : Kept settings volatility' (leg' :: legs') index
      (along settings volatility bars last labels prior? index (leg :: legs)))
    (hnew : NoneNew (along settings volatility bars last labels prior? index (leg :: legs))
      (along settings volatility' (bars ++ later) last labels prior? index (leg' :: legs'))) :
    lastTurn last
        (ofLeg? settings volatility' (bars ++ later) last labels prior? index leg').toList =
      lastTurn last (ofLeg? settings volatility bars last labels prior? index leg).toList := by
  by_cases hturn : ∃ e ∈ ofLeg? settings volatility bars last labels prior? index leg,
      e.isCharacter
  · obtain ⟨e, he, hcharacter⟩ := hturn
    have hlarge := hkept e (mem_along_cons.2 (.inl he)) hcharacter 0 leg' (of_ofLeg? he).2.1 rfl
    have he' := ofLeg?_extends hruns hlarge later he
    have hcharacter' : isCharacter { e with displacement := leg'.amplitude } := hcharacter
    rw [he', Option.mem_def.1 he]
    simp [lastTurn_singleton, hcharacter, hcharacter']
  · have hcalm : ∀ e ∈ ofLeg? settings volatility bars last labels prior? index leg,
        ¬e.isCharacter := fun e he hcharacter => hturn ⟨e, he, hcharacter⟩
    have hcalm' : ∀ e' ∈ ofLeg? settings volatility' (bars ++ later) last labels prior? index leg',
        ¬e'.isCharacter := by
      intro e' he' hcharacter
      obtain ⟨e, he, hold, heq⟩ := hnew e' (mem_along_cons.2 (.inl he')) hcharacter
      have hindex := (of_ofLeg? he').2.1
      rcases mem_along_cons.1 he with hhead | htail
      · exact hturn ⟨e, hhead, hold⟩
      · have := le_legIndex_of_mem htail
        omega
    rw [lastTurn_of_calm (by simpa using hcalm'), lastTurn_of_calm (by simpa using hcalm)]

/-- Both series end with the same last change of character if those of the shorter are kept and
none is new. -/
theorem lastTurn_extends (h : Leg.Extends legs legs')
    (hkept : Kept settings volatility' legs' index
      (along settings volatility bars last labels prior? index legs))
    (hnew : NoneNew (along settings volatility bars last labels prior? index legs)
      (along settings volatility' (bars ++ later) last labels prior? index legs')) :
    lastTurn last (along settings volatility' (bars ++ later) last labels prior? index legs') =
      lastTurn last (along settings volatility bars last labels prior? index legs) := by
  induction h generalizing last labels prior? index with
  | nil legs =>
    refine lastTurn_of_calm fun e' he' hcharacter => ?_
    obtain ⟨e, he, -⟩ := hnew e' he' hcharacter
    cases he
  | last hruns legs =>
    have hfirst := lastTurn_first hruns hkept hnew
    rw [along_cons, along_cons, lastTurn_append, lastTurn_append, hfirst]
    -- no leg after the first has a change of character
    refine lastTurn_of_calm fun e' he' hcharacter => ?_
    have hindex := le_legIndex_of_mem he'
    obtain ⟨e, he, -, heq⟩ := hnew e' (mem_along_cons.2 (.inr (hfirst ▸ he'))) hcharacter
    rcases mem_along_cons.1 he with hhead | htail
    · have := (of_ofLeg? hhead).2.1
      omega
    · cases htail
  | cons leg h ih =>
    have hfirst := lastTurn_first (.refl leg) hkept hnew
    rw [along_cons, along_cons, lastTurn_append, lastTurn_append, hfirst]
    apply ih
    · intro e he hcharacter k l hk hl
      exact hkept e (mem_along_cons.2 (.inr he)) hcharacter (k + 1) l (by omega) hl
    · intro e' he' hcharacter
      have hindex := le_legIndex_of_mem he'
      obtain ⟨e, he, hold, heq⟩ := hnew e' (mem_along_cons.2 (.inr (hfirst ▸ he'))) hcharacter
      rcases mem_along_cons.1 he with hhead | htail
      · have := (of_ofLeg? hhead).2.1
        omega
      · exact ⟨e, htail, hold, heq⟩

end PriceAction.Break

namespace PriceAction.Structure

/-! ## Structures of longer series -/

theorem breaks_of_volatility {α : Type} [Scalar α] {bars : List (Bar α)} {settings : Settings α}
    {volatility : α} (h : (analyze bars settings).volatility = some volatility) :
    (analyze bars settings).breaks = Break.along settings.structural volatility bars none [] none 0
      ((analyze bars settings).legs.map Leg.bare) := by
  have haverage : averageTrueRange? bars settings.structural.volatilityPeriod = some volatility := h
  rw [breaks_analyze, haverage]
  exact (Break.along_bare settings.structural volatility bars none [] none 0 _).symm

theorem exists_volatility_of_mem {α : Type} [Scalar α] {bars : List (Bar α)}
    {settings : Settings α} {e : Break α} (he : e ∈ (analyze bars settings).breaks) :
    ∃ volatility, (analyze bars settings).volatility = some volatility := by
  rw [breaks_analyze] at he
  split at he
  · next v haverage => exact ⟨v, haverage⟩
  · cases he

variable {bars later : List (Bar Float)} {settings : Settings Float}

theorem exists_leg_of_mem {volatility : Float} {e : Break Float}
    (h : (analyze bars settings).volatility = some volatility)
    (he : e ∈ (analyze bars settings).breaks) :
    ∃ leg, (analyze bars settings).legs[e.legIndex]? = some leg ∧
      ¬leg.amplitude ≤ Break.threshold settings.structural volatility leg ∧
      leg.start.index < e.barIndex ∧ e.barIndex ≤ leg.stop.index := by
  rw [breaks_of_volatility h] at he
  obtain ⟨k, leg, hk, hleg, hrange⟩ := Break.within_of_mem he
  rw [Nat.zero_add] at hk
  obtain ⟨l, hl, rfl⟩ := Leg.exists_of_getElem?_map_bare hleg
  exact ⟨l, hk ▸ hl, hrange⟩

theorem extends_legs (bars later : List (Bar Float)) (settings : Settings Float) :
    Leg.Extends ((analyze bars settings).legs.map Leg.bare)
      ((analyze (bars ++ later) settings).legs.map Leg.bare) :=
  Leg.extends_detect bars later settings.swing.window settings.swing.strengthCap

theorem exists_leg_of_append {k : Nat} {leg : Leg Float}
    (h : (analyze bars settings).legs[k]? = some leg) (later : List (Bar Float)) :
    ∃ leg', (analyze (bars ++ later) settings).legs[k]? = some leg' ∧
      leg'.start.index = leg.start.index ∧ leg.stop.index ≤ leg'.stop.index := by
  have hbare : ((analyze bars settings).legs.map Leg.bare)[k]? = some leg.bare := by
    rw [List.getElem?_map, h]
    rfl
  obtain ⟨l', hl', hruns⟩ := (extends_legs bars later settings).getElem? hbare
  obtain ⟨leg', hleg', rfl⟩ := Leg.exists_of_getElem?_map_bare hl'
  have hindex : leg'.bare.start.index = leg.bare.start.index := congrArg Swing.index hruns.start_eq
  exact ⟨leg', hleg', hindex, hruns.stop.index_le⟩

theorem pairwise_legs (bars : List (Bar Float)) (settings : Settings Float) :
    (analyze bars settings).legs.Pairwise fun a b => a.stop.index ≤ b.start.index :=
  Leg.pairwise_ofSwings (Swing.pairwise_detect ..)

theorem legIndex_eq_of_barIndex_eq {v v' : Float} {e e' : Break Float}
    (hv : (analyze bars settings).volatility = some v)
    (hv' : (analyze (bars ++ later) settings).volatility = some v')
    (he : e ∈ (analyze bars settings).breaks)
    (he' : e' ∈ (analyze (bars ++ later) settings).breaks) (h : e.barIndex = e'.barIndex) :
    e.legIndex = e'.legIndex := by
  obtain ⟨leg, hleg, -, hstart, hstop⟩ := exists_leg_of_mem hv he
  obtain ⟨leg', hleg', hstart', hstop'⟩ := exists_leg_of_append hleg later
  obtain ⟨l, hl, -, hrange⟩ := exists_leg_of_mem hv' he'
  exact Leg.eq_of_between (pairwise_legs _ _) hleg' (by omega) hl hrange

/-- Whether a structure takes back a break of a shorter series: it has no break at that bar, because
it has no volatility or the leg around the bar does not exceed what it has to. -/
def Withdraws (s : Structure Float) (settings : StructureSettings Float) (e : Break Float) : Prop :=
  (∀ e' ∈ s.breaks, e'.barIndex ≠ e.barIndex) ∧
    (s.volatility = none ∨ ∃ volatility leg, s.volatility = some volatility ∧
      s.legs[e.legIndex]? = some leg ∧
      leg.start.index < e.barIndex ∧ e.barIndex ≤ leg.stop.index ∧
      leg.amplitude ≤ Break.threshold settings volatility leg)

theorem withdraws_of_le {v v' : Float} {e : Break Float} {leg' : Leg Float}
    (hv : (analyze bars settings).volatility = some v)
    (hv' : (analyze (bars ++ later) settings).volatility = some v')
    (he : e ∈ (analyze bars settings).breaks)
    (hleg' : (analyze (bars ++ later) settings).legs[e.legIndex]? = some leg')
    (hsmall : leg'.amplitude ≤ Break.threshold settings.structural v' leg') :
    (analyze (bars ++ later) settings).Withdraws settings.structural e := by
  obtain ⟨leg, hleg, -, hstart, hstop⟩ := exists_leg_of_mem hv he
  obtain ⟨l, hl, hstart', hstop'⟩ := exists_leg_of_append hleg later
  rw [hleg'] at hl
  cases hl
  refine ⟨fun e' he' hbar => ?_, .inr ⟨v', leg', hv', hleg', by omega, by omega, hsmall⟩⟩
  have hindex := legIndex_eq_of_barIndex_eq hv hv' he he' hbar.symm
  obtain ⟨l, hl, hlarge, -⟩ := exists_leg_of_mem hv' he'
  rw [← hindex, hleg'] at hl
  cases hl
  exact hlarge hsmall

/-- The bias stays if no change of character is withdrawn and none comes at another bar. -/
theorem bias_append_eq {v v' : Float} (hv : (analyze bars settings).volatility = some v)
    (hv' : (analyze (bars ++ later) settings).volatility = some v')
    (hturn : ∃ e ∈ (analyze bars settings).breaks, e.isCharacter)
    (hkept : ∀ e ∈ (analyze bars settings).breaks, e.isCharacter →
      ¬(analyze (bars ++ later) settings).Withdraws settings.structural e)
    (hnew : ∀ e' ∈ (analyze (bars ++ later) settings).breaks, e'.isCharacter →
      ∃ e ∈ (analyze bars settings).breaks, e.isCharacter ∧ e.barIndex = e'.barIndex) :
    (analyze (bars ++ later) settings).bias = (analyze bars settings).bias := by
  have hkeeps : Break.Kept settings.structural v'
      ((analyze (bars ++ later) settings).legs.map Leg.bare) 0 (analyze bars settings).breaks := by
    intro e he hcharacter k leg' hk hleg' hsmall
    rw [Nat.zero_add] at hk
    obtain ⟨l, hl, rfl⟩ := Leg.exists_of_getElem?_map_bare hleg'
    have hsmall' : l.amplitude ≤ Break.threshold settings.structural v' l := hsmall
    exact hkept e he hcharacter (withdraws_of_le hv hv' he (hk ▸ hl) hsmall')
  have hnoneNew : Break.NoneNew (analyze bars settings).breaks
      (analyze (bars ++ later) settings).breaks := by
    intro e' he' hcharacter'
    obtain ⟨e, he, hcharacter, hbar⟩ := hnew e' he' hcharacter'
    exact ⟨e, he, hcharacter, legIndex_eq_of_barIndex_eq hv hv' he he' hbar⟩
  have hsame : Break.lastTurn none (analyze (bars ++ later) settings).breaks =
      Break.lastTurn none (analyze bars settings).breaks := by
    rw [breaks_of_volatility hv] at hkeeps hnoneNew ⊢
    rw [breaks_of_volatility hv'] at hnoneNew ⊢
    exact Break.lastTurn_extends (extends_legs bars later settings) hkeeps hnoneNew
  obtain ⟨d, hd⟩ := Break.exists_lastTurn hturn none
  rw [bias_analyze hd, bias_analyze (hsame.trans hd)]

/-- **What turns the bias.** Once a series has a change of character, a longer series has another
bias only if it has a new change of character or withdraws an old one. -/
theorem bias_turns (bars later : List (Bar Float)) (settings : Settings Float)
    (hturn : ∃ e ∈ (analyze bars settings).breaks, e.isCharacter)
    (hbias : (analyze (bars ++ later) settings).bias ≠ (analyze bars settings).bias) :
    (∃ e' ∈ (analyze (bars ++ later) settings).breaks, e'.isCharacter ∧
      ∀ e ∈ (analyze bars settings).breaks, e.isCharacter →
        (e.barIndex, e.direction) ≠ (e'.barIndex, e'.direction)) ∨
    ∃ e ∈ (analyze bars settings).breaks, e.isCharacter ∧
      (analyze (bars ++ later) settings).Withdraws settings.structural e := by
  by_contra hneither
  obtain ⟨hnoNew, hnoWithdrawn⟩ := not_or.1 hneither
  obtain ⟨e, he, hcharacter⟩ := hturn
  obtain ⟨v, hv⟩ := exists_volatility_of_mem he
  cases hv' : (analyze (bars ++ later) settings).volatility with
  | none =>
    -- without a volatility there are no breaks, so every old one is withdrawn
    refine hnoWithdrawn ⟨e, he, hcharacter, fun e' he' => ?_, .inl hv'⟩
    obtain ⟨v', hsome⟩ := exists_volatility_of_mem he'
    rw [hv'] at hsome
    cases hsome
  | some v' =>
    apply hbias
    apply bias_append_eq hv hv' ⟨e, he, hcharacter⟩
    · intro e he hcharacter hwithdrawn
      exact hnoWithdrawn ⟨e, he, hcharacter, hwithdrawn⟩
    · intro e' he' hcharacter'
      by_contra hnone
      refine hnoNew ⟨e', he', hcharacter', fun e he hcharacter heq => hnone ?_⟩
      exact ⟨e, he, hcharacter, congrArg Prod.fst heq⟩

/-! ## A bias that turns without a new change of character -/

/-- A market that turns up, down again and up, each bar running from one close to the next. -/
def calmBars : List (Bar Float) :=
  let closes : List Float := [100.0, 100.0, 102.0, 105.0, 108.0, 102.0, 96.0, 97.0, 98.0, 99.0,
    94.0, 90.0, 95.0, 100.0, 96.0, 93.0, 93.0, 94.0, 95.0, 96.0, 94.0, 92.0, 96.0, 101.0]
  (adjacent closes).zipIdx.map fun ((a, b), i) =>
    ⟨.ofSeconds (60 * i), a, Scalar.max a b, Scalar.min a b, b, 100.0⟩

/-- A bar so long that the volatility nearly doubles. -/
def wildBar : Bar Float := ⟨.ofSeconds 1380, 101.0, 143.0, 101.0, 103.0, 100.0⟩

theorem bias_turns_withdrawn :
    (∃ e ∈ (analyze calmBars .standard).breaks, e.isCharacter) ∧
      (analyze (calmBars ++ [wildBar]) .standard).bias ≠ (analyze calmBars .standard).bias ∧
      ∃ e ∈ (analyze calmBars .standard).breaks, e.isCharacter ∧
        (analyze (calmBars ++ [wildBar]) .standard).Withdraws StructureSettings.standard e := by
  have hturn : ∃ e ∈ (analyze calmBars .standard).breaks, e.isCharacter := by decide +kernel
  have hbias : (analyze (calmBars ++ [wildBar]) .standard).bias ≠
      (analyze calmBars .standard).bias := by decide +kernel
  refine ⟨hturn, hbias, (bias_turns calmBars [wildBar] .standard hturn hbias).resolve_left ?_⟩
  decide +kernel

theorem bias_turns_without_character :
    (Settings.standard : Settings Float).fault?.isNone ∧
      (sanitize (calmBars ++ [wildBar])).rejected.isEmpty ∧
      (∃ e ∈ (analyze calmBars .standard).breaks, e.isCharacter) ∧
      (analyze calmBars .standard).bias = .bearish ∧
      (analyze (calmBars ++ [wildBar]) .standard).bias = .bullish ∧
      ∀ e' ∈ (analyze (calmBars ++ [wildBar]) .standard).breaks, e'.isCharacter →
        ∃ e ∈ (analyze calmBars .standard).breaks, e.isCharacter ∧
          (e.barIndex, e.direction) = (e'.barIndex, e'.direction) := by
  decide +kernel

end PriceAction.Structure
