import Mathlib.Data.List.Chain
import PriceAction.Proofs.Structure.Leg
import PriceAction.Scalar.Floating
import PriceAction.Structure.State

/-!
# The stream of breaks

From the first change of character on, a break is one exactly if it turns (`follows_along`). Each
break lies in its own leg, so leg and bar numbers ascend (`along_ordered`). Together these are the
laws of the stream (`detect_wellFormed`), and the bias is then the direction of the latest break.
-/

namespace PriceAction

variable {α : Type}

namespace Break

/-! ## Turns -/

/-- The direction of the last change of character, given the one before the breaks. -/
def lastTurn (last : Option Direction) (events : List (Break α)) : Option Direction :=
  ((events.reverse.find? (·.isCharacter)).map (·.direction)).or last

theorem lastTurn_singleton (last : Option Direction) (e : Break α) :
    lastTurn last [e] = if e.isCharacter then some e.direction else last := by
  rw [lastTurn, List.reverse_singleton, List.find?_singleton]
  split <;> rfl

theorem lastTurn_append (last : Option Direction) (events later : List (Break α)) :
    lastTurn last (events ++ later) = lastTurn (lastTurn last events) later := by
  rw [lastTurn, lastTurn, lastTurn, List.reverse_append, List.find?_append, ← Option.or_assoc]
  cases later.reverse.find? (·.isCharacter) <;> rfl

theorem lastTurn_cons (last : Option Direction) (e : Break α) (rest : List (Break α)) :
    lastTurn last (e :: rest) =
      lastTurn (if e.isCharacter then some e.direction else last) rest := by
  rw [← lastTurn_singleton]
  exact lastTurn_append last [e] rest

theorem lastTurn_of_calm {last : Option Direction} {events : List (Break α)}
    (h : ∀ e ∈ events, ¬e.isCharacter) : lastTurn last events = last := by
  have hnone : events.reverse.find? (·.isCharacter) = none := by simpa using h
  rw [lastTurn, hnone]
  rfl

theorem exists_lastTurn {events : List (Break α)} (h : ∃ e ∈ events, e.isCharacter)
    (last : Option Direction) : ∃ d, lastTurn last events = some d := by
  have hsome : (events.reverse.find? (·.isCharacter)).isSome := by simpa using h
  obtain ⟨e, he⟩ := Option.isSome_iff_exists.1 hsome
  rw [lastTurn, he]
  exact ⟨e.direction, rfl⟩

/-- A stream of breaks that comes after a change of character in a direction, or before any. -/
inductive Follows : Option Direction → List (Break α) → Prop
  | nil (last : Option Direction) : Follows last []
  /-- There has been no change of character yet. -/
  | calm {e : Break α} {rest : List (Break α)} (he : ¬e.isCharacter) (h : Follows none rest) :
      Follows none (e :: rest)
  | first {e : Break α} {rest : List (Break α)} (he : e.isCharacter)
      (h : Follows (some e.direction) rest) : Follows none (e :: rest)
  | onward {e : Break α} {rest : List (Break α)} (he : ¬e.isCharacter)
      (h : Follows (some e.direction) rest) : Follows (some e.direction) (e :: rest)
  | turn {d : Direction} {e : Break α} {rest : List (Break α)} (he : e.isCharacter)
      (hd : e.direction ≠ d) (h : Follows (some e.direction) rest) : Follows (some d) (e :: rest)

namespace Follows

variable {last : Option Direction} {e : Break α} {rest events : List (Break α)}

theorem cons {settings : StructureSettings α} {labels : List SwingLabel}
    (hkind : e.kind = kindOf (standing? settings last labels) e.direction)
    (h : Follows (lastTurn last [e]) rest) : Follows last (e :: rest) := by
  rw [lastTurn_singleton] at h
  cases last with
  | none =>
    by_cases he : e.isCharacter
    · rw [if_pos he] at h
      exact .first he h
    · rw [if_neg he] at h
      exact .calm he h
  | some d =>
    rw [standing?, Option.some_or, kindOf] at hkind
    by_cases hd : d = e.direction
    · have he : ¬e.isCharacter := by simp [isCharacter, hkind, hd]
      rw [if_neg he, hd] at h
      rw [hd]
      exact .onward he h
    · have he : e.isCharacter := by simp [isCharacter, hkind, hd]
      rw [if_pos he] at h
      exact .turn he (Ne.symm hd) h

theorem alternates (h : Follows last events) :
    (last.toList ++ (events.filter (·.isCharacter)).map (·.direction)).IsChain (· ≠ ·) := by
  induction h with
  | nil last => cases last <;> simp
  | calm he h ih => simpa [he] using ih
  | first he h ih => simpa [he] using ih
  | onward he h ih => simpa [he] using ih
  | turn he hd h ih =>
    rw [List.filter_cons_of_pos he]
    exact .cons_cons hd.symm ih

theorem turns_of_last (h : Follows last events) (hlast : last = some e.direction) :
    (e :: events).IsChain fun e f => f.isCharacter ↔ f.direction ≠ e.direction := by
  induction h generalizing e with
  | nil => exact .singleton e
  | calm => cases hlast
  | first => cases hlast
  | onward he h ih =>
    have hd := Option.some.inj hlast
    exact .cons_cons (by simp [he, hd]) (ih rfl)
  | turn he hd h ih =>
    have heq := Option.some.inj hlast
    exact .cons_cons (by simp [he, ← heq, hd]) (ih rfl)

theorem turns (h : Follows none events) :
    (events.dropWhile (!·.isCharacter)).IsChain fun e f =>
      f.isCharacter ↔ f.direction ≠ e.direction := by
  induction events with
  | nil => exact .nil
  | cons e rest ih =>
    cases h with
    | calm he h => simpa [he] using ih h
    | first he h => simpa [he] using h.turns_of_last rfl

theorem lastTurn_eq (h : Follows last events)
    (hturn : last.isSome ∨ ∃ e ∈ events, e.isCharacter) :
    lastTurn last events = (events.getLast?.map (·.direction)).or last := by
  induction h with
  | nil => rfl
  | calm he h ih =>
    next e rest =>
    have hrest : ∃ f ∈ rest, f.isCharacter := by simpa [he] using hturn
    have hne : rest ≠ [] := by
      obtain ⟨f, hf, -⟩ := hrest
      exact List.ne_nil_of_mem hf
    rw [lastTurn_cons, if_neg he, ih (.inr hrest), List.getLast?_cons,
      List.getLast?_eq_some_getLast hne]
    rfl
  | first he h ih =>
    rw [lastTurn_cons, if_pos he, ih (.inl rfl), List.getLast?_cons]
    cases List.getLast? _ <;> rfl
  | onward he h ih =>
    rw [lastTurn_cons, if_neg he, ih (.inl rfl), List.getLast?_cons]
    cases List.getLast? _ <;> rfl
  | turn he hd h ih =>
    rw [lastTurn_cons, if_pos he, ih (.inl rfl), List.getLast?_cons]
    cases List.getLast? _ <;> rfl

end Follows

/-! ## One leg -/

section

variable [Scalar α]

/-- The break of one leg, given the last change of character, the labels and the pivot before it. -/
def ofLeg? (settings : StructureSettings α) (volatility : α) (bars : List (Bar α))
    (last : Option Direction) (labels : List SwingLabel) (prior? : Option (Swing α)) (index : Nat)
    (leg : Leg α) : Option (Break α) :=
  prior?.bind fun prior => (close? settings volatility bars leg prior).map fun hit =>
    { kind := kindOf (standing? settings last labels) leg.direction
      direction := leg.direction
      price := prior.price
      time := hit.2.time
      barIndex := hit.1
      legIndex := index
      displacement := leg.amplitude }

theorem along_cons (settings : StructureSettings α) (volatility : α) (bars : List (Bar α))
    (last : Option Direction) (labels : List SwingLabel) (prior? : Option (Swing α)) (index : Nat)
    (leg : Leg α) (rest : List (Leg α)) :
    along settings volatility bars last labels prior? index (leg :: rest) =
      let found := (ofLeg? settings volatility bars last labels prior? index leg).toList
      found ++ along settings volatility bars (lastTurn last found) (labels ++ leg.label.toList)
        (some leg.start) (index + 1) rest := by
  rw [along, ofLeg?]
  cases prior? with
  | none => rfl
  | some prior =>
    rw [Option.bind_some, Option.bind_some]
    cases close? settings volatility bars leg prior with
    | none => rfl
    | some hit => simp [lastTurn_singleton]

variable {settings : StructureSettings α} {volatility : α} {bars : List (Bar α)}
  {leg : Leg α} {legs : List (Leg α)} {last : Option Direction} {labels : List SwingLabel}
  {prior? : Option (Swing α)} {index : Nat} {e : Break α}

theorem of_firstClose? {level : α} {hit : Nat × Bar α}
    (h : firstClose? bars leg level = some hit) :
    leg.start.index < hit.1 ∧ hit.1 ≤ leg.stop.index := by
  obtain ⟨⟨b, i⟩, hmem, hsome⟩ := List.exists_of_findSome?_eq_some h
  have hhit : some (i, b) = some hit := (Option.ite_none_right_eq_some.1 hsome).2
  cases hhit
  have hrange := List.mem_zipIdx hmem
  simp only [List.length_take] at hrange
  omega

theorem of_close? {prior : Swing α} {hit : Nat × Bar α}
    (h : close? settings volatility bars leg prior = some hit) :
    leg.stop.kind.beyond leg.stop.price prior.price ∧
      ¬leg.amplitude ≤ threshold settings volatility leg ∧
      firstClose? bars leg prior.price = some hit := by
  rw [close?, Option.ite_none_right_eq_some, Option.ite_none_left_eq_some] at h
  exact h

theorem of_ofLeg? (h : ofLeg? settings volatility bars last labels prior? index leg = some e) :
    e.kind = kindOf (standing? settings last labels) e.direction ∧ e.legIndex = index ∧
      ¬leg.amplitude ≤ threshold settings volatility leg ∧
      leg.start.index < e.barIndex ∧ e.barIndex ≤ leg.stop.index := by
  obtain ⟨prior, -, hmap⟩ := Option.bind_eq_some_iff.1 h
  obtain ⟨hit, hclose, rfl⟩ := Option.map_eq_some_iff.1 hmap
  obtain ⟨-, hlarge, hfirst⟩ := of_close? hclose
  exact ⟨rfl, rfl, hlarge, of_firstClose? hfirst⟩

theorem mem_along_cons :
    e ∈ along settings volatility bars last labels prior? index (leg :: legs) ↔
      e ∈ ofLeg? settings volatility bars last labels prior? index leg ∨
      e ∈ along settings volatility bars
        (lastTurn last (ofLeg? settings volatility bars last labels prior? index leg).toList)
        (labels ++ leg.label.toList) (some leg.start) (index + 1) legs := by
  rw [along_cons, List.mem_append, Option.mem_toList]
  rfl

theorem follows_along (settings : StructureSettings α) (volatility : α) (bars : List (Bar α))
    (last : Option Direction) (labels : List SwingLabel) (prior? : Option (Swing α)) (index : Nat)
    (legs : List (Leg α)) :
    Follows last (along settings volatility bars last labels prior? index legs) := by
  induction legs generalizing last labels prior? index with
  | nil => exact .nil last
  | cons leg rest ih =>
    rw [along_cons]
    cases hfound : ofLeg? settings volatility bars last labels prior? index leg with
    | none => exact ih ..
    | some e => exact .cons (of_ofLeg? hfound).1 (ih ..)

/-! ## Order -/

/-- A break of one of the legs, which are numbered from `index` on. -/
def Within (settings : StructureSettings α) (volatility : α) (legs : List (Leg α)) (index : Nat)
    (e : Break α) : Prop :=
  ∃ k leg, e.legIndex = index + k ∧ legs[k]? = some leg ∧
    ¬leg.amplitude ≤ threshold settings volatility leg ∧
    leg.start.index < e.barIndex ∧ e.barIndex ≤ leg.stop.index

theorem Within.cons (h : Within settings volatility legs (index + 1) e) (leg : Leg α) :
    Within settings volatility (leg :: legs) index e := by
  obtain ⟨k, l, hindex, hleg, hrange⟩ := h
  exact ⟨k + 1, l, by omega, by rwa [List.getElem?_cons_succ], hrange⟩

theorem within_of_mem
    (h : e ∈ along settings volatility bars last labels prior? index legs) :
    Within settings volatility legs index e := by
  induction legs generalizing last labels prior? index with
  | nil => cases h
  | cons leg rest ih =>
    rcases mem_along_cons.1 h with hhead | htail
    · obtain ⟨-, hindex, hrange⟩ := of_ofLeg? hhead
      exact ⟨0, leg, hindex, rfl, hrange⟩
    · exact (ih htail).cons leg

theorem le_legIndex_of_mem
    (h : e ∈ along settings volatility bars last labels prior? index legs) :
    index ≤ e.legIndex := by
  obtain ⟨k, -, hk, -⟩ := within_of_mem h
  omega

theorem along_ordered (h : legs.Pairwise fun a b => a.stop.index ≤ b.start.index) :
    (along settings volatility bars last labels prior? index legs).Pairwise fun e f =>
      e.legIndex < f.legIndex ∧ e.barIndex < f.barIndex := by
  induction legs generalizing last labels prior? index with
  | nil => exact List.Pairwise.nil
  | cons leg rest ih =>
    obtain ⟨hleg, hrest⟩ := List.pairwise_cons.1 h
    rw [along_cons]
    cases hfound : ofLeg? settings volatility bars last labels prior? index leg with
    | none => exact ih hrest
    | some e =>
      obtain ⟨-, hindex, -, -, hstop⟩ := of_ofLeg? hfound
      refine List.pairwise_cons.2 ⟨fun f hf => ?_, ih hrest⟩
      obtain ⟨k, l, hk, hl, -, hstart, -⟩ := within_of_mem hf
      have := hleg l (List.mem_of_getElem? hl)
      omega

end

end Break

/-! ## The whole stream -/

/-- The laws of the breaks of a list of legs. -/
structure Break.WellFormed (legs : List (Leg α)) (events : List (Break α)) : Prop where
  ordered : events.Pairwise fun e f => e.legIndex < f.legIndex ∧ e.barIndex < f.barIndex
  inLeg : ∀ e ∈ events, ∃ leg, legs[e.legIndex]? = some leg ∧
    leg.start.index < e.barIndex ∧ e.barIndex ≤ leg.stop.index
  alternates : (events.filter (·.isCharacter)).IsChain fun e f => e.direction ≠ f.direction
  /-- From the first change of character on, a break is one exactly if it turns. -/
  turns : (events.dropWhile (!·.isCharacter)).IsChain fun e f =>
    f.isCharacter ↔ f.direction ≠ e.direction
  settles : (∃ e ∈ events, e.isCharacter) →
    (events.reverse.find? (·.isCharacter)).map (·.direction) =
      events.getLast?.map (·.direction)

variable [Scalar α]

theorem Structure.breaks_analyze (bars : List (Bar α)) (settings : Settings α) :
    (analyze bars settings).breaks =
      match averageTrueRange? bars settings.structural.volatilityPeriod with
      | some v => Break.detect bars (analyze bars settings).legs v settings.structural
      | none => [] := rfl

theorem Structure.follows_breaks (bars : List (Bar α)) (settings : Settings α) :
    Break.Follows none (analyze bars settings).breaks := by
  rw [breaks_analyze]
  split
  · exact Break.follows_along ..
  · exact .nil none

theorem Structure.bias_analyze {bars : List (Bar α)} {settings : Settings α} {d : Direction}
    (h : Break.lastTurn none (analyze bars settings).breaks = some d) :
    (analyze bars settings).bias = .ofDirection d := by
  rw [Break.lastTurn, Option.or_none] at h
  obtain ⟨e, he, rfl⟩ := Option.map_eq_some_iff.1 h
  show biasOf _ ((analyze bars settings).breaks.reverse.find? (·.isCharacter)) = _
  rw [he]
  rfl

/-- **The stream of breaks is well formed.** The breaks of the legs of any swings in the order of
their bars obey the laws of a stream, whatever the bars, the volatility and the settings. And once
there is a change of character, the bias of a series is the direction of its latest break. -/
theorem Break.detect_wellFormed :
    (∀ (bars : List (Bar α)) (swings : List (Swing α)) (volatility : α)
        (settings : StructureSettings α), (swings.Pairwise fun a b => a.index ≤ b.index) →
      WellFormed (Leg.ofSwings swings)
        (detect bars (Leg.ofSwings swings) volatility settings)) ∧
    ∀ (bars : List (Bar α)) (settings : Settings α),
      (∃ e ∈ (Structure.analyze bars settings).breaks, e.isCharacter) →
      ∃ e, (Structure.analyze bars settings).breaks.getLast? = some e ∧
        (Structure.analyze bars settings).bias = .ofDirection e.direction := by
  constructor
  · intro bars swings volatility settings h
    have hfollows :=
      follows_along settings volatility bars none [] none 0 (Leg.ofSwings swings)
    refine ⟨along_ordered (Leg.pairwise_ofSwings h), fun e he => ?_, ?_, hfollows.turns,
      fun hturn => ?_⟩
    · obtain ⟨k, leg, hk, hleg, -, hrange⟩ := within_of_mem he
      rw [Nat.zero_add] at hk
      exact ⟨leg, hk ▸ hleg, hrange⟩
    · have halternates := hfollows.alternates
      rwa [Option.toList_none, List.nil_append, List.isChain_map] at halternates
    · have hlast := hfollows.lastTurn_eq (.inr hturn)
      rwa [lastTurn, Option.or_none, Option.or_none] at hlast
  · intro bars settings hturn
    have hlast := (Structure.follows_breaks bars settings).lastTurn_eq (.inr hturn)
    rw [Option.or_none] at hlast
    obtain ⟨e, he, -⟩ := hturn
    have hsome := List.getLast?_eq_some_getLast (List.ne_nil_of_mem he)
    rw [hsome] at hlast
    exact ⟨_, hsome, Structure.bias_analyze hlast⟩

/-- A rise that turns down and up again, one price a bar. -/
def turningBars : List (Bar Float) :=
  [105.0, 100.0, 110.0, 105.0, 115.0, 108.0, 120.0, 104.0, 125.0, 120.0].zipIdx.map fun (p, i) =>
    ⟨.ofSeconds (60 * i), p, p, p, p, 100.0⟩

/-- Settings that make every bar between two lower or two higher ones a pivot. -/
def turningSettings : Settings Float :=
  { Settings.standard with
    swing := { window := 1 }
    structural := { StructureSettings.standard with volatilityPeriod := 1 } }

def turningSwings : List (Swing Float) :=
  Swing.detect turningBars 1 4

def turningBreaks : List (Break Float) :=
  Break.detect turningBars (Leg.ofSwings turningSwings) 5.0 turningSettings.structural

theorem Break.detect_wellFormed_turning :
    turningSwings.Pairwise (fun a b => a.index ≤ b.index) ∧
      turningBreaks.map (fun e => (e.kind, e.direction, e.barIndex)) =
        [(.structural, .bullish, 4), (.structural, .bullish, 6), (.character, .bearish, 7),
          (.character, .bullish, 8)] ∧
      WellFormed (Leg.ofSwings turningSwings) turningBreaks ∧
      ∃ e, (Structure.analyze turningBars turningSettings).breaks.getLast? = some e ∧
        (Structure.analyze turningBars turningSettings).bias = .ofDirection e.direction := by
  have hsorted : turningSwings.Pairwise fun a b => a.index ≤ b.index := by decide
  have hturn : ∃ e ∈ (Structure.analyze turningBars turningSettings).breaks, e.isCharacter := by
    decide
  exact ⟨hsorted, by decide,
    detect_wellFormed.1 turningBars turningSwings 5.0 turningSettings.structural hsorted,
    detect_wellFormed.2 turningBars turningSettings hturn⟩

end PriceAction
