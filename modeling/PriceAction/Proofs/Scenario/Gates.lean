import PriceAction.Proofs.Latest
import PriceAction.Scalar.Floating
import PriceAction.Scenario.Gates

/-!
# The decision as two lists of gates

Each named scenario is a condition on what a decision is made from, and a list of gates that tells
how far the condition holds. The decision is the reversal where its condition holds, else the
continuation where that one's does, and else unclear, with the first closed gate of the list that
came further (`Scenario.classify_gates`).
-/

namespace PriceAction

variable {α : Type} [Scalar α]

/-! ## Gates -/

/-- A gate, with the obstacle that it is when it is closed. -/
structure Gate where
  obstacle : Obstacle
  IsOpen : Prop

namespace Gate

/-- The first closed gate has an obstacle and comes after so many open ones. -/
def FirstClosed : List Gate → (passed : Nat) → Obstacle → Prop
  | [], _, _ => False
  | g :: _, 0, o => ¬g.IsOpen ∧ g.obstacle = o
  | g :: rest, passed + 1, o => g.IsOpen ∧ FirstClosed rest passed o

theorem FirstClosed.not_open {gates : List Gate} {passed : Nat} {o : Obstacle}
    (h : FirstClosed gates passed o) : ¬∀ g ∈ gates, g.IsOpen := by
  intro hopen
  induction gates generalizing passed with
  | nil => exact h
  | cons g rest ih =>
    cases passed with
    | zero => exact h.1 (hopen g List.mem_cons_self)
    | succ passed => exact ih h.2 fun g hg => hopen g (List.mem_cons_of_mem _ hg)

theorem FirstClosed.lt_length {gates : List Gate} {passed : Nat} {o : Obstacle}
    (h : FirstClosed gates passed o) : passed < gates.length := by
  induction gates generalizing passed with
  | nil => exact h.elim
  | cons g rest ih =>
    cases passed with
    | zero => exact Nat.succ_pos _
    | succ passed => exact Nat.succ_lt_succ (ih h.2)

end Gate

/-- What a walk says of the gates of a scenario and of the directions that it reaches. -/
def Walk.Tells (gates : List Gate) (Reaches : Direction → Prop) : Walk α → Prop
  | .reached d _ _ _ => Reaches d
  | .blocked passed o _ _ => Gate.FirstClosed gates passed o

/-! ## Sweep reversal -/

/-- Whether a bar trades strictly outside the range. -/
def DailyRange.Exceeded (range : DailyRange α) (b : Bar α) : Prop :=
  range.high < b.high ∨ b.low < range.low

/-- The direction from a bar outside the range back into it, that from above first. -/
def DailyRange.wayBack (range : DailyRange α) (b : Bar α) : Direction :=
  if range.high < b.high then .bearish else .bullish

namespace Scenario

variable (view : ScenarioView α) (settings : ScenarioSettings) (last : Bar α)

/-- The bar at `i` is the latest outside the daily range, and it is recent. -/
structure Excursion (range : DailyRange α) (i : Nat) (b : Bar α) : Prop where
  daily : view.context.dailyRange = some range
  recent : view.bars.length - max settings.sweepBars 1 ≤ i
  latest : Latest range.Exceeded view.bars i b

/-- A change of character from a bar on, or the manipulation phase, confirms a reversal. -/
def Confirmed (d : Direction) (first : Nat) : Prop :=
  (∃ e ∈ view.structural.breaks, e.kind = .character ∧ e.direction = d ∧ first ≤ e.barIndex) ∨
    view.liquidity.phase = .manipulation

/-- The condition of a sweep reversal in a direction. -/
def SweepReverses (d : Direction) : Prop :=
  ∃ range i b, Excursion view settings range i b ∧ d = range.wayBack b ∧
    range.contains last.close = true ∧ Confirmed view d i

def reversalGates : List Gate :=
  [⟨.noHigherRange, ∃ range, view.context.dailyRange = some range⟩,
    ⟨.noHigherSweep, ∃ range i b, Excursion view settings range i b⟩,
    ⟨.notBackInside, ∃ range, view.context.dailyRange = some range ∧
      range.contains last.close = true⟩,
    ⟨.noConfirmation, ∃ range i b, Excursion view settings range i b ∧
      Confirmed view (range.wayBack b) i⟩]

variable {view settings last} {range : DailyRange α} {d : Direction} {i : Nat} {b : Bar α}

theorem Excursion.unique {range' : DailyRange α} {i' : Nat} {b' : Bar α}
    (h : Excursion view settings range i b) (h' : Excursion view settings range' i' b') :
    range = range' ∧ i = i' ∧ b = b' := by
  obtain rfl := Option.some.inj (h.daily.symm.trans h'.daily)
  exact ⟨rfl, h.latest.unique h'.latest⟩

theorem SweepReverses.unique {d' : Direction} (h : SweepReverses view settings last d)
    (h' : SweepReverses view settings last d') : d = d' := by
  obtain ⟨range, i, b, hout, rfl, -⟩ := h
  obtain ⟨range', i', b', hout', rfl, -⟩ := h'
  obtain ⟨rfl, -, rfl⟩ := hout.unique hout'
  rfl

theorem SweepReverses.gates_open (h : SweepReverses view settings last d) :
    ∀ g ∈ reversalGates view settings last, g.IsOpen := by
  obtain ⟨range, i, b, hout, rfl, hinside, hconfirmed⟩ := h
  simp only [reversalGates, List.forall_mem_cons]
  exact ⟨⟨range, hout.daily⟩, ⟨range, i, b, hout⟩, ⟨range, hout.daily, hinside⟩,
    ⟨range, i, b, hout, hconfirmed⟩, List.forall_mem_nil _⟩

/-- What the search for an excursion makes of a bar. -/
theorem excursion?_eq_some_iff (hdaily : view.context.dailyRange = some range) {extreme : α} :
    excursion? view settings range = some (i, d, extreme) ↔
      ∃ b, Excursion view settings range i b ∧ d = range.wayBack b ∧
        extreme = b.extreme d.opposite := by
  have hoff (b : Bar α) (i : Nat) : range.Exceeded b ↔
      (if range.high < b.high then some (i, Direction.bearish, b.high)
        else if b.low < range.low then some (i, .bullish, b.low) else none).isSome = true := by
    rw [DailyRange.Exceeded]
    split
    · next habove => simp [habove]
    · next hbelow => split <;> simp [*]
  rw [excursion?, findSome?_reverse_drop_eq_some_iff hoff]
  constructor
  · rintro ⟨j, b, hrecent, hlatest, hfound⟩
    dsimp only at hfound
    split at hfound
    · next habove =>
      cases hfound
      exact ⟨b, ⟨hdaily, hrecent, hlatest⟩, (if_pos habove).symm, rfl⟩
    · next habove =>
      split at hfound
      · cases hfound
        exact ⟨b, ⟨hdaily, hrecent, hlatest⟩, (if_neg habove).symm, rfl⟩
      · cases hfound
  · rintro ⟨b, hout, rfl, rfl⟩
    refine ⟨i, b, hout.recent, hout.latest, ?_⟩
    dsimp only [DailyRange.wayBack]
    split
    · rfl
    · next habove =>
      rw [if_pos (hout.latest.holds.resolve_left habove)]
      rfl

theorem not_excursion (h : excursion? view settings range = none) :
    ¬Excursion view settings range i b := by
  intro hout
  have hsome := (excursion?_eq_some_iff hout.daily).2 ⟨b, hout, rfl, rfl⟩
  rw [h] at hsome
  cases hsome

omit [Scalar α] in
theorem confirmed_iff {first : Nat} :
    Confirmed view d first ↔
      (confirmation? view d first).isSome = true ∨ view.liquidity.phase = .manipulation := by
  rw [Confirmed, confirmation?, List.find?_isSome]
  simp [Break.isCharacter, and_assoc]

/-- The last gate of a reversal. -/
theorem confirmReversal_cases (view : ScenarioView α) (d : Direction) (first : Nat)
    (reasons : List String) (levels : List (KeyLevel α)) :
    (Confirmed view d first ∧ ∃ confidence reasons' levels',
        confirmReversal view d (confirmation? view d first) reasons levels =
          .reached d confidence reasons' levels') ∨
      (¬Confirmed view d first ∧ ∃ reasons' levels',
        confirmReversal view d (confirmation? view d first) reasons levels =
          .blocked 3 .noConfirmation reasons' levels') := by
  have hclosed : ((confirmation? view d first).isNone &&
      !(decide (view.liquidity.phase = .manipulation))) = true ↔ ¬Confirmed view d first := by
    rw [confirmed_iff]
    simp [Option.isSome_iff_ne_none]
  rw [confirmReversal]
  dsimp only
  split
  · next h => exact .inr ⟨hclosed.1 h, _, _, rfl⟩
  · next h => exact .inl ⟨not_not.1 fun hnot => h (hclosed.2 hnot), _, _, _, rfl⟩

theorem reversalWalk_tells (view : ScenarioView α) (settings : ScenarioSettings) (last : Bar α) :
    (reversalWalk view settings last).Tells (reversalGates view settings last)
      (SweepReverses view settings last) := by
  rw [reversalWalk]
  split
  · next hdaily => exact ⟨by simp [hdaily], rfl⟩
  next range hdaily =>
  have hrange : ∃ range, view.context.dailyRange = some range := ⟨range, hdaily⟩
  dsimp only
  split
  · next hnone =>
    refine ⟨hrange, fun ⟨range', i, b, hout⟩ => ?_, rfl⟩
    obtain rfl := Option.some.inj (hdaily.symm.trans hout.daily)
    exact not_excursion hnone hout
  next i d extreme hsome =>
  obtain ⟨b, hout, rfl, -⟩ := (excursion?_eq_some_iff hdaily).1 hsome
  have hswept : ∃ range i b, Excursion view settings range i b := ⟨range, i, b, hout⟩
  split
  · next hinside =>
    rcases confirmReversal_cases view (range.wayBack b) i _ _ with
      ⟨hconfirmed, _, _, _, hwalk⟩ | ⟨hclosed, _, _, hwalk⟩
    · rw [hwalk]
      exact ⟨range, i, b, hout, rfl, hinside, hconfirmed⟩
    · rw [hwalk]
      refine ⟨hrange, hswept, ⟨range, hdaily, hinside⟩,
        fun ⟨range', i', b', hout', hconfirmed⟩ => ?_, rfl⟩
      obtain ⟨rfl, rfl, rfl⟩ := hout.unique hout'
      exact hclosed hconfirmed
  · next houtside =>
    refine ⟨hrange, hswept, fun ⟨range', hdaily', hinside⟩ => ?_, rfl⟩
    obtain rfl := Option.some.inj (hdaily.symm.trans hdaily')
    exact houtside hinside

end Scenario

/-! ## Trend continuation -/

namespace Structure

variable {structural : Structure α} {d : Direction} {level : α}

/-- The level that a trend has to hold: the latest swing against it or, if there is none, the far
extreme of the active range. -/
def IsReference (structural : Structure α) (d : Direction) (level : α) : Prop :=
  (∃ i s, Latest (·.kind = Pool.against d) structural.swings i s ∧ level = s.price) ∨
    ((∀ s ∈ structural.swings, s.kind ≠ Pool.against d) ∧
      ∃ range, structural.activeRange = some range ∧ level = range.extreme d.opposite)

omit [Scalar α] in
theorem reference?_eq_some_iff :
    Scenario.reference? structural d = some level ↔ structural.IsReference d level := by
  rw [Scenario.reference?, IsReference, lastSwing?]
  cases h : structural.swings.reverse.find? (·.kind = Pool.against d) with
  | none =>
    rw [List.find?_eq_none] at h
    have hnone : ∀ s ∈ structural.swings, s.kind ≠ Pool.against d := by simpa using h
    rw [Option.map_none, Option.none_or, Option.map_eq_some_iff]
    constructor
    · rintro ⟨range, hrange, rfl⟩
      exact .inr ⟨hnone, range, hrange, rfl⟩
    · rintro (⟨i, s, hs, -⟩ | ⟨-, range, hrange, rfl⟩)
      · exact absurd hs.holds (hnone s (List.mem_of_getElem? hs.at_index))
      · exact ⟨range, hrange, rfl⟩
  | some s =>
    obtain ⟨i, hs⟩ := find?_reverse_eq_some_iff.1 h
    simp only [decide_eq_true_eq] at hs
    have hmem := List.mem_of_getElem? hs.at_index
    have hsome : ¬∀ s ∈ structural.swings, s.kind ≠ Pool.against d :=
      fun hnone => hnone s hmem hs.holds
    simp only [Option.map_some, Option.some_or, Option.some.injEq, hsome, false_and, or_false]
    constructor
    · rintro rfl
      exact ⟨i, s, hs, rfl⟩
    · rintro ⟨i', s', hs', rfl⟩
      rw [(hs.unique hs').2]

end Structure

namespace Scenario

variable (view : ScenarioView α) (last : Bar α) (d : Direction)

/-- The trend has the direction and is not opposed from above. -/
def Aligned : Prop :=
  view.structural.trend.direction? = some d ∧ view.context.higherDirection? ≠ some d.opposite

/-- The last close lies strictly on the side of the direction from its reference. -/
def HoldsReference : Prop :=
  ∃ level, view.structural.IsReference d level ∧ d.beyond last.close level = true

/-- There is an active zone or a band of primary role. -/
def HasWorkingZone : Prop :=
  (∃ z ∈ view.zones.active, z.direction = d ∧ z.role = .primary ∧ z.status ≠ .invalidated) ∨
    ∃ z ∈ view.structural.retracements, z.direction = d ∧ z.role = .primary

/-- The condition of a trend continuation in a direction. -/
def TrendContinues : Prop :=
  view.structural.bias.direction? = some d ∧ Aligned view d ∧ HoldsReference view last d ∧
    HasWorkingZone view d

def continuationGates : List Gate :=
  [⟨.noBias, ∃ d, view.structural.bias.direction? = some d⟩,
    ⟨.trendNotAligned, ∃ d, view.structural.bias.direction? = some d ∧ Aligned view d⟩,
    ⟨.referenceLost, ∃ d, view.structural.bias.direction? = some d ∧ HoldsReference view last d⟩,
    ⟨.noPrimaryZone, ∃ d, view.structural.bias.direction? = some d ∧ HasWorkingZone view d⟩]

variable {view last d}

theorem TrendContinues.unique {d' : Direction} (h : TrendContinues view last d)
    (h' : TrendContinues view last d') : d = d' :=
  Option.some.inj (h.1.symm.trans h'.1)

theorem TrendContinues.gates_open (h : TrendContinues view last d) :
    ∀ g ∈ continuationGates view last, g.IsOpen := by
  obtain ⟨hbias, haligned, hholds, hzone⟩ := h
  simp only [continuationGates, List.forall_mem_cons]
  exact ⟨⟨d, hbias⟩, ⟨d, hbias, haligned⟩, ⟨d, hbias, hholds⟩, ⟨d, hbias, hzone⟩,
    List.forall_mem_nil _⟩

omit [Scalar α] in
theorem workingZone?_eq_none_iff : workingZone? view d = none ↔ ¬HasWorkingZone view d := by
  rw [workingZone?, HasWorkingZone]
  simp [choose?_eq_none, and_assoc, List.filter_eq_nil_iff]

theorem continuationWalk_tells (view : ScenarioView α) (last : Bar α) :
    (continuationWalk view last).Tells (continuationGates view last)
      (TrendContinues view last) := by
  rw [continuationWalk]
  split
  · next hbias => exact ⟨by simp [hbias], rfl⟩
  next d hbias =>
  -- The direction of the bias is the only one that the gates are about.
  have honly {P : Direction → Prop} (h : ¬P d) :
      ¬∃ d, view.structural.bias.direction? = some d ∧ P d := by
    rintro ⟨d', hbias', hd'⟩
    obtain rfl := Option.some.inj (hbias.symm.trans hbias')
    exact h hd'
  have hfirst : ∃ d, view.structural.bias.direction? = some d := ⟨d, hbias⟩
  dsimp only
  split
  · next hnot =>
    refine ⟨hfirst, honly fun haligned => ?_, rfl⟩
    simp [haligned.1, haligned.2] at hnot
  next hnot =>
  have haligned : Aligned view d := by simpa [Aligned] using hnot
  split
  · next hnone =>
    refine ⟨hfirst, ⟨d, hbias, haligned⟩, honly fun ⟨level, hlevel, hbeyond⟩ => ?_, rfl⟩
    rw [Structure.reference?_eq_some_iff.2 hlevel, Option.filter_some_pos hbeyond] at hnone
    cases hnone
  next level hsome =>
  obtain ⟨hlevel, hbeyond⟩ := Option.filter_eq_some_iff.1 hsome
  have hholds : HoldsReference view last d :=
    ⟨level, Structure.reference?_eq_some_iff.1 hlevel, hbeyond⟩
  split
  · next hnone =>
    exact ⟨hfirst, ⟨d, hbias, haligned⟩, ⟨d, hbias, hholds⟩,
      honly (workingZone?_eq_none_iff.1 hnone), rfl⟩
  · next hzone =>
    refine ⟨hbias, haligned, hholds, not_not.1 fun hnot => ?_⟩
    rw [workingZone?_eq_none_iff.2 hnot] at hzone
    cases hzone

/-! ## The decision -/

variable {settings : ScenarioSettings} {confidence : α} {reasons reasons' : List String}
  {levels levels' : List (KeyLevel α)} {passed passed' : Nat} {o o' : Obstacle}

theorem key_of_reversalWalk (hlast : view.bars.getLast? = some last)
    (h : reversalWalk view settings last = .reached d confidence reasons levels) :
    (classify view settings).key = (.sweepReversal, some d) := by
  rw [classify, hlast]
  simp only [h]
  rfl

theorem key_of_continuationWalk (hlast : view.bars.getLast? = some last)
    (h : reversalWalk view settings last = .blocked passed o reasons levels)
    (h' : continuationWalk view last = .reached d confidence reasons' levels') :
    (classify view settings).key = (.trendContinuation, some d) := by
  rw [classify, hlast]
  simp only [h, h']
  rfl

theorem unclear_of_blocked (hlast : view.bars.getLast? = some last)
    (h : reversalWalk view settings last = .blocked passed o reasons levels)
    (h' : continuationWalk view last = .blocked passed' o' reasons' levels') :
    (classify view settings).key = (.unclear, none) ∧
      (classify view settings).obstacle = some (if passed' ≤ passed then o else o') ∧
      (classify view settings).confidence = (max passed passed' : Nat) / 4.0 * 0.5 := by
  rw [classify, hlast]
  simp only [h, h']
  split
  · next hle =>
    rw [Nat.max_eq_left hle]
    exact ⟨rfl, rfl, rfl⟩
  · next hlt =>
    rw [Nat.max_eq_right (Nat.le_of_not_le hlt)]
    exact ⟨rfl, rfl, rfl⟩

/-- **The decision is made by its two lists of gates.** With a bar at least, it is the reversal in a
direction exactly where that reversal's condition holds, and the continuation exactly where no
reversal's does and its own holds. Otherwise it is unclear and carries the first closed gate of the
list that came further, the reversal's on a tie, and half the share of the gates that this list
passed. -/
theorem classify_gates (view : ScenarioView α) (settings : ScenarioSettings) {last : Bar α}
    (hlast : view.bars.getLast? = some last) :
    (∀ d, (classify view settings).key = (.sweepReversal, some d) ↔
        SweepReverses view settings last d) ∧
      (∀ d, (classify view settings).key = (.trendContinuation, some d) ↔
        (∀ d', ¬SweepReverses view settings last d') ∧ TrendContinues view last d) ∧
      ((∀ d, ¬SweepReverses view settings last d) → (∀ d, ¬TrendContinues view last d) →
        ∃ passed o passed' o',
          Gate.FirstClosed (reversalGates view settings last) passed o ∧
          Gate.FirstClosed (continuationGates view last) passed' o' ∧
          (classify view settings).key = (.unclear, none) ∧
          (classify view settings).obstacle = some (if passed' ≤ passed then o else o') ∧
          (classify view settings).confidence = (max passed passed' : Nat) / 4.0 * 0.5) := by
  have hreversal := reversalWalk_tells view settings last
  have hcontinuation := continuationWalk_tells view last
  cases hwalk : reversalWalk view settings last with
  | reached d =>
    rw [hwalk] at hreversal
    have hreverses : SweepReverses view settings last d := hreversal
    rw [key_of_reversalWalk hlast hwalk]
    refine ⟨fun d' => ?_, fun d' => ?_, fun hnot => absurd hreverses (hnot d)⟩
    · simp only [Prod.mk.injEq, true_and, Option.some.injEq]
      exact ⟨fun heq => heq ▸ hreverses, hreverses.unique⟩
    · simp only [Prod.mk.injEq, reduceCtorEq, false_and, false_iff]
      exact fun h => h.1 d hreverses
  | blocked passed o =>
    rw [hwalk] at hreversal
    have hclosed : Gate.FirstClosed (reversalGates view settings last) passed o := hreversal
    have hnot (d : Direction) : ¬SweepReverses view settings last d :=
      fun h => hclosed.not_open h.gates_open
    cases hwalk' : continuationWalk view last with
    | reached d =>
      rw [hwalk'] at hcontinuation
      have hcontinues : TrendContinues view last d := hcontinuation
      rw [key_of_continuationWalk hlast hwalk hwalk']
      refine ⟨fun d' => ?_, fun d' => ?_, fun _ hnot' => absurd hcontinues (hnot' d)⟩
      · simp [hnot]
      · simp only [Prod.mk.injEq, true_and, Option.some.injEq, hnot, not_false_eq_true,
          implies_true]
        exact ⟨fun heq => heq ▸ hcontinues, hcontinues.unique⟩
    | blocked passed' o' =>
      rw [hwalk'] at hcontinuation
      have hclosed' : Gate.FirstClosed (continuationGates view last) passed' o' := hcontinuation
      have hnot' (d : Direction) : ¬TrendContinues view last d :=
        fun h => hclosed'.not_open h.gates_open
      have hunclear := unclear_of_blocked hlast hwalk hwalk'
      refine ⟨fun d => ?_, fun d => ?_, fun _ _ => ⟨passed, o, passed', o', hclosed, hclosed',
        hunclear⟩⟩
      · simp [hunclear.1, hnot]
      · simp [hunclear.1, hnot']

/-- A bar above the daily range that closes back inside, in a manipulation. -/
def sweptBar : Bar Float :=
  ⟨.ofSeconds 0, 100.0, 102.0, 99.5, 100.0, 1.0⟩

def sweptView : ScenarioView Float where
  bars := [sweptBar]
  structural := Structure.analyze [sweptBar] .standard
  liquidity :=
    { pools := [], magnets := [], phase := .manipulation, tolerance := 0.0, sweeps := [],
      wickClusters := [], phaseReasons := [] }
  zones := { all := [], active := [], counts := ⟨.tally [], .tally [], .tally []⟩, skipped := [] }
  context := { dailyRange := some ⟨101.0, 99.0⟩ }

theorem classify_gates_swept :
    sweptView.bars.getLast? = some sweptBar ∧
      SweepReverses sweptView {} sweptBar .bearish ∧
      (classify sweptView {}).key = (.sweepReversal, some .bearish) := by
  have hlatest : Latest (DailyRange.Exceeded ⟨101.0, 99.0⟩) sweptView.bars 0 sweptBar := by
    refine ⟨rfl, .inl (by decide), fun j y hj hy => ?_⟩
    have hlt : j < 1 := (List.getElem?_eq_some_iff.1 hy).1
    omega
  have hreverses : SweepReverses sweptView {} sweptBar .bearish :=
    ⟨⟨101.0, 99.0⟩, 0, sweptBar, ⟨rfl, by decide, hlatest⟩, by decide, by decide,
      .inr rfl⟩
  exact ⟨rfl, hreverses, ((classify_gates sweptView {} rfl).1 .bearish).2 hreverses⟩

end Scenario

end PriceAction
