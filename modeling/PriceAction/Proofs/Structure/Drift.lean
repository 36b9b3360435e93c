import Mathlib.Algebra.Order.BigOperators.Group.List
import PriceAction.Proofs.Bounds.Structure
import PriceAction.Proofs.Extreme
import PriceAction.Proofs.Snapshot.Gating
import PriceAction.Proofs.Structure.Window
import PriceAction.Settings.Validation

/-!
# Series that only drift

The way from the first close to the last is the sum of the steps between closes, and the path is the
sum of their lengths. They are equal exactly if no step goes back (`abs_sum_eq_sum_abs_iff`), and
then the drift is fully efficient (`efficiency_eq_one_iff`). A series whose bars all move one way has
no swing (`Swing.detect_eq_nil_of_advances`), so its trend is read off its drift
(`Structure.analyze_drifting`).
-/

namespace PriceAction

/-! ## Sums of steps -/

section Sums

variable {xs : List Rat}

theorem sum_eq_sum_abs_iff : xs.sum = (xs.map (|·|)).sum ↔ ∀ x ∈ xs, 0 ≤ x := by
  constructor
  · intro h x hx
    by_contra hneg
    have hlt := List.sum_lt_sum (l := xs) id (|·|) (fun y _ => le_abs_self y)
      ⟨x, hx, (not_le.1 hneg).trans_le (abs_nonneg x)⟩
    rw [List.map_id] at hlt
    exact hlt.ne h
  · intro h
    conv_lhs => rw [← List.map_id xs]
    exact congrArg List.sum (List.map_congr_left fun x hx => (abs_of_nonneg (h x hx)).symm)

theorem abs_sum_eq_sum_abs_iff :
    |xs.sum| = (xs.map (|·|)).sum ↔ (∀ x ∈ xs, 0 ≤ x) ∨ ∀ x ∈ xs, x ≤ 0 := by
  have hopposite : -xs.sum = (xs.map (|·|)).sum ↔ ∀ x ∈ xs, x ≤ 0 := by
    have hneg := @sum_eq_sum_abs_iff (xs.map (-·))
    rw [List.forall_mem_map, List.map_map, ← List.sum_neg] at hneg
    simpa only [Function.comp_def, abs_neg, Left.nonneg_neg_iff] using hneg
  have hlength : 0 ≤ (xs.map (|·|)).sum := List.sum_nonneg (by simp)
  rw [abs_eq hlength, sum_eq_sum_abs_iff, ← neg_eq_iff_eq_neg, hopposite]

theorem sum_abs_pos_iff : 0 < (xs.map (|·|)).sum ↔ ∃ x ∈ xs, x ≠ 0 := by
  constructor
  · contrapose!
    intro hzero
    exact (List.sum_eq_zero (List.forall_mem_map.2 fun x hx => abs_eq_zero.2 (hzero x hx))).le
  · rintro ⟨x, hx, hne⟩
    calc 0 < |x| := abs_pos.2 hne
      _ ≤ _ := List.single_le_sum (by simp) _ (List.mem_map_of_mem hx)

end Sums

/-! ## Steps between closes -/

/-- The steps from each close to the next. -/
def closeSteps (bars : List (Bar Rat)) : List Rat :=
  (adjacent bars).map fun (a, b) => b.close - a.close

theorem closeSteps_cons_cons (a b : Bar Rat) (rest : List (Bar Rat)) :
    closeSteps (a :: b :: rest) = (b.close - a.close) :: closeSteps (b :: rest) := rfl

theorem sum_closeSteps {first last : Bar Rat} {rest : List (Bar Rat)}
    (h : (first :: rest).getLast? = some last) :
    (closeSteps (first :: rest)).sum = last.close - first.close := by
  induction rest generalizing first with
  | nil =>
    cases h
    simp [closeSteps, adjacent]
  | cons second rest ih =>
    rw [List.getLast?_cons_cons] at h
    rw [closeSteps_cons_cons, List.sum_cons, ih h]
    exact sub_add_sub_cancel' ..

theorem forall_mem_closeSteps_iff {p : Rat → Prop} {bars : List (Bar Rat)} :
    (∀ x ∈ closeSteps bars, p x) ↔ bars.IsChain fun a b => p (b.close - a.close) := by
  induction bars with
  | nil => simp [closeSteps, adjacent]
  | cons a rest ih =>
    cases rest with
    | nil => simp [closeSteps, adjacent]
    | cons b rest => rw [closeSteps_cons_cons, List.forall_mem_cons, ih, List.isChain_cons_cons]

theorem forall_closeSteps_iff_pairwise {r : Rat → Rat → Prop} [IsTrans Rat r] {p : Rat → Prop}
    (hp : ∀ x y, p (y - x) ↔ r x y) {bars : List (Bar Rat)} :
    (∀ x ∈ closeSteps bars, p x) ↔ bars.Pairwise fun a b => r a.close b.close := by
  have : IsTrans (Bar Rat) fun a b => r a.close b.close := ⟨fun _ _ _ => trans_of r⟩
  rw [forall_mem_closeSteps_iff, ← List.isChain_iff_pairwise]
  simp only [hp]

/-- Whether some closes differ. -/
def Moves (bars : List (Bar Rat)) : Prop :=
  ∃ a ∈ bars, ∃ b ∈ bars, a.close ≠ b.close

theorem moves_iff {bars : List (Bar Rat)} : Moves bars ↔ ∃ x ∈ closeSteps bars, x ≠ 0 := by
  rw [← not_iff_not]
  have hsteady : (∀ x ∈ closeSteps bars, x = 0) ↔ bars.Pairwise fun a b => a.close = b.close :=
    forall_closeSteps_iff_pairwise fun x y => sub_eq_zero.trans eq_comm
  have : Std.Symm fun a b : Bar Rat => a.close = b.close := ⟨fun _ _ => Eq.symm⟩
  simp only [Moves, not_exists, not_and, not_not, hsteady]
  constructor
  · exact fun h => List.pairwise_of_forall_mem_list h
  · exact fun h a ha b hb =>
      h.forall_of_forall (R := fun a b : Bar Rat => a.close = b.close) (fun _ _ => rfl) ha hb

/-! ## The drift -/

theorem sum_path_eq (bars : List (Bar Rat)) :
    Scalar.sum ((adjacent bars).map fun (a, b) => Scalar.abs (b.close - a.close)) =
      ((closeSteps bars).map (|·|)).sum := by
  rw [Scalar.sum_eq, closeSteps, List.map_map]
  exact congrArg List.sum (List.map_congr_left fun _ _ => Scalar.abs_eq _)

theorem closeDrift?_eq_some_iff {bars : List (Bar Rat)} {d : Drift Rat} :
    closeDrift? bars = some d ↔ 3 ≤ bars.length ∧ Moves bars ∧
      ⟨(closeSteps bars).sum, |(closeSteps bars).sum| / ((closeSteps bars).map (|·|)).sum⟩ = d := by
  cases bars with
  | nil => simp [closeDrift?]
  | cons first rest =>
    obtain ⟨last, hlast⟩ : ∃ last, (first :: rest).getLast? = some last :=
      ⟨_, List.getLast?_eq_some_getLast (List.cons_ne_nil first rest)⟩
    rw [moves_iff, ← sum_abs_pos_iff, sum_closeSteps hlast, closeDrift?, List.head?_cons, hlast]
    dsimp only
    rw [sum_path_eq, Scalar.zero_eq, Scalar.abs_eq, Option.ite_none_left_eq_some,
      Option.ite_none_left_eq_some, Option.some.injEq, Nat.not_lt, not_le]

/-- A drift is fully efficient exactly if no close goes back. -/
theorem efficiency_eq_one_iff {bars : List (Bar Rat)} {d : Drift Rat}
    (h : closeDrift? bars = some d) :
    d.efficiency = 1 ↔ bars.Pairwise (fun a b => a.close ≤ b.close) ∨
      bars.Pairwise fun a b => b.close ≤ a.close := by
  obtain ⟨-, hmoves, rfl⟩ := closeDrift?_eq_some_iff.1 h
  have hpath := sum_abs_pos_iff.2 (moves_iff.1 hmoves)
  dsimp only
  rw [div_eq_one_iff_eq hpath.ne', abs_sum_eq_sum_abs_iff,
    forall_closeSteps_iff_pairwise (r := (· ≤ ·)) fun _ _ => sub_nonneg,
    forall_closeSteps_iff_pairwise (r := (· ≥ ·)) fun _ _ => sub_nonpos]

/-! ## Series that go one way -/

/-- Whether every bar lies beyond all earlier ones in a direction, with its high, its low and its
close. -/
def Direction.Advances {α : Type} [Scalar α] (d : Direction) (bars : List (Bar α)) : Prop :=
  bars.Pairwise fun a b => (∀ side, d.beyond (b.extreme side) (a.extreme side) = true) ∧
    d.beyond b.close a.close = true

section Lawful

variable {α : Type} [Scalar α] {d : Direction} {bars : List (Bar α)} {i j : Nat} {a b : Bar α}

theorem Direction.Advances.beyond (h : d.Advances bars) (hij : i < j) (ha : bars[i]? = some a)
    (hb : bars[j]? = some b) (side : Direction) :
    d.beyond (b.extreme side) (a.extreme side) = true := by
  obtain ⟨hi, rfl⟩ := List.getElem?_eq_some_iff.1 ha
  obtain ⟨hj, rfl⟩ := List.getElem?_eq_some_iff.1 hb
  exact (List.pairwise_iff_getElem.1 h i j hi hj hij).1 side

/-- The bar after goes beyond on the one side, and the bar before did on the other. -/
theorem Swing.detect_eq_nil_of_advances [LawfulScalar α] (h : d.Advances bars) (window cap : Nat) :
    detect bars window cap = [] := by
  rcases Nat.eq_zero_or_pos window with rfl | hwindow
  · rfl
  rw [List.eq_nil_iff_forall_not_mem]
  intro s hs
  obtain ⟨hle, hlt, bar, hbar, hbefore, hafter⟩ := (standsOut_of_mem_detect hs).1
  by_cases hside : s.kind.side = d
  · have hnext := List.getElem?_eq_getElem (show s.index + 1 < bars.length by omega)
    have hbeyond := h.beyond (Nat.lt_succ_self _) hbar hnext s.kind.side
    have hshort := hafter (s.index + 1) _ (by omega) (by omega) hnext
    rw [SwingKind.beyond, SwingKind.price, SwingKind.price, hside] at hshort
    rw [hside, hshort] at hbeyond
    cases hbeyond
  · have hside : s.kind.side = d.opposite := Direction.eq_opposite_of_ne hside
    have hprevious := List.getElem?_eq_getElem (show s.index - 1 < bars.length by omega)
    have hbeyond := h.beyond (show s.index - 1 < s.index by omega) hprevious hbar s.kind.side
    have hout := hbefore (s.index - 1) _ (by omega) (by omega) hprevious
    rw [SwingKind.beyond, SwingKind.price, SwingKind.price, hside, Direction.opposite_beyond] at hout
    rw [hside, Direction.not_beyond_of_beyond hout] at hbeyond
    cases hbeyond

end Lawful

/-! ## Their structure -/

def Trend.ofDirection : Direction → Trend
  | .bullish => .up
  | .bearish => .down

namespace Structure

/-- Whether a structure has no pivots and takes its trend and its bias from the drift. -/
structure DriftsOnly (s : Structure Rat) (d : Direction) : Prop where
  swings : s.swings = []
  legs : s.legs = []
  breaks : s.breaks = []
  retracements : s.retracements = []
  trend : s.trend = .ofDirection d
  source : s.details.trendSource = .drift
  bias : s.bias = .ofDirection d

variable {settings : Settings Rat} {bars : List (Bar Rat)} {d : Direction}

theorem pairwise_close_of_advances (h : d.Advances bars) :
    bars.Pairwise (fun a b => a.close ≤ b.close) ∨ bars.Pairwise fun a b => b.close ≤ a.close := by
  cases d with
  | bullish => exact .inl (h.imp fun hab => (of_decide_eq_true hab.2).le)
  | bearish => exact .inr (h.imp fun hab => (of_decide_eq_true hab.2).le)

/-- The drift of a series that goes one way goes there, and is fully efficient. -/
theorem exists_closeDrift? (hlength : 3 ≤ bars.length) (h : d.Advances bars) :
    ∃ drift, closeDrift? bars = some drift ∧ drift.efficiency = 1 ∧
      (if 0 < drift.net then Trend.up else .down) = .ofDirection d := by
  cases bars with
  | nil => cases hlength
  | cons first rest =>
    obtain ⟨last, hlast⟩ : ∃ last, (first :: rest).getLast? = some last :=
      ⟨_, List.getLast?_eq_some_getLast (List.cons_ne_nil first rest)⟩
    have hne : rest ≠ [] := by
      rintro rfl
      simp at hlength
    have hmem : last ∈ rest := by
      rw [List.getLast?_cons_of_ne_nil hne] at hlast
      exact List.mem_of_getLast? hlast
    have hbeyond : d.beyond last.close first.close = true :=
      ((List.pairwise_cons.1 h).1 last hmem).2
    have hmoves : Moves (first :: rest) := by
      refine ⟨first, List.mem_cons_self, last, List.mem_cons_of_mem first hmem, fun heq => ?_⟩
      rw [heq, Direction.beyond_self] at hbeyond
      cases hbeyond
    have hdrift := closeDrift?_eq_some_iff.2 ⟨hlength, hmoves, rfl⟩
    refine ⟨_, hdrift, (efficiency_eq_one_iff hdrift).2 (pairwise_close_of_advances h), ?_⟩
    dsimp only
    rw [sum_closeSteps hlast]
    cases d with
    | bullish => exact if_pos (sub_pos.2 (of_decide_eq_true hbeyond))
    | bearish => exact if_neg (not_lt.2 (sub_nonpos.2 (of_decide_eq_true hbeyond).le))

theorem driftsOnly_analyze (hlength : 3 ≤ bars.length) (h : d.Advances bars)
    (hefficiency : settings.structural.driftEfficiency ≤ 1) :
    (analyze bars settings).DriftsOnly d := by
  have hswings : (analyze bars settings).swings = [] := Swing.detect_eq_nil_of_advances h ..
  have hlegs : (analyze bars settings).legs = [] := congrArg Leg.ofSwings hswings
  have hbreaks : (analyze bars settings).breaks = [] := by
    rw [breaks_analyze, hlegs]
    split <;> rfl
  have hretracements : (analyze bars settings).retracements = [] := by
    rw [List.eq_nil_iff_forall_not_mem]
    intro z hz
    obtain ⟨leg, hleg, -⟩ := exists_of_mem_retracements hz
    rw [hlegs] at hleg
    cases hleg
  obtain ⟨drift, hdrift, hfull, hnet⟩ := exists_closeDrift? hlength h
  have htrend : trendOf settings.structural (Leg.labels (analyze bars settings).legs)
      (closeDrift? bars) = (.ofDirection d, .drift) := by
    rw [hlegs, hdrift, ← hnet]
    show (if settings.structural.driftEfficiency ≤ drift.efficiency then _ else _) = _
    rw [if_pos (hfull ▸ hefficiency), Scalar.zero_eq]
  have hdirection : (analyze bars settings).trend = .ofDirection d := congrArg Prod.fst htrend
  refine ⟨hswings, hlegs, hbreaks, hretracements, hdirection, congrArg Prod.snd htrend, ?_⟩
  rw [bias_of_breaks_eq_nil hbreaks, hdirection]
  cases d <;> rfl

/-- **Series that go one way have a trend and no structure.** If the highs, the lows and the closes
of three bars or more all rise or all fall, there is no swing, leg, break or band, and the trend and
the bias are those of the drift, whatever the window, as long as the bars that the settings call for
can be counted. A series has a drift exactly if it is long enough and its closes differ somewhere;
its efficiency is at most one, and it is one exactly if the closes never go back. -/
theorem analyze_drifting :
    (∀ (settings : Settings Rat) (d : Direction) (bars : List (Bar Rat)), 3 ≤ bars.length →
      d.Advances bars → settings.structural.driftEfficiency ≤ 1 → settings.Countable →
        ∃ s, analyze? bars settings = some s ∧ s.DriftsOnly d) ∧
      ∀ bars : List (Bar Rat),
        ((closeDrift? bars).isSome = true ↔ 3 ≤ bars.length ∧ Moves bars) ∧
        ∀ drift ∈ closeDrift? bars, drift.efficiency ≤ 1 ∧
          (drift.efficiency = 1 ↔
            (bars.Pairwise (fun a b => a.close ≤ b.close) ∨
              bars.Pairwise fun a b => b.close ≤ a.close) ∧ Moves bars) := by
  refine ⟨fun settings d bars hlength h hefficiency hcount => ?_,
    fun bars => ⟨?_, fun drift hdrift => ?_⟩⟩
  · exact ⟨analyze bars settings, if_pos hcount, driftsOnly_analyze hlength h hefficiency⟩
  · rw [Option.isSome_iff_exists]
    constructor
    · rintro ⟨drift, hdrift⟩
      obtain ⟨hlength, hmoves, -⟩ := closeDrift?_eq_some_iff.1 hdrift
      exact ⟨hlength, hmoves⟩
    · rintro ⟨hlength, hmoves⟩
      exact ⟨_, closeDrift?_eq_some_iff.2 ⟨hlength, hmoves, rfl⟩⟩
  · obtain ⟨-, hmoves, -⟩ := closeDrift?_eq_some_iff.1 hdrift
    refine ⟨(efficiency_mem_of_closeDrift? hdrift).2, ?_⟩
    rw [efficiency_eq_one_iff hdrift, and_iff_left hmoves]

/-- Three bars, each a step above the one before. -/
def steppingBars : List (Bar Rat) :=
  [(100, 102, 99, 101), (101, 103, 100, 102), (102, 106, 101, 105)].zipIdx.map
    fun ((opening, high, low, close), i) => ⟨.ofSeconds (60 * i), opening, high, low, close, 100⟩

theorem advances_steppingBars : Direction.bullish.Advances steppingBars := by
  have hsides : steppingBars.Pairwise fun a b =>
      ([Direction.bullish, .bearish].all fun side =>
          Direction.bullish.beyond (b.extreme side) (a.extreme side)) = true ∧
        Direction.bullish.beyond b.close a.close = true := by decide
  refine hsides.imp fun ⟨hside, hclose⟩ => ⟨fun side => ?_, hclose⟩
  exact List.all_eq_true.1 hside side (by cases side <;> simp)

theorem analyze_drifting_stepping :
    3 ≤ steppingBars.length ∧ Direction.bullish.Advances steppingBars ∧
      (Settings.standard : Settings Rat).structural.driftEfficiency ≤ 1 ∧
      (Settings.standard : Settings Rat).Countable ∧
      ∃ s, analyze? steppingBars Settings.standard = some s ∧ s.DriftsOnly .bullish := by
  have hlength : 3 ≤ steppingBars.length := by decide
  have hefficiency : (Settings.standard : Settings Rat).structural.driftEfficiency ≤ 1 := by
    decide +kernel
  have hcount : (Settings.standard : Settings Rat).Countable := by decide
  exact ⟨hlength, advances_steppingBars, hefficiency, hcount, analyze_drifting.1 Settings.standard
    .bullish steppingBars hlength advances_steppingBars hefficiency hcount⟩

/-- Valid settings with the window, the period or the least number of bars of a range so large that a
word cannot count the bars they call for. -/
def uncountable : List (Settings Rat) :=
  [{ Settings.standard with swing := { window := pow2 63 } },
    { Settings.standard with
      structural := { StructureSettings.standard with volatilityPeriod := pow2 64 - 1 } },
    { Settings.standard with range := { leastBars := pow2 64 - 1 } }]

theorem not_analyze_drifting_uncountable :
    3 ≤ steppingBars.length ∧ Direction.bullish.Advances steppingBars ∧
      ∀ settings ∈ uncountable, settings.fault?.isNone ∧
        settings.structural.driftEfficiency ≤ 1 ∧
        ¬∃ s, analyze? steppingBars settings = some s ∧ s.DriftsOnly .bullish := by
  refine ⟨by decide, advances_steppingBars, fun settings hsettings => ?_⟩
  have hvalid : ∀ settings ∈ uncountable, settings.fault?.isNone ∧
      settings.structural.driftEfficiency ≤ 1 ∧ ¬settings.Countable := by decide +kernel
  obtain ⟨hfault, hefficiency, hcount⟩ := hvalid settings hsettings
  refine ⟨hfault, hefficiency, ?_⟩
  rintro ⟨s, hs, -⟩
  rw [analyze?, if_neg hcount] at hs
  cases hs

end Structure

end PriceAction
