import PriceAction.Proofs.Indexed.Pool

/-!
# Magnets, the phase and the liquidity by position

Magnets are marked at their positions in the list of magnets, and the phase looks at the latest bars
and at the bars of the range by position. With the pools they make up the liquidity of a series
(`liquidity?_eq`).
-/

namespace PriceAction.Indexed

variable {α : Type} [Scalar α]

/-! ## Magnets -/

/-- The magnet at one position marked as primary. -/
def markAt? (magnets : List (Magnet α)) (i : Nat) : Option (List (Magnet α)) := do
  let m ← magnets[i]?
  write? magnets i { m with primary := true }

/-- Marks the strongest `most` magnets of primary role. The sort may compare any two of the
candidates, so all of them are read. -/
def markPrimary? (most : Nat) (magnets : List (Magnet α)) : Option (List (Magnet α)) := do
  let places := (magnets.zipIdx.filter fun (m, _) => m.role = .primary).map (·.2)
  let candidates ← places.mapM fun i => do
    let m ← magnets[i]?
    some (m, i)
  let sorted := candidates.mergeSort fun a b => Magnet.notAfter a.1 b.1
  ((sorted.take most).map (·.2)).foldlM markAt? magnets

def magnets? (pools : List (Pool α)) (tolerance : α) (mostPrimary : Nat) :
    Option (List (Magnet α)) :=
  markPrimary? mostPrimary ((clusters (·.price) tolerance pools).filterMap Magnet.ofPools?)

/-! ## The phase -/

/-- The latest recent sweep of the range; the latest bars are read from the newest on. -/
def rangeSweep? (settings : LiquiditySettings α) (view : PhaseView α) (range : TradingRange α) :
    Option (Option (RangeSweep α)) := do
  let first := Phase.recentFrom view.bars.length settings.recentBars
  let byBar ← search? view.bars (fun i bar => Phase.barSweep? settings range bar i)
    (List.range' first (view.bars.length - first)).reverse
  let bySwing := (view.sweeps.reverse.find? fun s =>
    decide (first ≤ s.barIndex) && decide (settings.strongWickShare ≤ s.wickRatio) &&
      near settings.tolerance s.level (range.extreme s.side)).map fun s =>
        (⟨s.side, s.barIndex, s.wickRatio⟩ : RangeSweep α)
  some (byBar.or bySwing)

def manipulation? (settings : LiquiditySettings α) (view : PhaseView α) :
    Option (Option String) :=
  match view.structural.activeRange with
  | none => some none
  | some range => do
    let sweep ← rangeSweep? settings view range
    some (sweep.map fun s =>
      let extreme := match s.side with
        | .bullish => "high"
        | .bearish => "low"
      "range " ++ extreme ++ " swept at bar " ++ toString s.barIndex ++ " with wick ratio " ++
        Scalar.hundredths s.wickRatio)

def accumulation? (view : PhaseView α) : Option (Option String) :=
  match view.structural.activeRange with
  | none => some none
  | some range => do
    let window ← window? view.bars range
    let crosses ← crossings? window range.equilibrium
    some (if range.state = .inside ∧ 2 ≤ view.magnets.length ∧ 2 ≤ crosses then
      some ("inside range with " ++ toString view.magnets.length ++ " magnets and " ++
        toString crosses ++ " equilibrium crosses")
    else none)

/-- The phase and the reason for it; the bars of the range are only looked at last. -/
def phase? (settings : LiquiditySettings α) (view : PhaseView α) :
    Option (Phase × List String) := do
  match ← manipulation? settings view with
  | some reason => some (.manipulation, [reason])
  | none =>
    match Phase.distribution? settings view with
    | some reason => some (.distribution, [reason])
    | none => do
      match ← accumulation? view with
      | some reason => some (.accumulation, [reason])
      | none => some (.unknown, ["no phase condition met"])

/-! ## The liquidity -/

def liquidity? (bars : List (Bar α)) (structural : Structure α) (context : MarketContext α)
    (settings : LiquiditySettings α) : Option (Liquidity α) := do
  let sweeps ← sweeps? bars structural.swings
  let wicks := Pool.wickClusters bars settings
  let found ← pools? bars structural context settings sweeps wicks
  let pools := found.mergeSort Pool.notAfter
  let magnets ← magnets? pools settings.tolerance settings.mostPrimary
  let (phase, reasons) ← phase? settings
    { bars := bars, structural := structural, pools := pools, magnets := magnets, sweeps := sweeps }
  some
    { pools := pools
      magnets := magnets
      phase := phase
      tolerance := settings.tolerance
      sweeps := sweeps
      wickClusters := wicks
      phaseReasons := reasons }

/-! ## Agreement -/

omit [Scalar α] in
/-- Marking position by position marks exactly those positions. -/
theorem foldlM_markAt? {magnets : List (Magnet α)} {places : List Nat}
    (h : ∀ i ∈ places, i < magnets.length) :
    places.foldlM markAt? magnets = some (magnets.zipIdx.map fun (m, i) =>
      if places.contains i then { m with primary := true } else m) := by
  induction places generalizing magnets with
  | nil => simp
  | cons i rest ih =>
    have hi := h i List.mem_cons_self
    have hlength : (magnets.set i { magnets[i] with primary := true }).length = magnets.length :=
      List.length_set
    rw [List.foldlM_cons, markAt?, List.getElem?_eq_getElem hi]
    simp only [Option.bind_eq_bind, Option.bind_some]
    rw [write?_eq hi, Option.bind_some, ih fun j hj => by
      rw [hlength]
      exact h j (List.mem_cons_of_mem i hj)]
    congr 1
    apply List.ext_getElem?
    intro j
    rw [List.getElem?_map, List.getElem?_map, List.getElem?_zipIdx, List.getElem?_zipIdx,
      List.getElem?_set]
    by_cases hij : i = j
    · subst hij
      simp [hi]
    · simp [Function.comp_def, hij, Ne.symm hij]

theorem markPrimary?_eq (most : Nat) (magnets : List (Magnet α)) :
    markPrimary? most magnets = some (Magnet.markPrimary most magnets) := by
  have hread : ∀ p ∈ magnets.zipIdx.filter fun (m, _) => m.role = .primary,
      magnets[p.2]? = some p.1 :=
    fun p hp => getElem?_of_mem_zipIdx (List.mem_of_mem_filter hp)
  rw [markPrimary?]
  dsimp only
  rw [mapM_read_eq hread]
  simp only [Option.bind_eq_bind, Option.bind_some]
  apply foldlM_markAt?
  intro i hi
  obtain ⟨p, hp, rfl⟩ := List.mem_map.1 hi
  have hcandidate := (List.mergeSort_perm _ _).mem_iff.1 (List.mem_of_mem_take hp)
  exact (List.getElem?_eq_some_iff.1 (hread p hcandidate)).1

theorem rangeSweep?_eq (settings : LiquiditySettings α) (view : PhaseView α)
    (range : TradingRange α) :
    rangeSweep? settings view range = some (Phase.rangeSweep? settings view range) := by
  have hpositions (first : Nat) : (List.range' first (view.bars.length - first)).reverse =
      ((view.bars.zipIdx.drop first).reverse).map Prod.snd := by
    rw [List.map_reverse, map_snd_drop_zipIdx]
  rw [rangeSweep?]
  dsimp only
  rw [hpositions, search?_eq_findSome?]
  · rfl
  · intro p hp
    exact getElem?_of_mem_zipIdx (List.mem_of_mem_drop (List.mem_reverse.1 hp))

theorem manipulation?_eq (settings : LiquiditySettings α) (view : PhaseView α) :
    manipulation? settings view = some (Phase.manipulation? settings view) := by
  rw [manipulation?, Phase.manipulation?]
  cases view.structural.activeRange with
  | none => rfl
  | some range =>
    dsimp only
    rw [rangeSweep?_eq]
    rfl

theorem accumulation?_eq {view : PhaseView α} (hbars : view.bars.length ≤ 2 ^ 32)
    (hrange : ∀ r ∈ view.structural.activeRange, r.Placed view.bars) :
    accumulation? view = some (Phase.accumulation? view) := by
  rw [accumulation?, Phase.accumulation?]
  cases h : view.structural.activeRange with
  | none => rfl
  | some range =>
    dsimp only
    rw [window?_eq hbars (hrange range h)]
    simp only [Option.bind_eq_bind, Option.bind_some, crossings?_eq]

theorem phase?_eq (settings : LiquiditySettings α) {view : PhaseView α}
    (hbars : view.bars.length ≤ 2 ^ 32)
    (hrange : ∀ r ∈ view.structural.activeRange, r.Placed view.bars) :
    phase? settings view = some (Phase.classify settings view) := by
  unfold phase? Phase.classify
  rw [manipulation?_eq, accumulation?_eq hbars hrange]
  simp only [Option.bind_eq_bind, Option.bind_some]
  cases Phase.manipulation? settings view with
  | some reason => rfl
  | none =>
    cases Phase.distribution? settings view with
    | some reason => rfl
    | none => cases Phase.accumulation? view <;> rfl

theorem liquidity?_eq {bars : List (Bar α)} (hbars : bars.length ≤ 2 ^ 32)
    {structural : Structure α} (hstructural : structural.Coherent bars)
    (context : MarketContext α) (settings : LiquiditySettings α) :
    liquidity? bars structural context settings =
      some (Liquidity.analyze bars structural context settings) := by
  have hswings : ∀ s ∈ structural.swings, s.index < bars.length := fun s hs =>
    (hstructural.swings s hs).lt_length
  rw [liquidity?, sweeps?_eq hbars hswings]
  simp only [Option.bind_eq_bind, Option.bind_some]
  rw [pools?_eq hbars hstructural context (fun s hs => Sweep.coherent_of_mem_detect hs)
    fun c hc => Pool.coherent_of_mem_wickClusters hc, Option.bind_some, magnets?,
    markPrimary?_eq, Option.bind_some, phase?_eq settings hbars hstructural.range]
  rfl

end PriceAction.Indexed
