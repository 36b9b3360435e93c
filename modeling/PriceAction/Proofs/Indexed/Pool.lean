import Mathlib.Data.List.Infix
import PriceAction.Proofs.Indexed.Range
import PriceAction.Proofs.Liquidity.Pool

/-!
# Pools by position

Pools and sweeps with every bar read at its position. The positions come from the structure, from
the range or from the bars themselves, so all of them lie within the series, and sweeps and pools
are the same (`sweeps?_eq`, `pools?_eq`).
-/

namespace PriceAction.Indexed

variable {α : Type} [Scalar α]

/-! ## Sweeps -/

/-- The bar that closes back: the one through the level, or else the one after it. -/
def reclaim? (bars : List (Bar α)) (side : Direction) (level : α) (j : Nat) (bar : Bar α) :
    Option (Option Nat) :=
  if Sweep.closesBack side level bar then some (some j)
  else do
    let next ← plus? j 1
    if next < bars.length then do
      let after ← bars[next]?
      some (if Sweep.closesBack side level after then some next else none)
    else some none

def sweepOf? (bars : List (Bar α)) (s : Swing α) : Option (Option (Sweep α)) := do
  let side := s.kind.side
  let first ← plus? s.index 1
  let through ← search? bars
    (fun j bar => if side.beyond (bar.extreme side) s.price then some j else none)
    (List.range' first (bars.length - first))
  match through with
  | none => some none
  | some j => do
    let bar ← bars[j]?
    let reclaim ← reclaim? bars side s.price j bar
    some (reclaim.map fun reclaim =>
      { level := s.price
        side := side
        swingIndex := s.index
        barIndex := j
        time := bar.time
        wickRatio := bar.share (bar.wick side)
        reclaimIndex := reclaim })

def sweeps? (bars : List (Bar α)) (swings : List (Swing α)) : Option (List (Sweep α)) := do
  let found ← filterMap? (sweepOf? bars) swings
  some (found.mergeSort Sweep.notAfter)

/-! ## Pools -/

def recency? (index barCount : Nat) : Option α :=
  if barCount < 2 then some 1.0
  else do
    let span ← minus? barCount 1
    some ((index : α) / (span : α))

/-- A pool of equal swings, weighted by how recent its last touch is. -/
def equalPool? (barCount : Nat) (bias : Bias) (kind : SwingKind) (swings : List (Swing α)) :
    Option (Option (Pool α)) :=
  match Pool.ofEqualSwings? barCount bias kind swings with
  | none => some none
  | some p => do
    let recent ← recency? p.lastIndex barCount
    some (some { p with
      strength := Scalar.min (0.25 * (p.touches : α)) 1.0 * (0.5 + 0.5 * recent) })

def equalPools? (bars : List (Bar α)) (swings : List (Swing α)) (bias : Bias)
    (settings : LiquiditySettings α) : Option (List (Pool α)) :=
  gather?
    (fun kind => filterMap? (equalPool? bars.length bias kind)
      (clusters (·.price) settings.tolerance (swings.filter (·.kind = kind))))
    [.high, .low]

/-- The pool at one extreme of a range, given the bars of the range. -/
def rangePool? (bars : List (Bar α)) (range : TradingRange α) (bias : Bias)
    (settings : LiquiditySettings α) (window : List (Bar α)) (side : Direction) :
    Option (Option (Pool α)) := do
  let price := range.extreme side
  let near := window.zipIdx.filter fun (bar, _) =>
    near settings.tolerance (bar.extreme side) price
  let touching ← near.mapM fun (_, offset) => plus? range.startIndex offset
  match touching.head?, touching.getLast? with
  | some firstIndex, some lastIndex => do
    let first ← bars[firstIndex]?
    let last ← bars[lastIndex]?
    some (some
      { kind := .rangeExtreme
        price := price
        direction := side
        role := .relative side bias
        strength := 0.8
        touches := touching.length
        firstTouch := first.time
        lastTouch := last.time
        firstIndex := firstIndex
        lastIndex := lastIndex
        session := none })
  | _, _ => some none

/-- The pools at the extremes of the range, if there is one. -/
def rangePools? (bars : List (Bar α)) (bias : Bias) (settings : LiquiditySettings α) :
    Option (TradingRange α) → Option (List (Pool α))
  | some range => do
    let window ← window? bars range
    filterMap? (rangePool? bars range bias settings window) [.bullish, .bearish]
  | none => some []

def sweepPool? (bars : List (Bar α)) (bias : Bias) (s : Sweep α) : Option (Pool α) := do
  let swept ← bars[s.swingIndex]?
  some { Pool.ofSweep bars bias s with firstTouch := swept.time }

def wickPool? (bars : List (Bar α)) (bias : Bias) (c : WickCluster α) :
    Option (Option (Pool α)) :=
  match Pool.ofWickCluster? bars bias c with
  | none => some none
  | some p => do
    let first ← bars[p.firstIndex]?
    let last ← bars[p.lastIndex]?
    some (some { p with firstTouch := first.time, lastTouch := last.time })

def pools? (bars : List (Bar α)) (structural : Structure α) (context : MarketContext α)
    (settings : LiquiditySettings α) (sweeps : List (Sweep α)) (wicks : List (WickCluster α)) :
    Option (List (Pool α)) := do
  let bias := structural.bias
  let equal ← equalPools? bars structural.swings bias settings
  let extremes ← rangePools? bars bias settings structural.activeRange
  let swept ← sweeps.mapM (sweepPool? bars bias)
  let clustered ← filterMap? (wickPool? bars bias) wicks
  some (equal ++ (Pool.trendLiquidity? structural).toList ++ extremes ++ swept ++ clustered ++
    Pool.sessionExtremes bars context.sessions bias)

/-! ## Agreement -/

variable {bars : List (Bar α)} {bias : Bias} {settings : LiquiditySettings α}

theorem findSome?_zipIdx_eq_firstThrough? (side : Direction) (level : α) (i : Nat)
    (bars : List (Bar α)) :
    ((bars.zipIdx i).findSome? fun p =>
        if side.beyond (p.1.extreme side) level then some p.2 else none) =
      (Sweep.firstThrough? side level i bars).map (·.1) := by
  induction bars generalizing i with
  | nil => rfl
  | cons bar rest ih =>
    rw [List.zipIdx_cons, List.findSome?_cons, Sweep.firstThrough?]
    dsimp only
    split_ifs with h
    · rfl
    · exact ih (i + 1)

theorem reclaim?_eq (hbars : bars.length ≤ 2 ^ 32) {side : Direction} {level : α} {j : Nat}
    {bar : Bar α} {after : List (Bar α)} (h : bars.drop j = bar :: after) :
    reclaim? bars side level j bar = some (
      if Sweep.closesBack side level bar then some j
      else if (after.head?.map (Sweep.closesBack side level)).getD false then some (j + 1)
      else none) := by
  have hlength : bars.length - j = after.length + 1 := by
    rw [← List.length_drop, h, List.length_cons]
  have hafter : bars[j + 1]? = after.head? := by
    rw [← List.head?_drop, ← List.drop_drop, h]
    rfl
  rw [reclaim?]
  split
  · rfl
  · rw [plus?_eq (by omega)]
    simp only [Option.bind_eq_bind, Option.bind_some, hafter]
    cases after with
    | nil =>
      rw [if_neg (by simp at hlength; omega)]
      rfl
    | cons next rest =>
      rw [if_pos (by simp at hlength; omega)]
      rfl

theorem sweepOf?_eq (hbars : bars.length ≤ 2 ^ 32) {s : Swing α} (hs : s.index < bars.length) :
    sweepOf? bars s = some (Sweep.ofSwing? bars s) := by
  have hpositions : List.range' (s.index + 1) (bars.length - (s.index + 1)) =
      ((bars.drop (s.index + 1)).zipIdx (s.index + 1)).map Prod.snd := by
    rw [List.zipIdx_map_snd, List.length_drop]
  have hread : ∀ p ∈ (bars.drop (s.index + 1)).zipIdx (s.index + 1), bars[p.2]? = some p.1 :=
    fun p hp => getElem?_of_mem_zipIdx_of_prefix (List.prefix_refl _) hp
  rw [sweepOf?, plus?_eq (by omega)]
  simp only [Option.bind_eq_bind, Option.bind_some]
  rw [hpositions, search?_eq_findSome? hread, Option.bind_some,
    findSome?_zipIdx_eq_firstThrough?, Sweep.ofSwing?]
  cases hthrough : Sweep.firstThrough? s.kind.side s.price (s.index + 1)
      (bars.drop (s.index + 1)) with
  | none => rfl
  | some found =>
    obtain ⟨j, bar, after⟩ := found
    obtain ⟨hle, hdrop⟩ := Sweep.drop_of_firstThrough? hthrough
    rw [List.drop_drop, Nat.add_sub_cancel' hle] at hdrop
    have hget : bars[j]? = some bar := by
      rw [← List.head?_drop, hdrop, List.head?_cons]
    dsimp only [Option.map_some]
    rw [hget, Option.bind_some, reclaim?_eq hbars hdrop]
    rfl

theorem sweeps?_eq (hbars : bars.length ≤ 2 ^ 32) {swings : List (Swing α)}
    (h : ∀ s ∈ swings, s.index < bars.length) :
    sweeps? bars swings = some (Sweep.detect bars swings) := by
  rw [sweeps?, filterMap?_eq_filterMap fun s hs => sweepOf?_eq hbars (h s hs)]
  rfl

theorem recency?_eq (index barCount : Nat) :
    recency? (α := α) index barCount = some (Pool.recency index barCount) := by
  rw [recency?, Pool.recency]
  split
  · rfl
  · rw [minus?_eq (by omega)]
    rfl

theorem equalPool?_eq (barCount : Nat) (bias : Bias) (kind : SwingKind) (swings : List (Swing α)) :
    equalPool? barCount bias kind swings =
      some (Pool.ofEqualSwings? barCount bias kind swings) := by
  rw [equalPool?]
  cases h : Pool.ofEqualSwings? barCount bias kind swings with
  | none => rfl
  | some p =>
    dsimp only
    rw [recency?_eq]
    rw [Pool.ofEqualSwings?] at h
    split at h
    · cases (Option.ite_none_left_eq_some.1 h).2
      rfl
    · cases h

theorem equalPools?_eq (swings : List (Swing α)) :
    equalPools? bars swings bias settings =
      some (Pool.equalLevels bars swings bias settings) := by
  apply gather?_eq_flatMap
  intro kind _
  exact filterMap?_eq_filterMap fun group _ => equalPool?_eq _ _ _ group

omit [Scalar α] in
theorem mapM_plus?_eq (start : Nat) (stretch : List (Bar α)) (p : Bar α → Bool)
    (h : start + stretch.length < 2 ^ 64) :
    (stretch.zipIdx.filter fun x => p x.1).mapM (fun x => plus? start x.2) =
      some (((stretch.zipIdx start).filter fun x => p x.1).map Prod.snd) := by
  rw [mapM_eq_map (f := fun x => start + x.2), List.zipIdx_eq_map_add (i := start),
    List.filter_map, List.map_map]
  · rfl
  · intro x hx
    have hlt := (List.mem_zipIdx (List.mem_of_mem_filter hx)).2.1
    exact plus?_eq (by omega)

theorem rangePool?_eq (hbars : bars.length ≤ 2 ^ 32) {range : TradingRange α}
    (hrange : range.Placed bars) (side : Direction) :
    rangePool? bars range bias settings (range.window bars) side =
      some (Pool.ofRange? bars range bias settings side) := by
  have hstop := hrange.stopIndex_eq
  have hstart := hrange.startIndex_le
  have hwindow : range.startIndex + (range.window bars).length < 2 ^ 64 := by
    rw [TradingRange.window, List.length_drop, List.length_take]
    omega
  have hplaces := mapM_plus?_eq range.startIndex (range.window bars)
    (fun bar => near settings.tolerance (bar.extreme side) (range.extreme side)) hwindow
  rw [rangePool?, Pool.ofRange?]
  dsimp only
  rw [hplaces]
  -- the bars that come near, with their positions in the series
  generalize htouching : ((range.window bars).zipIdx range.startIndex).filter
    (fun p => near settings.tolerance (p.1.extreme side) (range.extreme side)) = touching
  have hread : ∀ p ∈ touching, bars[p.2]? = some p.1 := by
    intro p hp
    rw [← htouching] at hp
    exact getElem?_of_mem_zipIdx_of_prefix (List.IsPrefix.drop (List.take_prefix ..) _)
      (List.mem_of_mem_filter hp)
  simp only [Option.bind_eq_bind, Option.bind_some, List.head?_map, List.getLast?_map,
    List.length_map]
  cases hfirst : touching.head? with
  | none => rfl
  | some first =>
    cases hlast : touching.getLast? with
    | none => rfl
    | some last =>
      simp only [Option.map_some, hread first (List.mem_of_mem_head? hfirst),
        hread last (List.mem_of_getLast? hlast), Option.bind_some]

theorem rangePools?_eq (hbars : bars.length ≤ 2 ^ 32) (range : Option (TradingRange α)) :
    (∀ r ∈ range, r.Placed bars) → rangePools? bars bias settings range = some (match range with
      | some range => Pool.rangeExtremes bars range bias settings
      | none => []) := by
  intro hrange
  cases range with
  | none => rfl
  | some range =>
    have hplaced := hrange range rfl
    rw [rangePools?, window?_eq hbars hplaced]
    exact filterMap?_eq_filterMap fun side _ => rangePool?_eq hbars hplaced side

theorem sweepPool?_eq {s : Sweep α} (h : s.Coherent bars) :
    sweepPool? bars bias s = some (Pool.ofSweep bars bias s) := by
  have hswing : s.swingIndex < bars.length := h.swingIndex_lt.trans h.dated.lt_length
  rw [sweepPool?, Pool.ofSweep, Pool.timeAt, List.getElem?_eq_getElem hswing]
  rfl

theorem wickPool?_eq {c : WickCluster α} (h : c.Coherent bars) :
    wickPool? bars bias c = some (Pool.ofWickCluster? bars bias c) := by
  rw [wickPool?]
  cases hpool : Pool.ofWickCluster? bars bias c with
  | none => rfl
  | some p =>
    obtain ⟨first, hfirst, hfirst_time⟩ := (Pool.coherent_ofWickCluster? h hpool).first
    obtain ⟨last, hlast, hlast_time⟩ := (Pool.coherent_ofWickCluster? h hpool).last
    dsimp only
    simp only [hfirst, hlast, Option.bind_eq_bind, Option.bind_some, hfirst_time, hlast_time]

theorem pools?_eq (hbars : bars.length ≤ 2 ^ 32) {structural : Structure α}
    (hstructural : structural.Coherent bars) (context : MarketContext α)
    {sweeps : List (Sweep α)} (hsweeps : ∀ s ∈ sweeps, s.Coherent bars)
    {wicks : List (WickCluster α)} (hwicks : ∀ c ∈ wicks, c.Coherent bars) :
    pools? bars structural context settings sweeps wicks =
      some (Liquidity.poolsByKind bars structural context settings sweeps wicks) := by
  rw [pools?, equalPools?_eq, rangePools?_eq hbars _ hstructural.range,
    mapM_eq_map fun s hs => sweepPool?_eq (hsweeps s hs),
    filterMap?_eq_filterMap fun c hc => wickPool?_eq (hwicks c hc)]
  rfl

end PriceAction.Indexed
