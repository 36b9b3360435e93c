import PriceAction.Liquidity.State
import PriceAction.Proofs.Sorting

/-!
# Pools without a bias

The bias settles the role of every pool, and it adds one pool of its own, the trend liquidity. All
the others are listed in one order under every bias, with everything but their roles
(`Liquidity.unbiased_pools_congr`).
-/

namespace PriceAction

variable {α : Type} [Scalar α]

namespace Pool

/-- The pool with its role left open. -/
def withoutRole (p : Pool α) : Pool α := { p with role := .neutral }

/-- The pools that need no bias, with their roles left open. -/
def unbiased (pools : List (Pool α)) : List (Pool α) :=
  (pools.filter (·.kind ≠ .trendLiquidity)).map withoutRole

/-! ## Parts of a list -/

omit [Scalar α] in
theorem unbiased_append (pools pools' : List (Pool α)) :
    unbiased (pools ++ pools') = unbiased pools ++ unbiased pools' := by
  rw [unbiased, List.filter_append, List.map_append]
  rfl

omit [Scalar α] in
theorem unbiased_filterMap_congr {β : Type} {f g : β → Option (Pool α)}
    (h : ∀ x, unbiased (f x).toList = unbiased (g x).toList) (xs : List β) :
    unbiased (xs.filterMap f) = unbiased (xs.filterMap g) := by
  induction xs with
  | nil => rfl
  | cons x rest ih =>
    have hcons (f : β → Option (Pool α)) :
        (x :: rest).filterMap f = (f x).toList ++ rest.filterMap f := by
      rw [List.filterMap_cons]
      cases f x <;> rfl
    rw [hcons, hcons, unbiased_append, unbiased_append, h, ih]

omit [Scalar α] in
theorem unbiased_flatMap_congr {β : Type} {f g : β → List (Pool α)}
    (h : ∀ x, unbiased (f x) = unbiased (g x)) (xs : List β) :
    unbiased (xs.flatMap f) = unbiased (xs.flatMap g) := by
  induction xs with
  | nil => rfl
  | cons x rest ih =>
    rw [List.flatMap_cons, List.flatMap_cons, unbiased_append, unbiased_append, h, ih]

/-! ## Each kind of pool -/

variable {bars : List (Bar α)} {settings : LiquiditySettings α} {bias bias' : Bias}

theorem unbiased_equalLevels (swings : List (Swing α)) :
    unbiased (equalLevels bars swings bias settings) =
      unbiased (equalLevels bars swings bias' settings) := by
  refine unbiased_flatMap_congr (fun kind => unbiased_filterMap_congr (fun group => ?_) _) _
  rw [ofEqualSwings?, ofEqualSwings?]
  split
  · split
    · rfl
    · cases kind <;> rfl
  · rfl

theorem unbiased_trendLiquidity? (structural : Structure α) :
    unbiased (trendLiquidity? structural).toList = [] := by
  cases h : trendLiquidity? structural with
  | none => rfl
  | some p =>
    obtain ⟨d, -, hswing⟩ := Option.bind_eq_some_iff.1 h
    obtain ⟨swing, -, hp⟩ := Option.bind_eq_some_iff.1 hswing
    cases hp
    rfl

theorem unbiased_rangeExtremes (range : TradingRange α) :
    unbiased (rangeExtremes bars range bias settings) =
      unbiased (rangeExtremes bars range bias' settings) := by
  refine unbiased_filterMap_congr (fun side => ?_) _
  rw [ofRange?, ofRange?]
  dsimp only
  split <;> rfl

theorem unbiased_sweeps (sweeps : List (Sweep α)) :
    unbiased (sweeps.map (ofSweep bars bias)) = unbiased (sweeps.map (ofSweep bars bias')) := by
  rw [← List.filterMap_eq_map, ← List.filterMap_eq_map]
  refine unbiased_filterMap_congr (fun _ => ?_) sweeps
  rfl

theorem unbiased_wickClusters (wicks : List (WickCluster α)) :
    unbiased (wicks.filterMap (ofWickCluster? bars bias)) =
      unbiased (wicks.filterMap (ofWickCluster? bars bias')) := by
  refine unbiased_filterMap_congr (fun c => ?_) _
  rw [ofWickCluster?, ofWickCluster?]
  cases c.barIndices.head? with
  | none => rfl
  | some first => cases c.barIndices.getLast? <;> rfl

theorem unbiased_sessionExtremes (sessions : List Session) :
    unbiased (sessionExtremes bars sessions bias) =
      unbiased (sessionExtremes bars sessions bias') := by
  refine unbiased_flatMap_congr (fun session => unbiased_filterMap_congr (fun side => ?_) _) _
  rw [ofSession?, ofSession?]
  dsimp only
  cases choose? _ _ <;> rfl

/-! ## The order of pools -/

/-- The order of pools as a comparison. -/
def comparison : Pool α → Pool α → Ordering :=
  compareLex (fun a b => Scalar.order a.price b.price) (compareOn (·.kind.rank))

theorem notAfter_eq_isLE (a b : Pool α) : notAfter a b = (comparison a b).isLE := by
  rw [notAfter, comparison, compareLex, compareOn]
  cases Scalar.order a.price b.price with
  | lt => rfl
  | eq => exact Bool.eq_iff_iff.2 (by simp [Nat.isLE_compare])
  | gt => rfl

variable [LawfulScalar α]

instance : Std.TransCmp (comparison (α := α)) :=
  have := transCmp_on (Scalar.order (α := α)) (Pool.price (α := α))
  inferInstanceAs (Std.TransCmp (compareLex _ _))

theorem unbiased_mergeSort (pools : List (Pool α)) :
    unbiased (pools.mergeSort notAfter) = (unbiased pools).mergeSort notAfter := by
  have hle : notAfter = fun a b : Pool α => (comparison a b).isLE :=
    funext₂ notAfter_eq_isLE
  rw [unbiased, hle, filter_mergeSort isLE_trans isLE_total, ← hle]
  exact List.map_mergeSort fun _ _ _ _ => rfl

end Pool

/-! ## All pools -/

namespace Liquidity

variable {bars : List (Bar α)} {structural structural' : Structure α} {context : MarketContext α}
  {settings : LiquiditySettings α}

theorem unbiased_poolsByKind (hswings : structural'.swings = structural.swings)
    (hrange : structural'.activeRange = structural.activeRange) (sweeps : List (Sweep α))
    (wicks : List (WickCluster α)) :
    Pool.unbiased (poolsByKind bars structural' context settings sweeps wicks) =
      Pool.unbiased (poolsByKind bars structural context settings sweeps wicks) := by
  simp only [poolsByKind, Pool.unbiased_append, Pool.unbiased_trendLiquidity?, hswings, hrange]
  rw [Pool.unbiased_equalLevels, Pool.unbiased_sweeps, Pool.unbiased_wickClusters,
    Pool.unbiased_sessionExtremes]
  cases structural.activeRange with
  | none => rfl
  | some range =>
    dsimp only
    rw [Pool.unbiased_rangeExtremes]

variable [LawfulScalar α]

theorem unbiased_pools_congr (hswings : structural'.swings = structural.swings)
    (hrange : structural'.activeRange = structural.activeRange) :
    Pool.unbiased (analyze bars structural' context settings).pools =
      Pool.unbiased (analyze bars structural context settings).pools := by
  have hpools (s : Structure α) : (analyze bars s context settings).pools =
      (poolsByKind bars s context settings (Sweep.detect bars s.swings)
        (Pool.wickClusters bars settings)).mergeSort Pool.notAfter := rfl
  rw [hpools, hpools, Pool.unbiased_mergeSort, Pool.unbiased_mergeSort, hswings,
    unbiased_poolsByKind hswings hrange]

end Liquidity

end PriceAction
