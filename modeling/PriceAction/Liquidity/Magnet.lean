import PriceAction.Liquidity.Pool

/-!
# Magnets

Pools at about one price form a magnet: a band of prices with the kind of its most important pool,
the role that most of its strength has, and the strength of all pools together. The strongest
magnets in the direction of the bias are marked as primary.
-/

namespace PriceAction

structure Magnet (α : Type) where
  low : α
  high : α
  /-- The centre of the pools, weighted by strength. -/
  price : α
  kind : PoolKind
  direction : Direction
  role : Role
  /-- What the pools leave of one when each takes its share of the rest. -/
  strength : α
  poolCount : Nat
  primary : Bool

namespace Magnet

variable {α : Type} [Scalar α]

def contains (m : Magnet α) (price : α) : Bool :=
  Scalar.between price m.low m.high

/-- The strength that the pools of one role have together. -/
def roleWeight (pools : List (Pool α)) (role : Role) : α :=
  Scalar.sum ((pools.filter (·.role = role)).map (·.strength))

/-- The role with the most strength; the primary role wins a tie, then the one against it. -/
def dominantRole (pools : List (Pool α)) : Role :=
  let weights := [Role.primary, Role.countertrend, Role.neutral].map fun role =>
    (role, roleWeight pools role)
  let counted := weights.filter fun (_, weight) => Scalar.aboveLeast weight
  ((choose? (fun x kept => decide (kept.2 < x.2)) counted).map (·.1)).getD .neutral

/-- Whether a pool comes before another in importance: by priority, then the stronger one. -/
def outranks (a b : Pool α) : Bool :=
  a.kind.priority < b.kind.priority ||
    (a.kind.priority = b.kind.priority && (Scalar.order b.strength a.strength).isLT)

/-- The weighted centre of the pools, or the middle of the band if they have no strength. -/
def centre (pools : List (Pool α)) (low high : α) : α :=
  let weight := Scalar.sum (pools.map (·.strength))
  if 0.0 < weight then Scalar.sum (pools.map fun p => p.price * p.strength) / weight
  else (low + high) / 2.0

/-- The magnet of a cluster of pools. -/
def ofPools? (pools : List (Pool α)) : Option (Magnet α) :=
  (choose? outranks pools).map fun dominant =>
    let low := Scalar.least (pools.map (·.price))
    let high := Scalar.greatest (pools.map (·.price))
    { low := low
      high := high
      price := centre pools low high
      kind := dominant.kind
      direction := dominant.direction
      role := dominantRole pools
      strength :=
        1.0 - Scalar.product (pools.map fun p => 1.0 - Scalar.clamp p.strength 0.0 1.0)
      poolCount := pools.length
      primary := false }

/-- The order of candidates: the stronger first, at one strength the lower price. -/
def notAfter (a b : Magnet α) : Bool :=
  match Scalar.order b.strength a.strength with
  | .lt => true
  | .eq => (Scalar.order a.price b.price).isLE
  | .gt => false

/-- Marks the strongest `most` magnets of primary role. -/
def markPrimary (most : Nat) (magnets : List (Magnet α)) : List (Magnet α) :=
  let candidates := (magnets.zipIdx.filter fun (m, _) => m.role = .primary).mergeSort
    fun a b => notAfter a.1 b.1
  let chosen := (candidates.take most).map (·.2)
  magnets.zipIdx.map fun (m, i) => if chosen.contains i then { m with primary := true } else m

/-- The magnets of a list of pools, in ascending order of price. -/
def ofPools (pools : List (Pool α)) (tolerance : α) (mostPrimary : Nat) : List (Magnet α) :=
  markPrimary mostPrimary ((clusters (·.price) tolerance pools).filterMap ofPools?)

end Magnet

end PriceAction
