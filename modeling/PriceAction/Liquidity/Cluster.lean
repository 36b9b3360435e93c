import PriceAction.Scalar

/-!
# Price clusters

Items sorted by price fall into clusters. A cluster holds the items within a tolerance of its
lowest price, so it is never wider than the tolerance.
-/

namespace PriceAction

variable {α ι : Type} [Scalar α]

/-- The items in ascending order of price; items of one price keep their order. -/
def sortByPrice (price : ι → α) (items : List ι) : List ι :=
  items.mergeSort fun a b => (Scalar.order (price a) (price b)).isLE

/-- Whether two prices are as near as a share of the second. -/
def near (tolerance x anchor : α) : Bool :=
  Scalar.abs (x - anchor) ≤ tolerance * Scalar.abs anchor

/-- Cuts a sorted list into clusters, each anchored at its first item. -/
def cutClusters (price : ι → α) (tolerance : α) : List ι → List (List ι)
  | [] => []
  | x :: rest =>
    (x :: rest.takeWhile fun y => near tolerance (price y) (price x)) ::
      cutClusters price tolerance (rest.dropWhile fun y => near tolerance (price y) (price x))
termination_by items => items.length
decreasing_by exact Nat.lt_succ_of_le (List.dropWhile_suffix _).length_le

/-- The clusters of a list of items. -/
def clusters (price : ι → α) (tolerance : α) (items : List ι) : List (List ι) :=
  cutClusters price tolerance (sortByPrice price items)

end PriceAction
