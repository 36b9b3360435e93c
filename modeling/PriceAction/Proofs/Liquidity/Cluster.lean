import Mathlib.Data.List.TakeWhile
import Mathlib.Tactic.Linarith
import PriceAction.Liquidity.Cluster
import PriceAction.Proofs.Scalar.Lawful
import PriceAction.Proofs.Sorting

/-!
# Clusters of rational prices

Clusters are stretches of the sorted items (`flatten_clusters_perm`). With a tolerance that is not
negative, each holds prices near its lowest one (`exists_anchor_of_mem_clusters`), and the prices of
the next lie beyond all that is near it (`pairwise_clusters`).
-/

namespace PriceAction

variable {ι : Type} {price : ι → Rat} {tolerance : Rat} {items group : List ι}

theorem near_iff {x anchor : Rat} :
    near tolerance x anchor = true ↔ |x - anchor| ≤ tolerance * |anchor| := by
  rw [near, decide_eq_true_iff, Scalar.abs_eq, Scalar.abs_eq]

theorem near_iff_of_le {x anchor : Rat} (h : anchor ≤ x) :
    near tolerance x anchor = true ↔ x - anchor ≤ tolerance * |anchor| := by
  rw [near_iff, abs_of_nonneg (sub_nonneg.2 h)]

/-! ## Sorting by price -/

theorem sortByPrice_perm (price : ι → Rat) (items : List ι) :
    (sortByPrice price items).Perm items :=
  List.mergeSort_perm _ _

theorem pairwise_sortByPrice (price : ι → Rat) (items : List ι) :
    (sortByPrice price items).Pairwise fun x y => price x ≤ price y := by
  have := transCmp_on (Scalar.order (α := Rat)) price
  have hsorted : (sortByPrice price items).Pairwise fun x y =>
      (Scalar.order (price x) (price y)).isLE = true :=
    List.pairwise_mergeSort isLE_trans isLE_total items
  exact hsorted.imp Scalar.isLE_order.1

/-! ## Cutting a sorted list -/

theorem flatten_cutClusters (price : ι → Rat) (tolerance : Rat) (items : List ι) :
    (cutClusters price tolerance items).flatten = items := by
  fun_induction cutClusters price tolerance items with
  | case1 => rfl
  | case2 x rest ih =>
    rw [List.flatten_cons, ih, List.cons_append, List.takeWhile_append_dropWhile]

theorem lt_of_mem_dropWhile {x y : ι} {rest : List ι}
    (hsorted : (x :: rest).Pairwise fun a b => price a ≤ price b)
    (hy : y ∈ rest.dropWhile fun z => near tolerance (price z) (price x)) :
    tolerance * |price x| < price y - price x := by
  obtain ⟨hfirst, hrest⟩ := List.pairwise_cons.1 hsorted
  have hbegin := List.head?_dropWhile_not (fun z => near tolerance (price z) (price x)) rest
  cases hcut : rest.dropWhile fun z => near tolerance (price z) (price x) with
  | nil =>
    rw [hcut] at hy
    cases hy
  | cons z more =>
    rw [hcut] at hy hbegin
    have hsub : (z :: more).Sublist rest := hcut ▸ List.dropWhile_sublist _
    have hz : tolerance * |price x| < price z - price x := by
      rw [← not_le, ← near_iff_of_le (hfirst z (hsub.subset List.mem_cons_self))]
      exact Bool.eq_false_iff.1 hbegin
    have hle : price z ≤ price y := by
      rcases List.mem_cons.1 hy with rfl | hy
      · exact le_refl _
      · exact (List.pairwise_cons.1 (hrest.sublist hsub)).1 y hy
    linarith

variable (hsorted : items.Pairwise fun x y => price x ≤ price y)

include hsorted in
theorem exists_anchor_of_mem_cutClusters (ht : 0 ≤ tolerance)
    (h : group ∈ cutClusters price tolerance items) :
    ∃ a, group.head? = some a ∧
      ∀ x ∈ group, price a ≤ price x ∧ price x - price a ≤ tolerance * |price a| := by
  fun_induction cutClusters price tolerance items with
  | case1 => cases h
  | case2 x rest ih =>
    obtain ⟨hfirst, hrest⟩ := List.pairwise_cons.1 hsorted
    rcases List.mem_cons.1 h with rfl | hlater
    · refine ⟨x, rfl, fun y hy => ?_⟩
      rcases List.mem_cons.1 hy with rfl | hy
      · rw [sub_self]
        exact ⟨le_refl _, mul_nonneg ht (abs_nonneg _)⟩
      · have hle := hfirst y (List.takeWhile_subset _ hy)
        exact ⟨hle, (near_iff_of_le hle).1
          (List.mem_takeWhile_imp (p := fun z => near tolerance (price z) (price x)) hy)⟩
    · exact ih (hrest.sublist (List.dropWhile_sublist _)) hlater

include hsorted in
theorem pairwise_cutClusters :
    (cutClusters price tolerance items).Pairwise fun g g' =>
      ∀ a ∈ g.head?, ∀ y ∈ g', tolerance * |price a| < price y - price a := by
  fun_induction cutClusters price tolerance items with
  | case1 => exact .nil
  | case2 x rest ih =>
    have hrest := (List.pairwise_cons.1 hsorted).2.sublist
      (List.dropWhile_sublist fun y => near tolerance (price y) (price x))
    refine List.pairwise_cons.2 ⟨fun g hg a ha y hy => ?_, ih hrest⟩
    cases ha
    refine lt_of_mem_dropWhile hsorted ?_
    rw [← flatten_cutClusters price tolerance (rest.dropWhile _)]
    exact List.mem_flatten_of_mem hg hy

/-! ## Clusters -/

theorem flatten_clusters_perm (price : ι → Rat) (tolerance : Rat) (items : List ι) :
    (clusters price tolerance items).flatten.Perm items := by
  rw [clusters, flatten_cutClusters]
  exact sortByPrice_perm price items

theorem exists_anchor_of_mem_clusters (ht : 0 ≤ tolerance)
    (h : group ∈ clusters price tolerance items) :
    ∃ a, group.head? = some a ∧
      ∀ x ∈ group, price a ≤ price x ∧ price x - price a ≤ tolerance * |price a| :=
  exists_anchor_of_mem_cutClusters (pairwise_sortByPrice price items) ht h

theorem pairwise_clusters (ht : 0 ≤ tolerance) (price : ι → Rat) (items : List ι) :
    (clusters price tolerance items).Pairwise fun g g' =>
      ∀ x ∈ g, ∀ y ∈ g', price x < price y := by
  have hbeyond : (clusters price tolerance items).Pairwise fun g g' =>
      ∀ a ∈ g.head?, ∀ y ∈ g', tolerance * |price a| < price y - price a :=
    pairwise_cutClusters (pairwise_sortByPrice price items)
  refine hbeyond.imp_of_mem fun {g g'} hg _ hfar x hx y hy => ?_
  obtain ⟨a, ha, hnear⟩ := exists_anchor_of_mem_clusters ht hg
  linarith [hnear x hx, hfar a ha y hy]

end PriceAction
