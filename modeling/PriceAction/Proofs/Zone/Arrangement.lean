import Mathlib.Data.Prod.Lex
import PriceAction.Proofs.Zone.Components
import PriceAction.Zone.Report

/-!
# The order of zones does not matter

In the order of bands only zones on one band can trade places, and those always belong together.
So the groups of a rearranged list have the same zones (`hanging_perm_of_perm`), and its points of
interest differ in the order of their members alone.
-/

namespace PriceAction.Zone

variable {settings : ConfluenceSettings Rat} {volatility : Rat} {zones zones' : List (Zone Rat)}

/-! ## Bands -/

theorem SameBand.symm {a b : Zone Rat} (h : a.SameBand b) : b.SameBand a := ⟨h.1.symm, h.2.symm⟩

theorem SameBand.trans {a b c : Zone Rat} (hab : a.SameBand b) (hbc : b.SameBand c) :
    a.SameBand c :=
  ⟨hab.1.trans hbc.1, hab.2.trans hbc.2⟩

/-- The lower edge of a zone, then its upper edge. -/
def band (z : Zone Rat) : Rat ×ₗ Rat := toLex (z.low, z.high)

theorem band_le_of_bandNotAfter {a b : Zone Rat} (h : bandNotAfter a b = true) :
    a.band ≤ b.band :=
  Prod.Lex.toLex_le_toLex.2 (bandNotAfter_iff.1 h)

theorem sameBand_of_band_eq {a b : Zone Rat} (h : a.band = b.band) : a.SameBand b :=
  Prod.ext_iff.1 (toLex.injective h)

theorem forall₂_sameBand (hperm : zones.Perm zones')
    (h : zones.Pairwise fun a b => bandNotAfter a b = true)
    (h' : zones'.Pairwise fun a b => bandNotAfter a b = true) :
    List.Forall₂ SameBand zones zones' := by
  have hbands : zones.map band = zones'.map band :=
    List.Perm.eq_of_pairwise (fun _ _ _ _ => le_antisymm)
      (List.pairwise_map.2 (h.imp band_le_of_bandNotAfter))
      (List.pairwise_map.2 (h'.imp band_le_of_bandNotAfter)) (hperm.map band)
  rw [← List.forall₂_eq_eq_eq, List.forall₂_map_left_iff, List.forall₂_map_right_iff] at hbands
  exact hbands.imp fun _ _ => sameBand_of_band_eq

theorem members_perm_of_perm {prior prior' : List (Zone Rat)} (hprior : prior.Perm prior')
    (d : Direction) : (members d prior).Perm (members d prior') :=
  (members_perm d prior).trans ((hprior.filter _).trans (members_perm d prior').symm)

theorem members_forall₂ {prior prior' : List (Zone Rat)} (hprior : prior.Perm prior')
    (d : Direction) : List.Forall₂ SameBand (members d prior) (members d prior') :=
  forall₂_sameBand (members_perm_of_perm hprior d)
    (List.pairwise_mergeSort bandNotAfter_trans bandNotAfter_total _)
    (List.pairwise_mergeSort bandNotAfter_trans bandNotAfter_total _)

/-! ## Links -/

theorem map_snd_linked_congr (settings : ConfluenceSettings Rat) (volatility : Rat)
    {z z' : Zone Rat} (hz : z.SameBand z') (h : List.Forall₂ SameBand zones zones') (k : Nat) :
    (linked settings volatility z (zones.zipIdx k)).map (·.2) =
      (linked settings volatility z' (zones'.zipIdx k)).map (·.2) := by
  induction h generalizing k with
  | nil => rfl
  | @cons a b rest rest' hab _ ih =>
    have hrest := ih (k + 1)
    rw [linked, linked, hz.2] at hrest
    rw [linked, linked, List.zipIdx_cons, List.zipIdx_cons, List.takeWhile_cons,
      List.takeWhile_cons]
    dsimp only
    rw [hab.1, hz.2]
    split
    · rw [List.filter_cons, List.filter_cons]
      dsimp only
      rw [belongsWith_congr hz hab]
      split
      · rw [List.map_cons, List.map_cons, hrest]
      · exact hrest
    · rfl

theorem linkedPairs_congr (h : List.Forall₂ SameBand zones zones') (k : Nat) :
    linkedPairs settings volatility (zones.zipIdx k) =
      linkedPairs settings volatility (zones'.zipIdx k) := by
  induction h generalizing k with
  | nil => rfl
  | @cons a b rest rest' hab hrest ih =>
    have hplaces := congrArg (List.map fun n => (k, n))
      (map_snd_linked_congr settings volatility hab hrest (k + 1))
    rw [List.map_map, List.map_map] at hplaces
    rw [List.zipIdx_cons, List.zipIdx_cons, linkedPairs, linkedPairs, ih]
    exact congrArg (· ++ _) hplaces

theorem joined_congr (h : List.Forall₂ SameBand zones zones') :
    joined settings volatility zones = joined settings volatility zones' := by
  rw [joined, joined, h.length_eq, linkedPairs_congr h]

/-! ## Groups -/

theorem root_eq_of_sameBand (hreach : 0 ≤ settings.gapVolatilities * volatility)
    (hshare : settings.overlapShare ≤ 1) (h : Ascending zones)
    (hbands : ∀ z ∈ zones, z.low ≤ z.high) {i j : Nat} {a b : Zone Rat} (ha : zones[i]? = some a)
    (hb : zones[j]? = some b) (hab : a.SameBand b) :
    (joined settings volatility zones).root i = (joined settings volatility zones).root j := by
  obtain ⟨hi, rfl⟩ := List.getElem?_eq_some_iff.1 ha
  obtain ⟨hj, rfl⟩ := List.getElem?_eq_some_iff.1 hb
  by_cases hij : i = j
  · rw [hij]
  · have hadj : (linkGraph settings volatility zones).Adj ⟨i, hi⟩ ⟨j, hj⟩ :=
      ⟨fun heq => hij (Fin.ext_iff.1 heq),
        belongsWith_of_sameBand hshare hab (hbands _ (List.getElem_mem hi))⟩
    exact (root_joined_iff hreach h ⟨i, hi⟩ ⟨j, hj⟩).2 hadj.reachable

theorem map_fst_hanging_of_iff {s : DisjointSet} {r : Nat} {p : Zone Rat → Prop} [DecidablePred p]
    (h : ∀ i a, zones[i]? = some a → (p a ↔ s.root i = r)) :
    (hanging s zones r).map (·.1) = zones.filter fun z => p z := by
  have hplaced : hanging s zones r = zones.zipIdx.filter fun x => p x.1 := by
    refine List.filter_congr fun x hx => ?_
    rw [decide_eq_decide]
    exact (h x.2 x.1 (List.mem_zipIdx_iff_getElem?.1 hx)).symm
  have hcomp : (fun x : Placed Rat => decide (p x.1)) = (fun z => decide (p z)) ∘ (·.1) := rfl
  rw [hplaced, hcomp, ← List.filter_map, List.zipIdx_map_fst]

/-- Rearranged zones hang from the same roots. -/
theorem hanging_perm_of_perm (hreach : 0 ≤ settings.gapVolatilities * volatility)
    (hshare : settings.overlapShare ≤ 1) (h : Ascending zones)
    (hbands : ∀ z ∈ zones, z.low ≤ z.high) (hperm : zones.Perm zones')
    (hsame : List.Forall₂ SameBand zones zones') (r : Nat) :
    ((hanging (joined settings volatility zones) zones r).map (·.1)).Perm
      ((hanging (joined settings volatility zones') zones' r).map (·.1)) := by
  classical
  rw [← joined_congr hsame]
  -- whether some zone on the band hangs from the root
  have hp : ∀ i a, zones[i]? = some a →
      ((∃ j b, zones[j]? = some b ∧ b.SameBand a ∧
        (joined settings volatility zones).root j = r) ↔
        (joined settings volatility zones).root i = r) := by
    intro i a ha
    constructor
    · rintro ⟨j, b, hb, hba, hr⟩
      rw [← root_eq_of_sameBand hreach hshare h hbands hb ha hba, hr]
    · exact fun hr => ⟨i, a, ha, ⟨rfl, rfl⟩, hr⟩
  have hp' : ∀ i a', zones'[i]? = some a' →
      ((∃ j b, zones[j]? = some b ∧ b.SameBand a' ∧
        (joined settings volatility zones).root j = r) ↔
        (joined settings volatility zones).root i = r) := by
    intro i a' ha'
    obtain ⟨hi', rfl⟩ := List.getElem?_eq_some_iff.1 ha'
    have hi : i < zones.length := hsame.length_eq ▸ hi'
    have hband : (zones[i]).SameBand zones'[i] := hsame.get hi hi'
    rw [← hp i zones[i] (List.getElem?_eq_getElem hi)]
    constructor
    · rintro ⟨j, b, hb, hba, hr⟩
      exact ⟨j, b, hb, hba.trans hband.symm, hr⟩
    · rintro ⟨j, b, hb, hba, hr⟩
      exact ⟨j, b, hb, hba.trans hband, hr⟩
  rw [map_fst_hanging_of_iff hp, map_fst_hanging_of_iff hp']
  exact hperm.filter _

/-! ## Points of interest -/

theorem forall₂_of_common {β γ : Type} {R R' : β → γ → Prop} {S : γ → γ → Prop} {xs : List β}
    {ys ys' : List γ} (h : List.Forall₂ R xs ys) (h' : List.Forall₂ R' xs ys')
    (hS : ∀ x y y', R x y → R' x y' → S y y') : List.Forall₂ S ys ys' := by
  induction h generalizing ys' with
  | nil =>
    cases h'
    exact .nil
  | cons hxy _ ih =>
    cases h' with
    | cons hxy' hrest' => exact .cons (hS _ _ _ hxy hxy') (ih hrest')

variable {view : ZoneView Rat} {prior prior' : List (Zone Rat)}

theorem pointsOf_forall₂
    (hreach : 0 ≤ view.settings.confluence.gapVolatilities * volatility)
    (hshare : view.settings.confluence.overlapShare ≤ 1) {d : Direction}
    (hbands : ∀ z ∈ candidates d prior, z.low ≤ z.high) (hprior : prior.Perm prior') :
    List.Forall₂ SameApartFromOrder (pointsOf view volatility d prior)
      (pointsOf view volatility d prior') := by
  have hsame := members_forall₂ hprior d
  have hgroups := hanging_perm_of_perm hreach hshare (ascending_members d prior)
    (fun z hz => hbands z ((members_perm d prior).mem_iff.1 hz))
    (members_perm_of_perm hprior d) hsame
  have hroots : pointRoots view.settings.confluence volatility (members d prior) =
      pointRoots view.settings.confluence volatility (members d prior') := by
    rw [pointRoots, pointRoots, hsame.length_eq, ← joined_congr hsame]
    refine List.filter_congr fun r _ => ?_
    have hlength := (hgroups r).length_eq
    rw [List.length_map, List.length_map, ← joined_congr hsame] at hlength
    rw [hlength]
  have hpoints := forall₂_pointsOf view volatility d prior
  have hpoints' := forall₂_pointsOf view volatility d prior'
  rw [hroots] at hpoints
  exact forall₂_of_common hpoints hpoints' fun r z z' hz hz' =>
    sameApartFromOrder_ofGroup (hgroups r) hz hz'

/-- **Points of interest are connected components.** Take the zones of a direction that can be
members as the places of a graph, with an edge wherever two of them belong together. The points of
interest of the direction are, one for one, the components of two places or more. Each names every
zone of its component once, spans them all, and is as strong as the strongest of them, but not
weaker than zero. Where no band is upside down, the order of the zones shows in nothing but the
order in which members are named. -/
theorem detect_confluence (view : ZoneView Rat) {volatility : Rat}
    (hvolatility : view.structural.volatility = some volatility)
    (hreach : 0 ≤ view.settings.confluence.gapVolatilities * volatility)
    (prior : List (Zone Rat)) :
    ∃ found, detect view .confluence prior = .ok found ∧
      (∀ d, ∃ f : Fin (found.filter (·.direction = d)).length ≃
          {c : (linkGraph view.settings.confluence volatility
            (candidates d prior)).ConnectedComponent // 2 ≤ c.supp.ncard},
        ∀ k, ((found.filter (·.direction = d)).get k).Comprises
          (zonesAt (candidates d prior) (f k).1.supp)) ∧
      (view.settings.confluence.overlapShare ≤ 1 →
        (∀ d, ∀ z ∈ candidates d prior, z.low ≤ z.high) →
        ∀ prior', prior.Perm prior' → ∃ found', detect view .confluence prior' = .ok found' ∧
          List.Forall₂ SameApartFromOrder found found') := by
  have hdetect : ∀ zones, detect view .confluence zones = .ok (confluences view volatility zones) :=
    fun zones => by rw [detect, hvolatility]
  refine ⟨confluences view volatility prior, hdetect prior, fun d => ?_, ?_⟩
  · rw [filter_confluences]
    exact pointsOf_components hreach d
  · intro hshare hbands prior' hprior
    refine ⟨confluences view volatility prior', hdetect prior', ?_⟩
    rw [confluences_eq, confluences_eq]
    exact List.rel_append (pointsOf_forall₂ hreach hshare (hbands .bullish) hprior)
      (pointsOf_forall₂ hreach hshare (hbands .bearish) hprior)

/-! ## Two overlapping zones -/

/-- A view without bars, with a volatility of one. -/
def barless : ZoneView Rat :=
  let structural := Structure.analyze [] .standard
  { bars := []
    structural := { structural with details := { structural.details with volatility := some 1 } }
    liquidity := Liquidity.analyze [] structural {} .standard
    timeframe := ⟨"5m"⟩
    settings := .standard }

/-- A live zone of demand. -/
def demand (id : NameId) (low high strength : Rat) : Zone Rat where
  id := id
  kind := .orderBlock
  timeframe := ⟨"5m"⟩
  low := low
  high := high
  originTime := ⟨0, 0⟩
  originIndex := 0
  direction := .bullish
  role := .primary
  strength := strength
  status := .active
  fill := 0
  provenance := []

/-- Two zones of demand that overlap. -/
def overlapping (strength strength' : Rat) : List (Zone Rat) :=
  [demand ⟨1⟩ 100 102 strength, demand ⟨2⟩ 101 103 strength']

theorem members_overlapping (strength strength' : Rat) :
    members .bullish (overlapping strength strength') = overlapping strength strength' ∧
      members .bearish (overlapping strength strength') = [] := by
  constructor
  · refine List.mergeSort_of_pairwise (List.pairwise_pair.2 (bandNotAfter_iff.2 (Or.inl ?_)))
    show (100 : Rat) < 101
    norm_num
  · exact List.mergeSort_of_pairwise List.Pairwise.nil

/-- The zones make one point of interest, the same one in both orders. -/
theorem detect_confluence_overlapping :
    barless.structural.volatility = some 1 ∧
      0 ≤ barless.settings.confluence.gapVolatilities * 1 ∧
      ∃ found found', detect barless .confluence (overlapping (1 / 2) (1 / 4)) = .ok found ∧
        found.map (·.strength) = [1 / 2] ∧
        (∀ d, ∃ f : Fin (found.filter (·.direction = d)).length ≃
            {c : (linkGraph barless.settings.confluence 1
              (candidates d (overlapping (1 / 2) (1 / 4)))).ConnectedComponent //
                2 ≤ c.supp.ncard},
          ∀ k, ((found.filter (·.direction = d)).get k).Comprises
            (zonesAt (candidates d (overlapping (1 / 2) (1 / 4))) (f k).1.supp)) ∧
        detect barless .confluence (overlapping (1 / 2) (1 / 4)).reverse = .ok found' ∧
        List.Forall₂ SameApartFromOrder found found' := by
  have hvolatility : barless.structural.volatility = some 1 := rfl
  have hreach : 0 ≤ barless.settings.confluence.gapVolatilities * 1 := by decide +kernel
  have hshare : barless.settings.confluence.overlapShare ≤ 1 := by decide +kernel
  have hbands : ∀ d, ∀ z ∈ candidates d (overlapping (1 / 2) (1 / 4)), z.low ≤ z.high := by
    intro d
    cases d
    · decide
    · decide
  obtain ⟨found, hfound, hcomponents, horder⟩ :=
    detect_confluence barless hvolatility hreach (overlapping (1 / 2) (1 / 4))
  obtain ⟨found', hfound', hsame⟩ := horder hshare hbands _ (List.reverse_perm _).symm
  refine ⟨hvolatility, hreach, found, found', hfound, ?_, hcomponents, hfound', hsame⟩
  obtain ⟨hbullish, hbearish⟩ := members_overlapping (1 / 2) (1 / 4)
  cases hfound
  rw [confluences_eq, pointsOf, pointsOf, hbullish, hbearish]
  decide +kernel

/-- Negative strengths are the exception: the point of interest of two such zones has a strength of
zero, which no member has. -/
theorem strength_of_negative_members :
    ¬∃ found, detect barless .confluence (overlapping (-1 / 2) (-1 / 4)) = .ok found ∧
      ∀ d, ∃ f : Fin (found.filter (·.direction = d)).length ≃
          {c : (linkGraph barless.settings.confluence 1
            (candidates d (overlapping (-1 / 2) (-1 / 4)))).ConnectedComponent //
              2 ≤ c.supp.ncard},
        ∀ k, IsGreatest
          {x | ∃ m ∈ zonesAt (candidates d (overlapping (-1 / 2) (-1 / 4))) (f k).1.supp,
            m.strength = x}
          ((found.filter (·.direction = d)).get k).strength := by
  rintro ⟨found, hfound, hcomponents⟩
  have hpoints : (found.filter (·.direction = .bullish)).map (·.strength) = [0] := by
    obtain ⟨hbullish, -⟩ := members_overlapping (-1 / 2) (-1 / 4)
    cases hfound
    rw [filter_confluences, pointsOf, hbullish]
    decide +kernel
  obtain ⟨f, hf⟩ := hcomponents .bullish
  generalize found.filter (·.direction = .bullish) = points at hpoints f hf
  obtain ⟨z, rest, rfl, hz, -⟩ := List.map_eq_cons_iff.1 hpoints
  obtain ⟨m, hm, hstrength⟩ := (hf ⟨0, Nat.succ_pos _⟩).1
  obtain ⟨i, -, rfl⟩ := List.mem_map.1 hm
  have hnegative : ∀ m ∈ candidates .bullish (overlapping (-1 / 2) (-1 / 4)), m.strength < 0 := by
    decide +kernel
  have hzero : ((candidates .bullish (overlapping (-1 / 2) (-1 / 4))).get i).strength = 0 :=
    hstrength.trans hz
  exact absurd hzero (ne_of_lt (hnegative _ (List.get_mem _ i)))

end PriceAction.Zone
