import PriceAction.Proofs.Digest.Numbers
import PriceAction.Proofs.Zone.Composite
import PriceAction.Proofs.Zone.Report
import PriceAction.Scalar.Floating

/-!
# Which members stay active with a point of interest

A point of interest is live, and as young as its youngest member, so it is active as long as one of
its members is young (`Zone.Gathers.active_iff`). Age never takes all members away from it. The
distance from the last close can, as it ends the activity of order blocks and of nothing else
(`ZoneReport.exists_active_member`).
-/

namespace PriceAction

namespace Zone

variable {α : Type} [Scalar α] {view : ZoneView α} {volatility : α} {last : Bar α} {z : Zone α}
  {prior : List (Zone α)}

/-! ## What ends activity -/

/-- Whether a zone is young enough to be active. -/
def IsYoung (view : ZoneView α) (z : Zone α) : Prop :=
  view.bars.length ≤ z.originIndex + view.settings.lookback

/-- Whether a price is near enough to an order block for it to be active. -/
def IsNear (view : ZoneView α) (volatility price : α) (z : Zone α) : Prop :=
  z.distance price ≤ view.settings.orderBlock.distanceVolatilities * volatility

theorem isActive_iff (hlast : view.bars.getLast? = some last)
    (hvolatility : view.structural.volatility = some volatility) :
    isActive view z = true ↔ z.status.isLive = true ∧ z.IsYoung view ∧
      (z.kind = .orderBlock → z.IsNear view volatility last.close) := by
  rw [isActive, hlast, hvolatility, Bool.and_eq_true, Bool.and_eq_true, decide_eq_true_eq,
    and_assoc]
  refine and_congr_right fun _ => and_congr_right fun _ => ?_
  rw [Bool.or_eq_true, decide_eq_true_eq, decide_eq_true_eq, IsNear]
  exact imp_iff_not_or.symm

theorem isActive_of_kind_ne (hkind : z.kind ≠ .orderBlock) :
    isActive view z = true ↔ z.status.isLive = true ∧ z.IsYoung view := by
  simp [isActive, hkind, IsYoung]

theorem bars_ne_nil_of_mem_orderBlocks (h : z ∈ orderBlocks view volatility) :
    view.bars ≠ [] := by
  obtain ⟨e, i, candle, index, -, hcandle, -⟩ := exists_of_mem_orderBlocks h
  exact List.ne_nil_of_mem (List.mem_of_getElem? hcandle)

theorem bars_ne_nil_of_mem_beforeConfluences (h : z ∈ beforeConfluences view volatility) :
    view.bars ≠ [] := by
  simp only [beforeConfluences, List.mem_append] at h
  rcases h with (hblock | hgap) | hbreaker
  · exact bars_ne_nil_of_mem_orderBlocks hblock
  · obtain ⟨i, first, middle, rest, later, hdrop, -⟩ := exists_of_mem_imbalances hgap
    rintro hnil
    rw [hnil, List.drop_nil] at hdrop
    cases hdrop
  · obtain ⟨block, s, e, i, hblock, -⟩ := exists_of_mem_breakers hbreaker
    exact bars_ne_nil_of_mem_orderBlocks hblock

/-! ## A point of interest and its members -/

/-- How a point of interest stands to its members: it names them, they are live zones of other
kinds, it is live as they are, and as young as the youngest of them. -/
structure Gathers (z : Zone α) (group prior : List (Zone α)) : Prop where
  kind : z.kind = .confluence
  provenance : z.provenance = group.map fun m => .zone m.id m.kind
  live : z.status.isLive = true
  member_mem : group ⊆ prior
  member_live : ∀ m ∈ group, m.status.isLive = true
  youngest : ∃ m ∈ group, z.originIndex = m.originIndex
  not_younger : ∀ m ∈ group, m.originIndex ≤ z.originIndex

theorem live_of_ofGroup? {d : Direction} {group : List (Zone α)}
    (h : ofGroup? view d group = some z) : z.status.isLive = true := by
  obtain ⟨youngest, -, rfl⟩ := Option.map_eq_some_iff.1 h
  dsimp only
  split <;> rfl

theorem originIndex_le_of_ofGroup? {d : Direction} {group : List (Zone α)}
    (h : ofGroup? view d group = some z) : ∀ m ∈ group, m.originIndex ≤ z.originIndex := by
  obtain ⟨youngest, hyoungest, rfl⟩ := Option.map_eq_some_iff.1 h
  intro m hm
  rcases asYoungAs_iff.1 ((choose?_spec asYoungAs_trans asYoungAs_total hyoungest).2 m hm) with
    hlt | ⟨heq, -⟩
  · exact hlt.le
  · exact heq.le

theorem exists_gathers_of_mem_confluences (h : z ∈ confluences view volatility prior) :
    ∃ group, z.Gathers group prior := by
  obtain ⟨d, root, -, hz⟩ := exists_of_mem_confluences h
  obtain ⟨hkind, -, -, hprovenance, youngest, hyoungest, hindex, -⟩ := exists_of_ofGroup? hz
  have hmembers {m : Zone α} (hm : m ∈ membersAt view volatility d prior root) :=
    mem_members_iff.1 (mem_members_of_mem_membersAt hm)
  exact ⟨membersAt view volatility d prior root, hkind, hprovenance, live_of_ofGroup? hz,
    fun m hm => (hmembers hm).1, fun m hm => (hmembers hm).2.2.2, ⟨youngest, hyoungest, hindex⟩,
    originIndex_le_of_ofGroup? hz⟩

omit [Scalar α] in
theorem Gathers.mono {group later : List (Zone α)} (h : z.Gathers group prior)
    (hsub : prior ⊆ later) : z.Gathers group later :=
  { h with member_mem := fun _ hm => hsub (h.member_mem hm) }

/-- A point of interest is active as long as one of its members is young. -/
theorem Gathers.active_iff {group : List (Zone α)} (h : z.Gathers group prior) :
    isActive view z = true ↔ ∃ m ∈ group, m.IsYoung view := by
  rw [isActive_of_kind_ne (by rw [h.kind]; decide), and_iff_right h.live]
  constructor
  · intro hyoung
    obtain ⟨m, hm, hindex⟩ := h.youngest
    exact ⟨m, hm, by rwa [IsYoung, ← hindex]⟩
  · rintro ⟨m, hm, hyoung⟩
    have := h.not_younger m hm
    rw [IsYoung] at *
    omega

end Zone

namespace ZoneReport

open Zone

variable {α : Type} [Scalar α]

theorem active_analyze (view : ZoneView α) :
    (analyze view).active = (analyze view).all.filter (isActive view) :=
  rfl

theorem mem_active_iff {view : ZoneView α} {z : Zone α} :
    z ∈ (analyze view).active ↔ z ∈ (analyze view).all ∧ isActive view z = true :=
  List.mem_filter

theorem exists_gathers_of_mem_all {view : ZoneView α} {z : Zone α} (hz : z ∈ (analyze view).all)
    (hkind : z.kind = .confluence) :
    ∃ group last volatility, z.Gathers group (analyze view).all ∧
      view.bars.getLast? = some last ∧ view.structural.volatility = some volatility := by
  rw [all_analyze] at hz ⊢
  split at hz
  · next v hv =>
    rcases List.mem_append.1 hz with hbefore | hconfluence
    · exact absurd hkind (kind_ne_of_mem_beforeConfluences hbefore)
    obtain ⟨group, hgathers⟩ := exists_gathers_of_mem_confluences hconfluence
    obtain ⟨m, hm, -⟩ := hgathers.youngest
    have hbars := bars_ne_nil_of_mem_beforeConfluences (hgathers.member_mem hm)
    exact ⟨group, view.bars.getLast hbars, v, hgathers.mono (List.subset_append_left ..),
      List.getLast?_eq_some_getLast hbars, hv⟩
  · cases hz

/-- **Active points of interest.** An active point of interest has a young member. One of its
members is active too, unless its young members are all order blocks that the last close is not
near. -/
theorem exists_active_member (view : ZoneView α) {z : Zone α} (hz : z ∈ (analyze view).active)
    (hkind : z.kind = .confluence) :
    ∃ group, z.Gathers group (analyze view).all ∧ (∃ m ∈ group, m.IsYoung view) ∧
      ((∃ m ∈ group, m ∈ (analyze view).active) ∨
        ∃ last volatility, view.bars.getLast? = some last ∧
          view.structural.volatility = some volatility ∧
          ∀ m ∈ group, m.IsYoung view →
            m.kind = .orderBlock ∧ ¬m.IsNear view volatility last.close) := by
  obtain ⟨hall, hactive⟩ := mem_active_iff.1 hz
  obtain ⟨group, last, v, hgathers, hlast, hv⟩ := exists_gathers_of_mem_all hall hkind
  refine ⟨group, hgathers, hgathers.active_iff.1 hactive, ?_⟩
  refine or_iff_not_imp_left.2 fun hnone => ⟨last, v, hlast, hv, fun m hm hyoung => ?_⟩
  have hinactive : ¬isActive view m = true := fun hm' =>
    hnone ⟨m, hm, mem_active_iff.2 ⟨hgathers.member_mem hm, hm'⟩⟩
  rw [isActive_iff hlast hv] at hinactive
  have hremote : ¬(m.kind = .orderBlock → m.IsNear view v last.close) := fun hnear =>
    hinactive ⟨hgathers.member_live m hm, hyoung, hnear⟩
  exact Classical.not_imp.1 hremote

/-- Two blocks that lie together, with a last close far above them. -/
def remoteView : ZoneView Float :=
  let empty := Structure.analyze [] Settings.standard
  { bars :=
      [(101.0, 101.0, 100.0, 100.0), (100.0, 102.0, 100.0, 102.0), (101.5, 101.5, 100.5, 100.5),
        (101.0, 103.0, 101.0, 103.0), (103.0, 120.0, 101.5, 120.0)].zipIdx.map
          fun ((opening, high, low, close), i) =>
            ⟨.ofSeconds (60 * i), opening, high, low, close, 100.0⟩
    structural :=
      { empty with
        breaks :=
          [⟨.structural, .bullish, 101.0, .ofSeconds 60, 1, 0, 5.0⟩,
            ⟨.structural, .bullish, 102.0, .ofSeconds 180, 3, 1, 5.0⟩]
        details := { empty.details with volatility := some 1.0 } }
    liquidity := { Liquidity.analyze [] empty {} .standard with sweeps := [] }
    timeframe := ⟨"5m"⟩
    settings := .standard }

theorem members_remoteView (d : Direction) :
    members d (beforeConfluences remoteView 1.0) = (beforeConfluences remoteView 1.0).filter fun z =>
      z.direction = d && z.kind ≠ .confluence && z.status.isLive := by
  have hordered : (beforeConfluences remoteView 1.0).Pairwise fun a b => bandNotAfter a b = true := by
    unfold beforeConfluences orderBlocks ofBreak? ofCandle idOf
    rw [NameId.ofName_eq_calculate]
    decide +kernel
  exact List.mergeSort_of_pairwise (hordered.filter _)

/-- Whether a source is an order block. -/
def isBlock {β : Type} : Provenance β → Bool
  | .zone _ .orderBlock => true
  | _ => false

theorem active_remoteView :
    (analyze remoteView).active.map (fun z => (z.kind, z.provenance.all isBlock)) =
      [(.confluence, true)] := by
  have hvolatility : remoteView.structural.volatility = some 1.0 := rfl
  rw [active_analyze, all_analyze, hvolatility]
  simp only [confluences, members_remoteView]
  unfold beforeConfluences orderBlocks ofBreak? ofCandle idOf
  rw [NameId.ofName_eq_calculate]
  decide +kernel

/-- Of the zones of `remoteView` the point of interest alone is active, and none of its members. -/
theorem not_exists_active_member_remote :
    ∃ z ∈ (analyze remoteView).active, z.kind = .confluence ∧
      ¬∃ m ∈ (analyze remoteView).active, .zone m.id m.kind ∈ z.provenance := by
  obtain ⟨z, rest, hactive, hz, hrest⟩ := List.map_eq_cons_iff.1 active_remoteView
  rw [List.map_eq_nil_iff] at hrest
  obtain ⟨hkind, hblocks⟩ := Prod.mk.inj hz
  rw [hactive, hrest]
  refine ⟨z, List.mem_singleton_self z, hkind, ?_⟩
  rintro ⟨m, hm, hsource⟩
  have hblock := List.all_eq_true.1 hblocks _ hsource
  rw [List.mem_singleton.1 hm, hkind] at hblock
  cases hblock

theorem exists_active_member_remote :
    ∃ z ∈ (analyze remoteView).active, z.kind = .confluence ∧
      ∃ group, z.Gathers group (analyze remoteView).all ∧ (∃ m ∈ group, m.IsYoung remoteView) ∧
        ((∃ m ∈ group, m ∈ (analyze remoteView).active) ∨
          ∃ last volatility, remoteView.bars.getLast? = some last ∧
            remoteView.structural.volatility = some volatility ∧
            ∀ m ∈ group, m.IsYoung remoteView →
              m.kind = .orderBlock ∧ ¬m.IsNear remoteView volatility last.close) := by
  obtain ⟨z, rest, hactive, hz, -⟩ := List.map_eq_cons_iff.1 active_remoteView
  have hmem : z ∈ (analyze remoteView).active := hactive ▸ List.mem_cons_self
  have hkind := (Prod.mk.inj hz).1
  exact ⟨z, hmem, hkind, exists_active_member remoteView hmem hkind⟩

end ZoneReport

end PriceAction
