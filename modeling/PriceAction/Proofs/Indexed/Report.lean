import PriceAction.Proofs.Indexed.Confluence
import PriceAction.Proofs.Indexed.Zone

/-!
# The zones of a series by position

The searches run one after the other, each with its reads by position, and the age of a zone is
compared with the lookback as machine words. The report is the same where there is one
(`zones?_eq`).
-/

namespace PriceAction.Indexed

variable {α : Type} [Scalar α]

def zonesOf? (view : ZoneView α) (volatility : α) (kind : ZoneKind) (prior : List (Zone α)) :
    Option (List (Zone α)) :=
  match kind with
  | .orderBlock => orderBlocks? view volatility
  | .imbalance => imbalances? view volatility
  | .breaker => breakers? view volatility prior
  | .confluence => confluences? view volatility prior

def detect? (view : ZoneView α) (kind : ZoneKind) (prior : List (Zone α)) :
    Option (Except Shortfall (List (Zone α))) :=
  match view.structural.volatility with
  | none => some (.error (.volatility kind.stage))
  | some v => do
    let zones ← zonesOf? view v kind prior
    some (.ok zones)

/-- One search more. -/
def searchOn? (view : ZoneView α) (found : List (Zone α) × List Shortfall) (kind : ZoneKind) :
    Option (List (Zone α) × List Shortfall) := do
  match ← detect? view kind found.1 with
  | .ok zones => some (found.1 ++ zones, found.2)
  | .error shortfall => some (found.1, found.2 ++ [shortfall])

def isActive? (view : ZoneView α) (z : Zone α) : Option Bool :=
  if z.status.isLive then do
    let reach ← plus? z.originIndex view.settings.lookback
    some (decide (view.bars.length ≤ reach) && (z.kind ≠ .orderBlock ||
      match view.bars.getLast?, view.structural.volatility with
      | some last, some v =>
        z.distance last.close ≤ view.settings.orderBlock.distanceVolatilities * v
      | _, _ => false))
  else some false

def active? (view : ZoneView α) (zones : List (Zone α)) : Option (List (Zone α)) :=
  filterMap?
    (fun z => do
      let active ← isActive? view z
      some (if active then some z else none))
    zones

def zones? (view : ZoneView α) : Option (ZoneReport α) := do
  let (all, skipped) ← Zone.searchOrder.foldlM (searchOn? view) ([], [])
  let active ← active? view all
  some
    { all := all
      active := active
      counts :=
        { byKind := .tally (all.map (·.kind.text))
          byRole := .tally (all.map (·.role.text))
          activeByKind := .tally (active.map (·.kind.text)) }
      skipped := skipped }

/-! ## Agreement -/

variable {view : ZoneView α}

section

variable (hbars : view.bars.length ≤ 2 ^ 32)
  (hbreaks : ∀ e ∈ view.structural.breaks, e.barIndex < view.bars.length)

include hbars hbreaks

theorem detect?_eq (kind : ZoneKind) (prior : List (Zone α)) :
    detect? view kind prior = some (Zone.detect view kind prior) := by
  rw [detect?, Zone.detect]
  cases view.structural.volatility with
  | none => rfl
  | some v =>
    dsimp only
    cases kind with
    | orderBlock =>
      rw [zonesOf?, orderBlocks?_eq hbars hbreaks]
      rfl
    | imbalance =>
      rw [zonesOf?, imbalances?_eq hbars]
      rfl
    | breaker =>
      rw [zonesOf?, breakers?_eq hbars hbreaks]
      rfl
    | confluence =>
      rw [zonesOf?, confluences?_eq]
      rfl

theorem searchOn?_eq (found : List (Zone α) × List Shortfall) (kind : ZoneKind) :
    searchOn? view found kind = some (Zone.search view found kind) := by
  rw [searchOn?, detect?_eq hbars hbreaks, Zone.search]
  simp only [Option.bind_eq_bind, Option.bind_some]
  cases Zone.detect view kind found.1 <;> rfl

end

theorem isActive?_eq {z : Zone α}
    (hcount : z.status.isLive → z.originIndex + view.settings.lookback < 2 ^ 64) :
    isActive? view z = some (Zone.isActive view z) := by
  rw [isActive?, Zone.isActive, Bool.and_assoc]
  apply ite_some_false_eq
  intro hlive
  rw [plus?_eq (hcount hlive)]
  rfl

theorem lt_of_isSome_isActive? {z : Zone α} (h : (isActive? view z).isSome)
    (hlive : z.status.isLive) : z.originIndex + view.settings.lookback < 2 ^ 64 := by
  by_contra hcount
  rw [isActive?, if_pos hlive, plus?_eq_none (by omega)] at h
  cases h

theorem active?_eq {zones : List (Zone α)}
    (hcount : ∀ z ∈ zones, z.status.isLive → z.originIndex + view.settings.lookback < 2 ^ 64) :
    active? view zones = some (zones.filter (Zone.isActive view)) := by
  rw [← List.filterMap_eq_filter]
  apply filterMap?_eq_filterMap
  intro z hz
  rw [isActive?_eq (hcount z hz)]
  rfl

theorem lt_of_active? {zones active : List (Zone α)} (h : active? view zones = some active)
    {z : Zone α} (hz : z ∈ zones) (hlive : z.status.isLive) :
    z.originIndex + view.settings.lookback < 2 ^ 64 := by
  obtain ⟨kept, hkept⟩ := Option.isSome_iff_exists.1 (isSome_of_filterMap? h hz)
  obtain ⟨activity, hactivity, -⟩ := Option.bind_eq_some_iff.1 hkept
  exact lt_of_isSome_isActive? (Option.isSome_of_eq_some hactivity) hlive

/-- The words fail exactly where the bar up to which a live zone stays active cannot be counted. -/
theorem zones?_eq (hbars : view.bars.length ≤ 2 ^ 32)
    (hbreaks : ∀ e ∈ view.structural.breaks, Dated view.bars e.barIndex e.time) :
    zones? view = ZoneReport.analyze? view := by
  rw [zones?, foldlM_eq_foldl (searchOn?_eq hbars fun e he => (hbreaks e he).lt_length)]
  simp only [Option.bind_eq_bind, Option.bind_some]
  by_cases hcount : (ZoneReport.analyze view).Countable view.settings.lookback
  · have hactive : active? view (ZoneReport.analyze view).all =
        some ((ZoneReport.analyze view).all.filter (Zone.isActive view)) := active?_eq hcount
    rw [ZoneReport.analyze] at hactive
    rw [hactive, ZoneReport.analyze?]
    simp only [if_pos hcount]
    rfl
  · have hactive : active? view (ZoneReport.analyze view).all = none := by
      rw [Option.eq_none_iff_forall_ne_some]
      exact fun active h => hcount fun z hz hlive => lt_of_active? h hz hlive
    rw [ZoneReport.analyze] at hactive
    rw [hactive, ZoneReport.analyze?]
    simp only [if_neg hcount]
    rfl

end PriceAction.Indexed
