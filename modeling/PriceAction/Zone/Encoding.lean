import PriceAction.Liquidity.Encoding
import PriceAction.Zone.Report

/-!
# Zones as data

How the zones of a series are written to a data file.
-/

namespace PriceAction

open Json (arrayOf ofFloat ofNat)

def NameId.toJson (id : NameId) : Json := .text id.text

def ZoneKind.toJson (k : ZoneKind) : Json := .text k.text

def Provenance.toJson : Provenance Float → Json
  | .event kind d eventIndex legIndex time => .object
      [("source", .text "event"), ("event", kind.toJson), ("direction", d.toJson),
        ("event_index", ofNat eventIndex), ("leg_index", ofNat legIndex),
        ("event_time", time.toJson)]
  | .gap first last => .object
      [("source", .text "gap"), ("first_time", first.toJson), ("last_time", last.toJson)]
  | .sweep level side time => .object
      [("source", .text "sweep"), ("level", ofFloat level), ("side", side.toJson),
        ("time", time.toJson)]
  | .zone id kind => .object
      [("source", .text "zone"), ("id", id.toJson), ("kind", kind.toJson)]

def Zone.toJson (z : Zone Float) : Json := .object
  [("id", z.id.toJson), ("kind", z.kind.toJson), ("timeframe", .text z.timeframe.label),
    ("low", ofFloat z.low), ("high", ofFloat z.high), ("origin_time", z.originTime.toJson),
    ("origin_index", ofNat z.originIndex), ("direction", z.direction.toJson),
    ("role", z.role.toJson), ("strength", ofFloat z.strength), ("status", .text z.status.text),
    ("fill_pct", ofFloat z.fill), ("provenance", arrayOf Provenance.toJson z.provenance)]

/-- A register as an object. -/
def Register.toJson {β : Type} (f : β → Json) (r : Register β) : Json :=
  .object (r.entries.map fun e => (e.1, f e.2))

def ZoneCounts.toJson (c : ZoneCounts) : Json := .object
  [("by_kind", c.byKind.toJson ofNat), ("by_role", c.byRole.toJson ofNat),
    ("active_by_kind", c.activeByKind.toJson ofNat)]

def ZoneReport.toJson (r : ZoneReport Float) : Json := .object
  [("all", arrayOf Zone.toJson r.all), ("active", arrayOf Zone.toJson r.active),
    ("counts", r.counts.toJson), ("skipped", arrayOf Shortfall.toJson r.skipped)]

end PriceAction
