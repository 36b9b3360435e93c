import PriceAction.Scenario.Store
import PriceAction.Structure.Encoding

/-!
# Scenarios as data

How decisions, records and reports are written to a data file. A decision shows its obstacle only
when it has one.
-/

namespace PriceAction

open Json (arrayOf ofFloat ofNat orNull)

def KeyLevel.toJson (l : KeyLevel Float) : Json := .object
  [("name", .text l.name), ("price", ofFloat l.price)]

def Decision.toJson (d : Decision Float) : Json := .object
  ([("label", .text d.scenario.text), ("direction", orNull Direction.toJson d.direction),
    ("confidence", ofFloat d.confidence), ("reasons", arrayOf Json.text d.reasons),
    ("key_levels", arrayOf KeyLevel.toJson d.keyLevels)] ++
    (d.obstacle.map fun o => ("unclear_reason", Json.text o.text)).toList)

def Candidate.toJson (c : Candidate Float) : Json := .object
  [("label", .text c.scenario.text), ("direction", orNull Direction.toJson c.direction),
    ("count", ofNat c.count), ("confidence", ofFloat c.confidence), ("since", c.since.toJson)]

def StableRecord.toJson (r : StableRecord Float) : Json := .object
  [("stable", r.stable.toJson), ("raw", r.raw.toJson), ("pending", orNull Candidate.toJson r.pending),
    ("stable_since", r.stableSince.toJson), ("next_switch_at", r.nextSwitchAt.toJson),
    ("last_as_of", r.lastSeen.toJson), ("last_reason", .text r.lastTransition.text),
    ("required_confirmations", ofNat r.required)]

def DecisionSummary.toJson (d : DecisionSummary Float) : Json := .object
  [("label", .text d.scenario.text), ("direction", orNull Direction.toJson d.direction),
    ("confidence", ofFloat d.confidence)]

def CandidateSummary.toJson (c : CandidateSummary) : Json := .object
  [("label", .text c.scenario.text), ("direction", orNull Direction.toJson c.direction),
    ("count", ofNat c.count), ("required", ofNat c.required)]

def ScenarioReport.toJson (r : ScenarioReport Float) : Json := .object
  [("stable", r.stable.toJson), ("raw", r.raw.toJson),
    ("pending", orNull CandidateSummary.toJson r.pending),
    ("status", .text (if r.settled then "SETTLED" else "FLUCTUATING")),
    ("transition", .text r.transition.text), ("reasons", arrayOf Json.text r.reasons),
    ("key_levels", arrayOf KeyLevel.toJson r.keyLevels), ("stable_since", r.stableSince.toJson),
    ("next_switch_at", r.nextSwitchAt.toJson)]

end PriceAction
