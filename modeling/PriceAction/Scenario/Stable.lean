import PriceAction.Scenario.Decision
import PriceAction.Settings.Basic

/-!
# The stable scenario

The raw decision of every snapshot feeds a record whose stable decision changes slowly. A
candidate takes over only when the cooldown since the last switch is over, it has been the raw
decision often enough in a row, and it beats a named stable scenario by a margin of confidence.
-/

namespace PriceAction

/-- What an observation did to the stable scenario. -/
inductive Transition where
  | firstObservation
  | matchesStable
  | cooldownActive
  | pendingConfirmation
  | insufficientConfidence
  | switched
  | outOfOrder
deriving DecidableEq, Repr, Inhabited

namespace Transition

/-- The name of the transition in data files. -/
def text : Transition → String
  | firstObservation => "FIRST_OBSERVATION"
  | matchesStable => "MATCHES_STABLE"
  | cooldownActive => "COOLDOWN_ACTIVE"
  | pendingConfirmation => "PENDING_CONFIRMATION"
  | insufficientConfidence => "INSUFFICIENT_CONFIDENCE"
  | switched => "SWITCHED"
  | outOfOrder => "OUT_OF_ORDER"

/-- The transition in words. -/
def message : Transition → String
  | firstObservation => "first observation"
  | matchesStable => "raw matches stable"
  | cooldownActive => "cooldown active"
  | pendingConfirmation => "pending confirmation"
  | insufficientConfidence => "insufficient confidence"
  | switched => "switched"
  | outOfOrder => "out-of-order snapshot ignored"

end Transition

/-- A candidate for the stable scenario. -/
structure Candidate (α : Type) where
  scenario : Scenario
  direction : Option Direction
  /-- Observations in a row that have decided for it. -/
  count : Nat
  confidence : α
  since : Instant

/-- The record of one symbol. -/
structure StableRecord (α : Type) where
  stable : Decision α
  raw : Decision α
  pending : Option (Candidate α)
  stableSince : Instant
  /-- The earliest time of the next switch. -/
  nextSwitchAt : Instant
  /-- The latest time observed. -/
  lastSeen : Instant
  lastTransition : Transition
  /-- Confirmations that the present candidate needs. -/
  required : Nat

/-- One raw decision with its time, and the direction of a recent break on the micro timeframe. -/
structure Observation (α : Type) where
  raw : Decision α
  time : Instant
  micro : Option Direction

variable {α : Type}

namespace Candidate

def key (c : Candidate α) : Scenario × Option Direction := (c.scenario, c.direction)

/-- The candidate after one more observation: it counts on, or starts anew. -/
def next (pending : Option (Candidate α)) (o : Observation α) : Candidate α :=
  match pending.filter fun c => c.key = o.raw.key with
  | some c => { c with count := c.count + 1, confidence := o.raw.confidence }
  | none =>
    { scenario := o.raw.scenario
      direction := o.raw.direction
      count := 1
      confidence := o.raw.confidence
      since := o.time }

end Candidate

/-- Confirmations that an observation asks for: a break on the micro timeframe in its direction
waives some, but never all. -/
def StabilitySettings.requiredFor (settings : StabilitySettings α) (o : Observation α) : Nat :=
  let waived := match o.micro, o.raw.direction with
    | some m, some d => if m = d then settings.microDiscount else 0
    | _, _ => 0
  max (settings.confirmations - waived) 1

namespace StableRecord

/-- The record of a symbol's first observation, which is stable at once. -/
def first (settings : StabilitySettings α) (o : Observation α) : StableRecord α where
  stable := o.raw
  raw := o.raw
  pending := none
  stableSince := o.time
  nextSwitchAt := o.time.plus settings.cooldown
  lastSeen := o.time
  lastTransition := .firstObservation
  required := settings.confirmations

section Observe

variable [Scalar α]

/-- What becomes of a candidate: the first of cooldown, confirmation and confidence that holds it
back, or the switch. -/
def judge (settings : StabilitySettings α) (r : StableRecord α) (o : Observation α)
    (candidate : Candidate α) : Transition :=
  if o.time < r.nextSwitchAt then .cooldownActive
  else if candidate.count < settings.requiredFor o then .pendingConfirmation
  else if r.stable.scenario ≠ .unclear ∧
      o.raw.confidence < r.stable.confidence + settings.margin then .insufficientConfidence
  else .switched

/-- The record after an observation that decides as the stable scenario does. -/
def confirm (settings : StabilitySettings α) (r : StableRecord α) (o : Observation α) :
    StableRecord α :=
  { r with
    stable := o.raw
    raw := o.raw
    pending := none
    lastSeen := o.time
    lastTransition := .matchesStable
    required := settings.confirmations }

/-- The record after an observation for another scenario. -/
def contest (settings : StabilitySettings α) (r : StableRecord α) (o : Observation α) :
    StableRecord α :=
  let candidate := Candidate.next r.pending o
  let verdict := judge settings r o candidate
  if verdict = .switched then
    { stable := o.raw
      raw := o.raw
      pending := none
      stableSince := o.time
      nextSwitchAt := o.time.plus settings.cooldown
      lastSeen := o.time
      lastTransition := .switched
      required := settings.confirmations }
  else
    { r with
      raw := o.raw
      pending := some candidate
      lastSeen := o.time
      lastTransition := verdict
      required := settings.requiredFor o }

/-- The record after an observation. One at the latest time changes nothing, and of an earlier one
only the transition is kept. -/
def observe (settings : StabilitySettings α) (r : StableRecord α) (o : Observation α) :
    StableRecord α :=
  if o.time = r.lastSeen then r
  else if o.time < r.lastSeen then { r with lastTransition := .outOfOrder }
  else if o.raw.key = r.stable.key then r.confirm settings o
  else r.contest settings o

end Observe

/-- Whether the raw decision agrees with the stable one. -/
def isSettled (r : StableRecord α) : Bool :=
  r.pending.isNone && r.raw.key = r.stable.key

end StableRecord

/-! ## Reports -/

/-- A decision without its reasons. -/
structure DecisionSummary (α : Type) where
  scenario : Scenario
  direction : Option Direction
  confidence : α

def Decision.summary (d : Decision α) : DecisionSummary α :=
  ⟨d.scenario, d.direction, d.confidence⟩

/-- A candidate with the confirmations it needs. -/
structure CandidateSummary where
  scenario : Scenario
  direction : Option Direction
  count : Nat
  required : Nat
deriving DecidableEq, Repr

/-- The scenario part of a snapshot. -/
structure ScenarioReport (α : Type) where
  stable : DecisionSummary α
  raw : DecisionSummary α
  pending : Option CandidateSummary
  settled : Bool
  transition : Transition
  /-- The transition in words, then the reasons of the stable decision. -/
  reasons : List String
  keyLevels : List (KeyLevel α)
  stableSince : Instant
  nextSwitchAt : Instant

def StableRecord.report (r : StableRecord α) : ScenarioReport α where
  stable := r.stable.summary
  raw := r.raw.summary
  pending := r.pending.map fun c => ⟨c.scenario, c.direction, c.count, r.required⟩
  settled := r.isSettled
  transition := r.lastTransition
  reasons := r.lastTransition.message :: r.stable.reasons
  keyLevels := r.stable.keyLevels
  stableSince := r.stableSince
  nextSwitchAt := r.nextSwitchAt

end PriceAction
