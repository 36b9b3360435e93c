import PriceAction.Snapshot.Analysis

/-!
# Runs of snapshots

A batch takes markets in turn on one store. A replay goes through the primary bars of one market
and takes, for each, the snapshot of what had closed by then.
-/

namespace PriceAction

variable {α : Type} [Scalar α]

/-- The snapshots of markets in turn, and the store after them. -/
def batch (settings : Settings α) : List (Market α) → Store α → List (Snapshot α) × Store α
  | [], store => ([], store)
  | m :: rest, store =>
    let (snapshot, store) := m.snapshot settings store
    let (later, store) := batch settings rest store
    (snapshot :: later, store)

namespace Market

omit [Scalar α] in
/-- The times of the primary bars from number `warmup` on, counted from one. -/
def replayTimes (m : Market α) (warmup : Nat) : List Instant :=
  ((m.primaryBars?.getD []).drop (warmup - 1)).map (·.time)

omit [Scalar α] in
/-- The market at each step of its replay. -/
def replayMarkets (m : Market α) (warmup : Nat) : List (Market α) :=
  (m.replayTimes warmup).map m.upTo

/-- The snapshots of a replay, and the store after them. -/
def replay (m : Market α) (settings : Settings α) (warmup : Nat) (store : Store α) :
    List (Snapshot α) × Store α :=
  batch settings (m.replayMarkets warmup) store

end Market

end PriceAction
