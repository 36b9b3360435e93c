import PriceAction.Snapshot.Analysis

/-!
# The engine

Every symbol has a worker of its own, with a queue of markets and a private store. A market joins
the queue of its symbol; any worker may then take the next step, which publishes a snapshot.
-/

namespace PriceAction

structure Worker (α : Type) where
  /-- Markets that wait, the next first. -/
  queue : List (Market α)
  store : Store α

structure Engine (α : Type) where
  settings : Settings α
  workers : Register (Worker α)
  /-- Snapshots in the order of their publication. -/
  published : List (Snapshot α)

namespace Engine

variable {α : Type}

def start (settings : Settings α) : Engine α := ⟨settings, .empty, []⟩

def symbols (e : Engine α) : List String := e.workers.keys

/-- The worker of a symbol, a new one if it has none yet. -/
def worker (e : Engine α) (symbol : String) : Worker α :=
  (e.workers.get? symbol).getD ⟨[], .empty e.settings.stability⟩

/-- Puts a market at the end of its symbol's queue. -/
def submit (e : Engine α) (m : Market α) : Engine α :=
  let w := e.worker m.symbol
  { e with workers := e.workers.insert m.symbol { w with queue := w.queue ++ [m] } }

/-- The records of the workers, by symbol. -/
def records (e : Engine α) : List (String × StableRecord α) :=
  e.workers.entries.filterMap fun (symbol, w) => (w.store.get? symbol).map fun r => (symbol, r)

variable [Scalar α]

/-- One step of a symbol's worker. Nothing happens on an empty queue, and a market of another
symbol is dropped. -/
def step (e : Engine α) (symbol : String) : Engine α :=
  let w := e.worker symbol
  match w.queue with
  | [] => e
  | m :: rest =>
    if m.symbol = symbol then
      let (snapshot, store) := m.snapshot e.settings w.store
      { e with
        workers := e.workers.insert symbol ⟨rest, store⟩
        published := e.published ++ [snapshot] }
    else { e with workers := e.workers.insert symbol { w with queue := rest } }

end Engine

end PriceAction
