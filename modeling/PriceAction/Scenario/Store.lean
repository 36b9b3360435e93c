import PriceAction.Register
import PriceAction.Scenario.Stable

/-!
# The store of stable scenarios

One record for each symbol that has been observed. An observation of one symbol changes no other
symbol's record.
-/

namespace PriceAction

structure Store (α : Type) where
  settings : StabilitySettings α
  records : Register (StableRecord α)

namespace Store

variable {α : Type}

def empty (settings : StabilitySettings α) : Store α := ⟨settings, .empty⟩

def get? (s : Store α) (symbol : String) : Option (StableRecord α) :=
  s.records.get? symbol

def symbols (s : Store α) : List String := s.records.keys

def size (s : Store α) : Nat := s.records.size

variable [Scalar α]

/-- The record of a symbol after an observation. -/
def nextRecord (s : Store α) (symbol : String) (o : Observation α) : StableRecord α :=
  match s.get? symbol with
  | some r => r.observe s.settings o
  | none => .first s.settings o

/-- The store after an observation of a symbol. -/
def observe (s : Store α) (symbol : String) (o : Observation α) : Store α :=
  { s with records := s.records.insert symbol (s.nextRecord symbol o) }

/-- Whether the times of a symbol's next record stay in the calendar. -/
def inCalendar (s : Store α) (symbol : String) (o : Observation α) : Bool :=
  (s.nextRecord symbol o).nextSwitchAt.inCalendar

@[simp] theorem get?_observe (s : Store α) (symbol : String) (o : Observation α) :
    (s.observe symbol o).get? symbol = some (s.nextRecord symbol o) := by
  simp [observe, get?]

theorem get?_observe_of_ne (s : Store α) {symbol other : String} (h : other ≠ symbol)
    (o : Observation α) : (s.observe symbol o).get? other = s.get? other := by
  simp [observe, get?, Register.get?_insert_of_ne _ h]

end Store

end PriceAction
