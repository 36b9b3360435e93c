import PriceAction.Snapshot.Run

/-!
# The limits of the calendar and of words

A run must not compute a time outside the calendar, a span of time longer than the longest one or a
number of bars that does not fit a word. The runs here give nothing when that would happen, and
otherwise what the plain runs give.
-/

namespace PriceAction

variable {α : Type}

/-- Whether the bars of a timeframe have a length that a span of time can have. -/
def Timeframe.hasSpan (tf : Timeframe) : Bool :=
  tf.barSeconds.natAbs ≤ longestSpan.toNat

/-- Whether a bar of a timeframe closes within the calendar. -/
def Timeframe.closesInCalendar (tf : Timeframe) (t : Instant) : Bool :=
  (t.plus tf.barSeconds).inCalendar

namespace Market

/-- The market as it stood when the primary bar at `t` closed. -/
def upTo? (m : Market α) (t : Instant) : Option (Market α) :=
  let fits := m.primary.hasSpan && m.primary.closesInCalendar t &&
    m.series.entries.all fun e =>
      Timeframe.hasSpan ⟨e.1⟩ && e.2.all fun b => Timeframe.closesInCalendar ⟨e.1⟩ b.time
  if fits then some (m.upTo t) else none

variable [Scalar α]

/-- Whether the daily bars that are looked at for the daily range close within the calendar. -/
def dailyFits (m : Market α) (closed : Instant) : Bool :=
  match m.context.dailyRange, m.dailySeries? with
  | none, some (tf, bars) =>
    let latest := (sanitize bars).clean.reverse
    let passed := latest.takeWhile fun b => !hadClosed tf (some closed) b
    (latest.take (passed.length + 1)).all fun b => tf.closesInCalendar b.time
  | _, _ => true

/-- Whether the analysis stays within the calendar. -/
def analysisFits (m : Market α) (settings : Settings α) : Bool :=
  match (m.prepared settings).clean.getLast? with
  | some last =>
    m.primary.hasSpan && m.primary.closesInCalendar last.time && m.dailyFits (m.closeOf last.time)
  | none => true

/-- The analysis of a market, if it stays within the calendar and the bars that it needs can be
counted in words. -/
def analyze? (m : Market α) (settings : Settings α) : Option (Analysis α) :=
  let a := m.analyze settings
  if m.analysisFits settings ∧ settings.Countable ∧ a.zones.Countable settings.zones.lookback then
    some a
  else none

end Market

variable [Scalar α]

def Store.observe? (s : Store α) (symbol : String) (o : Observation α) : Option (Store α) :=
  if s.inCalendar symbol o then some (s.observe symbol o) else none

def Analysis.stabilize? (a : Analysis α) (store : Store α) : Option (Snapshot α × Store α) :=
  match a.observation? with
  | some o =>
    if store.inCalendar a.details.symbol o then some (a.stabilize store) else none
  | none => some (a.stabilize store)

def Market.snapshot? (m : Market α) (settings : Settings α) (store : Store α) :
    Option (Snapshot α × Store α) := do
  (← m.analyze? settings).stabilize? store

def batch? (settings : Settings α) : List (Market α) → Store α →
    Option (List (Snapshot α) × Store α)
  | [], store => some ([], store)
  | m :: rest, store => do
    let (snapshot, store) ← m.snapshot? settings store
    let (later, store) ← batch? settings rest store
    some (snapshot :: later, store)

def Market.replay? (m : Market α) (settings : Settings α) (warmup : Nat) (store : Store α) :
    Option (List (Snapshot α) × Store α) := do
  batch? settings (← (m.replayTimes warmup).mapM m.upTo?) store

end PriceAction
