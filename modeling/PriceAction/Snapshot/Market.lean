import PriceAction.Context
import PriceAction.Register
import PriceAction.Timeframe

/-!
# Market data

The bars of one symbol for each of its timeframes, one of which is primary, and the hints that
come with them. `upTo` goes back to what had closed by a given time.
-/

namespace PriceAction

structure Market (α : Type) where
  symbol : String
  primary : Timeframe
  /-- Closed bars, by the label of the timeframe. -/
  series : Register (List (Bar α))
  context : MarketContext α

namespace Market

variable {α : Type}

/-- The primary series as it was supplied. -/
def primaryBars? (m : Market α) : Option (List (Bar α)) :=
  m.series.get? m.primary.label

/-- The shortest timeframe below the primary one, the first by label on a tie. -/
def microTimeframe? (m : Market α) : Option Timeframe :=
  m.primary.minutes?.bind fun limit =>
    let shorter := m.series.keys.filterMap fun label =>
      (Timeframe.minutes? ⟨label⟩).bind fun n => if n < limit then some (n, label) else none
    (shorter.foldl
      (fun (kept : Option (Nat × String)) x => match kept with
        | some k => if x.1 < k.1 then some x else some k
        | none => some x)
      none).map fun (_, label) => ⟨label⟩

/-- The time at which the primary bar that opened at `t` closed. -/
def closeOf (m : Market α) (t : Instant) : Instant :=
  t.plus m.primary.barSeconds

/-- The bars of a timeframe that had closed by a time. -/
def closedBy (tf : Timeframe) (closed : Instant) (bars : List (Bar α)) : List (Bar α) :=
  bars.filter fun b => b.time.plus tf.barSeconds ≤ closed

/-- The market as it stood when the primary bar at `t` closed. -/
def upTo (m : Market α) (t : Instant) : Market α :=
  { m with series := m.series.map fun label bars => closedBy ⟨label⟩ (m.closeOf t) bars }

end Market

end PriceAction
