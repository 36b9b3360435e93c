import PriceAction.Bar
import PriceAction.Power

/-!
# Swings

A bar is a swing high when its high stands above the highs of the `window` bars before it and not
below those of the `window` bars after it; swing lows are the mirror image. So the earliest of
equal extremes wins, and the latest `window` bars hold no swing yet.
-/

namespace PriceAction

inductive SwingKind where
  | high
  | low
deriving DecidableEq, Repr, Inhabited

namespace SwingKind

/-- The side of the market that an extreme of this kind bounds. -/
def side : SwingKind → Direction
  | high => .bullish
  | low => .bearish

def text : SwingKind → String
  | high => "HIGH"
  | low => "LOW"

variable {α : Type} [Scalar α]

def price (k : SwingKind) (b : Bar α) : α := b.extreme k.side

/-- Whether the first price is strictly more extreme. -/
def beyond (k : SwingKind) (x y : α) : Bool := k.side.beyond x y

end SwingKind

structure Swing (α : Type) where
  /-- The position of the bar. -/
  index : Nat
  time : Instant
  price : α
  kind : SwingKind
  /-- The multiples of the window over which the swing stays the extreme. -/
  strength : Nat

namespace Swing

variable {α : Type} [Scalar α]

/-- Whether there are `k` bars on each side, and among them all the bar is the earliest extreme.
`before` lists the earlier bars from the nearest on. -/
def isPivot (kind : SwingKind) (before : List (Bar α)) (bar : Bar α) (after : List (Bar α))
    (k : Nat) : Bool :=
  let left := before.take k
  let right := after.take k
  left.length = k && right.length = k &&
    left.all (fun b => kind.beyond (kind.price bar) (kind.price b)) &&
    right.all (fun b => !kind.beyond (kind.price b) (kind.price bar))

/-- The number of multiples of the window, from one on and at most `cap`, over which the bar stays
a pivot. -/
def strengthOf (kind : SwingKind) (before : List (Bar α)) (bar : Bar α) (after : List (Bar α))
    (window cap : Nat) : Nat :=
  ((List.range' 2 (min (cap - 1) before.length)).takeWhile fun m =>
    isPivot kind before bar after (window * m)).length + 1

/-- The swings of one bar. On a bar that is both, the low comes first if the bar is bullish. -/
def atBar (window cap : Nat) (before : List (Bar α)) (bar : Bar α) (after : List (Bar α)) :
    List (Swing α) :=
  let kinds : List SwingKind := if bar.isBullish then [.low, .high] else [.high, .low]
  (kinds.filter fun kind => isPivot kind before bar after window).map fun kind =>
    { index := before.length
      time := bar.time
      price := kind.price bar
      kind := kind
      strength := strengthOf kind before bar after window cap }

/-- The swings of the bars from one bar on. -/
def scan (window cap : Nat) : (before : List (Bar α)) → List (Bar α) → List (Swing α)
  | _, [] => []
  | before, bar :: after => atBar window cap before bar after ++ scan window cap (bar :: before) after

/-- The swings of a series, ordered by bar. -/
def detect (bars : List (Bar α)) (window cap : Nat) : List (Swing α) :=
  if window = 0 then [] else scan window cap [] bars

/-- The swings of a series. A swing needs itself and `window` bars on each side; there is no result
if that many do not fit a word of 64 bits. -/
def detect? (bars : List (Bar α)) (window cap : Nat) : Option (List (Swing α)) :=
  if 2 * window + 1 < pow2 64 then some (detect bars window cap) else none

end Swing

end PriceAction
