import PriceAction.Settings.Basic
import PriceAction.Structure.Leg

/-!
# Breaks of structure

A leg breaks structure when its end passes the pivot of the same kind before it, the leg is large
enough, and some bar of it closes beyond that pivot. A break against the standing direction is a
change of character.
-/

namespace PriceAction

inductive BreakKind where
  /-- The break continues the standing direction. -/
  | structural
  /-- The break turns against the standing direction. -/
  | character
deriving DecidableEq, Repr, Inhabited

def BreakKind.text : BreakKind → String
  | structural => "BOS"
  | character => "CHOCH"

structure Break (α : Type) where
  kind : BreakKind
  direction : Direction
  /-- The price of the broken pivot. -/
  price : α
  time : Instant
  /-- The first bar that closed beyond the pivot. -/
  barIndex : Nat
  legIndex : Nat
  /-- The amplitude of the leg. -/
  displacement : α

namespace Break

variable {α : Type} [Scalar α]

def isCharacter (e : Break α) : Bool := e.kind = .character

/-- What a leg has to exceed to break a level. -/
def threshold (settings : StructureSettings α) (volatility : α) (leg : Leg α) : α :=
  Scalar.max (settings.breakVolatilities * volatility) (settings.breakShare * leg.mid)

/-- The first bar of the leg, after its start, that closes beyond the level. -/
def firstClose? (bars : List (Bar α)) (leg : Leg α) (level : α) : Option (Nat × Bar α) :=
  let inLeg := (bars.drop (leg.start.index + 1)).take (leg.stop.index - leg.start.index)
  (inLeg.zipIdx (leg.start.index + 1)).findSome? fun (bar, i) =>
    if leg.direction.beyond bar.close level then some (i, bar) else none

/-- Where a leg breaks the pivot before its start, if it does. -/
def close? (settings : StructureSettings α) (volatility : α) (bars : List (Bar α)) (leg : Leg α)
    (prior : Swing α) : Option (Nat × Bar α) :=
  if leg.stop.kind.beyond leg.stop.price prior.price then
    if leg.amplitude ≤ threshold settings volatility leg then none
    else firstClose? bars leg prior.price
  else none

/-- The kind of a break, given the direction that stands before it. -/
def kindOf (standing? : Option Direction) (d : Direction) : BreakKind :=
  match standing? with
  | some standing => if standing = d then .structural else .character
  | none => .structural

/-- The direction that stands: that of the last change of character, or else of the trend of the
labels so far. -/
def standing? (settings : StructureSettings α) (lastCharacter : Option Direction)
    (labels : List SwingLabel) : Option Direction :=
  lastCharacter.or ((Trend.ofLabels? labels settings.trendLabels).bind Trend.direction?)

/-- The breaks of the legs from number `index` on, given the last change of character, the labels
and the start of the leg before. -/
def along (settings : StructureSettings α) (volatility : α) (bars : List (Bar α)) :
    (lastCharacter : Option Direction) → (labels : List SwingLabel) → (prior? : Option (Swing α)) →
    (index : Nat) → List (Leg α) → List (Break α)
  | _, _, _, _, [] => []
  | lastCharacter, labels, prior?, index, leg :: rest =>
    let labelsNext := labels ++ leg.label.toList
    match prior?.bind fun prior =>
        (close? settings volatility bars leg prior).map fun hit => (prior, hit) with
    | some (prior, i, bar) =>
      let kind := kindOf (standing? settings lastCharacter labels) leg.direction
      let found : Break α :=
        { kind := kind
          direction := leg.direction
          price := prior.price
          time := bar.time
          barIndex := i
          legIndex := index
          displacement := leg.amplitude }
      let lastNext := if found.isCharacter then some leg.direction else lastCharacter
      found :: along settings volatility bars lastNext labelsNext (some leg.start) (index + 1) rest
    | none =>
      along settings volatility bars lastCharacter labelsNext (some leg.start) (index + 1) rest

/-- The breaks of a list of legs, in their order. -/
def detect (bars : List (Bar α)) (legs : List (Leg α)) (volatility : α)
    (settings : StructureSettings α) : List (Break α) :=
  along settings volatility bars none [] none 0 legs

end Break

end PriceAction
