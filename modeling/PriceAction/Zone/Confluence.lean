import PriceAction.DisjointSet
import PriceAction.Selection
import PriceAction.Zone.Basic

/-!
# Points of interest

Two zones of one direction belong together when their bands overlap enough or are close enough.
Zones that are linked, directly or through others, form a group, and a group of two or more is a
point of interest. Its members stay as they are.
-/

namespace PriceAction.Zone

variable {α : Type} [Scalar α]

/-- Whether two zones belong together: a gap between them is small, or they overlap by enough of
the narrower one. -/
def belongsWith (settings : ConfluenceSettings α) (volatility : α) (a b : Zone α) : Bool :=
  let gap := Scalar.max a.low b.low - Scalar.min a.high b.high
  if 0.0 < gap then gap ≤ settings.gapVolatilities * volatility
  else
    let narrower := Scalar.min a.span b.span
    if narrower ≤ 0.0 then true
    else settings.overlapShare ≤ (-gap) / narrower

/-! ## Groups -/

/-- A zone with its place in the order of bands. -/
abbrev Placed (α : Type) := Zone α × Nat

/-- The zones after `z` in the order of bands that it is linked to. The search ends at the first
band that starts farther above `z` than any gap may be. -/
def linked (settings : ConfluenceSettings α) (volatility : α) (z : Zone α)
    (rest : List (Placed α)) : List (Placed α) :=
  (rest.takeWhile fun x =>
    !decide (settings.gapVolatilities * volatility < x.1.low - z.high)).filter fun x =>
      belongsWith settings volatility z x.1

/-- Joins each zone with those after it that it is linked to. -/
def joinLinked (settings : ConfluenceSettings α) (volatility : α) :
    List (Placed α) → DisjointSet → DisjointSet
  | [], s => s
  | x :: rest, s =>
    joinLinked settings volatility rest
      ((linked settings volatility x.1 rest).foldl (fun s y => s.union x.2 y.2) s)

/-- Adds a zone to the group that is filed under a root, or to a new one after all others. -/
def addTo (root : Nat) (x : Placed α) :
    List (Nat × List (Placed α)) → List (Nat × List (Placed α))
  | [] => [(root, [x])]
  | slot :: rest =>
    if slot.1 = root then (root, slot.2 ++ [x]) :: rest else slot :: addTo root x rest

/-- Adds a zone to the group of its root. -/
def collect (state : List (Nat × List (Placed α)) × DisjointSet) (x : Placed α) :
    List (Nat × List (Placed α)) × DisjointSet :=
  let (root, s) := state.2.find x.2
  (addTo root x state.1, s)

/-- The groups of linked zones, each by its first zone, given the zones in the order of bands. -/
def groups (settings : ConfluenceSettings α) (volatility : α) (zones : List (Zone α)) :
    List (List (Placed α)) :=
  let placed := zones.zipIdx
  let joined := joinLinked settings volatility placed (.singletons zones.length)
  (placed.foldl collect ([], joined)).1.map (·.2)

/-- The order of bands: by lower edge, then by upper edge. -/
def bandNotAfter (a b : Zone α) : Bool :=
  match Scalar.order a.low b.low with
  | .lt => true
  | .eq => (Scalar.order a.high b.high).isLE
  | .gt => false

/-! ## Composites -/

/-- Whether a zone is as young as another: by bar, then by time. -/
def asYoungAs (a b : Zone α) : Bool :=
  b.originIndex < a.originIndex ||
    (b.originIndex = a.originIndex && decide (b.originTime ≤ a.originTime))

/-- The point of interest of a group. It spans all members, and is as old as the youngest. -/
def ofGroup? (view : ZoneView α) (d : Direction) (group : List (Zone α)) : Option (Zone α) :=
  (choose? asYoungAs group).map fun youngest =>
    let ids := (group.map (·.id.text)).mergeSort fun a b => decide (a ≤ b)
    { id := idOf .confluence view.timeframe (",".intercalate ids)
      kind := .confluence
      timeframe := view.timeframe
      low := Scalar.least (group.map (·.low))
      high := Scalar.greatest (group.map (·.high))
      originTime := youngest.originTime
      originIndex := youngest.originIndex
      direction := d
      role := .relative d view.structural.bias
      strength := (group.map (·.strength)).foldl Scalar.max 0.0
      status := if group.any (·.status = .active) then .active else .mitigated
      fill := 0.0
      provenance := group.map fun z => .zone z.id z.kind }

/-- The zones that can be members: live, of the direction, and no points of interest. -/
def members (d : Direction) (prior : List (Zone α)) : List (Zone α) :=
  (prior.filter fun z =>
    z.direction = d && z.kind ≠ .confluence && z.status.isLive).mergeSort bandNotAfter

/-- The points of interest among the zones found so far, given the volatility; demand first. -/
def confluences (view : ZoneView α) (volatility : α) (prior : List (Zone α)) : List (Zone α) :=
  [Direction.bullish, Direction.bearish].flatMap fun d =>
    let found := groups view.settings.confluence volatility (members d prior)
    (found.filter fun group => 2 ≤ group.length).filterMap fun group =>
      ofGroup? view d (group.map (·.1))

end PriceAction.Zone
