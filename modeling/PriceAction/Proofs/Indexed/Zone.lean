import PriceAction.Proofs.Indexed.Basic
import PriceAction.Proofs.Zone.Report

/-!
# Zones by position

Order blocks, imbalances and breakers with every bar read at its position. Breaks lie at bars of the
series, so the searches before and after them stay inside it, and the zones are the same
(`orderBlocks?_eq`, `imbalances?_eq`, `breakers?_eq`).
-/

namespace PriceAction.Indexed

variable {α : Type} [Scalar α]

def lifecycle? (bars : List (Bar α)) (origin : Nat) (low high : α) (d : Direction) :
    Option ZoneStatus := do
  let first ← plus? origin 1
  some ((bars.drop first).foldl (Zone.revisit low high d) .active)

/-! ## Order blocks -/

/-- The last suitable candle before the bar of a break; candles are read from the latest back. -/
def candle? (settings : OrderBlockSettings α) (bars : List (Bar α)) (e : Break α) :
    Option (Option Nat) :=
  let earliest := e.barIndex - settings.prelude
  search? bars
    (fun i b =>
      if Zone.opposes e.direction b && decide (settings.leastBodyShare ≤ b.bodyRatio) then some i
      else none)
    (List.range' earliest (e.barIndex - earliest)).reverse

def blockOf? (view : ZoneView α) (volatility : α) (e : Break α) (eventIndex : Nat) :
    Option (Option (Zone α)) := do
  match ← candle? view.settings.orderBlock view.bars e with
  | none => some none
  | some i => do
    let candle ← view.bars[i]?
    let z := Zone.ofCandle view volatility e eventIndex candle i
    let status ← lifecycle? view.bars e.barIndex z.low z.high z.direction
    some (some { z with status := status })

def orderBlocks? (view : ZoneView α) (volatility : α) : Option (List (Zone α)) := do
  let found ← filterMap? (fun (e, i) => blockOf? view volatility e i) view.structural.breaks.zipIdx
  some (found.foldl Zone.addNew [])

/-! ## Imbalances -/

/-- The gap that the candle at `i` leaves to the one two before it. -/
def gapAt? (view : ZoneView α) (volatility : α) (i : Nat) : Option (Option (Zone α)) := do
  let before ← minus? i 2
  let place ← minus? i 1
  let first ← view.bars[before]?
  let middle ← view.bars[place]?
  let last ← view.bars[i]?
  let next ← plus? i 1
  let later ← slice? view.bars next view.bars.length
  match Zone.ofCandles? view volatility place first middle last later with
  | none => some none
  | some z => do
    let final ← minus? view.bars.length 1
    let age ← minus? final place
    some (some { z with status := Zone.gapStatus view.settings.imbalance z.fill age })

def imbalances? (view : ZoneView α) (volatility : α) : Option (List (Zone α)) :=
  filterMap? (gapAt? view volatility) (List.range' 2 (view.bars.length - 2))

/-! ## Breakers -/

def isSweptBy? (settings : BreakerSettings α) (block : Zone α) (s : Sweep α) : Option Bool :=
  if s.side = block.direction.opposite && block.originIndex < s.barIndex then do
    let delay ← minus? s.barIndex block.originIndex
    some (delay ≤ settings.delay &&
      decide (Scalar.abs (s.level - block.farEdge) ≤ Zone.edgeTolerance settings block))
  else some false

def isBrokenBy? (settings : BreakerSettings α) (volatility : α) (block : Zone α) (s : Sweep α)
    (e : Break α) : Option Bool :=
  if e.direction = block.direction.opposite && s.barIndex ≤ e.barIndex then do
    let delay ← minus? e.barIndex s.barIndex
    some (delay ≤ settings.delay &&
      decide (settings.breakVolatilities * volatility ≤ e.displacement))
  else some false

/-- The first break that goes with a sweep, if the sweep takes the edge of the block. -/
def turnBy? (view : ZoneView α) (volatility : α) (block : Zone α) (s : Sweep α) :
    Option (Option (Sweep α × Break α × Nat)) := do
  let swept ← isSweptBy? view.settings.breaker block s
  if swept then
    view.structural.breaks.zipIdx.findSomeM? fun (e, i) => do
      let broken ← isBrokenBy? view.settings.breaker volatility block s e
      some (if broken then some (s, e, i) else none)
  else some none

def breakerOf? (view : ZoneView α) (volatility : α) (block : Zone α) :
    Option (Option (Zone α)) := do
  match ← view.liquidity.sweeps.findSomeM? (turnBy? view volatility block) with
  | none => some none
  | some (s, e, i) => do
    let z := Zone.ofTurn view volatility block s e i
    let status ← lifecycle? view.bars e.barIndex z.low z.high z.direction
    some (some { z with status := status })

def breakers? (view : ZoneView α) (volatility : α) (prior : List (Zone α)) :
    Option (List (Zone α)) :=
  filterMap? (breakerOf? view volatility) (prior.filter (·.kind = .orderBlock))

/-! ## Agreement -/

theorem lifecycle?_eq {bars : List (Bar α)} (hbars : bars.length ≤ 2 ^ 32) {origin : Nat}
    (h : origin < bars.length) (low high : α) (d : Direction) :
    lifecycle? bars origin low high d = some (Zone.lifecycle bars origin low high d) := by
  rw [lifecycle?, plus?_eq (by omega)]
  rfl

section

variable {view : ZoneView α} {volatility : α}

theorem candle?_eq (settings : OrderBlockSettings α) {bars : List (Bar α)} {e : Break α}
    (h : e.barIndex < bars.length) :
    candle? settings bars e = some ((Zone.candle? settings bars e).map (·.2)) := by
  rw [candle?, Zone.candle?]
  dsimp only
  rw [← map_snd_drop_take_zipIdx bars _ h.le, ← List.map_reverse, search?_eq_findSome?]
  · rw [List.find?_eq_findSome?_guard, List.map_findSome?]
    congr 2
    funext p
    dsimp only [Function.comp, Option.guard]
    split <;> rfl
  · intro p hp
    exact getElem?_of_mem_zipIdx
      (List.mem_of_mem_take (List.mem_of_mem_drop (List.mem_reverse.1 hp)))

theorem getElem?_of_candle? {settings : OrderBlockSettings α} {bars : List (Bar α)} {e : Break α}
    {hit : Bar α × Nat} (h : Zone.candle? settings bars e = some hit) :
    bars[hit.2]? = some hit.1 :=
  getElem?_of_mem_zipIdx (List.mem_of_mem_take
    (List.mem_of_mem_drop (List.mem_reverse.1 (List.mem_of_find?_eq_some h))))

theorem blockOf?_eq (hbars : view.bars.length ≤ 2 ^ 32) {e : Break α}
    (h : e.barIndex < view.bars.length) (eventIndex : Nat) :
    blockOf? view volatility e eventIndex =
      some (Zone.ofBreak? view volatility e eventIndex) := by
  rw [blockOf?, candle?_eq _ h, Zone.ofBreak?]
  simp only [Option.bind_eq_bind, Option.bind_some]
  cases hcandle : Zone.candle? view.settings.orderBlock view.bars e with
  | none => rfl
  | some hit =>
    simp only [Option.map_some, getElem?_of_candle? hcandle, Option.bind_some,
      lifecycle?_eq hbars h]
    rfl

theorem orderBlocks?_eq (hbars : view.bars.length ≤ 2 ^ 32)
    (hbreaks : ∀ e ∈ view.structural.breaks, e.barIndex < view.bars.length) :
    orderBlocks? view volatility = some (Zone.orderBlocks view volatility) := by
  rw [orderBlocks?, filterMap?_eq_filterMap fun x hx =>
    blockOf?_eq hbars (hbreaks x.1 (List.fst_mem_of_mem_zipIdx hx)) x.2]
  rfl

theorem status_of_ofCandles? {index : Nat} {first middle last : Bar α} {later : List (Bar α)}
    {z : Zone α} (h : Zone.ofCandles? view volatility index first middle last later = some z) :
    z.status = Zone.gapStatus view.settings.imbalance z.fill (later.length + 1) := by
  rw [Zone.ofCandles?, Option.bind_eq_some_iff] at h
  obtain ⟨⟨low, high, d⟩, -, h⟩ := h
  dsimp only at h
  rw [Option.ite_none_left_eq_some, Option.some.injEq] at h
  obtain ⟨-, rfl⟩ := h
  rfl

theorem gapAt?_eq (hbars : view.bars.length ≤ 2 ^ 32) {i : Nat} {first middle last : Bar α}
    {later : List (Bar α)} (h : view.bars.drop i = first :: middle :: last :: later) :
    gapAt? view volatility (i + 2) =
      some (Zone.ofCandles? view volatility (i + 1) first middle last later) := by
  have hlength : view.bars.length - i = later.length + 3 := by
    rw [← List.length_drop, h]
    rfl
  have hget (k : Nat) : view.bars[i + k]? = (first :: middle :: last :: later)[k]? := by
    rw [← h, List.getElem?_drop]
  have hlater : view.bars.drop (i + 2 + 1) = later := by
    rw [Nat.add_assoc, ← List.drop_drop, h]
    rfl
  rw [gapAt?, minus?_eq (by omega), minus?_eq (by omega)]
  have hfirst : view.bars[i + 2 - 2]? = some first := hget 0
  have hmiddle : view.bars[i + 2 - 1]? = some middle := hget 1
  have hlast : view.bars[i + 2]? = some last := hget 2
  have hplace : i + 2 - 1 = i + 1 := rfl
  simp only [Option.bind_eq_bind, Option.bind_some, hfirst, hmiddle, hlast]
  rw [plus?_eq (by omega), Option.bind_some, slice?_eq_drop (by omega), Option.bind_some, hlater,
    hplace]
  cases hzone : Zone.ofCandles? view volatility (i + 1) first middle last later with
  | none => rfl
  | some z =>
    have hage : view.bars.length - 1 - (i + 1) = later.length + 1 := by omega
    dsimp only
    rw [minus?_eq (by omega), Option.bind_some, minus?_eq (by omega), Option.bind_some, hage,
      ← status_of_ofCandles? hzone]

theorem filterMap?_gapAt?_eq (hbars : view.bars.length ≤ 2 ^ 32) {i n : Nat}
    (h : i + n + 2 = view.bars.length) :
    filterMap? (gapAt? view volatility) (List.range' (i + 2) n) =
      some (Zone.imbalancesFrom view volatility i (view.bars.drop i)) := by
  induction n generalizing i with
  | zero =>
    obtain ⟨a, b, hdrop⟩ : ∃ a b, view.bars.drop i = [a, b] := by
      rw [← List.length_eq_two, List.length_drop]
      omega
    rw [hdrop]
    rfl
  | succ n ih =>
    have hlater := ih (i := i + 1) (by omega)
    rw [List.drop_eq_getElem_cons (by omega), List.drop_eq_getElem_cons (by omega)] at hlater
    have hdrop : view.bars.drop i =
        view.bars[i] :: view.bars[i + 1] :: view.bars[i + 2] :: view.bars.drop (i + 3) := by
      rw [List.drop_eq_getElem_cons (by omega), List.drop_eq_getElem_cons (by omega),
        List.drop_eq_getElem_cons (by omega)]
    rw [List.range'_succ, hdrop]
    exact filterMap?_cons (gapAt?_eq hbars hdrop) hlater

theorem imbalances?_eq (hbars : view.bars.length ≤ 2 ^ 32) :
    imbalances? view volatility = some (Zone.imbalances view volatility) := by
  rw [imbalances?, Zone.imbalances]
  by_cases h : 2 ≤ view.bars.length
  · exact filterMap?_gapAt?_eq (i := 0) hbars (by omega)
  · rw [Nat.sub_eq_zero_of_le (by omega)]
    match hshort : view.bars with
    | [] => rfl
    | [b] => rfl
    | _ :: _ :: _ => simp [hshort] at h

theorem isSweptBy?_eq (settings : BreakerSettings α) (block : Zone α) (s : Sweep α) :
    isSweptBy? settings block s = some (Zone.isSweptBy settings block s) := by
  rw [isSweptBy?, Zone.isSweptBy, Bool.and_assoc]
  apply ite_some_false_eq
  intro h
  have hlt := of_decide_eq_true (Bool.and_eq_true_iff.1 h).2
  rw [minus?_eq hlt.le]
  rfl

theorem isBrokenBy?_eq (settings : BreakerSettings α) (volatility : α) (block : Zone α)
    (s : Sweep α) (e : Break α) :
    isBrokenBy? settings volatility block s e =
      some (Zone.isBrokenBy settings volatility block s e) := by
  rw [isBrokenBy?, Zone.isBrokenBy, Bool.and_assoc]
  apply ite_some_false_eq
  intro h
  have hle := of_decide_eq_true (Bool.and_eq_true_iff.1 h).2
  rw [minus?_eq hle]
  rfl

theorem findSomeM?_turnBy?_eq (view : ZoneView α) (volatility : α) (block : Zone α) :
    view.liquidity.sweeps.findSomeM? (turnBy? view volatility block) =
      some (Zone.turn? view volatility block) := by
  have hbreak (s : Sweep α) : view.structural.breaks.zipIdx.findSomeM? (fun (e, i) => do
      let broken ← isBrokenBy? view.settings.breaker volatility block s e
      some (if broken then some (s, e, i) else none)) =
      some ((view.structural.breaks.zipIdx.find? fun (e, _) =>
        Zone.isBrokenBy view.settings.breaker volatility block s e).map fun (e, i) =>
          (s, e, i)) := by
    rw [map_find?_eq_findSome?]
    apply findSomeM?_eq_findSome?
    rintro ⟨e, i⟩ -
    dsimp only
    rw [isBrokenBy?_eq]
    rfl
  rw [Zone.turn?, ← findSome?_ite]
  apply findSomeM?_eq_findSome?
  intro s _
  rw [turnBy?, isSweptBy?_eq]
  simp only [Option.bind_eq_bind, Option.bind_some]
  split
  · exact hbreak s
  · rfl

theorem mem_breaks_of_turn? {block : Zone α} {s : Sweep α} {e : Break α} {i : Nat}
    (h : Zone.turn? view volatility block = some (s, e, i)) : e ∈ view.structural.breaks := by
  obtain ⟨s', -, hs'⟩ := List.exists_of_findSome?_eq_some h
  obtain ⟨⟨e', i'⟩, hfound, heq⟩ := Option.map_eq_some_iff.1 hs'
  cases heq
  exact List.fst_mem_of_mem_zipIdx (List.mem_of_find?_eq_some hfound)

theorem breakers?_eq (hbars : view.bars.length ≤ 2 ^ 32)
    (hbreaks : ∀ e ∈ view.structural.breaks, e.barIndex < view.bars.length)
    (prior : List (Zone α)) :
    breakers? view volatility prior = some (Zone.breakers view volatility prior) := by
  apply filterMap?_eq_filterMap
  intro block _
  rw [breakerOf?, findSomeM?_turnBy?_eq]
  simp only [Option.bind_eq_bind, Option.bind_some]
  cases hturn : Zone.turn? view volatility block with
  | none => rfl
  | some turn =>
    obtain ⟨s, e, i⟩ := turn
    dsimp only
    rw [lifecycle?_eq hbars (hbreaks e (mem_breaks_of_turn? hturn)), Zone.ofTurn]
    rfl

end

end PriceAction.Indexed
