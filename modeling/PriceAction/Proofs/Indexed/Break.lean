import PriceAction.Proofs.Indexed.Basic
import PriceAction.Proofs.Structure.Dated

/-!
# Breaks by position

A leg is searched position by position for its first close beyond the pivot before it, which is
read off the leg before. Legs between bars of the series keep all reads inside it, and the breaks
are the same (`breaks?_eq`).
-/

namespace PriceAction.Indexed

variable {α : Type}

/-! ## The trend of labels -/

def trend? (labels : List SwingLabel) (window : Nat) : Option (Option Trend) :=
  if labels.length < 2 then some none
  else do
    let latest ← slice? labels (labels.length - max window 2) labels.length
    some (some (
      if latest.all fun l => l.direction = .bullish then .up
      else if latest.all fun l => l.direction = .bearish then .down
      else .range))

theorem trend?_eq (labels : List SwingLabel) (window : Nat) :
    trend? labels window = some (Trend.ofLabels? labels window) := by
  rw [trend?, Trend.ofLabels?, slice?_eq_drop (Nat.sub_le ..)]
  simp only [Option.bind_eq_bind, Option.bind_some]
  split_ifs <;> rfl

/-- The direction that stands; the labels are only looked at without a change of character. -/
def standing? (settings : StructureSettings α) (last : Option Direction)
    (labels : List SwingLabel) : Option (Option Direction) :=
  match last with
  | some d => some (some d)
  | none => do
    let trend ← trend? labels settings.trendLabels
    some (trend.bind Trend.direction?)

theorem standing?_eq (settings : StructureSettings α) (last : Option Direction)
    (labels : List SwingLabel) :
    standing? settings last labels = some (Break.standing? settings last labels) := by
  cases last with
  | none =>
    rw [standing?, trend?_eq]
    rfl
  | some d => rfl

/-! ## One leg -/

variable [Scalar α]

def firstClose? (bars : List (Bar α)) (leg : Leg α) (level : α) : Option (Option Nat) := do
  let first ← plus? leg.start.index 1
  search? bars (fun i bar => if leg.direction.beyond bar.close level then some i else none)
    (List.range' first (leg.stop.index + 1 - first))

/-- The break of a leg, given the pivot before its start. -/
def breakOf? (settings : StructureSettings α) (volatility : α) (bars : List (Bar α))
    (last : Option Direction) (labels : List SwingLabel) (index : Nat) (leg : Leg α)
    (prior : Swing α) : Option (Option (Break α)) :=
  if leg.stop.kind.beyond leg.stop.price prior.price then
    if leg.amplitude ≤ Break.threshold settings volatility leg then some none
    else do
      match ← firstClose? bars leg prior.price with
      | none => some none
      | some i => do
        let standing ← standing? settings last labels
        let bar ← bars[i]?
        some (some
          { kind := Break.kindOf standing leg.direction
            direction := leg.direction
            price := prior.price
            time := bar.time
            barIndex := i
            legIndex := index
            displacement := leg.amplitude })
  else some none

/-- The start of the leg before a leg. -/
def prior? (legs : List (Leg α)) : (index : Nat) → Option (Option (Swing α))
  | 0 => some none
  | previous + 1 => do
    let leg ← legs[previous]?
    some (some leg.start)

/-- The break of a leg; the first leg has none. -/
def breakAt? (settings : StructureSettings α) (volatility : α) (bars : List (Bar α))
    (legs : List (Leg α)) (last : Option Direction) (labels : List SwingLabel) (index : Nat)
    (leg : Leg α) : Option (Option (Break α)) := do
  match ← prior? legs index with
  | none => some none
  | some prior => breakOf? settings volatility bars last labels index leg prior

/-- The breaks of the rest of the legs, which are numbered from `index` on. -/
def breaksFrom? (settings : StructureSettings α) (volatility : α) (bars : List (Bar α))
    (legs : List (Leg α)) : (last : Option Direction) → (labels : List SwingLabel) →
    (index : Nat) → List (Leg α) → Option (List (Break α))
  | _, _, _, [] => some []
  | last, labels, index, leg :: rest => do
    let found ← breakAt? settings volatility bars legs last labels index leg
    let later ← breaksFrom? settings volatility bars legs (Break.lastTurn last found.toList)
      (labels ++ leg.label.toList) (index + 1) rest
    some (found.toList ++ later)

def breaks? (bars : List (Bar α)) (legs : List (Leg α)) (volatility : α)
    (settings : StructureSettings α) : Option (List (Break α)) :=
  breaksFrom? settings volatility bars legs none [] 0 legs

/-! ## Agreement -/

variable {bars : List (Bar α)} {settings : StructureSettings α} {volatility : α}

theorem firstClose?_eq (hbars : bars.length ≤ 2 ^ 32) {leg : Leg α}
    (hstart : leg.start.index < bars.length) (hstop : leg.stop.index < bars.length) (level : α) :
    firstClose? bars leg level = some ((Break.firstClose? bars leg level).map (·.1)) := by
  -- the bars of the leg after its start, with their positions
  have hpositions : List.range' (leg.start.index + 1) (leg.stop.index + 1 - (leg.start.index + 1)) =
      (((bars.drop (leg.start.index + 1)).take (leg.stop.index - leg.start.index)).zipIdx
        (leg.start.index + 1)).map Prod.snd := by
    rw [List.zipIdx_map_snd, List.length_take, List.length_drop]
    congr 1
    omega
  have hread : ∀ p ∈ ((bars.drop (leg.start.index + 1)).take
      (leg.stop.index - leg.start.index)).zipIdx (leg.start.index + 1), bars[p.2]? = some p.1 :=
    fun p hp => getElem?_of_mem_zipIdx_of_prefix (List.take_prefix ..) hp
  rw [firstClose?, plus?_eq (by omega)]
  simp only [Option.bind_eq_bind, Option.bind_some]
  rw [hpositions, search?_eq_findSome? hread, Break.firstClose?, List.map_findSome?]
  congr 2
  funext p
  dsimp only [Function.comp]
  split <;> rfl

theorem breakOf?_eq (hbars : bars.length ≤ 2 ^ 32) {leg : Leg α}
    (hstart : leg.start.index < bars.length) (hstop : leg.stop.index < bars.length)
    (last : Option Direction) (labels : List SwingLabel) (index : Nat) (prior : Swing α) :
    breakOf? settings volatility bars last labels index leg prior =
      some (Break.ofLeg? settings volatility bars last labels (some prior) index leg) := by
  rw [breakOf?, Break.ofLeg?, Option.bind_some, Break.close?,
    firstClose?_eq hbars hstart hstop]
  split
  · split
    · rfl
    · cases hfirst : Break.firstClose? bars leg prior.price with
      | none => rfl
      | some hit =>
        simp [standing?_eq, Break.getElem?_of_firstClose? hfirst]
  · rfl

omit [Scalar α] in
theorem prior?_length (done rest : List (Leg α)) :
    prior? (done ++ rest) done.length = some (done.getLast?.map (·.start)) := by
  induction done using List.reverseRecOn with
  | nil => rfl
  | append_singleton done leg _ =>
    simp [prior?]

theorem breakAt?_eq (hbars : bars.length ≤ 2 ^ 32) (done rest : List (Leg α)) {leg : Leg α}
    (hstart : leg.start.index < bars.length) (hstop : leg.stop.index < bars.length)
    (last : Option Direction) (labels : List SwingLabel) :
    breakAt? settings volatility bars (done ++ rest) last labels done.length leg =
      some (Break.ofLeg? settings volatility bars last labels (done.getLast?.map (·.start))
        done.length leg) := by
  rw [breakAt?, prior?_length]
  cases done.getLast?.map (·.start) with
  | none => rfl
  | some prior => exact breakOf?_eq hbars hstart hstop last labels done.length prior

theorem breaksFrom?_eq (hbars : bars.length ≤ 2 ^ 32) (done : List (Leg α)) {rest : List (Leg α)}
    (hlegs : ∀ l ∈ rest, l.start.index < bars.length ∧ l.stop.index < bars.length)
    (last : Option Direction) (labels : List SwingLabel) :
    breaksFrom? settings volatility bars (done ++ rest) last labels done.length rest =
      some (Break.along settings volatility bars last labels (done.getLast?.map (·.start))
        done.length rest) := by
  induction rest generalizing done last labels with
  | nil => rfl
  | cons leg rest ih =>
    obtain ⟨hstart, hstop⟩ := hlegs leg List.mem_cons_self
    have hrest := ih (done ++ [leg]) (fun l hl => hlegs l (List.mem_cons_of_mem leg hl))
    simp only [List.append_assoc, List.singleton_append, List.length_append, List.length_singleton,
      List.getLast?_append, List.getLast?_singleton] at hrest
    rw [breaksFrom?, breakAt?_eq hbars done (leg :: rest) hstart hstop, Break.along_cons]
    simp only [Option.bind_eq_bind, Option.bind_some]
    rw [hrest]
    rfl

theorem breaks?_eq (hbars : bars.length ≤ 2 ^ 32) {legs : List (Leg α)}
    (hlegs : ∀ l ∈ legs, l.start.index < bars.length ∧ l.stop.index < bars.length) :
    breaks? bars legs volatility settings = some (Break.detect bars legs volatility settings) :=
  breaksFrom?_eq hbars [] hlegs none []

end PriceAction.Indexed
