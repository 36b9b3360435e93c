import Mathlib.Data.Nat.Find
import Mathlib.Order.Bounds.Basic
import PriceAction.Proofs.Search
import PriceAction.Proofs.Structure.Dated

/-!
# The bar that breaks a level

A leg breaks a level at the least bar of it that closes beyond the level (`firstClose?_eq_some_iff`).
So a break tells its leg, the pivot before that leg and this bar (`exists_of_mem_along`), and a leg
has a break exactly if it passes the pivot, is large enough and closes beyond it at some bar
(`exists_mem_along_iff`).
-/

namespace PriceAction

variable {α : Type} [Scalar α]

/-- Whether a bar after the start of a leg, up to its end, closes beyond a level. -/
def Leg.ClosesBeyond (leg : Leg α) (bars : List (Bar α)) (level : α) (i : Nat) : Prop :=
  leg.start.index < i ∧ i ≤ leg.stop.index ∧
    ∃ bar, bars[i]? = some bar ∧ leg.direction.beyond bar.close level = true

/-- The pivot before the start of leg number `k`; before the first leg it is `prior?`. -/
def priorPivot? (prior? : Option (Swing α)) (legs : List (Leg α)) (k : Nat) : Option (Swing α) :=
  match k with
  | 0 => prior?
  | previous + 1 => legs[previous]?.map (·.start)

namespace Break

variable {bars : List (Bar α)} {leg : Leg α} {level : α} {i : Nat} {bar : Bar α}

/-! ## The first close -/

omit [Scalar α] in
theorem getElem?_inLeg (h : leg.start.index < i) :
    ((bars.drop (leg.start.index + 1)).take
      (leg.stop.index - leg.start.index))[i - (leg.start.index + 1)]? = some bar ↔
      i ≤ leg.stop.index ∧ bars[i]? = some bar := by
  rw [List.getElem?_take, Option.ite_none_right_eq_some, List.getElem?_drop,
    Nat.add_sub_cancel' h]
  have hbound : i - (leg.start.index + 1) < leg.stop.index - leg.start.index ↔
      i ≤ leg.stop.index := by omega
  rw [hbound]

theorem firstClose?_eq_some_iff_find? :
    firstClose? bars leg level = some (i, bar) ↔
      ((((bars.drop (leg.start.index + 1)).take
        (leg.stop.index - leg.start.index)).zipIdx (leg.start.index + 1)).find? fun (b, _) =>
          leg.direction.beyond b.close level) = some (bar, i) := by
  have hmap : firstClose? bars leg level = Option.map Prod.swap _ :=
    (map_find?_eq_findSome? (fun x : Bar α × Nat => leg.direction.beyond x.1.close level)
      Prod.swap _).symm
  rw [hmap]
  constructor
  · intro h
    obtain ⟨⟨b, j⟩, hfound, heq⟩ := Option.map_eq_some_iff.1 h
    cases heq
    exact hfound
  · intro h
    rw [h]
    rfl

theorem firstClose?_eq_some_iff :
    firstClose? bars leg level = some (i, bar) ↔
      IsLeast {j | leg.ClosesBeyond bars level j} i ∧ bars[i]? = some bar := by
  rw [firstClose?_eq_some_iff_find?,
    find?_zipIdx_eq_some_iff (p := fun b : Bar α => leg.direction.beyond b.close level)]
  constructor
  · rintro ⟨hbeyond, hstart, hget, hearlier⟩
    obtain ⟨hstop, hbar⟩ := (getElem?_inLeg hstart).1 hget
    refine ⟨⟨⟨hstart, hstop, bar, hbar, hbeyond⟩, fun j hj => ?_⟩, hbar⟩
    obtain ⟨hjstart, hjstop, x, hx, hxbeyond⟩ := hj
    by_contra hlt
    have hshort := hearlier j x hjstart (Nat.not_le.1 hlt) ((getElem?_inLeg hjstart).2 ⟨hjstop, hx⟩)
    rw [hxbeyond] at hshort
    cases hshort
  · rintro ⟨⟨⟨hstart, hstop, x, hx, hxbeyond⟩, hleast⟩, hbar⟩
    obtain rfl : x = bar := Option.some.inj (hx.symm.trans hbar)
    refine ⟨hxbeyond, hstart, (getElem?_inLeg hstart).2 ⟨hstop, hbar⟩, fun j y hj hlt hy => ?_⟩
    obtain ⟨hjstop, hy⟩ := (getElem?_inLeg hj).1 hy
    rw [← Bool.not_eq_true]
    exact fun hybeyond => absurd (hleast ⟨hj, hjstop, y, hy, hybeyond⟩) (Nat.not_le.2 hlt)

theorem exists_firstClose?_iff :
    (∃ hit, firstClose? bars leg level = some hit) ↔ ∃ j, leg.ClosesBeyond bars level j := by
  constructor
  · rintro ⟨⟨i, bar⟩, h⟩
    exact ⟨i, (firstClose?_eq_some_iff.1 h).1.1⟩
  · intro h
    classical
    have hleast : IsLeast {j | leg.ClosesBeyond bars level j} (Nat.find h) :=
      ⟨Nat.find_spec h, fun j hj => Nat.find_min' h hj⟩
    obtain ⟨-, -, bar, hbar, -⟩ := hleast.1
    exact ⟨(Nat.find h, bar), firstClose?_eq_some_iff.2 ⟨hleast, hbar⟩⟩

/-! ## The break of a leg -/

/-- Whether a break is that of a leg past a pivot. -/
structure IsOf (settings : StructureSettings α) (volatility : α) (bars : List (Bar α))
    (prior : Swing α) (leg : Leg α) (e : Break α) : Prop where
  passes : leg.stop.kind.beyond leg.stop.price prior.price = true
  large : ¬leg.amplitude ≤ threshold settings volatility leg
  closes : IsLeast {i | leg.ClosesBeyond bars prior.price i} e.barIndex
  dated : Dated bars e.barIndex e.time
  direction_eq : e.direction = leg.direction
  price_eq : e.price = prior.price
  displacement_eq : e.displacement = leg.amplitude

variable {settings : StructureSettings α} {volatility : α} {last : Option Direction}
  {labels : List SwingLabel} {prior? : Option (Swing α)} {index k : Nat} {legs : List (Leg α)}
  {e : Break α}

theorem exists_of_ofLeg?
    (h : ofLeg? settings volatility bars last labels prior? index leg = some e) :
    e.legIndex = index ∧ ∃ prior, prior? = some prior ∧ e.IsOf settings volatility bars prior leg := by
  obtain ⟨prior, hprior, hmap⟩ := Option.bind_eq_some_iff.1 h
  obtain ⟨⟨i, bar⟩, hclose, rfl⟩ := Option.map_eq_some_iff.1 hmap
  obtain ⟨hpasses, hlarge, hfirst⟩ := of_close? hclose
  obtain ⟨hleast, hbar⟩ := firstClose?_eq_some_iff.1 hfirst
  exact ⟨rfl, prior, hprior, hpasses, hlarge, hleast, ⟨bar, hbar, rfl⟩, rfl, rfl, rfl⟩

theorem exists_ofLeg?_iff :
    (∃ e, ofLeg? settings volatility bars last labels prior? index leg = some e) ↔
      ∃ prior, prior? = some prior ∧ leg.stop.kind.beyond leg.stop.price prior.price = true ∧
        ¬leg.amplitude ≤ threshold settings volatility leg ∧
        ∃ j, leg.ClosesBeyond bars prior.price j := by
  constructor
  · rintro ⟨e, he⟩
    obtain ⟨-, prior, hprior, hof⟩ := exists_of_ofLeg? he
    exact ⟨prior, hprior, hof.passes, hof.large, e.barIndex, hof.closes.1⟩
  · rintro ⟨prior, rfl, hpasses, hlarge, hcloses⟩
    obtain ⟨hit, hhit⟩ := exists_firstClose?_iff.2 hcloses
    rw [ofLeg?, Option.bind_some, close?, if_pos hpasses, if_neg hlarge, hhit]
    exact ⟨_, rfl⟩

/-! ## The breaks of all legs -/

omit [Scalar α] in
theorem priorPivot?_cons :
    priorPivot? prior? (leg :: legs) (k + 1) = priorPivot? (some leg.start) legs k := by
  cases k <;> rfl

theorem exists_of_mem_along
    (h : e ∈ along settings volatility bars last labels prior? index legs) :
    ∃ k leg prior, e.legIndex = index + k ∧ legs[k]? = some leg ∧
      priorPivot? prior? legs k = some prior ∧ e.IsOf settings volatility bars prior leg := by
  induction legs generalizing last labels prior? index with
  | nil => cases h
  | cons leg rest ih =>
    rcases mem_along_cons.1 h with hhead | htail
    · obtain ⟨hindex, prior, hprior, hof⟩ := exists_of_ofLeg? hhead
      exact ⟨0, leg, prior, hindex, rfl, hprior, hof⟩
    · obtain ⟨k, l, prior, hindex, hl, hprior, hof⟩ := ih htail
      exact ⟨k + 1, l, prior, by omega, hl, priorPivot?_cons.trans hprior, hof⟩

theorem exists_mem_along_iff :
    (∃ e ∈ along settings volatility bars last labels prior? index legs, e.legIndex = index + k) ↔
      ∃ leg prior, legs[k]? = some leg ∧ priorPivot? prior? legs k = some prior ∧
        leg.stop.kind.beyond leg.stop.price prior.price = true ∧
        ¬leg.amplitude ≤ threshold settings volatility leg ∧
        ∃ j, leg.ClosesBeyond bars prior.price j := by
  induction legs generalizing last labels prior? index k with
  | nil => simp [along]
  | cons leg rest ih =>
    simp only [mem_along_cons, or_and_right, exists_or]
    cases k with
    | zero =>
      -- all later legs have greater numbers
      have htail : ¬∃ e ∈ along settings volatility bars
          (lastTurn last (ofLeg? settings volatility bars last labels prior? index leg).toList)
          (labels ++ leg.label.toList) (some leg.start) (index + 1) rest, e.legIndex = index + 0 := by
        rintro ⟨e, he, hindex⟩
        have := le_legIndex_of_mem he
        omega
      have hhead : (∃ e ∈ ofLeg? settings volatility bars last labels prior? index leg,
          e.legIndex = index + 0) ↔
          ∃ e, ofLeg? settings volatility bars last labels prior? index leg = some e :=
        exists_congr fun e => and_iff_left_of_imp fun he => (exists_of_ofLeg? he).1
      rw [or_iff_left htail, hhead, exists_ofLeg?_iff]
      simp [priorPivot?]
    | succ k =>
      have hhead : ¬∃ e ∈ ofLeg? settings volatility bars last labels prior? index leg,
          e.legIndex = index + (k + 1) := by
        rintro ⟨e, he, hindex⟩
        have := (exists_of_ofLeg? he).1
        omega
      have hnumber : index + (k + 1) = index + 1 + k := by omega
      rw [or_iff_right hhead, hnumber, ih, priorPivot?_cons, List.getElem?_cons_succ]

end Break

end PriceAction
