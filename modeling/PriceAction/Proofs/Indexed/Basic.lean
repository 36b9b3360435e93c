import Mathlib.Algebra.Ring.Nat
import Mathlib.Data.List.ReduceOption
import PriceAction.Power
import PriceAction.Proofs.Search

/-!
# Reading by position

Steps of a program that reads lists by position and calculates with unsigned machine words. A step
that leaves a list or the words gives nothing, and so does every run that contains it. For each way
of running through a list there is one lemma: a run whose steps all give something gives what the
plain run gives (`gather?_eq_flatMap`, `filterMap?_eq_filterMap`, `search?_eq_findSome?`).
-/

namespace PriceAction.Indexed

variable {β γ : Type}

/-! ## Numbers -/

/-- The sum of two words. -/
def plus? (a b : Nat) : Option Nat := if a + b < 2 ^ 64 then some (a + b) else none

/-- The product of two words. -/
def times? (a b : Nat) : Option Nat := if a * b < 2 ^ 64 then some (a * b) else none

/-- The unsigned difference of two words. -/
def minus? (a b : Nat) : Option Nat := if b ≤ a then some (a - b) else none

theorem pow2_word : pow2 64 = 2 ^ 64 := rfl

theorem plus?_eq {a b : Nat} (h : a + b < 2 ^ 64) : plus? a b = some (a + b) := if_pos h

theorem times?_eq {a b : Nat} (h : a * b < 2 ^ 64) : times? a b = some (a * b) := if_pos h

theorem plus?_eq_none {a b : Nat} (h : 2 ^ 64 ≤ a + b) : plus? a b = none := if_neg (Nat.not_lt.2 h)

theorem times?_eq_none {a b : Nat} (h : 2 ^ 64 ≤ a * b) : times? a b = none :=
  if_neg (Nat.not_lt.2 h)

theorem minus?_eq {a b : Nat} (h : b ≤ a) : minus? a b = some (a - b) := if_pos h

/-! ## Stretches -/

/-- The stretch of a list from one position up to another. -/
def slice? (xs : List β) (start stop : Nat) : Option (List β) :=
  if start ≤ stop ∧ stop ≤ xs.length then some ((xs.take stop).drop start) else none

theorem slice?_eq {xs : List β} {start stop : Nat} (h : start ≤ stop) (hstop : stop ≤ xs.length) :
    slice? xs start stop = some ((xs.take stop).drop start) := if_pos ⟨h, hstop⟩

theorem slice?_eq_drop {xs : List β} {start : Nat} (h : start ≤ xs.length) :
    slice? xs start xs.length = some (xs.drop start) := by
  rw [slice?_eq h (Nat.le_refl _), List.take_length]

example : slice? [1, 2, 3, 4] 1 3 = some [2, 3] ∧ slice? [1, 2, 3, 4] 3 5 = none := by decide

/-- A list with the element at one position written anew. -/
def write? (xs : List β) (i : Nat) (x : β) : Option (List β) :=
  if i < xs.length then some (xs.set i x) else none

theorem write?_eq {xs : List β} {i : Nat} (h : i < xs.length) (x : β) :
    write? xs i x = some (xs.set i x) := if_pos h

/-! ## Runs -/

theorem foldlM_eq_foldl {step : γ → β → Option γ} {f : γ → β → γ}
    (h : ∀ state x, step state x = some (f state x)) (xs : List β) (state : γ) :
    xs.foldlM step state = some (xs.foldl f state) := by
  rw [show step = fun state x => pure (f state x) from funext₂ h]
  exact List.foldlM_pure

/-- What the steps at the elements of a list find, in this order. -/
def gather? (step : β → Option (List γ)) (xs : List β) : Option (List γ) := do
  let found ← xs.mapM step
  some found.flatten

theorem gather?_cons {step : β → Option (List γ)} {x : β} {rest : List β} {found later : List γ}
    (hx : step x = some found) (hrest : gather? step rest = some later) :
    gather? step (x :: rest) = some (found ++ later) := by
  obtain ⟨parts, hparts, hlater⟩ := Option.bind_eq_some_iff.1 hrest
  cases hlater
  simp [gather?, List.mapM_cons, hx, hparts]

theorem gather?_eq_flatMap {step : β → Option (List γ)} {f : β → List γ} {xs : List β}
    (h : ∀ x ∈ xs, step x = some (f x)) : gather? step xs = some (xs.flatMap f) := by
  rw [gather?, mapM_eq_map h, List.flatMap_def]
  rfl

theorem findSomeM?_eq_findSome? {step : β → Option (Option γ)} {f : β → Option γ} {xs : List β}
    (h : ∀ x ∈ xs, step x = some (f x)) : xs.findSomeM? step = some (xs.findSome? f) := by
  induction xs with
  | nil => rfl
  | cons x rest ih =>
    have hrest := ih fun y hy => h y (List.mem_cons_of_mem x hy)
    rw [List.findSomeM?_cons, h x List.mem_cons_self, List.findSome?_cons]
    cases f x with
    | none => exact hrest
    | some y => rfl

/-- What the steps at the elements of a list find, where they find something. -/
def filterMap? (step : β → Option (Option γ)) (xs : List β) : Option (List γ) := do
  let found ← xs.mapM step
  some found.reduceOption

theorem filterMap?_cons {step : β → Option (Option γ)} {x : β} {rest : List β}
    {found : Option γ} {later : List γ} (hx : step x = some found)
    (hrest : filterMap? step rest = some later) :
    filterMap? step (x :: rest) = some (found.toList ++ later) := by
  obtain ⟨parts, hparts, hlater⟩ := Option.bind_eq_some_iff.1 hrest
  cases hlater
  cases found <;> simp [filterMap?, List.mapM_cons, hx, hparts]

theorem filterMap?_eq_filterMap {step : β → Option (Option γ)} {f : β → Option γ} {xs : List β}
    (h : ∀ x ∈ xs, step x = some (f x)) : filterMap? step xs = some (xs.filterMap f) := by
  rw [filterMap?, mapM_eq_map h]
  simp [List.reduceOption, List.filterMap_map]

theorem isSome_of_filterMap? {step : β → Option (Option γ)} {xs : List β} {found : List γ}
    (h : filterMap? step xs = some found) {x : β} (hx : x ∈ xs) : (step x).isSome := by
  obtain ⟨parts, hparts, -⟩ := Option.bind_eq_some_iff.1 h
  clear h
  induction xs generalizing parts with
  | nil => cases hx
  | cons y rest ih =>
    rw [List.mapM_cons] at hparts
    obtain ⟨first, hfirst, hrest⟩ := Option.bind_eq_some_iff.1 hparts
    obtain ⟨later, hlater, -⟩ := Option.bind_eq_some_iff.1 hrest
    rcases List.mem_cons.1 hx with rfl | hx
    · exact Option.isSome_of_eq_some hfirst
    · exact ih hx later hlater

theorem ite_some_false_eq {first second : Bool} {step : Option Bool}
    (h : first = true → step = some second) :
    (if first then step else some false) = some (first && second) := by
  cases first with
  | true => exact h rfl
  | false => rfl

theorem flatMap_ite_singleton (p : β → Bool) (f : β → γ) (xs : List β) :
    xs.flatMap (fun x => if p x then [f x] else []) = (xs.filter p).map f := by
  induction xs with
  | nil => rfl
  | cons x rest ih =>
    rw [List.flatMap_cons, ih, List.filter_cons]
    split <;> rfl

/-! ## Searches -/

/-- The first answer to a question about the elements at some positions. They are read one by one
until there is an answer. -/
def search? (xs : List β) (answer : Nat → β → Option γ) (positions : List Nat) :
    Option (Option γ) :=
  positions.findSomeM? fun i => do
    let x ← xs[i]?
    some (answer i x)

theorem search?_eq_findSome? {xs : List β} {pairs : List (β × Nat)}
    (h : ∀ p ∈ pairs, xs[p.2]? = some p.1) (answer : Nat → β → Option γ) :
    search? xs answer (pairs.map Prod.snd) = some (pairs.findSome? fun p => answer p.2 p.1) := by
  induction pairs with
  | nil => rfl
  | cons p rest ih =>
    have hrest := ih fun q hq => h q (List.mem_cons_of_mem p hq)
    rw [search?, List.map_cons, List.findSomeM?_cons, h p List.mem_cons_self,
      List.findSome?_cons, ← search?]
    simp only [Option.bind_eq_bind, Option.bind_some]
    cases answer p.2 p.1 with
    | none => exact hrest
    | some y => rfl

/-! ## Positions -/

theorem mapM_read_eq {xs : List β} {pairs : List (β × Nat)}
    (h : ∀ p ∈ pairs, xs[p.2]? = some p.1) :
    (pairs.map Prod.snd).mapM (fun i => do
      let x ← xs[i]?
      some (x, i)) = some pairs := by
  induction pairs with
  | nil => rfl
  | cons p rest ih =>
    have hrest := ih fun q hq => h q (List.mem_cons_of_mem p hq)
    rw [List.map_cons, List.mapM_cons, hrest, h p List.mem_cons_self]
    rfl

theorem getElem?_of_mem_zipIdx {xs : List β} {p : β × Nat} (h : p ∈ xs.zipIdx) :
    xs[p.2]? = some p.1 := List.mem_zipIdx_iff_getElem?.1 h

theorem getElem?_of_mem_zipIdx_of_prefix {xs ys : List β} {start : Nat}
    (hinit : ys <+: xs.drop start) {p : β × Nat} (h : p ∈ ys.zipIdx start) :
    xs[p.2]? = some p.1 := by
  obtain ⟨hle, hget⟩ := List.mem_zipIdx_iff_le_and_getElem?_sub.1 h
  have hlt := (List.getElem?_eq_some_iff.1 hget).1
  obtain ⟨rest, hrest⟩ := hinit
  rw [← Nat.add_sub_cancel' hle, ← List.getElem?_drop, ← hrest, List.getElem?_append_left hlt, hget]

theorem map_snd_drop_take_zipIdx (xs : List β) (start : Nat) {stop : Nat} (h : stop ≤ xs.length) :
    ((xs.zipIdx.take stop).drop start).map Prod.snd = List.range' start (stop - start) := by
  rw [List.map_drop, List.map_take, List.zipIdx_map_snd]
  apply List.ext_getElem
  · simp
    omega
  · intro i hi hi'
    simp

theorem map_snd_drop_zipIdx (xs : List β) (start : Nat) :
    (xs.zipIdx.drop start).map Prod.snd = List.range' start (xs.length - start) := by
  rw [← map_snd_drop_take_zipIdx xs start (Nat.le_refl _), List.take_of_length_le]
  simp

end PriceAction.Indexed
