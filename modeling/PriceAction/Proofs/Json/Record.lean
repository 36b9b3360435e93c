import Mathlib.Data.List.Nodup
import PriceAction.Json.Decode
import PriceAction.Proofs.Search

/-!
# Records with fields left out

A value is pruned by leaving out fields at any depth, each named by the path to it (`pruned`). A
pruned record still lines up: what is kept stands in the slot of its name, and what is left out
leaves the slot empty (`slots?_pruned`), so that a field is read as itself or as its standard value
(`fallback?_keptSlot`). With nothing left out this is reading back what was written
(`slots?_zip`).
-/

namespace PriceAction.Json

/-! ## Slots -/

section Slots

variable {fields : List (String × Json)} {name : String}

theorem slot?_of_mem {j : Json} (hnames : (fields.map (·.1)).Nodup) (h : (name, j) ∈ fields) :
    slot? fields name = some (some j) := by
  have hfilter : fields.filter (·.1 = name) = [(name, j)] := by
    induction fields with
    | nil => cases h
    | cons f rest ih =>
      obtain ⟨hfirst, hrest⟩ := List.nodup_cons.1 hnames
      rcases List.mem_cons.1 h with rfl | h
      · have hnone : rest.filter (·.1 = name) = [] := by
          rw [List.filter_eq_nil_iff]
          intro g hg hname
          exact hfirst (List.mem_map.2 ⟨g, hg, by simpa using hname⟩)
        simp [hnone]
      · have hne : f.1 ≠ name := fun heq => hfirst (List.mem_map.2 ⟨_, h, heq.symm⟩)
        simp [hne, ih hrest h]
  rw [slot?, hfilter]

theorem slot?_of_notMem (h : name ∉ fields.map (·.1)) : slot? fields name = some none := by
  have hfilter : fields.filter (·.1 = name) = [] := by
    rw [List.filter_eq_nil_iff]
    intro f hf hname
    exact h (List.mem_map.2 ⟨f, hf, by simpa using hname⟩)
  rw [slot?, hfilter]

end Slots

/-! ## Pruning -/

/-- What is kept of the value of a field. -/
def within (keep : List String → Bool) (name : String) : List String → Bool :=
  fun path => keep (name :: path)

mutual

/-- The value with the fields whose path is not kept left out, at every depth of records. -/
def pruned : (keep : List String → Bool) → Json → Json
  | keep, .object fields => .object (fieldsPruned keep fields)
  | _, j => j

def fieldsPruned : (keep : List String → Bool) → List (String × Json) → List (String × Json)
  | _, [] => []
  | keep, (name, j) :: rest =>
    if keep [name] then (name, pruned (within keep name) j) :: fieldsPruned keep rest
    else fieldsPruned keep rest

end

/-- What pruning leaves of a field. -/
def keptSlot (keep : List String → Bool) (name : String) (j : Json) : Option Json :=
  if keep [name] then some (j.pruned (within keep name)) else none

section Pruned

variable {keep : List String → Bool}

theorem fieldsPruned_eq (fields : List (String × Json)) :
    fieldsPruned keep fields =
      (fields.filter fun f => keep [f.1]).map fun f => (f.1, f.2.pruned (within keep f.1)) := by
  induction fields with
  | nil => rfl
  | cons f rest ih =>
    rw [fieldsPruned, ih]
    by_cases hkeep : keep [f.1] = true <;> simp [hkeep]

theorem map_fst_fieldsPruned (fields : List (String × Json)) :
    (fieldsPruned keep fields).map (·.1) = (fields.filter fun f => keep [f.1]).map (·.1) := by
  rw [fieldsPruned_eq, List.map_map]
  rfl

theorem slot?_fieldsPruned {fields : List (String × Json)} (hnames : (fields.map (·.1)).Nodup)
    {name : String} {j : Json} (h : (name, j) ∈ fields) :
    slot? (fieldsPruned keep fields) name = some (keptSlot keep name j) := by
  by_cases hkeep : keep [name] = true
  · have hmem : (name, j.pruned (within keep name)) ∈ fieldsPruned keep fields := by
      rw [fieldsPruned_eq]
      exact List.mem_map.2 ⟨(name, j), List.mem_filter.2 ⟨h, hkeep⟩, rfl⟩
    have hnames' : ((fieldsPruned keep fields).map (·.1)).Nodup := by
      rw [map_fst_fieldsPruned]
      exact hnames.sublist (List.filter_sublist.map _)
    rw [slot?_of_mem hnames' hmem, keptSlot, if_pos hkeep]
  · have hout : name ∉ (fieldsPruned keep fields).map (·.1) := by
      rw [map_fst_fieldsPruned]
      intro hmem
      obtain ⟨f, hf, rfl⟩ := List.mem_map.1 hmem
      exact hkeep (List.mem_filter.1 hf).2
    rw [slot?_of_notMem hout, keptSlot, if_neg hkeep]

theorem slots?_pruned {names : List String} {values : List Json} (hnames : names.Nodup)
    (hlength : names.length = values.length) (keep : List String → Bool) :
    ((object (names.zip values)).pruned keep).slots? names =
      some ((names.zip values).map fun f => keptSlot keep f.1 f.2) := by
  have hzip : (names.zip values).map (·.1) = names := List.map_fst_zip (Nat.le_of_eq hlength)
  have hnodup : ((names.zip values).map (·.1)).Nodup := hzip.symm ▸ hnames
  let slot := slot? (fieldsPruned keep (names.zip values))
  calc names.mapM slot
      = ((names.zip values).map (·.1)).mapM slot := by rw [hzip]
    _ = (names.zip values).mapM fun f => slot f.1 := List.mapM_map
    _ = some ((names.zip values).map fun f => keptSlot keep f.1 f.2) :=
      mapM_eq_map fun _ hf => slot?_fieldsPruned hnodup hf

end Pruned

mutual

theorem pruned_all : ∀ j : Json, j.pruned (fun _ => true) = j
  | .object fields => congrArg object (fieldsPruned_all fields)
  | .null => rfl
  | .bool _ => rfl
  | .whole _ => rfl
  | .real _ => rfl
  | .text _ => rfl
  | .array _ => rfl
  | .unreadable => rfl

theorem fieldsPruned_all :
    ∀ fields : List (String × Json), fieldsPruned (fun _ => true) fields = fields
  | [] => rfl
  | (name, j) :: rest => by
    rw [fieldsPruned, if_pos rfl, fieldsPruned_all rest]
    exact congrArg (fun j => (name, j) :: rest) (pruned_all j)

end

theorem slots?_zip {names : List String} {values : List Json} (hnames : names.Nodup)
    (hlength : names.length = values.length) :
    (object (names.zip values)).slots? names = some (values.map some) := by
  have hslot (f : String × Json) : keptSlot (fun _ => true) f.1 f.2 = some f.2 :=
    congrArg some (pruned_all f.2)
  have hvalues : (names.zip values).map (·.2) = values :=
    List.map_snd_zip (Nat.le_of_eq hlength.symm)
  calc (object (names.zip values)).slots? names
      = ((object (names.zip values)).pruned fun _ => true).slots? names := by rw [pruned_all]
    _ = some ((names.zip values).map fun f => keptSlot (fun _ => true) f.1 f.2) :=
      slots?_pruned hnames hlength _
    _ = some (((names.zip values).map (·.2)).map some) := by simp only [hslot, List.map_map]; rfl
    _ = some (values.map some) := by rw [hvalues]

/-! ## Fields -/

/-- The value of a field, or its standard value when the field is left out. -/
def keptOr {β : Type} (keep : List String → Bool) (name : String) (kept standard : β) : β :=
  if keep [name] then kept else standard

theorem float?_ofFloat {x : Float} (h : x.isFinite = true) : float? (ofFloat x) = some x := by
  rw [ofFloat, if_pos h]
  rfl

theorem natBelow?_ofNat {bits n : Nat} (h : n < pow2 bits) : natBelow? bits (ofNat n) = some n := by
  show (if 0 ≤ (n : Int) ∧ (n : Int) < pow2 bits then some (n : Int).toNat else none) = some n
  rw [if_pos (by omega), Int.toNat_natCast]

theorem int?_whole {n : Int} (h : -(pow2 63 : Int) ≤ n ∧ n < pow2 63) :
    int? (.whole n) = some n :=
  if_pos h

section Fallback

variable {keep : List String → Bool} {name : String}

theorem fallback?_keptSlot {β : Type} {f : Json → Option β} {j : Json} {kept : β}
    (h : f (j.pruned (within keep name)) = some kept) (standard : β) :
    fallback? f standard (keptSlot keep name j) = some (keptOr keep name kept standard) := by
  unfold keptSlot keptOr
  split
  · exact h
  · rfl

theorem fallback?_float {x : Float} (h : x.isFinite = true) (standard : Float) :
    fallback? float? standard (keptSlot keep name (ofFloat x)) =
      some (keptOr keep name x standard) := by
  have hleaf : (ofFloat x).pruned (within keep name) = ofFloat x := by
    rw [ofFloat, if_pos h]
    rfl
  exact fallback?_keptSlot (by rw [hleaf, float?_ofFloat h]) standard

theorem fallback?_nat {bits n : Nat} (h : n < pow2 bits) (standard : Nat) :
    fallback? (natBelow? bits) standard (keptSlot keep name (ofNat n)) =
      some (keptOr keep name n standard) :=
  fallback?_keptSlot (natBelow?_ofNat h) standard

theorem fallback?_int {n : Int} (h : -(pow2 63 : Int) ≤ n ∧ n < pow2 63) (standard : Int) :
    fallback? int? standard (keptSlot keep name (.whole n)) =
      some (keptOr keep name n standard) :=
  fallback?_keptSlot (int?_whole h) standard

end Fallback

/-! ## Lists and absent values -/

section Containers

variable {β : Type} {read : Json → Option β} {write : β → Json}

theorem list?_arrayOf {xs : List β} (h : ∀ x ∈ xs, read (write x) = some x) :
    list? read (arrayOf write xs) = some xs := by
  show (xs.map write).mapM read = some xs
  have hread : xs.mapM (read ∘ write) = some (xs.map id) := mapM_eq_map h
  rw [List.mapM_map, hread, List.map_id]

theorem optional?_orNull {x : Option β} (hnull : read .null = none)
    (h : ∀ y ∈ x, read (write y) = some y) : optional? read (orNull write x) = some x := by
  cases x with
  | none => rfl
  | some y =>
    have hy := h y rfl
    rw [orNull, optional?, hy, Option.map_some]
    rintro hnone
    rw [hnone, hnull] at hy
    cases hy

end Containers

/-! ## Depth -/

theorem itemsReadableWithin_iff {depth : Nat} {items : List Json} :
    itemsReadableWithin depth items = true ↔ ∀ j ∈ items, j.readableWithin depth = true := by
  induction items with
  | nil => simp [itemsReadableWithin]
  | cons j rest ih => simp [itemsReadableWithin, ih]

theorem fieldsReadableWithin_iff {depth : Nat} {fields : List (String × Json)} :
    fieldsReadableWithin depth fields = true ↔
      ∀ f ∈ fields, f.2.readableWithin depth = true := by
  induction fields with
  | nil => simp [fieldsReadableWithin]
  | cons f rest ih => simp [fieldsReadableWithin, ih]

theorem readableWithin_ofFloat (depth : Nat) (x : Float) :
    (ofFloat x).readableWithin depth = true := by
  unfold ofFloat
  split <;> cases depth <;> rfl

theorem readableWithin_text (depth : Nat) (s : String) : (text s).readableWithin depth = true := by
  cases depth <;> rfl

theorem readableWithin_arrayOf {β : Type} {write : β → Json} {depth : Nat} {xs : List β}
    (h : ∀ x ∈ xs, (write x).readableWithin depth = true) :
    (arrayOf write xs).readableWithin (depth + 1) = true := by
  refine itemsReadableWithin_iff.2 fun j hj => ?_
  obtain ⟨x, hx, rfl⟩ := List.mem_map.1 hj
  exact h x hx

theorem readableWithin_orNull {β : Type} {write : β → Json} {depth : Nat} {x : Option β}
    (h : ∀ y ∈ x, (write y).readableWithin depth = true) :
    (orNull write x).readableWithin depth = true := by
  cases x with
  | none => cases depth <;> rfl
  | some y => exact h y rfl

theorem readableWithin_zip {names : List String} {values : List Json} {depth : Nat}
    (h : ∀ j ∈ values, j.readableWithin depth = true) :
    (object (names.zip values)).readableWithin (depth + 1) = true :=
  fieldsReadableWithin_iff.2 fun f hf => h f.2 (List.of_mem_zip hf).2

end PriceAction.Json
