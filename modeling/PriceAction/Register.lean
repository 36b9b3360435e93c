/-!
# Registers

A `Register` files values under texts, each text at most once and in ascending order: series by
timeframe, records by symbol, counts by kind. `get?` says what is filed; `get?_insert` and
`get?_insert_of_ne` are the two laws of filing.
-/

namespace PriceAction

/-- Whether the keys of the entries ascend. -/
def KeysAscend {β : Type} (entries : List (String × β)) : Prop :=
  entries.Pairwise fun a b => a.1 < b.1

structure Register (β : Type) where
  entries : List (String × β)
  ascending : KeysAscend entries

namespace Register

variable {β γ : Type}

def empty : Register β := ⟨[], List.Pairwise.nil⟩

instance : Inhabited (Register β) := ⟨empty⟩

def get? (r : Register β) (key : String) : Option β :=
  (r.entries.find? (·.1 = key)).map (·.2)

def keys (r : Register β) : List String :=
  r.entries.map (·.1)

def size (r : Register β) : Nat :=
  r.entries.length

/-- The entries with a value filed under a key, replacing the one before. -/
def insertEntry (key : String) (value : β) : List (String × β) → List (String × β)
  | [] => [(key, value)]
  | e :: rest =>
    if key < e.1 then (key, value) :: e :: rest
    else if key = e.1 then (key, value) :: rest
    else e :: insertEntry key value rest

theorem mem_insertEntry {key : String} {value : β} {entries : List (String × β)}
    {x : String × β} (h : x ∈ insertEntry key value entries) :
    x = (key, value) ∨ x ∈ entries := by
  induction entries with
  | nil => simpa [insertEntry] using h
  | cons e rest ih =>
    unfold insertEntry at h
    split at h
    · simpa using h
    · split at h
      · rcases List.mem_cons.1 h with h | h
        · exact Or.inl h
        · exact Or.inr (List.mem_cons_of_mem _ h)
      · rcases List.mem_cons.1 h with h | h
        · exact Or.inr (h ▸ List.mem_cons_self)
        · exact (ih h).imp_right (List.mem_cons_of_mem _)

theorem lt_of_not_lt_of_ne {a b : String} (h : ¬a < b) (hne : a ≠ b) : b < a :=
  String.not_le.1 fun hle => hne (String.le_antisymm hle (String.not_lt.1 h))

theorem insertEntry_ascending (key : String) (value : β) {entries : List (String × β)}
    (h : KeysAscend entries) : KeysAscend (insertEntry key value entries) := by
  induction entries with
  | nil => exact List.pairwise_singleton _ _
  | cons e rest ih =>
    obtain ⟨he, hrest⟩ := List.pairwise_cons.1 h
    unfold insertEntry
    split
    · next hlt =>
      refine List.pairwise_cons.2 ⟨fun x hx => ?_, h⟩
      rcases List.mem_cons.1 hx with hx | hx
      · exact hx ▸ hlt
      · exact String.lt_trans hlt (he x hx)
    · next hlt =>
      split
      · next heq => exact List.pairwise_cons.2 ⟨fun x hx => heq ▸ he x hx, hrest⟩
      · next hne =>
        refine List.pairwise_cons.2 ⟨fun x hx => ?_, ih hrest⟩
        rcases mem_insertEntry hx with hx | hx
        · exact hx ▸ lt_of_not_lt_of_ne hlt hne
        · exact he x hx

/-- Files a value under a key, replacing the one before. -/
def insert (r : Register β) (key : String) (value : β) : Register β :=
  ⟨insertEntry key value r.entries, insertEntry_ascending key value r.ascending⟩

/-- Files a list of values in turn; a later one replaces an earlier one. -/
def ofList (entries : List (String × β)) : Register β :=
  entries.foldl (fun r e => r.insert e.1 e.2) empty

/-- Changes every value, given its key. -/
def map (f : String → β → γ) (r : Register β) : Register γ where
  entries := r.entries.map fun e => (e.1, f e.1 e.2)
  ascending := by
    unfold KeysAscend
    exact List.pairwise_map.2 r.ascending

/-- How often each text occurs. -/
def tally (keys : List String) : Register Nat :=
  keys.foldl (fun r key => r.insert key ((r.get? key).getD 0 + 1)) empty

/-! ## Laws -/

theorem find?_insertEntry (key : String) (value : β) (entries : List (String × β)) :
    (insertEntry key value entries).find? (·.1 = key) = some (key, value) := by
  induction entries with
  | nil => simp [insertEntry]
  | cons e rest ih =>
    unfold insertEntry
    split
    · simp
    · split
      · simp
      · next hne => simp [ih, Ne.symm hne]

theorem find?_insertEntry_of_ne {key other : String} (h : other ≠ key) (value : β)
    (entries : List (String × β)) :
    (insertEntry key value entries).find? (·.1 = other) = entries.find? (·.1 = other) := by
  induction entries with
  | nil => simp [insertEntry, Ne.symm h]
  | cons e rest ih =>
    unfold insertEntry
    split
    · simp [Ne.symm h]
    · split
      · next heq => simp [Ne.symm h, ← heq]
      · simp only [List.find?_cons, ih]

@[simp] theorem get?_insert (r : Register β) (key : String) (value : β) :
    (r.insert key value).get? key = some value := by
  simp [get?, insert, find?_insertEntry]

theorem get?_insert_of_ne (r : Register β) {key other : String} (h : other ≠ key) (value : β) :
    (r.insert key value).get? other = r.get? other := by
  simp [get?, insert, find?_insertEntry_of_ne h]

end Register

end PriceAction
