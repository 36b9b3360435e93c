import Mathlib.Algebra.Ring.Nat
import Mathlib.Data.List.Sort
import PriceAction.Register

/-!
# Registers are what they look up

Two registers that answer every lookup alike are equal (`ext_get?`). So filing twice under one key
and filing under two keys in either order come to the same, and a tally counts every text once
(`total_tally`).
-/

namespace PriceAction

variable {β : Type}

theorem KeysAscend.eq_of_mem_iff {xs ys : List (String × β)} (hxs : KeysAscend xs)
    (hys : KeysAscend ys) (h : ∀ e, e ∈ xs ↔ e ∈ ys) : xs = ys := by
  have hirrefl : Std.Irrefl fun a b : String × β => a.1 < b.1 :=
    ⟨fun a => String.lt_irrefl a.1⟩
  have hantisymm : Std.Antisymm fun a b : String × β => a.1 < b.1 :=
    ⟨fun a b hab hba => absurd (String.lt_trans hab hba) (String.lt_irrefl a.1)⟩
  exact List.Pairwise.eq_of_mem_iff hxs hys h

namespace Register

theorem get?_eq_some_iff (r : Register β) {key : String} {value : β} :
    r.get? key = some value ↔ (key, value) ∈ r.entries := by
  obtain ⟨entries, hascend⟩ := r
  simp only [get?]
  induction entries with
  | nil => simp
  | cons e rest ih =>
    obtain ⟨hfirst, hrest⟩ := List.pairwise_cons.1 hascend
    by_cases hkey : e.1 = key
    · have habsent : (key, value) ∉ rest := fun hmem => by
        have hlt := hfirst _ hmem
        rw [hkey] at hlt
        exact String.lt_irrefl key hlt
      simp [hkey, habsent, Prod.ext_iff, eq_comm]
    · have hne : (key, value) ≠ e := fun heq => hkey (by rw [← heq])
      simp [hkey, hne, ih hrest]

@[simp] theorem get?_map {γ : Type} (f : String → β → γ) (r : Register β) (key : String) :
    (r.map f).get? key = (r.get? key).map (f key) := by
  simp only [get?, map, List.find?_map, Option.map_map]
  apply Option.map_congr
  intro e he
  have hkey := List.find?_some he
  simp only [Function.comp_apply, decide_eq_true_eq] at hkey
  simp [hkey]

/-- Registers that look up alike are equal. -/
theorem ext_get? {r s : Register β} (h : ∀ key, r.get? key = s.get? key) : r = s := by
  have hentries : r.entries = s.entries := by
    apply r.ascending.eq_of_mem_iff s.ascending
    rintro ⟨key, value⟩
    rw [← get?_eq_some_iff, ← get?_eq_some_iff, h]
  cases r
  cases s
  simp only at hentries
  subst hentries
  rfl

theorem insert_of_get? {r : Register β} {key : String} {value : β}
    (h : r.get? key = some value) : r.insert key value = r := by
  apply ext_get?
  intro other
  by_cases hother : other = key
  · rw [hother, get?_insert, h]
  · rw [get?_insert_of_ne _ hother]

theorem insert_comm (r : Register β) {a b : String} (hne : a ≠ b) (x y : β) :
    (r.insert a x).insert b y = (r.insert b y).insert a x := by
  apply ext_get?
  intro key
  by_cases hb : key = b
  · rw [hb, get?_insert, get?_insert_of_ne _ hne.symm, get?_insert]
  · rw [get?_insert_of_ne _ hb]
    by_cases ha : key = a
    · rw [ha, get?_insert, get?_insert]
    · rw [get?_insert_of_ne _ ha, get?_insert_of_ne _ ha, get?_insert_of_ne _ hb]

/-! ## Listings -/

theorem insertEntry_of_forall_lt {key : String} (value : β) {entries : List (String × β)}
    (h : ∀ e ∈ entries, e.1 < key) :
    insertEntry key value entries = entries ++ [(key, value)] := by
  induction entries with
  | nil => rfl
  | cons e rest ih =>
    obtain ⟨hfirst, hrest⟩ := List.forall_mem_cons.1 h
    have hne : key ≠ e.1 := fun heq => String.lt_irrefl e.1 (heq ▸ hfirst)
    rw [insertEntry, if_neg (String.lt_asymm hfirst), if_neg hne, ih hrest, List.cons_append]

theorem entries_foldl_insert {r : Register β} {entries : List (String × β)}
    (h : KeysAscend (r.entries ++ entries)) :
    (entries.foldl (fun r e => r.insert e.1 e.2) r).entries = r.entries ++ entries := by
  induction entries generalizing r with
  | nil => rw [List.foldl_nil, List.append_nil]
  | cons e rest ih =>
    have hlt : ∀ x ∈ r.entries, x.1 < e.1 := fun x hx =>
      (List.pairwise_append.1 h).2.2 x hx e List.mem_cons_self
    have hinsert : (r.insert e.1 e.2).entries = r.entries ++ [e] := insertEntry_of_forall_lt _ hlt
    have happend : r.entries ++ e :: rest = (r.insert e.1 e.2).entries ++ rest := by
      rw [hinsert, List.append_assoc, List.singleton_append]
    rw [List.foldl_cons, ih (happend ▸ h), happend]

theorem ofList_entries (r : Register β) : ofList r.entries = r := by
  have hentries : (ofList r.entries).entries = r.entries := entries_foldl_insert r.ascending
  cases hfiled : ofList r.entries
  cases r
  simp_all

/-! ## Tallies -/

/-- The sum of the numbers that are filed. -/
def total (r : Register Nat) : Nat := (r.entries.map (·.2)).sum

theorem sum_insertEntry (key : String) (value : Nat) {entries : List (String × Nat)}
    (h : KeysAscend entries) :
    ((insertEntry key value entries).map (·.2)).sum +
        (((entries.find? (·.1 = key)).map (·.2)).getD 0) =
      (entries.map (·.2)).sum + value := by
  induction entries with
  | nil => simp [insertEntry]
  | cons e rest ih =>
    obtain ⟨hfirst, hrest⟩ := List.pairwise_cons.1 h
    have hih := ih hrest
    unfold insertEntry
    split
    · next hlt =>
      have hne : ∀ x ∈ e :: rest, x.1 ≠ key := by
        intro x hx heq
        have hle : key < x.1 := by
          rcases List.mem_cons.1 hx with rfl | hx
          · exact hlt
          · exact String.lt_trans hlt (hfirst x hx)
        rw [heq] at hle
        exact String.lt_irrefl key hle
      have hnone : (e :: rest).find? (·.1 = key) = none := by simpa using hne
      simp only [hnone, List.map_cons, List.sum_cons, Option.map_none, Option.getD_none]
      omega
    · split
      · next heq =>
        simp only [heq, List.find?_cons, List.map_cons, List.sum_cons, decide_true,
          Option.map_some, Option.getD_some]
        omega
      · next hne =>
        have hfind : (e :: rest).find? (·.1 = key) = rest.find? (·.1 = key) := by
          simp [Ne.symm hne]
        simp only [hfind, List.map_cons, List.sum_cons]
        omega

theorem total_tally (keys : List String) : (tally keys).total = keys.length := by
  have hcount (r : Register Nat) :
      (keys.foldl (fun r key => r.insert key ((r.get? key).getD 0 + 1)) r).total =
        r.total + keys.length := by
    induction keys generalizing r with
    | nil => rfl
    | cons key rest ih =>
      have hsum := sum_insertEntry key ((r.get? key).getD 0 + 1) r.ascending
      have hone : (r.insert key ((r.get? key).getD 0 + 1)).total = r.total + 1 := by
        change (r.insert key ((r.get? key).getD 0 + 1)).total + (r.get? key).getD 0 =
          r.total + ((r.get? key).getD 0 + 1) at hsum
        omega
      rw [List.foldl_cons, ih, hone, List.length_cons]
      omega
  rw [tally, hcount]
  exact Nat.zero_add _

end Register

end PriceAction
