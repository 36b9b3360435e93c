/-!
# Choosing from a list

`choose? replaces` keeps one element while it walks the list: a later element takes its place when
it `replaces` it. With a strict comparison the first of equals stays, otherwise the last.
-/

namespace PriceAction

variable {β : Type}

def choose? (replaces : (later kept : β) → Bool) : List β → Option β
  | [] => none
  | x :: rest => some (rest.foldl (fun kept later => if replaces later kept then later else kept) x)

theorem choose?_eq_none {replaces : β → β → Bool} {xs : List β} :
    choose? replaces xs = none ↔ xs = [] := by
  cases xs <;> simp [choose?]

end PriceAction
