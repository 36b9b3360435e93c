/-!
# Disjoint sets

Numbers in sets, each of which hangs from its root: every number has a parent, which is never
above it, and a root is its own parent. A search halves the path that it walks.
-/

namespace PriceAction

structure DisjointSet where
  /-- The parents of the first numbers; all others are their own. -/
  parents : Array Nat
  ordered : ∀ x, parents.getD x x ≤ x

namespace DisjointSet

def parent (s : DisjointSet) (x : Nat) : Nat := s.parents.getD x x

theorem parent_le (s : DisjointSet) (x : Nat) : s.parent x ≤ x := s.ordered x

/-- Hangs a number below another that is not above it. -/
def hang (s : DisjointSet) (x p : Nat) (h : p ≤ x) : DisjointSet where
  parents := s.parents.setIfInBounds x p
  ordered y := by
    have hy := s.ordered y
    rw [Array.getD_eq_getD_getElem?] at hy ⊢
    rw [Array.getElem?_setIfInBounds]
    split
    · next heq =>
      subst heq
      split
      · exact h
      · exact Nat.le_refl x
    · exact hy

/-- Each of the first `count` numbers in a set of its own. -/
def singletons (count : Nat) : DisjointSet where
  parents := Array.range count
  ordered y := by
    rw [Array.getD_eq_getD_getElem?]
    by_cases h : y < count
    · simp [h]
    · simp [h]

/-- The root of a number. On the way every other number is hung below its grandparent. -/
def find (s : DisjointSet) (x : Nat) : Nat × DisjointSet :=
  if s.parent x = x then (x, s)
  else
    let grand := s.parent (s.parent x)
    (s.hang x grand (Nat.le_trans (s.parent_le _) (s.parent_le x))).find grand
termination_by x
decreasing_by
  have hle := s.parent_le x
  have hgrand := s.parent_le (s.parent x)
  omega

/-- Joins the sets of two numbers. The lower root stays one. -/
def union (s : DisjointSet) (a b : Nat) : DisjointSet :=
  let (ra, s) := s.find a
  let (rb, s) := s.find b
  if ra = rb then s else s.hang (max ra rb) (min ra rb) (by omega)

end DisjointSet

end PriceAction
