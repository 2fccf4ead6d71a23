/-!
# Sets of code points

A property of characters is kept as a list of inclusive ranges of code points, the form in which
standards publish it. Membership is a search through the ranges; the tables built on this module are
small enough that nothing faster is needed.
-/

namespace FlowGraph.Text

/-- A set of code points, as inclusive ranges in increasing order. -/
structure CodePoints where
  ranges : List (Nat × Nat)

namespace CodePoints

/-- Whether a range holds the character's code point. -/
def contains (set : CodePoints) (c : Char) : Bool :=
  set.ranges.any fun (low, high) => low ≤ c.toNat && c.toNat ≤ high

theorem contains_iff {set : CodePoints} {c : Char} :
    set.contains c = true ↔ ∃ r ∈ set.ranges, r.1 ≤ c.toNat ∧ c.toNat ≤ r.2 := by
  simp [contains]

end CodePoints

end FlowGraph.Text
