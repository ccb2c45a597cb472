/-!
# Sets of characters

A property that a standard gives to characters is a set of code points, written as closed
ranges in ascending order.
-/

namespace AtomicFifo.Text

/-- A set of characters: closed ranges of code points, ascending and apart. -/
structure CodePoints where
  ranges : List (Nat × Nat)

namespace CodePoints

/-- Whether a character is in the set. -/
def contains (s : CodePoints) (c : Char) : Bool :=
  s.ranges.any fun range => range.1 ≤ c.toNat && c.toNat ≤ range.2

/-- A set has the characters that lie in one of its ranges. -/
theorem contains_iff {s : CodePoints} {c : Char} :
    s.contains c = true ↔ ∃ range ∈ s.ranges, range.1 ≤ c.toNat ∧ c.toNat ≤ range.2 := by
  simp [contains]

end CodePoints

end AtomicFifo.Text
