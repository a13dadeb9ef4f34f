/-!
# Ranges of characters

Membership of a character in a list of closed ranges of scalar values, the form in which the
tables of this library are written.
-/

namespace PageIndex.Text

/-- Whether the scalar value of `c` lies in one of the closed ranges. -/
def inRanges (ranges : List (Nat × Nat)) (c : Char) : Bool :=
  ranges.any fun r => r.1 ≤ c.toNat && c.toNat ≤ r.2

end PageIndex.Text
