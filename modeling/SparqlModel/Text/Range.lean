/-!
# Tables of code points

A class of characters is a list of closed intervals of code points.
-/

namespace SparqlModel.Text

/-- Membership of a code point in a list of closed intervals. -/
def inRanges (table : List (Nat × Nat)) (n : Nat) : Bool :=
  table.any fun r => r.1 ≤ n && n ≤ r.2

end SparqlModel.Text
