/-!
# Ranges of code points

A class of characters is written down as a table of inclusive ranges in increasing order.
-/

namespace Lineage.Text

/-- Inclusive ranges of code points. -/
abbrev Ranges := Array (Nat × Nat)

/-- Whether a code point lies in one of the ranges. -/
def Ranges.has (rs : Ranges) (n : Nat) : Bool := rs.any fun r => r.1 ≤ n && n ≤ r.2

end Lineage.Text
