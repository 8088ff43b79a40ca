/-!
# Ranges of characters

A property of characters as the list of the ranges of code points that have it, both ends included, in
rising order and with gaps between them.
-/

namespace CannedApi.Text

abbrev CharRanges := List (Nat × Nat)

namespace CharRanges

/-- a code point lies in one of the ranges -/
def covers (rs : CharRanges) (n : Nat) : Bool := rs.any fun r => r.1 ≤ n && n ≤ r.2

end CharRanges

end CannedApi.Text
