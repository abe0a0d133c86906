/-!
# Sets of characters as ranges of code points

A character class of a standard is a sorted list of closed ranges of code points. The search stops
at the first range that ends at or after the character, so low characters are settled at once.
-/

namespace FuzzyInference.Text

/-- Closed ranges of code points, in increasing order. -/
abbrev CodeRanges := List (Nat × Nat)

/-- Whether a code point lies in one of the ranges. -/
def CodeRanges.contains : CodeRanges → Nat → Bool
  | [], _ => false
  | (first, last) :: rest, code => if last < code then contains rest code else first ≤ code

end FuzzyInference.Text
