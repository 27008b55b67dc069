/-!
# Range tables

A property of characters is stored as a list of inclusive ranges of code points in increasing
order, so a search can stop at the first range that begins behind the code point.
-/

namespace TextGrammar.Unicode

/-- Inclusive ranges of code points, disjoint and in increasing order. -/
abbrev RangeTable := List (Nat × Nat)

/-- Whether a code point lies in one of the ranges. -/
def RangeTable.contains : RangeTable → Nat → Bool
  | [], _ => false
  | (first, last) :: rest, n =>
    if n < first then false else if n ≤ last then true else RangeTable.contains rest n

end TextGrammar.Unicode
