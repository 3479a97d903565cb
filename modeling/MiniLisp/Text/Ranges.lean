/-!
# Ranges of code points

The tables of this library name the characters of a class by ranges, each with its first and its
last member. This file fixes one look-up, `inRanges`: a code point is found exactly if some range
reaches over it.
-/

namespace MiniLisp.Text

/-- Whether a code point lies in one of the ranges. -/
def inRanges (ranges : List (Nat × Nat)) (n : Nat) : Bool :=
  ranges.any fun r => r.1 ≤ n && n ≤ r.2

end MiniLisp.Text
