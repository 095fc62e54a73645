/-!
# Sets of code points

A property of characters is given by the ranges of code points that have it.

## Main definitions

* `CodePointRanges` — ranges of code points, both ends included
* `CodePointRanges.holds` — whether a character lies in one of the ranges
-/

namespace GrammarLayers

/-- Ranges of code points, both ends included. -/
abbrev CodePointRanges := List (Nat × Nat)

/-- Whether a character lies in one of the ranges. -/
def CodePointRanges.holds (ranges : CodePointRanges) (c : Char) : Bool :=
  ranges.any fun (first, last) => first ≤ c.toNat && c.toNat ≤ last

end GrammarLayers
