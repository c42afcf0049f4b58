/-!
# Ranges of code points

Properties of characters are tables of code point ranges.
-/

namespace Recipe.Text

/-- Whether a character lies in one of the ranges, ends included. -/
def inRanges (ranges : List (Nat × Nat)) (c : Char) : Bool :=
  ranges.any fun (first, last) => first ≤ c.toNat && c.toNat ≤ last

end Recipe.Text
