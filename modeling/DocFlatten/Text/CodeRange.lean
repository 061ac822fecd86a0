/-! # Ranges of code points

Tables of character properties are ascending ranges of code points, both ends included.
-/

namespace DocFlatten.Text

/-- A range of code points, from the first to the last. -/
abbrev CodeRange := Nat × Nat

/-- Whether a character lies in one of the ranges. -/
def inRanges (ranges : Array CodeRange) (c : Char) : Bool :=
  ranges.any fun r => r.1 ≤ c.toNat && c.toNat ≤ r.2

end DocFlatten.Text
