import DocFlatten.Log.Record
import DocFlatten.Number.Integer

/-! # Line ranges

A specification such as `2..5;8` names lines by number. A range without an end, or with the
end -1, runs to the last line. Parts that cannot be read are reported and left out.
-/

namespace DocFlatten.Selection

open DocFlatten.Text DocFlatten.Number

/-- The lines from a first one to a last one; without a last one, to the end. -/
structure Range where
  first : Int
  last : Option Int
  deriving Repr, DecidableEq

/-- Whether a line number, counted from one, lies in a range. -/
def Range.contains (r : Range) (number : Nat) : Bool :=
  r.first ≤ number &&
    match r.last with
    | some last => number ≤ last
    | none => true

/-- A separator of the parts of a specification. -/
def isPartSeparator (c : Char) : Bool :=
  c == ';' || c == ','

/-- The parts of a specification that are not blank. -/
def specParts (spec : String) : List String :=
  ((splitAt isPartSeparator spec).map strip).filter (· != "")

/-- The text before and after the first two dots in a row. -/
def cutAtDots : List Char → Option (List Char × List Char)
  | [] => none
  | '.' :: '.' :: rest => some ([], rest)
  | c :: rest => (cutAtDots rest).map fun (before, after) => (c :: before, after)

/-- The last line that the text after the dots names: -1, or nothing, means the end. -/
def readLast? (text : List Char) : Option (Option Int) :=
  if (stripChars text).isEmpty then some none
  else match readInteger (String.ofList text) with
    | .ok n => some (if n == -1 then none else some n)
    | .error _ => none

/-- The range that a part names: one line, or two ends with two dots between them. -/
def Range.parse? (part : String) : Option Range :=
  match cutAtDots part.toList with
  | some (before, after) => do
    let last ← readLast? after
    let first ← (readInteger (String.ofList before)).toOption
    return { first, last }
  | none => (readInteger part).toOption.map fun n => { first := n, last := some n }

/-- The ranges of a specification. -/
def parseRanges (spec : String) : List Range :=
  (specParts spec).filterMap Range.parse?

/-- The report on the parts that are no ranges. -/
def rangesLog (spec : String) : List Log.Record :=
  ((specParts spec).filter fun part => (Range.parse? part).isNone).map fun part =>
    Log.debug .selection ("Ignoring malformed include line range: " ++ part)

/-- The numbered lines that lie in one of the ranges. -/
def inRangesOnly (ranges : List Range) (numbered : List (String × Nat)) : List (String × Nat) :=
  numbered.filter fun line => ranges.any (·.contains line.2)

end DocFlatten.Selection
