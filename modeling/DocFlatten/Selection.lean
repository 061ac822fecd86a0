import DocFlatten.Attribute.Entry
import DocFlatten.Selection.Tags

/-! # Selecting lines of an included file

An include directive can ask for lines by number (`lines`) or by tag (`tag`, `tags`).
Numbers win if at least one of their ranges can be read; without a selection every line
is kept.
-/

namespace DocFlatten

open DocFlatten.Selection

/-- The lines that are kept of a file. -/
structure Selection where
  lines : List String
  /-- The number of the first kept line in the file. -/
  lineno : Nat
  /-- Whether a selection was asked for. -/
  isPartial : Bool
  deriving Repr, DecidableEq

namespace Selection

/-- The selection of numbered lines. -/
def ofKept (kept : List (String × Nat)) : Selection :=
  { lines := kept.map (·.1), lineno := (kept.head?.map (·.2)).getD 1, isPartial := true }

/-- All lines of a file. -/
def whole (lines : List String) : Selection :=
  { lines, lineno := 1, isPartial := false }

/-- The lines of a file with their numbers. -/
def numbered (lines : List String) : List (String × Nat) :=
  lines.zipIdx 1

/-- An attribute that is present and not empty. -/
def given? (attributes : Attributes) (name : String) : Option String :=
  (Mapping.get? attributes name).filter (· != "")

/-- The selection by tags, if tags are asked for, with its report. -/
def byTags (attributes : Attributes) (path : String) (lines : List String) :
    Selection × List Log.Record :=
  match given? attributes "tag" <|> given? attributes "tags" with
  | none => (whole lines, [])
  | some spec =>
    match parseTags spec with
    | [] => (whole lines, [])
    | tags =>
      let rule := TagRule.ofTags tags
      (ofKept (rule.keep [] (numbered lines)),
        rule.mismatches path [] (numbered lines) ++ rule.missing path lines)

/-- The selection that a directive's attributes ask for, with its report. -/
def ofAttributes (attributes : Attributes) (path : String) (lines : List String) :
    Selection × List Log.Record :=
  match given? attributes "lines" with
  | none => byTags attributes path lines
  | some spec =>
    match parseRanges spec with
    | [] =>
      let (selection, log) := byTags attributes path lines
      (selection, rangesLog spec ++ log)
    | ranges => (ofKept (inRangesOnly ranges (numbered lines)), rangesLog spec)

end Selection

end DocFlatten
