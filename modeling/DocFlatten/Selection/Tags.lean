import DocFlatten.Mapping
import DocFlatten.Selection.Ranges
import DocFlatten.Text.Lines
import DocFlatten.Text.Word

/-! # Tagged regions

Lines with `tag::name[]` and `end::name[]` mark regions of a file. A specification such as
`a;!b;*` says which regions are kept: a tag alone asks for its region, one with an
exclamation mark refuses it, `*` stands for all tags that are not listed and `**` for all
lines. Marker lines are never kept. Regions nest, and the innermost one decides.
-/

namespace DocFlatten.Selection

open DocFlatten.Text

/-- A line that starts or ends a region. -/
inductive Marker where
  | start (name : String)
  | stop (name : String)
  deriving Repr, DecidableEq

/-- Whether a text closes a marker: brackets, and then the end of the line or a blank. -/
def closesMarker : List Char → Bool
  | '[' :: ']' :: rest =>
    endsLine rest || rest.head? == some ' ' || rest.head? == some '\r'
  | _ => false

/-- The shortest name at the start of a text that is closed by brackets. -/
def takeMarkerName? : List Char → Option (List Char)
  | [] => none
  | c :: rest =>
    if isBlank c then none
    else if closesMarker rest then some [c]
    else (takeMarkerName? rest).map (c :: ·)

/-- The marker at the start of a text. -/
def markerHere? : List Char → Option Marker
  | 't' :: 'a' :: 'g' :: ':' :: ':' :: rest =>
    (takeMarkerName? rest).map fun name => .start (String.ofList name)
  | 'e' :: 'n' :: 'd' :: ':' :: ':' :: rest =>
    (takeMarkerName? rest).map fun name => .stop (String.ofList name)
  | _ => none

/-- The first marker in a text, given whether a word character precedes the text. -/
def findMarker? : Bool → List Char → Option Marker
  | _, [] => none
  | inWord, c :: rest =>
    match if inWord then none else markerHere? (c :: rest) with
    | some marker => some marker
    | none => findMarker? (isWord c) rest

/-- The marker that a line holds. -/
def Marker.ofLine? (line : String) : Option Marker :=
  findMarker? false line.toList

/-! ## Specifications -/

/-- The tags that a specification lists: true if asked for, false if refused. -/
abbrev Tags := Mapping Bool

/-- The tags of a specification. -/
def parseTags (spec : String) : Tags :=
  Mapping.ofList <| (specParts spec).map fun part =>
    match part.toList with
    | '!' :: name => (String.ofList name, false)
    | _ => (part, true)

/-- What a specification decides: by listed tag, for regions of other tags, and outside of
all regions. Without a wildcard a region of another tag is like the text around it. -/
structure TagRule where
  tags : Tags
  wildcard : Option Bool
  base : Bool
  deriving Repr, DecidableEq

/-- The rule of listed tags. The wildcards are taken out of the list. Two stars decide for
lines outside of regions. One star alone decides for other tags, and if it comes first also,
the other way round, for lines outside. Without wildcards, lines outside are kept only if no
tag is asked for. -/
def TagRule.ofTags (tags : Tags) : TagRule :=
  match Mapping.get? tags "**" with
  | some base =>
    let tags := Mapping.erase tags "**"
    match Mapping.get? tags "*" with
    | some wildcard => ⟨Mapping.erase tags "*", some wildcard, base⟩
    | none =>
      match tags with
      | (_, false) :: _ => ⟨tags, if base then none else some true, base⟩
      | _ => ⟨tags, none, base⟩
  | none =>
    match Mapping.get? tags "*" with
    | some wildcard =>
      let first := (Mapping.keys tags).head? == some "*"
      ⟨Mapping.erase tags "*", some wildcard, first && !wildcard⟩
    | none => ⟨tags, none, !tags.any (·.2)⟩

/-! ## Regions -/

/-- The open regions, innermost first, each with the decision for its lines. -/
abbrev Regions := List (String × Bool)

/-- The decision for the lines of the innermost region. -/
def TagRule.decision (rule : TagRule) : Regions → Bool
  | [] => rule.base
  | (_, keep) :: _ => keep

/-- The decision for a region that starts. -/
def TagRule.decisionOn (rule : TagRule) (regions : Regions) (name : String) : Bool :=
  match Mapping.get? rule.tags name with
  | some keep => keep
  | none => rule.wildcard.getD (rule.decision regions)

/-- The open regions after a marker. An end that does not match the innermost region is
ignored. -/
def TagRule.advance (rule : TagRule) (regions : Regions) : Marker → Regions
  | .start name => (name, rule.decisionOn regions name) :: regions
  | .stop name =>
    match regions with
    | (top, _) :: outer => if top == name then outer else regions
    | [] => regions

/-- The numbered lines that are kept, given the open regions. -/
def TagRule.keep (rule : TagRule) : Regions → List (String × Nat) → List (String × Nat)
  | _, [] => []
  | regions, line :: rest =>
    match Marker.ofLine? line.1 with
    | some marker => rule.keep (rule.advance regions marker) rest
    | none =>
      if rule.decision regions then line :: rule.keep regions rest else rule.keep regions rest

/-! ## Reports -/

/-- The report on a marker: an end of a tag that matters must match the innermost region. -/
def TagRule.mismatch? (rule : TagRule) (path : String) (regions : Regions) (number : Nat) :
    Marker → Option Log.Record
  | .start _ => none
  | .stop name =>
    let expected := (regions.head?.map (·.1)).getD "none"
    let matched := regions.head?.any (·.1 == name)
    if !matched && (Mapping.contains rule.tags name || rule.wildcard.isSome) then
      some (Log.warning .selection
        s!"mismatched end tag in include: expected {expected}, found {name} ({path} line {number})")
    else none

/-- The reports on all markers. -/
def TagRule.mismatches (rule : TagRule) (path : String) :
    Regions → List (String × Nat) → List Log.Record
  | _, [] => []
  | regions, line :: rest =>
    match Marker.ofLine? line.1 with
    | some marker =>
      (rule.mismatch? path regions line.2 marker).toList ++
        rule.mismatches path (rule.advance regions marker) rest
    | none => rule.mismatches path regions rest

/-- The tags that regions of a file have. -/
def startedTags (lines : List String) : List String :=
  lines.filterMap fun line =>
    match Marker.ofLine? line with
    | some (.start name) => some name
    | _ => none

/-- The reports on tags that were asked for and that no region has. -/
def TagRule.missing (rule : TagRule) (path : String) (lines : List String) : List Log.Record :=
  let started := startedTags lines
  (rule.tags.filter fun tag => tag.2 && !started.contains tag.1).map fun tag =>
    Log.warning .selection s!"tag '{tag.1}' not found in include file: {path}"

end DocFlatten.Selection
