import DocFlatten.Attribute.Entry

/-! # Attribute lists

The text between the brackets of an include directive: entries separated by commas, named
ones with an equals sign. Quotes keep commas inside an entry and are removed from values.
-/

namespace DocFlatten.Attribute

open DocFlatten.Text

/-- Whether a character opens a quoted part. -/
def isQuote (c : Char) : Bool :=
  c == '"' || c == '\''

/-- A character put in front of the first piece. -/
def consFirst (c : Char) : List (List Char) → List (List Char)
  | [] => [[c]]
  | piece :: rest => (c :: piece) :: rest

/-- The entries of a list, cut at the commas outside quotes. The first argument is the
quote that is open. -/
def splitEntries : Option Char → List Char → List (List Char)
  | _, [] => [[]]
  | some quote, c :: cs =>
    consFirst c (splitEntries (if c == quote then none else some quote) cs)
  | none, c :: cs =>
    if isQuote c then consFirst c (splitEntries (some c) cs)
    else if c == ',' then [] :: splitEntries none cs
    else consFirst c (splitEntries none cs)

/-- A value without the quotes around it. -/
def unquote (cs : List Char) : List Char :=
  match cs with
  | first :: rest =>
    if isQuote first && rest.getLast? == some first then rest.dropLast else cs
  | [] => []

/-- An entry of a list, trimmed: a value alone, or a name with its value. -/
inductive ListEntry where
  | positional (value : String)
  | named (name value : String)
  deriving Repr, DecidableEq

/-- The entry that trimmed characters spell. -/
def ListEntry.ofChars (cs : List Char) : ListEntry :=
  match cs.dropWhile (· != '=') with
  | [] => .positional (String.ofList (unquote cs))
  | _ :: value =>
    .named (lower (String.ofList (stripChars (cs.takeWhile (· != '=')))))
      (String.ofList (unquote (stripChars value)))

/-- The entries of a list that are not blank. -/
def listEntries (text : String) : List ListEntry :=
  (((splitEntries none text.toList).map stripChars).filter (!·.isEmpty)).map .ofChars

/-- The options that a value lists. -/
def optionsOf (value : String) : List String :=
  ((splitAt (· == ',') value).map strip).filter (· != "")

/-- Whether a name introduces options. -/
def isOptionsName (name : String) : Bool :=
  name == "opts" || name == "options"

/-- Add an entry: a positional one under its number, options also under their own names. -/
def addEntry (state : Nat × Attributes) : ListEntry → Nat × Attributes
  | .positional value =>
    (state.1 + 1, Mapping.insert state.2 (toString (state.1 + 1)) value)
  | .named name value =>
    let attributes := Mapping.insert state.2 name value
    let attributes := if isOptionsName name then
        (optionsOf value).foldl
          (fun m option => Mapping.insert m (option ++ "-option") "") attributes
      else attributes
    (state.1, attributes)

/-- The attributes of a list. -/
def parseList (text : String) : Attributes :=
  ((listEntries text).foldl addEntry (0, [])).2

end DocFlatten.Attribute
