import DocFlatten.Mapping
import DocFlatten.Text.LetterCase
import DocFlatten.Text.Lines
import DocFlatten.Text.Word

/-! # Attribute entries

A line `:name: value` sets an attribute of the document, `:name!:` and `:!name:` unset it.
-/

namespace DocFlatten

open DocFlatten.Text

/-- Attribute values by lower-case name. -/
abbrev Attributes := Mapping String

namespace Attribute

/-- What an entry line asks for. -/
inductive Entry where
  | set (name value : String)
  | unset (name : String)
  deriving Repr, DecidableEq

/-- The name an entry is about. -/
def Entry.name : Entry → String
  | .set name _ => name
  | .unset name => name

/-- The value an entry gives, none if it unsets the attribute. -/
def Entry.value? : Entry → Option String
  | .set _ value => some value
  | .unset _ => none

/-- A name at the start of a text: a word character and further name characters. -/
def takeName? (cs : List Char) : Option (List Char × List Char) :=
  match cs with
  | c :: _ =>
    if isWord c then some (cs.takeWhile isNameChar, cs.dropWhile isNameChar) else none
  | [] => none

/-- The value after the closing colon: nothing, or blanks and the rest of the line. -/
def entryValue? (cs : List Char) : Option (List Char) :=
  match cs with
  | c :: _ =>
    if isSpaceOrTab c then restOfLine? (cs.dropWhile isSpaceOrTab)
    else if endsLine cs then some [] else none
  | [] => some []

/-- The entry that a line spells. -/
def Entry.ofChars? : List Char → Option Entry
  | ':' :: rest =>
    let (banged, rest) := match rest with
      | '!' :: rest => (true, rest)
      | rest => (false, rest)
    match takeName? rest with
    | none => none
    | some (name, rest) =>
      let name := lower (String.ofList name)
      match rest with
      | '!' :: ':' :: rest => (entryValue? rest).map fun _ => .unset name
      | ':' :: rest =>
        (entryValue? rest).map fun value =>
          if banged then .unset name else .set name (String.ofList (stripChars value))
      | _ => none
  | _ => none

/-- The entry that a line spells. -/
def Entry.parse? (line : String) : Option Entry :=
  Entry.ofChars? line.toList

end Attribute

end DocFlatten
