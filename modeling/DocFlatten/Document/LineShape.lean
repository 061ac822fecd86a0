import DocFlatten.Text.Lines
import DocFlatten.Text.Word

/-! # Shapes of lines

What a line of content is to the block scanner: a title, a delimiter, a comment, a line that
describes the next block.
-/

namespace DocFlatten.LineShape

open DocFlatten.Text

/-- A title after its marks: blanks, and a text that starts with no blank. -/
def titleText? (cs : List Char) : Option String :=
  match cs with
  | c :: _ =>
    if isSpaceOrTab c then
      match restOfLine? (cs.dropWhile isSpaceOrTab) with
      | some (first :: rest) =>
        if isBlank first then none else some (String.ofList (first :: rest))
      | _ => none
    else none
  | [] => none

/-- The title of a document: after one equals sign. -/
def documentTitle? (line : String) : Option String :=
  match line.toList with
  | '=' :: rest => titleText? rest
  | _ => none

/-- The level of a section title: one less than its two to six equals signs. -/
def sectionLevel? (line : String) : Option Nat :=
  let marks := (line.toList.takeWhile (· == '=')).length
  if 2 ≤ marks && marks ≤ 6 && (titleText? (line.toList.drop marks)).isSome then
    some (marks - 1)
  else none

/-- A comment line; a line of four slashes starts a comment block instead. -/
def isComment (line : String) : Bool :=
  line.startsWith "//" && !line.startsWith "////"

/-- A character that may follow the opening bracket of block attributes. -/
def startsAttributes (c : Char) : Bool :=
  isWord c || ['.', '#', '%', '\x7b', ',', '"', '\'', '['].contains c

/-- A line of block attributes: brackets with nothing or a proper start between them. -/
def isBlockAttributes (line : String) : Bool :=
  match line.toList with
  | '[' :: rest =>
    match restOfLine? rest with
    | some [']'] => true
    | some (c :: inner) => startsAttributes c && inner.getLast? == some ']'
    | _ => false
  | _ => false

/-- A block title: a point, and a character that is no blank and no point. -/
def isBlockTitle (line : String) : Bool :=
  match line.toList with
  | '.' :: c :: rest => !isSpaceOrTab c && c != '.' && (restOfLine? rest).isSome
  | _ => false

/-- A line that describes the block after it. -/
def isMetadata (line : String) : Bool :=
  isBlockAttributes line || isBlockTitle line

/-- The lines that delimit blocks, with the kinds of these blocks. -/
def delimiters : List (String × String) := [
  ("----", "listing"), ("....", "literal"), ("====", "example"), ("****", "sidebar"),
  ("____", "quote"), ("++++", "pass"), ("////", "comment"), ("--", "open"), ("|===", "table"),
  ("\x60\x60\x60", "listing")]

/-- The kind of the block that a line delimits. -/
def delimited? (line : String) : Option String :=
  (delimiters.find? fun entry => entry.1 == line).map (·.2)

/-- A line at which a paragraph stops although it is not blank. -/
def endsParagraph (line : String) : Bool :=
  (delimited? line).isSome || (sectionLevel? line).isSome

end DocFlatten.LineShape
