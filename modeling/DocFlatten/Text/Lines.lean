import DocFlatten.Text.Blank

/-! # Lines

How a text falls into lines. Line breaks are those of Unicode together with the ASCII
separators; a carriage return and the line feed after it are one break. A file's line
ends are first made uniform.
-/

namespace DocFlatten.Text

/-- A character that ends a line. -/
def isLineBreak (c : Char) : Bool :=
  let n := c.toNat
  (10 ≤ n && n ≤ 13) || (28 ≤ n && n ≤ 30) || n == 0x85 || n == 0x2028 || n == 0x2029

/-- The lines of a text, without their breaks. A break at the end starts no further line. -/
def splitLines : List Char → List (List Char)
  | [] => []
  | '\r' :: '\n' :: rest => [] :: splitLines rest
  | c :: rest =>
    if isLineBreak c then [] :: splitLines rest
    else match splitLines rest with
      | [] => [[c]]
      | line :: lines => (c :: line) :: lines

/-- A text with every carriage return, and the line feed that may follow it, as a line feed. -/
def uniformLineEnds : List Char → List Char
  | [] => []
  | '\r' :: '\n' :: rest => '\n' :: uniformLineEnds rest
  | '\r' :: rest => '\n' :: uniformLineEnds rest
  | c :: rest => c :: uniformLineEnds rest

/-- Whether a text is at the end of its line: nothing follows but perhaps one line feed. -/
def endsLine (cs : List Char) : Bool :=
  cs == [] || cs == ['\n']

/-- A text that is the rest of one line: it holds no line feed, except perhaps one at its
end, which is left out. -/
def restOfLine? (cs : List Char) : Option (List Char) :=
  let rest := cs.takeWhile (· != '\n')
  if endsLine (cs.drop rest.length) then some rest else none

/-- The lines of a text. -/
def lines (s : String) : List String :=
  (splitLines s.toList).map String.ofList

/-- Lines joined by line feeds. -/
def unlines (ls : List String) : String :=
  "\n".intercalate ls

end DocFlatten.Text

namespace DocFlatten

/-- What a document is read from: a text, or lines that were split before. -/
inductive Source where
  | text (s : String)
  | lines (ls : List String)
  deriving Repr, DecidableEq

namespace Source

/-- The empty source. -/
def empty : Source := .text ""

/-- The lines a reader sees: without breaks and trailing blanks, and without a byte order
mark before the first one of a text. -/
def prepare : Source → List String
  | .text s =>
    let cs := match s.toList with
      | '\ufeff' :: rest => rest
      | cs => cs
    ((Text.splitLines cs).map String.ofList).map Text.stripEnd
  | .lines ls => ls.map Text.stripEnd

end Source

end DocFlatten
