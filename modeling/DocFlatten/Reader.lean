import DocFlatten.Text.Lines

/-! # Readers

A reader holds the lines still to be read of the current scope, the scopes around it and the
conditionals that are open. A line that was looked at stays in front until it is taken; the
look-ahead counts such lines. This module has the operations that only move lines; acting on
directives needs the document as well.
-/

namespace DocFlatten

/-- A position in a file: the number of a line, and how the file is called. -/
structure Cursor where
  file : Option String
  dir : String
  path : String
  lineno : Int
  deriving Repr, DecidableEq

/-- A position as messages show it. -/
def Cursor.text (c : Cursor) : String :=
  s!"{c.path}: line {c.lineno}"

/-- A source that is being read: its remaining lines, and the position of the first one. -/
structure Scope where
  lines : List String
  cursor : Cursor
  deriving Repr, DecidableEq

/-- A block conditional whose end has not been read. -/
structure OpenConditional where
  target : String
  /-- Whether its own condition skips. -/
  skip : Bool
  /-- Whether lines are skipped inside of it. -/
  skipping : Bool
  deriving Repr, DecidableEq

/-- The state of reading. -/
structure Reader where
  scope : Scope
  /-- The scopes around the current one, innermost first. -/
  outer : List Scope
  /-- How many lines in front have been processed and wait to be taken. -/
  lookAhead : Nat
  /-- Whether the line in front has a backslash that is not content. -/
  unescape : Bool
  /-- The open conditionals, innermost first. -/
  conditionals : List OpenConditional
  skipping : Bool
  /-- How many lines were added in front of the content of the scope entered last. -/
  frame : Nat
  deriving Repr, DecidableEq

namespace Reader

/-- A reader at the start of a document. -/
def start (lines : List String) (file : Option String) (dir path : String) : Reader :=
  { scope := { lines, cursor := { file, dir, path, lineno := 1 } }
    outer := [], lookAhead := 0, unescape := false, conditionals := [], skipping := false
    frame := 0 }

/-- Where the next line of the current scope is. -/
def cursor (r : Reader) : Cursor :=
  r.scope.cursor

/-- How many scopes have been entered. -/
def includeDepth (r : Reader) : Nat :=
  r.outer.length

/-- How many conditionals are open. -/
def conditionalDepth (r : Reader) : Nat :=
  r.conditionals.length

/-- A text without its first character. -/
def dropFirst (s : String) : String :=
  String.ofList s.toList.tail

/-- A line as content: without the backslash that kept it from being a directive. -/
def shown (r : Reader) (line : String) : String :=
  if r.unescape then dropFirst line else line

/-- The line in front as content, whether processed or not. -/
def head? (r : Reader) : Option String :=
  r.scope.lines.head?.map r.shown

/-- Move the position by some lines. -/
def advance (r : Reader) (n : Int) : Reader :=
  { r with scope.cursor.lineno := r.scope.cursor.lineno + n }

/-- Take the line in front. The position moves on even if there is none. -/
def shift (r : Reader) : Option String × Reader :=
  let moved := { r.advance 1 with lookAhead := r.lookAhead - 1 }
  match r.scope.lines with
  | [] => (none, moved)
  | line :: rest => (some (r.shown line), { moved with scope.lines := rest, unescape := false })

/-- The reader after the line in front was taken. -/
def shifted (r : Reader) : Reader :=
  r.shift.2

/-- Put a processed line in front. -/
def unshift (r : Reader) (line : String) : Reader :=
  { r.advance (-1) with
    lookAhead := r.lookAhead + 1
    scope.lines := line :: r.scope.lines }

/-- Put a processed line in the place of the line in front; says whether there was one. -/
def replaceNext (r : Reader) (line : String) : Bool × Reader :=
  match r.shift with
  | (none, r) => (false, r)
  | (some _, r) => (true, r.unshift line)

/-- Count the line in front as processed. -/
def hold (r : Reader) : Reader :=
  { r with lookAhead := r.lookAhead + 1 }

/-- Put a text in the place of the line in front without counting it as processed. -/
def setHead (r : Reader) (line : String) : Reader :=
  { r with scope.lines := line :: r.scope.lines.tail }

end Reader

end DocFlatten
