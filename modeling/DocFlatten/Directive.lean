import DocFlatten.Text.Blank
import DocFlatten.Text.Lines

/-! # Directive lines

Recognising the lines that a reader acts on: conditionals, `ifdef::target[text]` and its
kin, and `include::target[attributes]`. A backslash in front of a directive makes it plain
text.
-/

namespace DocFlatten

open DocFlatten.Text

/-- The conditional directives. -/
inductive Keyword where
  | ifdef
  | ifndef
  | ifeval
  | endif
  deriving Repr, DecidableEq

namespace Keyword

/-- All keywords. -/
def all : List Keyword := [ifdef, ifndef, ifeval, endif]

/-- The word in a directive line. -/
def name : Keyword → String
  | ifdef => "ifdef"
  | ifndef => "ifndef"
  | ifeval => "ifeval"
  | endif => "endif"

/-- The keyword with a name. -/
def ofName? (s : String) : Option Keyword :=
  all.find? fun k => k.name == s

end Keyword

/-- How the attributes of a conditional's target are combined. -/
inductive Delimiter where
  /-- A comma: one of them is enough. -/
  | anyOf
  /-- A plus sign: all of them are needed. -/
  | allOf
  deriving Repr, DecidableEq

/-- The character of a delimiter. -/
def Delimiter.char : Delimiter → Char
  | .anyOf => ','
  | .allOf => '+'

/-- The delimiter that a character is. -/
def Delimiter.ofChar? (c : Char) : Option Delimiter :=
  if c == ',' then some .anyOf else if c == '+' then some .allOf else none

/-- The parts of a conditional directive. -/
structure Conditional where
  keyword : Keyword
  target : String
  delimiter : Option Delimiter
  text : Option String
  deriving Repr, DecidableEq

/-- The parts of an include directive. -/
structure Include where
  target : String
  attrlist : String
  deriving Repr, DecidableEq

/-- The line of an include directive. -/
def Include.line (i : Include) : String :=
  "include::" ++ i.target ++ "[" ++ i.attrlist ++ "]"

namespace Directive

/-- A word at the start of a text, and what follows it. -/
def after? (word : String) (cs : List Char) : Option (List Char) :=
  if word.toList.isPrefixOf cs then some (cs.drop word.length) else none

/-- What stands between an opening bracket and the bracket at the end of the line: nothing
if there are no characters, no result if there is a line feed or no closing bracket. -/
def bracketed? (cs : List Char) : Option (Option String) :=
  if cs.getLast? != some ']' then none
  else
    let inner := cs.dropLast
    if inner.contains '\n' then none
    else if inner.isEmpty then some none
    else some (some (String.ofList inner))

/-- The keyword of a conditional at the start of a text, with the colons after it. -/
def takeKeyword? (cs : List Char) : Option (Keyword × List Char) :=
  Keyword.all.findSome? fun k => (after? (k.name ++ "::") cs).map fun rest => (k, rest)

/-- The conditional that a line without a leading backslash spells. Its target runs to the
first opening bracket and holds no blanks; its delimiter is the first one in the target. -/
def conditional? (cs : List Char) : Option Conditional :=
  match takeKeyword? cs with
  | none => none
  | some (keyword, rest) =>
    let target := rest.takeWhile (· != '[')
    if target.any isBlank then none
    else match rest.drop target.length with
      | '[' :: rest =>
        (bracketed? rest).map fun text =>
          { keyword, target := String.ofList target
            delimiter := target.findSome? Delimiter.ofChar?, text }
      | _ => none

/-- The include directive that a line without a leading backslash spells. Its target runs to
the first opening bracket; it may hold blanks, but not at its ends. -/
def include? (cs : List Char) : Option Include :=
  match after? "include::" cs with
  | none => none
  | some rest =>
    let target := rest.takeWhile (· != '[')
    let edge := target.head?.toList ++ target.getLast?.toList
    if edge.isEmpty || edge.any isBlank then none
    else match rest.drop target.length with
      | '[' :: rest =>
        (bracketed? rest).map fun text =>
          { target := String.ofList target, attrlist := text.getD "" }
      | _ => none

end Directive

/-- What a line is to a reader. -/
inductive LineKind where
  /-- A line of content. -/
  | plain
  /-- A conditional directive behind a backslash. -/
  | escapedConditional
  /-- An include directive behind a backslash. -/
  | escapedInclude
  | conditional (c : Conditional)
  | directive (i : Include)
  deriving Repr, DecidableEq

/-- Whether a line may be a directive at all: it ends with a bracket, does not start with
one and holds two colons in a row. -/
def LineKind.mayBeDirective (cs : List Char) : Bool :=
  cs.getLast? == some ']' && cs.head? != some '[' && occursIn [':', ':'] cs

/-- What a line is to a reader. -/
def LineKind.ofChars (cs : List Char) : LineKind :=
  if mayBeDirective cs then
    match cs with
    | '\\' :: rest =>
      if (Directive.conditional? rest).isSome then .escapedConditional
      else if (Directive.include? rest).isSome then .escapedInclude
      else .plain
    | _ =>
      match Directive.conditional? cs, Directive.include? cs with
      | some c, _ => .conditional c
      | none, some i => .directive i
      | none, none => .plain
  else .plain

/-- What a line is to a reader. -/
def LineKind.ofLine (line : String) : LineKind :=
  .ofChars line.toList

end DocFlatten
