import DocFlatten.Attribute.Reference
import DocFlatten.Directive

/-! # Conditions

Whether a conditional directive skips its content. `ifdef` and `ifndef` ask which attributes
are set; `ifeval` compares two operands. Numbers are compared exactly, whether whole or not;
operands of different kinds are never equal and have no order.
-/

namespace DocFlatten.Condition

open DocFlatten.Text DocFlatten.Number

/-- Why a condition cannot be decided. -/
inductive Error where
  | unknownKeyword (name : String)
  | missingTarget (keyword : Keyword) (text : String)
  | targetNotPermitted (target text : String)
  | invalidExpression (text : String)
  | number (e : IntegerError)
  deriving Repr, DecidableEq

/-- The wording of an error. -/
def Error.message : Error → String
  | .unknownKeyword name => s!"Unknown conditional directive: {name}"
  | .missingTarget keyword text =>
    s!"malformed preprocessor directive - missing target: {keyword.name}::[{text}]"
  | .targetNotPermitted target text =>
    s!"malformed preprocessor directive - target not permitted: ifeval::{target}[{text}]"
  | .invalidExpression text =>
    s!"malformed preprocessor directive - invalid expression: ifeval::[{text}]"
  | .number e => e.message

/-! ## Comparisons -/

/-- The comparison operators. -/
inductive Comparison where
  | eq
  | ne
  | lt
  | le
  | gt
  | ge
  deriving Repr, DecidableEq

/-- Whether a comparison holds of two values in the given order. -/
def Comparison.holds : Comparison → Ordering → Bool
  | .eq, o => o == .eq
  | .ne, o => o != .eq
  | .lt, o => o == .lt
  | .le, o => o != .gt
  | .gt, o => o == .gt
  | .ge, o => o != .lt

/-- An operand of an expression. -/
inductive Operand where
  | nothing
  | bool (b : Bool)
  | int (n : Int)
  | float (x : Float)
  | text (s : String)

/-- The order of two fractions; none if one is not a number. -/
def compareFloat (x y : Float) : Option Ordering :=
  if x < y then some .lt else if x == y then some .eq else if y < x then some .gt else none

/-- The whole number that an operand stands for: truth values count as one and zero. -/
def Operand.int? : Operand → Option Int
  | .int n => some n
  | .bool b => some (if b then 1 else 0)
  | _ => none

/-- The order of two texts by code points. -/
def compareText (s t : String) : Ordering :=
  if s < t then .lt else if s = t then .eq else .gt

/-- The order of two operands, if they have one. -/
def Operand.compare? (a b : Operand) : Option Ordering :=
  match a, b with
  | .text s, .text t => some (compareText s t)
  | .float x, .float y => compareFloat x y
  | .float x, _ => b.int?.bind fun n => (compareInt n (Parts.ofFloat x)).map .swap
  | _, .float y => a.int?.bind fun n => compareInt n (Parts.ofFloat y)
  | _, _ => a.int?.bind fun m => b.int?.map fun n => Ord.compare m n

/-- Whether a comparison holds between two operands. Without an order they are equal only
if both are nothing, and no comparison of size holds. -/
def Comparison.holdsFor (c : Comparison) (a b : Operand) : Bool :=
  match a.compare? b with
  | some order => c.holds order
  | none =>
    match c, a, b with
    | .eq, .nothing, .nothing => true
    | .ne, .nothing, .nothing => false
    | .ne, _, _ => true
    | _, _, _ => false

/-! ## Expressions -/

/-- The operators with their spellings; the longer ones come first. -/
def operators : List (List Char × Comparison) :=
  [(['=', '='], .eq), (['!', '='], .ne), (['>', '='], .ge), (['<', '='], .le),
   (['>'], .gt), (['<'], .lt)]

/-- An operator at the start of a text that is followed by at least one character, all in
the same line. -/
def takeOperator? (cs : List Char) : Option (Comparison × List Char) :=
  operators.findSome? fun (spelling, c) =>
    let rest := cs.drop spelling.length
    if spelling.isPrefixOf cs && !rest.isEmpty && !rest.contains '\n' then some (c, rest) else none

/-- The operands of an expression, around its first operator that has a character before
and after it. -/
def splitExpression? : List Char → Option (List Char × Comparison × List Char)
  | [] => none
  | c :: cs =>
    if c == '\n' then none
    else match takeOperator? cs with
      | some (comparison, rest) => some ([c], comparison, rest)
      | none => (splitExpression? cs).map fun (left, rest) => (c :: left, rest)

/-- Whether an operand stands between quotes. -/
def isQuoted (cs : List Char) : Bool :=
  match cs with
  | first :: rest => (first == '"' || first == '\'') && rest.getLast? == some first
  | [] => false

/-- An operand's text with its references replaced; those to missing attributes vanish. -/
def expand (attributes : Attributes) (cs : List Char) : String :=
  (Attribute.substitute? .drop attributes (String.ofList cs)).getD ""

/-- The operand that a text without surrounding blanks stands for. -/
def plainOperand (value : String) : Except Error Operand :=
  if value == "" then .ok .nothing
  else if value == "true" then .ok (.bool true)
  else if value == "false" then .ok (.bool false)
  else if isPlainInteger value.toList then
    match readInteger value with
    | .ok n => .ok (.int n)
    | .error e => .error (.number e)
  else match readPointed? value.toList with
    | some x => .ok (.float x)
    | none => .ok (.text value)

/-- The operand that a side of an expression stands for. -/
def operand (attributes : Attributes) (side : List Char) : Except Error Operand :=
  let side := stripChars side
  if isQuoted side then .ok (.text (expand attributes side.tail.dropLast))
  else plainOperand (strip (expand attributes side))

/-! ## Decisions -/

/-- The attribute names of a target. -/
def targetNames (target : String) (delimiter : Option Delimiter) : List String :=
  match delimiter with
  | some d => (splitAt (· == d.char) target).map lower
  | none => [lower target]

/-- Whether the attributes that a target names are set, as its delimiter asks. -/
def isSet (attributes : Attributes) (target : String) (delimiter : Option Delimiter) : Bool :=
  let names := targetNames target delimiter
  match delimiter with
  | some .anyOf => names.any (Mapping.contains attributes)
  | _ => names.all (Mapping.contains attributes)

/-- Whether an expression holds. -/
def evaluate (attributes : Attributes) (text : String) : Except Error Bool := do
  match splitExpression? (stripChars text.toList) with
  | none => throw (.invalidExpression text)
  | some (left, comparison, right) =>
    let a ← operand attributes left
    let b ← operand attributes right
    return comparison.holdsFor a b

/-- Whether a conditional directive skips its content. -/
def skips (attributes : Attributes) (c : Conditional) : Except Error Bool :=
  let text := c.text.getD ""
  match c.keyword with
  | .ifdef =>
    if c.target == "" then .error (.missingTarget .ifdef text)
    else .ok (!isSet attributes c.target c.delimiter)
  | .ifndef =>
    if c.target == "" then .error (.missingTarget .ifndef text)
    else .ok (isSet attributes c.target c.delimiter)
  | .ifeval =>
    if c.target == "" then (evaluate attributes text).map (!·)
    else .error (.targetNotPermitted c.target text)
  | .endif => .error (.unknownKeyword "endif")

end DocFlatten.Condition
