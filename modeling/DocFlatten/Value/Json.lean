import DocFlatten.Value

/-! # JSON

Reading a JSON text into a value, and writing a value as indented JSON in ASCII. Reading
also takes the three names of numbers that are not finite, and the last of several equal
keys wins. A text here has no lone surrogates, so one that is spelled is not read.
-/

namespace DocFlatten.Json

open DocFlatten.Number

/-- Why a text is no JSON that can be read. -/
inductive ReadError where
  | malformed
  | number (e : IntegerError)
  /-- A lone surrogate is spelled. -/
  | surrogate
  deriving Repr, DecidableEq

/-! ## Reading -/

/-- The blanks of JSON. -/
def isJsonBlank (c : Char) : Bool :=
  c == ' ' || c == '\t' || c == '\n' || c == '\r'

/-- The text from its first character that is not blank. -/
def skipBlanks (cs : List Char) : List Char :=
  cs.dropWhile isJsonBlank

/-- The value of a hexadecimal digit. -/
def hexValue? (c : Char) : Option Nat :=
  if c.isDigit then some (c.toNat - '0'.toNat)
  else if 'a' ≤ c && c ≤ 'f' then some (c.toNat - 'a'.toNat + 10)
  else if 'A' ≤ c && c ≤ 'F' then some (c.toNat - 'A'.toNat + 10)
  else none

/-- Four hexadecimal digits at the start of a text. -/
def hexUnit? : List Char → Option (Nat × List Char)
  | a :: b :: c :: d :: rest => do
    let a ← hexValue? a
    let b ← hexValue? b
    let c ← hexValue? c
    let d ← hexValue? d
    return (((a * 16 + b) * 16 + c) * 16 + d, rest)
  | _ => none

/-- The character of a code unit, or of a pair of them. -/
def unitChar (unit : Nat) (rest : List Char) : Except ReadError (Char × List Char) :=
  if 0xd800 ≤ unit && unit < 0xdc00 then
    match rest with
    | '\\' :: 'u' :: rest =>
      match hexUnit? rest with
      | some (low, rest) =>
        if 0xdc00 ≤ low && low < 0xe000 then
          .ok (Char.ofNat (0x10000 + (unit - 0xd800) * 0x400 + (low - 0xdc00)), rest)
        else .error .surrogate
      | none => .error .malformed
    | _ => .error .surrogate
  else if 0xdc00 ≤ unit && unit < 0xe000 then .error .surrogate
  else .ok (Char.ofNat unit, rest)

/-- A character after a backslash, and the rest. -/
def escape : List Char → Except ReadError (Char × List Char)
  | '"' :: rest => .ok ('"', rest)
  | '\\' :: rest => .ok ('\\', rest)
  | '/' :: rest => .ok ('/', rest)
  | 'b' :: rest => .ok ('\x08', rest)
  | 'f' :: rest => .ok ('\x0c', rest)
  | 'n' :: rest => .ok ('\n', rest)
  | 'r' :: rest => .ok ('\r', rest)
  | 't' :: rest => .ok ('\t', rest)
  | 'u' :: rest =>
    match hexUnit? rest with
    | some (unit, rest) => unitChar unit rest
    | none => .error .malformed
  | _ => .error .malformed

/-- The characters of a string up to its closing quote, and what follows it. -/
def stringBody : (fuel : Nat) → List Char → Except ReadError (List Char × List Char)
  | 0, _ => .error .malformed
  | _, [] => .error .malformed
  | _, '"' :: rest => .ok ([], rest)
  | fuel + 1, '\\' :: rest => do
    let (c, rest) ← escape rest
    let (cs, rest) ← stringBody fuel rest
    return (c :: cs, rest)
  | fuel + 1, c :: rest =>
    if c.toNat < 0x20 then .error .malformed
    else (stringBody fuel rest).map fun (cs, rest) => (c :: cs, rest)

/-- Whether a number continues with a fraction: a point and at least one digit. -/
def takeFraction (cs : List Char) : Option (List Char) × List Char :=
  match cs with
  | '.' :: rest =>
    let digits := rest.takeWhile Char.isDigit
    if digits.isEmpty then (none, cs) else (some digits, rest.dropWhile Char.isDigit)
  | _ => (none, cs)

/-- Whether a number continues with an exponent: its sign and digits. -/
def takeExponent (cs : List Char) : Option (Bool × List Char) × List Char :=
  match cs with
  | c :: rest =>
    if c == 'e' || c == 'E' then
      let (negative, body) := takeSign rest
      let digits := body.takeWhile Char.isDigit
      if digits.isEmpty then (none, cs) else (some (negative, digits), body.dropWhile Char.isDigit)
    else (none, cs)
  | [] => (none, cs)

/-- A number at the start of a text. -/
def number? (cs : List Char) : Except ReadError (Value × List Char) :=
  let (negative, body) := match cs with
    | '-' :: rest => (true, rest)
    | _ => (false, cs)
  let whole := match body with
    | '0' :: _ => ['0']
    | _ => body.takeWhile Char.isDigit
  if whole.isEmpty then .error .malformed
  else
    let rest := body.drop whole.length
    let (fraction, rest) := takeFraction rest
    let (exponent, rest) := takeExponent rest
    let value (digits : List Char) := digits.filterMap Text.digitValue?
    match fraction, exponent with
    | none, none =>
      if whole.length > digitLimit then .error (.number (.tooLong whole.length))
      else
        let n := Int.ofNat (ofDigits (value whole))
        .ok (.int (if negative then -n else n), rest)
    | _, _ =>
      let e : Int := match exponent with
        | some (minus, digits) =>
          let size := Int.ofNat (ofDigits (value digits))
          if minus then -size else size
        | none => 0
      .ok (.float (floatOf negative (value whole) (value (fraction.getD [])) e), rest)

/-- The names of values, with the values they stand for. -/
def names : List (List Char × Value) :=
  [("null".toList, .null), ("true".toList, .bool true), ("false".toList, .bool false),
   ("NaN".toList, .float (0.0 / 0.0)), ("Infinity".toList, .float (1.0 / 0.0)),
   ("-Infinity".toList, .float (-1.0 / 0.0))]

/-- A name at the start of a text. -/
def name? (cs : List Char) : Option (Value × List Char) :=
  (names.find? fun entry => entry.1.isPrefixOf cs).map fun entry =>
    (entry.2, cs.drop entry.1.length)

mutual

/-- A value at the start of a text, and what follows it. -/
def readValue : (fuel : Nat) → List Char → Except ReadError (Value × List Char)
  | 0, _ => .error .malformed
  | fuel + 1, cs =>
    match cs with
    | '"' :: rest =>
      (stringBody (rest.length + 1) rest).map fun (s, rest) => (.text (String.ofList s), rest)
    | '[' :: rest =>
      match skipBlanks rest with
      | ']' :: rest => .ok (.list [], rest)
      | rest => do
        let (items, rest) ← readItems fuel rest
        return (.list items, rest)
    | '\x7b' :: rest =>
      match skipBlanks rest with
      | '\x7d' :: rest => .ok (.mapping [], rest)
      | rest => do
        let (entries, rest) ← readEntries fuel rest
        return (.mapping (Mapping.ofList entries), rest)
    | _ =>
      match name? cs with
      | some result => .ok result
      | none => number? cs

/-- The items of a list up to its closing bracket. -/
def readItems : (fuel : Nat) → List Char → Except ReadError (List Value × List Char)
  | 0, _ => .error .malformed
  | fuel + 1, cs => do
    let (v, rest) ← readValue fuel cs
    match skipBlanks rest with
    | ']' :: rest => return ([v], rest)
    | ',' :: rest => do
      let (vs, rest) ← readItems fuel (skipBlanks rest)
      return (v :: vs, rest)
    | _ => .error .malformed

/-- The entries of a mapping up to its closing brace. -/
def readEntries : (fuel : Nat) → List Char →
    Except ReadError (List (String × Value) × List Char)
  | 0, _ => .error .malformed
  | fuel + 1, cs => do
    match cs with
    | '"' :: rest =>
      let (key, rest) ← stringBody (rest.length + 1) rest
      match skipBlanks rest with
      | ':' :: rest =>
        let (v, rest) ← readValue fuel (skipBlanks rest)
        match skipBlanks rest with
        | '\x7d' :: rest => return ([(String.ofList key, v)], rest)
        | ',' :: rest =>
          let (entries, rest) ← readEntries fuel (skipBlanks rest)
          return ((String.ofList key, v) :: entries, rest)
        | _ => .error .malformed
      | _ => .error .malformed
    | _ => .error .malformed

end

/-- The value that a JSON text spells. -/
def read (s : String) : Except ReadError Value := do
  let cs := s.toList
  let (v, rest) ← readValue (2 * cs.length + 2) (skipBlanks cs)
  if (skipBlanks rest).isEmpty then return v else .error .malformed

/-- How many mappings and lists a text opens; they are nested at most as deeply. -/
def brackets (s : String) : Nat :=
  s.toList.countP fun c => c == '[' || c == '\x7b'

/-! ## Writing -/

/-- The code units of a character in UTF-16. -/
def units (c : Char) : List Nat :=
  let n := c.toNat
  if n < 0x10000 then [n]
  else [0xd800 + (n - 0x10000) / 0x400, 0xdc00 + (n - 0x10000) % 0x400]

/-- The spelling of a character in a JSON string. -/
def charText (c : Char) : List Char :=
  if c == '"' then ['\\', '"']
  else if c == '\\' then ['\\', '\\']
  else if c == '\n' then ['\\', 'n']
  else if c == '\r' then ['\\', 'r']
  else if c == '\t' then ['\\', 't']
  else if c == '\x08' then ['\\', 'b']
  else if c == '\x0c' then ['\\', 'f']
  else if 0x20 ≤ c.toNat && c.toNat < 0x7f then [c]
  else (units c).flatMap fun unit => '\\' :: 'u' :: Text.hexDigits 4 unit

/-- A text as a JSON string. -/
def string (s : String) : String :=
  String.ofList ('"' :: s.toList.flatMap charText ++ ['"'])

/-- A number with a fraction. -/
def floatNumber (x : Float) : String :=
  match Parts.ofFloat x with
  | .nan => "NaN"
  | .infinite negative => if negative then "-Infinity" else "Infinity"
  | parts => parts.text

/-- A line break and the indentation of a nesting depth. -/
def newline (depth : Nat) : String :=
  String.ofList ('\n' :: List.replicate (2 * depth) ' ')

mutual

/-- A value as JSON, its inner lines indented from the given depth. -/
def renderAt (depth : Nat) : Value → String
  | .null => "null"
  | .bool b => if b then "true" else "false"
  | .int n => toString n
  | .float x => floatNumber x
  | .text s => string s
  | .list [] => "[]"
  | .list items =>
    "[" ++ ",".intercalate (renderItems (depth + 1) items) ++ newline depth ++ "]"
  | .mapping [] => "\x7b\x7d"
  | .mapping entries =>
    "\x7b" ++ ",".intercalate (renderEntries (depth + 1) entries) ++ newline depth ++ "\x7d"

/-- The items of a list, each on a line of its own. -/
def renderItems (depth : Nat) : List Value → List String
  | [] => []
  | v :: rest => (newline depth ++ renderAt depth v) :: renderItems depth rest

/-- The entries of a mapping, each on a line of its own. -/
def renderEntries (depth : Nat) : List (String × Value) → List String
  | [] => []
  | (k, v) :: rest =>
    (newline depth ++ string k ++ ": " ++ renderAt depth v) :: renderEntries depth rest

end

/-- A value as JSON. -/
def render (v : Value) : String :=
  renderAt 0 v

end DocFlatten.Json
