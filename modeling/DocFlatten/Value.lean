import DocFlatten.Mapping
import DocFlatten.Number.Decimal

/-! # Values

The values a configuration, an attribute mapping or a JSON text holds, and how a message
shows them.
-/

namespace DocFlatten

open DocFlatten.Number

/-- A value of a configuration or of JSON. -/
inductive Value where
  | null
  | bool (b : Bool)
  | int (n : Int)
  | float (x : Float)
  | text (s : String)
  | list (items : List Value)
  | mapping (entries : List (String × Value))
  deriving Inhabited, Repr

namespace Value

/-- The name of a value's type. -/
def typeName : Value → String
  | null => "NoneType"
  | bool _ => "bool"
  | int _ => "int"
  | float _ => "float"
  | text _ => "str"
  | list _ => "list"
  | mapping _ => "dict"

/-- Whether a value counts as given: nothing, false, zero and all that is empty do not. -/
def truthy : Value → Bool
  | null => false
  | bool b => b
  | int n => n != 0
  | float x => x != 0.0
  | text s => s != ""
  | list items => !items.isEmpty
  | mapping entries => !entries.isEmpty

mutual

/-- A value as a message quotes it. -/
def quoted : Value → String
  | null => "None"
  | bool b => if b then "True" else "False"
  | int n => toString n
  | float x => floatText x
  | text s => Text.quoted s
  | list items => "[" ++ ", ".intercalate (quotedItems items) ++ "]"
  | mapping entries => "\x7b" ++ ", ".intercalate (quotedEntries entries) ++ "\x7d"

/-- The items of a list, each quoted. -/
def quotedItems : List Value → List String
  | [] => []
  | v :: rest => quoted v :: quotedItems rest

/-- The entries of a mapping, each with its key and value quoted. -/
def quotedEntries : List (String × Value) → List String
  | [] => []
  | (k, v) :: rest => (Text.quoted k ++ ": " ++ quoted v) :: quotedEntries rest

end

/-- A value as text: a text as it is, anything else as a message quotes it. -/
def display : Value → String
  | text s => s
  | v => quoted v

mutual

/-- Whether no integer in a value has too many digits to be written. -/
def isWritable : Value → Bool
  | int n => (Nat.toDigits 10 n.natAbs).length ≤ digitLimit
  | list items => itemsWritable items
  | mapping entries => entriesWritable entries
  | null | bool _ | float _ | text _ => true

/-- Whether the items of a list can be written. -/
def itemsWritable : List Value → Bool
  | [] => true
  | v :: rest => isWritable v && itemsWritable rest

/-- Whether the entries of a mapping can be written. -/
def entriesWritable : List (String × Value) → Bool
  | [] => true
  | (_, v) :: rest => isWritable v && entriesWritable rest

end

/-- The value under a key; nothing if this is no mapping. -/
def get? : Value → String → Option Value
  | mapping entries, key => Mapping.get? entries key
  | _, _ => none

end Value

/-- Why a value has no whole number. -/
inductive ToIntegerError where
  | reading (e : IntegerError)
  | wrongType (typeName : String)
  | infinite
  | notANumber
  deriving Repr, DecidableEq

/-- The wording of a refusal. -/
def ToIntegerError.message : ToIntegerError → String
  | reading e => e.message
  | wrongType name =>
    s!"int() argument must be a string, a bytes-like object or a real number, not '{name}'"
  | infinite => "cannot convert float infinity to integer"
  | notANumber => "cannot convert float NaN to integer"

/-- The whole number of a value: a text is read, a fraction cut off. -/
def Value.toInteger : Value → Except ToIntegerError Int
  | .int n => .ok n
  | .bool b => .ok (if b then 1 else 0)
  | .text s =>
    match readInteger s with
    | .ok n => .ok n
    | .error e => .error (.reading e)
  | .float x =>
    match Parts.ofFloat x with
    | .nan => .error .notANumber
    | .infinite _ => .error .infinite
    | .finite negative mantissa exponent =>
      let (num, den) := scaled mantissa exponent
      .ok (if negative then -Int.ofNat (num / den) else Int.ofNat (num / den))
  | v => .error (.wrongType v.typeName)

end DocFlatten
