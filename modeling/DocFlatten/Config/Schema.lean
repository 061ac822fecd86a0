import DocFlatten.Value

/-! # Schemas

A schema is a mapping of rules on a value: its type, the values it may have, a least number,
and schemas for the values of a mapping. Every rule reports what breaks it; of several reports
the shallowest counts, and at one depth that with the greatest path.
-/

namespace DocFlatten.Config

open DocFlatten.Number

/-- A value that breaks a rule. -/
structure Violation where
  /-- The keys that lead to the value. -/
  path : List String
  message : String
  /-- Whether the value is of the type that its schema asks for. -/
  typeMatches : Bool
  deriving Repr, DecidableEq

/-! ## Equality -/

/-- The order of two numbers; truth values are none. -/
def compareNumbers : Value → Value → Option Ordering
  | .int m, .int n => some (compare m n)
  | .int m, .float y => compareInt m (Parts.ofFloat y)
  | .float x, .int n => (compareInt n (Parts.ofFloat x)).map .swap
  | .float x, .float y =>
    if x < y then some .lt else if x == y then some .eq else if y < x then some .gt else none
  | _, _ => none

mutual

/-- Whether two values are the same: numbers by value, mappings whatever their order. -/
def same : Value → Value → Bool
  | .null, .null => true
  | .bool a, .bool b => a == b
  | .text s, .text t => s == t
  | .list as, .list bs => sameItems as bs
  | .mapping as, .mapping bs => as.length == bs.length && sameEntries as bs
  | a, b => compareNumbers a b == some .eq

/-- Whether two lists have the same items. -/
def sameItems : List Value → List Value → Bool
  | [], [] => true
  | a :: as, b :: bs => same a b && sameItems as bs
  | _, _ => false

/-- Whether a mapping has the same values for some keys. -/
def sameEntries : List (String × Value) → List (String × Value) → Bool
  | [], _ => true
  | (k, a) :: rest, bs =>
    (match Mapping.get? bs k with
      | some b => same a b
      | none => false) && sameEntries rest bs

end

/-! ## Rules -/

/-- Whether a number is whole. -/
def isWhole (x : Float) : Bool :=
  match Parts.ofFloat x with
  | .finite _ mantissa exponent =>
    let (num, den) := scaled mantissa exponent
    num % den == 0
  | _ => false

/-- Whether a value is of the type with a name. -/
def isOfType (name : String) (v : Value) : Bool :=
  match v with
  | .null => name == "null"
  | .bool _ => name == "boolean"
  | .int _ => name == "integer" || name == "number"
  | .float x => name == "number" || (name == "integer" && isWhole x)
  | .text _ => name == "string"
  | .list _ => name == "array"
  | .mapping _ => name == "object"

/-- The types that a schema's `type` names. -/
def typeNames : Value → List String
  | .text name => [name]
  | .list names => names.map (·.display)
  | _ => []

/-- Whether a value is of a type that a schema asks for; not if it asks for none. -/
def matchesType (rules : Mapping Value) (v : Value) : Bool :=
  match Mapping.get? rules "type" with
  | some types => (typeNames types).any fun name => isOfType name v
  | none => false

/-- The message on a value of another type. -/
def typeMessage (types v : Value) : Option String :=
  let names := typeNames types
  if names.any fun name => isOfType name v then none
  else some (v.quoted ++ " is not of type " ++ ", ".intercalate (names.map Text.quoted))

/-- The message on a value that is not listed. -/
def enumMessage (listed v : Value) : Option String :=
  match listed with
  | .list items =>
    if items.any (same · v) then none else some s!"{v.quoted} is not one of {listed.quoted}"
  | _ => none

/-- The message on a number below the least one. -/
def minimumMessage (least v : Value) : Option String :=
  if compareNumbers v least == some .lt then
    some s!"{v.quoted} is less than the minimum of {least.quoted}"
  else none

/-- The entries of a mapping whose keys a schema does not describe. -/
def extraEntries (rules : Mapping Value) (entries : Mapping Value) : Mapping Value :=
  match Mapping.get? rules "properties" with
  | some (.mapping described) => entries.filter fun entry => !Mapping.contains described entry.1
  | _ => entries

/-- The message on keys that a schema does not allow. -/
def extraMessage (extra : Mapping Value) : Option String :=
  match (Mapping.keys extra).mergeSort with
  | [] => none
  | keys =>
    let verb := if keys.length == 1 then "was" else "were"
    let shown := ", ".intercalate (keys.map Text.quoted)
    some s!"Additional properties are not allowed ({shown} {verb} unexpected)"

mutual

/-- What breaks a schema, in the order of its rules. -/
def violations (path : List String) (v : Value) : Value → List Violation
  | .mapping rules => ruleViolations rules path v rules
  | _ => []
termination_by structural schema => schema

/-- What breaks some rules of a schema. -/
def ruleViolations (all : Mapping Value) (path : List String) (v : Value) :
    List (String × Value) → List Violation
  | [] => []
  | (name, rule) :: rest =>
    let report (message : Option String) : List Violation :=
      (message.map fun m => ⟨path, m, matchesType all v⟩).toList
    let found : List Violation :=
      if name == "type" then report (typeMessage rule v)
      else if name == "enum" then report (enumMessage rule v)
      else if name == "minimum" then report (minimumMessage rule v)
      else if name == "properties" then
        match rule, v with
        | .mapping described, .mapping entries => propertyViolations path entries described
        | _, _ => []
      else if name == "additionalProperties" then
        match v, rule with
        | .mapping entries, .bool false => report (extraMessage (extraEntries all entries))
        | .mapping entries, rule =>
          (extraEntries all entries).flatMap fun entry =>
            violations (path ++ [entry.1]) entry.2 rule
        | _, _ => []
      else []
    found ++ ruleViolations all path v rest
termination_by structural rules => rules

/-- What breaks the schemas of a mapping's keys. -/
def propertyViolations (path : List String) (entries : Mapping Value) :
    List (String × Value) → List Violation
  | [] => []
  | (key, rule) :: rest =>
    (match Mapping.get? entries key with
      | some v => violations (path ++ [key]) v rule
      | none => []) ++ propertyViolations path entries rest
termination_by structural described => described

end

/-! ## Choice -/

/-- Whether a report counts more than another one: it is shallower, at the same depth has the
greater path, and at the same place is about a value of another type. -/
def Violation.outranks (a b : Violation) : Bool :=
  if a.path.length != b.path.length then a.path.length < b.path.length
  else if a.path != b.path then b.path < a.path
  else !a.typeMatches && b.typeMatches

/-- The report that counts: the first one that no other outranks. -/
def Violation.choose : List Violation → Option Violation
  | [] => none
  | first :: rest =>
    some (rest.foldl (fun best next => if next.outranks best then next else best) first)

/-- The place of a value, as messages show it. -/
def Violation.place (v : Violation) : String :=
  let shown := ".".intercalate v.path
  if shown == "" then "<root>" else shown

/-- What breaks a schema most visibly. -/
def violation? (schema v : Value) : Option Violation :=
  Violation.choose (violations [] v schema)

end DocFlatten.Config
