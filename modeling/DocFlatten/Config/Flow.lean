import DocFlatten.Config.DataFile
import DocFlatten.Value.Json

/-! # Reading data in flow style

Data files are written in YAML. Of YAML, this reads what is JSON as well, together with the names
that mappings and other values are given (`&name`) and taken up by (`*name`). It stands in for a
library that reads all of YAML.
-/

namespace DocFlatten.Config.Flow

/-- A value whose mappings are numbered: the same number, the same mapping. -/
inductive Noted where
  | plain (v : Value)
  | list (items : List Noted)
  | mapping (number : Nat) (entries : List (String × Noted))

/-! ## Values and places -/

mutual

/-- The value without the numbers. -/
def Noted.value : Noted → Value
  | .plain v => v
  | .list items => .list (values items)
  | .mapping _ entries => .mapping (valueEntries entries)

/-- The items of a list without numbers. -/
def values : List Noted → List Value
  | [] => []
  | n :: rest => n.value :: values rest

/-- The entries of a mapping without numbers. -/
def valueEntries : List (String × Noted) → List (String × Value)
  | [] => []
  | (key, n) :: rest => (key, n.value) :: valueEntries rest

end

mutual

/-- The mappings in a value by number, with their places seen from above, where steps lead to the
value. -/
def Noted.places (steps : Value.Place) : Noted → List (Nat × Value.Place)
  | .plain _ => []
  | .list items => itemPlaces steps 0 items
  | .mapping number entries => (number, steps) :: entryPlaces steps entries

/-- The places in the items of a list from an index on. -/
def itemPlaces (steps : Value.Place) (index : Nat) : List Noted → List (Nat × Value.Place)
  | [] => []
  | n :: rest => n.places (steps ++ [.item index]) ++ itemPlaces steps (index + 1) rest

/-- The places in the entries of a mapping. -/
def entryPlaces (steps : Value.Place) : List (String × Noted) → List (Nat × Value.Place)
  | [] => []
  | (key, n) :: rest => n.places (steps ++ [.key key]) ++ entryPlaces steps rest

end

/-- What is shared in a value. -/
def Noted.shared (n : Noted) : Sharing :=
  let places := n.places []
  (places.map (·.1)).eraseDups.filterMap fun number =>
    let same := places.filter (·.1 == number)
    if 2 ≤ same.length then some (same.map (·.2)) else none

/-! ## Reading -/

/-- How far a text is read. -/
structure State where
  rest : List Char
  /-- The values that have a name, the last one first. -/
  named : List (String × Noted) := []
  /-- The number of the next mapping. -/
  next : Nat := 0

/-- The state with the blanks in front passed over. -/
def State.skip (s : State) : State :=
  { s with rest := Json.skipBlanks s.rest }

/-- A name at the start of a text, and what follows it. -/
def nameOf (cs : List Char) : String × List Char :=
  let isPart (c : Char) := c.isAlphanum || c == '-' || c == '_'
  (String.ofList (cs.takeWhile isPart), cs.dropWhile isPart)

/-- The error of a text that is no JSON. -/
def errorOf : Json.ReadError → DataError
  | .number e => .number e
  | .malformed | .surrogate => .malformed

/-- A string at the start of a text, after its opening quote. -/
def readString (cs : List Char) : Except DataError (String × List Char) :=
  match Json.stringBody (cs.length + 1) cs with
  | .ok (body, rest) => .ok (String.ofList body, rest)
  | .error e => .error (errorOf e)

/-- A truth value, null or a number at the start of a text. -/
def readPlain (cs : List Char) : Except DataError (Value × List Char) :=
  match Json.name? cs with
  | some result => .ok result
  | none => (Json.number? cs).mapError errorOf

mutual

/-- A value at the start of a text. -/
def readValue : (fuel : Nat) → State → Except DataError (Noted × State)
  | 0, _ => .error .malformed
  | fuel + 1, s =>
    match s.rest with
    | '*' :: rest =>
      let (name, rest) := nameOf rest
      match s.named.find? (·.1 == name) with
      | some (_, n) => .ok (n, { s with rest })
      | none => .error .malformed
    | '&' :: rest => do
      let (name, rest) := nameOf rest
      let (n, s) ← readValue fuel { s with rest }.skip
      return (n, { s with named := (name, n) :: s.named })
    | '"' :: rest => do
      let (text, rest) ← readString rest
      return (.plain (.text text), { s with rest })
    | '[' :: rest =>
      match Json.skipBlanks rest with
      | ']' :: rest => .ok (.list [], { s with rest })
      | rest => do
        let (items, s) ← readItems fuel { s with rest }
        return (.list items, s)
    | '\x7b' :: rest =>
      match Json.skipBlanks rest with
      | '\x7d' :: rest => .ok (.mapping s.next [], { s with rest, next := s.next + 1 })
      | rest => do
        let number := s.next
        let (entries, s) ← readEntries fuel { s with rest, next := number + 1 }
        return (.mapping number (Mapping.ofList entries), s)
    | cs => do
      let (v, rest) ← readPlain cs
      return (.plain v, { s with rest })

/-- The items of a list up to its closing bracket. -/
def readItems : (fuel : Nat) → State → Except DataError (List Noted × State)
  | 0, _ => .error .malformed
  | fuel + 1, s => do
    let (n, s) ← readValue fuel s
    match Json.skipBlanks s.rest with
    | ']' :: rest => return ([n], { s with rest })
    | ',' :: rest => do
      let (ns, s) ← readItems fuel { s with rest }.skip
      return (n :: ns, s)
    | _ => .error .malformed

/-- The entries of a mapping up to its closing brace. -/
def readEntries : (fuel : Nat) → State → Except DataError (List (String × Noted) × State)
  | 0, _ => .error .malformed
  | fuel + 1, s => do
    match s.rest with
    | '"' :: rest =>
      let (key, rest) ← readString rest
      match Json.skipBlanks rest with
      | ':' :: rest =>
        let (n, s) ← readValue fuel { s with rest }.skip
        match Json.skipBlanks s.rest with
        | '\x7d' :: rest => return ([(key, n)], { s with rest })
        | ',' :: rest =>
          let (entries, s) ← readEntries fuel { s with rest }.skip
          return ((key, n) :: entries, s)
        | _ => .error .malformed
      | _ => .error .malformed
    | _ => .error .malformed

end

/-- What a text spells; blank texts hold nothing. -/
def read (s : String) : Except DataError Data :=
  if s.toList.all Text.isBlank then .ok { value := .null }
  else do
    let cs := s.toList
    let (n, state) ← readValue (2 * cs.length + 2) { rest := Json.skipBlanks cs }
    if state.skip.rest.isEmpty then return { value := n.value, shared := n.shared }
    else .error .malformed

end DocFlatten.Config.Flow
