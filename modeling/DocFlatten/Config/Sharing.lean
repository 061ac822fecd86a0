import DocFlatten.Value

/-! # Shared mappings

A data file can give a mapping a name and put it at further places by that name. It stays one
mapping: a change at one of its places shows at all of them. A configuration is a tree of values,
so what is shared is kept beside it: for every mapping that stands at several places, all of these
places.
-/

namespace DocFlatten

namespace Value

/-- A step into a value: to the value of a key or to an item of a list. -/
inductive Step where
  | key (name : String)
  | item (index : Nat)
  deriving Repr, DecidableEq

/-- A place in a value. -/
abbrev Place := List Step

/-- The value at a place. -/
def at? : Value → Place → Option Value
  | v, [] => some v
  | mapping entries, .key name :: place => (Mapping.get? entries name).bind (at? · place)
  | list items, .item index :: place => items[index]?.bind (at? · place)
  | _, _ => none

/-- Put a value at a place, if there is one. -/
def putAt (w : Value) : Value → Place → Value
  | _, [] => w
  | mapping entries, .key name :: place =>
    match Mapping.get? entries name with
    | some v => mapping (Mapping.insert entries name (putAt w v place))
    | none => mapping entries
  | list items, .item index :: place =>
    match items[index]? with
    | some v => list (items.set index (putAt w v place))
    | none => list items
  | v, _ => v

end Value

namespace Config

open Value

/-- For every mapping that stands at several places of a value, these places. -/
abbrev Sharing := List (List Place)

/-- The value that a data file holds. -/
structure Data where
  value : Value
  shared : Sharing := []
  deriving Inhabited

namespace Sharing

/-! ## Merging

Where both sides have a mapping, the result is a new one; all other mappings stay what they are. -/

/-- Whether the mapping at a place is still there after a value was laid over. -/
def stays : Value → Place → Bool
  | .mapping _, [] => false
  | .mapping entries, .key name :: place =>
    match Mapping.get? entries name with
    | some v => stays v place
    | none => true
  | _, _ => false

/-- Whether the mapping at a place of a value gets there as it is when the value is laid over
another one. -/
def comes : Option Value → Place → Bool
  | some (.mapping _), [] => false
  | some (.mapping entries), .key name :: place => comes (Mapping.get? entries name) place
  | _, _ => true

/-- What is shared in a mapping after another one was laid over it. -/
def merge (shared : Sharing) (base : Mapping Value) (laid : Data) : Sharing :=
  shared.map (·.filter (stays laid.value)) ++ laid.shared.map (·.filter (comes (some (.mapping base))))

/-! ## Assigning -/

/-- The places of the innermost shared mapping around a place, and how many steps lead to it. -/
def around? (shared : Sharing) (place : Place) : Option (List Place × Nat) :=
  (List.range place.length).reverse.findSome? fun n =>
    (shared.find? (·.contains (place.take n))).map (·, n)

/-- What is still shared when the values at some places are replaced. -/
def without (shared : Sharing) (replaced : List Place) : Sharing :=
  shared.map (·.filter fun place => !replaced.any (·.isPrefixOf place))

/-- A change at a place of a mapping, which is there already, shows at all places of the shared
mapping around it. -/
def spread (shared : Sharing) (m : Mapping Value) (place : Place) : Mapping Value × Sharing :=
  match shared.around? place with
  | none => (m, shared.without [place])
  | some (places, n) =>
    -- the value is there, for the change was made at this place
    let changed := ((mapping m).at? (place.take n)).getD .null
    let spread := places.foldl (putAt changed) (mapping m)
    ((match spread with
      | mapping entries => entries
      | _ => m), shared.without (places.map (· ++ place.drop n)))

end Sharing

end Config

end DocFlatten
