import DocFlatten.Value

/-! # Merging mappings

Laying one mapping over another: mappings on both sides merge key by key, any other value
replaces what was there. Keys keep their places, new ones come last.
-/

namespace DocFlatten.Value

mutual

/-- What a value leads to over what was there before. -/
def mergeOver (before : Option Value) : Value → Value
  | .mapping entries =>
    match before with
    | some (.mapping base) => .mapping (mergeEntries base entries)
    | _ => .mapping entries
  | v => v

/-- A mapping with another one laid over it. -/
def mergeEntries (base : Mapping Value) : List (String × Value) → Mapping Value
  | [] => base
  | (k, v) :: rest => mergeEntries (Mapping.insert base k (mergeOver (Mapping.get? base k) v)) rest

end

/-- A mapping with a value laid over it that is a mapping or nothing. -/
def merge (base : Mapping Value) (v : Value) : Mapping Value :=
  match v with
  | .mapping entries => mergeEntries base entries
  | _ => base

end DocFlatten.Value
