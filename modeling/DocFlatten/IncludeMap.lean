import DocFlatten.Mapping
import DocFlatten.Text.Blank

/-! # Include maps

A reduced document can end with a comment that lists the includes it absorbed. A tilde in
front of a name marks an include of which only some lines were kept.
-/

namespace DocFlatten

open DocFlatten.Text

/-- The absorbed includes by name: true if the whole file was kept. -/
abbrev IncludeMap := Mapping Bool

namespace IncludeMap

/-- How the comment starts. -/
def marker : String := "//# includes="

/-- The comment of an include map. -/
def format (includes : IncludeMap) : String :=
  marker ++ ",".intercalate (includes.map fun entry => if entry.2 then entry.1 else "~" ++ entry.1)

/-- The entry that a listed name stands for. -/
def entryOf (name : String) : String × Bool :=
  match name.toList with
  | '~' :: rest => (String.ofList rest, false)
  | _ => (name, true)

/-- The include map in the last of some lines; empty if that is no such comment. -/
def read (lines : List String) : IncludeMap :=
  match lines.getLast? with
  | some line =>
    if line.startsWith marker then
      let names := splitAt (· == ',') (String.ofList (line.toList.drop marker.length))
      Mapping.ofList (((names.map strip).filter (· != "")).map entryOf)
    else []
  | none => []

/-- Record an include: a whole file is marked as such, a part only if the file was not
recorded before. -/
def register (includes : IncludeMap) (name : String) (isPartial : Bool) : IncludeMap :=
  if isPartial then
    if Mapping.contains includes name then includes else Mapping.insert includes name false
  else Mapping.insert includes name true

end IncludeMap

end DocFlatten
