import DocFlatten.Command.Outcome

/-! # The includes command

Lists the includes that a reduced document records in its include map.
-/

namespace DocFlatten.Command

/-- An include map as JSON, with the file that it was found in. -/
def includesJson (path : String) (map : IncludeMap) : String :=
  Json.render (.mapping [("file", .text path),
    ("includes", .mapping (map.map fun entry => (entry.1, .bool entry.2)))]) ++ "\n"

/-- An include map as text: a line for each include. -/
def includesText (map : IncludeMap) : String :=
  if map.isEmpty then "No include map found\n"
  else String.join (map.map fun entry =>
    entry.1 ++ "\t" ++ (if entry.2 then "full" else "partial") ++ "\n")

/-- List the include map of a file. -/
def includes (w : Surroundings) (file : String) (json : Bool) : Outcome :=
  let path := Path.tidy file
  match w.files.isFile path with
  | .error e => .failed w.files e.message
  | .ok false =>
    .reported w.files json "includes_error" s!"input file {path} is missing" (some [])
  | .ok true =>
    match w.files.readText path with
    | .error (.file e) => .failed w.files e.message
    | .error (.encoding e) => .crashed w.files (.text (.encoding e))
    | .ok s =>
      let map := IncludeMap.read (Text.lines s)
      .done w.files (if json then includesJson path map else includesText map)

end DocFlatten.Command
