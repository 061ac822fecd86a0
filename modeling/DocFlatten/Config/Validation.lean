import DocFlatten.Config.Bundle
import DocFlatten.Config.Libraries
import DocFlatten.Text.LetterCase

/-! # Validation

Checking a value against a schema that is named by its file under the data directory.
-/

namespace DocFlatten.Config

/-- Why a value does not pass a schema. -/
inductive ValidationError where
  /-- The schema cannot be read. -/
  | data (e : DataError)
  /-- The schema is no mapping. -/
  | notMapping (typeName : String)
  | violated (schemaName : String) (v : Violation)
  deriving Repr, DecidableEq

/-- The wording of an error. -/
def ValidationError.message : ValidationError → String
  | .data e => e.message
  | .notMapping name => s!"Schema must be a YAML mapping, got {name}"
  | .violated name v =>
    s!"Validation failed against schema '{name}' at {v.place}: {v.message}"

/-- The file name that a schema name means: it may leave out the extension. -/
def schemaFile (name : String) : String :=
  let small := Text.lower name
  if small.endsWith ".yaml" || small.endsWith ".yml" then name else name ++ ".yaml"

/-- The schema with a name. -/
def loadSchema (parse : Parser) (files : FileTree) (dataDir name : String) :
    Except ValidationError Value :=
  match readData parse files (Path.join (Path.join dataDir "schemas") (schemaFile name)) with
  | .error e => .error (.data e)
  | .ok { value := .mapping rules, .. } => .ok (.mapping rules)
  | .ok data => .error (.notMapping data.value.typeName)

/-- Check a value against the schema with a name. -/
def validate (libraries : Libraries) (files : FileTree) (dataDir : String) (v : Value)
    (name : String) : Except ValidationError Unit := do
  let schema ← loadSchema libraries.parse files dataDir name
  match libraries.violation? schema v with
  | some violation => .error (.violated name violation)
  | none => .ok ()

end DocFlatten.Config
