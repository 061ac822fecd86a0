import DocFlatten.Config.Sharing
import DocFlatten.FileTree

/-! # Data files

Structured files that hold one value each. What a text spells is up to a library; here it is a
parameter. A directory of data files is read in the order of their names. An empty file, or one
that holds nothing but null, has no value of its own.
-/

namespace DocFlatten.Config

/-- Why a data file cannot be read. -/
inductive DataError where
  | missing (path : String)
  | file (e : FileError)
  | encoding (e : Text.Utf8Error)
  | malformed
  | number (e : Number.IntegerError)
  /-- Another error of the library. -/
  | other (message : String)
  deriving Repr, DecidableEq

/-- The wording of an error. -/
def DataError.message : DataError → String
  | .missing path => s!"File not found: {path}"
  | .file e => e.message
  | .encoding e => e.message
  | .malformed => "the file is malformed"
  | .number e => e.message
  | .other message => message

/-- How the text of a data file is read. -/
abbrev Parser := String → Except DataError Data

section

variable (parse : Parser)

/-- What a file's content spells. -/
def dataOfContent : Content → Except DataError Data
  | .data v => .ok { value := v }
  | .malformed => .error .malformed
  | content =>
    match FileTree.textOf content with
    | .ok s => parse s
    | .error e => .error (.encoding e)

/-- What the file at a path holds; null if it has no value of its own. -/
def readData (files : FileTree) (path : String) : Except DataError Data :=
  let path := Path.tidy path
  match files.existsAt path with
  | .error e => .error (.file e)
  | .ok false => .error (.missing path)
  | .ok true =>
    match files.content path with
    | .ok content => dataOfContent parse content
    | .error e => .error (.file e)

/-- What the file at a path holds, or another value if the file has none of its own. -/
def readDataOr (files : FileTree) (path : String) (fallback : Value) : Except DataError Data :=
  match readData parse files path with
  | .ok { value := .null, .. } => .ok { value := fallback }
  | result => result

/-- What the file at a path holds, or another value if the file is missing or malformed or has
none of its own. Text that cannot be decoded is still an error. -/
def readDataLeniently (files : FileTree) (path : String) (fallback : Value) :
    Except DataError Data :=
  match readDataOr parse files path fallback with
  | .error (.missing _) | .error (.file _) | .error .malformed => .ok { value := fallback }
  | result => result

end

/-- Whether a file's name is that of a data file. -/
def isDataName (name : String) : Bool :=
  let suffix := (Path.splitSuffix name).2
  suffix == ".yaml" || suffix == ".yml"

/-- The data files of a directory by name, in order, with their stamps. -/
def dataFiles (files : FileTree) (directory : String) : Except FileError (List (String × Nat)) :=
  match files.locate directory with
  | .ok place =>
    match files.node? place with
    | some .directory =>
      .ok <| (files.list place).filterMap fun entry =>
        match entry.2 with
        | .file _ stamp => if isDataName entry.1 then some (entry.1, stamp) else none
        | .closed false => if isDataName entry.1 then some (entry.1, 0) else none
        | _ => none
    | some (.closed true) => .error (.denied directory)
    | _ => .ok []
  | .error (.notFound _) | .error (.notDirectory _) => .ok []
  | .error e => .error e

end DocFlatten.Config
