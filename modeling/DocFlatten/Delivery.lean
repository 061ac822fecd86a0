import DocFlatten.Failure
import DocFlatten.Reduction

/-! # Delivery

Reducing a document from wherever it is to wherever its source shall go: texts, files and
streams on both sides. A file is written with the directories above it, and its text ends
with a line feed unless it is empty.
-/

namespace DocFlatten

/-- What the machine that the program runs on has besides files. -/
structure Host where
  /-- The home directories that a tilde in front of a path stands for. -/
  homes : Path.Homes := fun _ => none
  /-- How many calls a recursion can have open at once. -/
  stack : Nat := 980

/-- Where a document comes from. -/
inductive Input where
  | text (s : String)
  | file (path : String)
  /-- An open text; if its name is that of a file, the document comes from that file. -/
  | stream (s : String) (name : Option String)
  /-- A value that is no document. -/
  | unsupported (typeName : String)

/-- Where the reduced source goes. -/
inductive Target where
  | nowhere
  /-- The source is asked for as a text. -/
  | text
  | file (path : String)
  | stream
  /-- A value that takes no text. -/
  | unsupported (typeName : String)

/-- The path that stands for nowhere. -/
def nullPath : String := "/dev/null"

/-- The target that a path means. -/
def Target.ofPath (path : String) : Target :=
  if path == nullPath then .nowhere else .file path

/-- Why a document is not delivered. -/
inductive DeliveryError where
  | load (e : LoadError)
  /-- The system refuses to look up the input file. -/
  | system (e : FileError)
  /-- Includes are nested too deeply for the stack; what was logged until then. -/
  | recursion (log : List Log.Record)
  | failure (f : Failure)
  | unsupportedInput (typeName : String)
  | unsupportedTarget (typeName : String)

/-- The wording of an error. -/
def DeliveryError.message : DeliveryError → String
  | .load e => e.message
  | .system e => e.message
  | .recursion _ => "maximum recursion depth exceeded"
  | .failure f => f.message
  | .unsupportedInput name => s!"Cannot reduce input of type {name}"
  | .unsupportedTarget name => s!"Cannot write reduced document to {name}"

/-- What was logged before an error. -/
def DeliveryError.log : DeliveryError → List Log.Record
  | .load e => e.log
  | .recursion log => log
  | _ => []

/-- A delivered document. -/
structure Delivered where
  document : Document
  files : FileTree
  /-- What the target stream got. -/
  written : Option String

/-- The text that a target gets: the source, ended by a line feed unless it is empty. -/
def Document.output (d : Document) : String :=
  if d.source == "" then "" else d.source ++ "\n"

/-- Bring a document to its target. -/
def Document.deliver (d : Document) (files : FileTree) :
    Target → Except DeliveryError (Logged Delivered)
  | .nowhere | .text => .ok { value := { document := d, files, written := none }, log := [] }
  | .file path =>
    let path := Path.tidy path
    match files.writeWithParents path d.output with
    | .error e =>
      .error (.failure (.ofPath .output path s!"cannot write {path}: {e.reason}"))
    | .ok files =>
      .ok {
        value := { document := d, files, written := none }
        log := [Log.debug .delivery s!"Wrote reduced document to {path}"] }
  | .stream => .ok { value := { document := d, files, written := some d.output }, log := [] }
  | .unsupported name => .error (.unsupportedTarget name)

/-- Reduce a document given by its text, with the paths of the options as a caller gives them.
Playing back is a recursion over nested includes, which takes a stack. -/
def reduceText (fuel : Nat) (host : Host) (files : FileTree) (s : String) (load : LoadOptions)
    (o : ReduceOptions) : Except DeliveryError (Logged Document) := do
  let load ← (load.expand host.homes).mapError .load
  let read ← (readToReduce fuel files (.text s) load o).mapError .load
  let played := playBack o read
  if host.stack < played.depth then throw (.recursion played.log)
  (finishReduction fuel o read).mapError .load

/-- Reduce a document that comes from somewhere. Unless the options name another one, a file is
the document's file. -/
def Input.reduce (fuel : Nat) (host : Host) (files : FileTree) (load : LoadOptions)
    (o : ReduceOptions) : Input → Except DeliveryError (Logged Document)
  | .text s => reduceText fuel host files s load o
  | .file path =>
    let path := Path.tidy path
    match files.isFile path with
    | .error e => .error (.system e)
    | .ok false => .error (.failure (.ofPath .inputNotFound path s!"input file {path} is missing"))
    | .ok true =>
      match files.readText path with
      | .error e => .error (.load (.file e))
      | .ok s => reduceText fuel host files s { load with docfile := load.docfile <|> some path } o
  | .stream s name =>
    let isFile (name : String) : Bool :=
      match files.isFile name with
      | .ok found => found
      | .error _ => false
    let docfile := (name.filter isFile) <|> load.docfile
    reduceText fuel host files s { load with docfile } o
  | .unsupported name => .error (.unsupportedInput name)

/-- Reduce a document and bring it to its target. What was logged is kept if that fails. -/
def deliver (fuel : Nat) (host : Host) (files : FileTree) (input : Input) (load : LoadOptions)
    (o : ReduceOptions) (target : Target) : Logged (Except DeliveryError Delivered) :=
  match input.reduce fuel host files load o with
  | .error e => { value := .error e, log := e.log }
  | .ok reduced =>
    match reduced.value.deliver files target with
    | .error e => { value := .error e, log := reduced.log }
    | .ok delivered => { value := .ok delivered.value, log := reduced.log ++ delivered.log }

end DocFlatten
