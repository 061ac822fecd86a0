import DocFlatten.Path
import DocFlatten.Text.Lines
import DocFlatten.Text.Quoted
import DocFlatten.Text.Utf8
import DocFlatten.Value.Json

/-! # File trees

The files a run can see: directories, files with their contents, the null device, and what may
not be opened. Every write has its own stamp, so that a file that was written again can be told
from the old one. Nothing is found at a path that leads nowhere; but the system refuses to follow
a path that is too long or leads through a directory that may not be searched.
-/

namespace DocFlatten

open DocFlatten.Text

/-- What a file holds. -/
inductive Content where
  | text (s : String)
  | bytes (bs : List UInt8)
  /-- A structured file that reads as a value. -/
  | data (v : Value)
  /-- A structured file that cannot be read. -/
  | malformed
  deriving Inhabited

/-- An entry of a directory. -/
inductive FileNode where
  | file (content : Content) (stamp : Nat)
  | directory
  | device
  /-- A file that may not be read or written, or a directory that may not be searched. -/
  | closed (isDirectory : Bool)
  deriving Inhabited

/-- Whether an entry is a regular file. -/
def FileNode.isFile : FileNode → Bool
  | file _ _ | closed false => true
  | directory | device | closed true => false

/-- Whether an entry is a directory. -/
def FileNode.isDirectory : FileNode → Bool
  | directory | closed true => true
  | file _ _ | device | closed false => false

/-- All entries by their components from the root, and the directory that relative paths
start from. -/
structure FileTree where
  workingDir : List String
  entries : List (List String × FileNode)
  /-- The stamp of the next write. -/
  clock : Nat
  deriving Inhabited

/-- Why a file cannot be used. -/
inductive FileError where
  | notFound (path : String)
  | exists (path : String)
  | notDirectory (path : String)
  | isDirectory (path : String)
  | nameTooLong (path : String)
  | denied (path : String)
  deriving Repr, DecidableEq

namespace FileError

/-- The number that the operating system has for an error. -/
def number : FileError → Nat
  | .notFound _ => 2
  | .exists _ => 17
  | .notDirectory _ => 20
  | .isDirectory _ => 21
  | .nameTooLong _ => 36
  | .denied _ => 13

/-- The reason alone. -/
def reason : FileError → String
  | .notFound _ => "No such file or directory"
  | .exists _ => "File exists"
  | .notDirectory _ => "Not a directory"
  | .isDirectory _ => "Is a directory"
  | .nameTooLong _ => "File name too long"
  | .denied _ => "Permission denied"

/-- The path concerned. -/
def path : FileError → String
  | .notFound p | .exists p | .notDirectory p | .isDirectory p | .nameTooLong p | .denied p => p

/-- Number, reason and path. -/
def message (e : FileError) : String :=
  s!"[Errno {e.number}] {e.reason}: {quoted e.path}"

end FileError

/-- Why a file cannot be read as text. -/
inductive TextError where
  | file (e : FileError)
  | encoding (e : Utf8Error)
  deriving Repr, DecidableEq

/-- The wording of a reading error. -/
def TextError.message : TextError → String
  | .file e => e.message
  | .encoding e => e.message

namespace FileTree

/-- The entry at a place; the root is always a directory. -/
def node? (tree : FileTree) (place : List String) : Option FileNode :=
  if place.isEmpty then some .directory
  else (tree.entries.find? fun entry => entry.1 == place).map (·.2)

/-- How many bytes the name of an entry can have. -/
def nameLimit : Nat := 255

/-- How many bytes a path can have. -/
def pathLimit : Nat := 4095

/-- The place that one component leads to, whether there is anything or not. The step needs a
directory to start from that may be searched. -/
def step (tree : FileTree) (path : String) (place : List String) (part : String) :
    Except FileError (List String) :=
  match tree.node? place with
  | some .directory =>
    if nameLimit < byteLength part then .error (.nameTooLong path)
    -- the parent of the root is the root
    else .ok (if part == ".." then place.dropLast else place ++ [part])
  | some (.closed true) => .error (.denied path)
  | some _ => .error (.notDirectory path)
  | none => .error (.notFound path)

/-- Follow components from a place. The place that each step leads to must exist. -/
def follow (tree : FileTree) (path : String) :
    List String → List String → Except FileError (List String)
  | place, [] => .ok place
  | place, part :: rest =>
    match tree.step path place part with
    | .error e => .error e
    | .ok next =>
      if (tree.node? next).isSome then follow tree path next rest else .error (.notFound path)

/-- The place that a path leads to. -/
def locate (tree : FileTree) (path : String) : Except FileError (List String) :=
  if pathLimit < byteLength path then .error (.nameTooLong path)
  else follow tree path (if Path.isAbsolute path then [] else tree.workingDir)
    (Path.components path)

/-- Look up the entry that a path leads to; there is none if the path leads nowhere. No entry
has a zero in its name. -/
def stat (tree : FileTree) (path : String) : Except FileError (Option FileNode) :=
  if path.toList.contains '\x00' then .ok none
  else match tree.locate path with
  | .ok place => .ok (tree.node? place)
  | .error (.notFound _) | .error (.notDirectory _) => .ok none
  | .error e => .error e

/-- Whether a path leads anywhere. -/
def existsAt (tree : FileTree) (path : String) : Except FileError Bool :=
  (tree.stat path).map Option.isSome

/-- Whether a path leads to a regular file. -/
def isFile (tree : FileTree) (path : String) : Except FileError Bool :=
  (tree.stat path).map fun node => node.any (·.isFile)

/-- Whether a path leads to a directory. -/
def isDirectory (tree : FileTree) (path : String) : Except FileError Bool :=
  (tree.stat path).map fun node => node.any (·.isDirectory)

/-- The text of a content, with uniform line ends. A structured file has no text that
matters. -/
def textOf : Content → Except Utf8Error String
  | .text s => .ok (String.ofList (uniformLineEnds s.toList))
  | .bytes bs => (decodeUtf8 bs).map fun s => String.ofList (uniformLineEnds s.toList)
  | .data _ | .malformed => .ok ""

/-- The content of the file at a path. The device is empty. -/
def content (tree : FileTree) (path : String) : Except FileError Content :=
  match tree.locate path with
  | .error e => .error e
  | .ok place =>
    match tree.node? place with
    | some (.file c _) => .ok c
    | some .device => .ok (.text "")
    | some .directory => .error (.isDirectory path)
    | some (.closed _) => .error (.denied path)
    | none => .error (.notFound path)

/-- The text of the file at a path. -/
def readText (tree : FileTree) (path : String) : Except TextError String :=
  match tree.content path with
  | .error e => .error (.file e)
  | .ok c =>
    match textOf c with
    | .ok s => .ok s
    | .error e => .error (.encoding e)

/-! ## Changes -/

/-- Set the entry at a place. -/
def setNode (tree : FileTree) (place : List String) (node : FileNode) : FileTree :=
  { tree with
    entries := (tree.entries.filter fun entry => entry.1 != place) ++ [(place, node)] }

/-- Add a file whatever is there, with the directories above it. -/
def addFile (tree : FileTree) (place : List String) (c : Content) : FileTree :=
  let above := (List.range place.length).filterMap fun n =>
    let dir := place.take n
    if n == 0 || (tree.node? dir).isSome then none else some (dir, FileNode.directory)
  let tree := { tree with entries := tree.entries ++ above }
  { tree.setNode place (.file c tree.clock) with clock := tree.clock + 1 }

/-- Add a directory with the directories above it. -/
def addDirectory (tree : FileTree) (place : List String) : FileTree :=
  let missing := (List.range (place.length + 1)).filterMap fun n =>
    let dir := place.take n
    if n == 0 || (tree.node? dir).isSome then none else some (dir, FileNode.directory)
  { tree with entries := tree.entries ++ missing }

/-- Make one directory; everything above it must be there. `parts` are the components from
the start of the path, the last one first. -/
def makeDirectory (tree : FileTree) (path : String) (start : List String) :
    List String → Except FileError FileTree
  | [] => .error (.exists path)
  | part :: above => do
    if pathLimit < byteLength path then throw (.nameTooLong path)
    let next ← tree.step path (← tree.follow path start above.reverse) part
    if (tree.node? next).isSome then throw (.exists path)
    return tree.setNode next .directory

/-- Make one directory. One that is there already is no error; what is missing above it is. -/
def ensureDirectory (tree : FileTree) (path : String) (start parts : List String) :
    Except FileError FileTree :=
  match tree.makeDirectory path start parts with
  | .error (.notFound p) => .error (.notFound p)
  -- a directory that is there already is what was asked for
  | .error e =>
    match tree.follow path start parts.reverse with
    | .ok place => if (tree.node? place).any (·.isDirectory) then .ok tree else .error e
    | .error _ => .error e
  | .ok tree => .ok tree

/-- Make a directory and those above it that are missing. -/
def makeDirectories (tree : FileTree) (path : String) (start : List String) :
    List String → Except FileError FileTree
  | [] => .ok tree
  | part :: above =>
    match tree.ensureDirectory path start (part :: above) with
    | .error (.notFound _) =>
      -- what is above is made first
      match makeDirectories tree path start above with
      | .error e => .error e
      | .ok tree => tree.ensureDirectory path start (part :: above)
    | result => result

/-- Where the components of a path start. -/
def startOf (tree : FileTree) (path : String) : List String :=
  if Path.isAbsolute path then [] else tree.workingDir

/-- Write a text to the file at a path, whose directory must be there. What is written to
the device is lost. -/
def writeText (tree : FileTree) (path : String) (s : String) : Except FileError FileTree :=
  match (Path.components path).reverse with
  | [] => .error (.isDirectory path)
  | part :: above => do
    if pathLimit < byteLength path then throw (.nameTooLong path)
    let next ← tree.step path (← tree.follow path (tree.startOf path) above.reverse) part
    match tree.node? next with
    | some .directory => throw (.isDirectory path)
    | some .device => return tree
    | some (.closed _) => throw (.denied path)
    | some (.file _ _) | none =>
      return { tree.setNode next (.file (.text s) tree.clock) with clock := tree.clock + 1 }

/-- Write a text to the file at a path, and make the directories above it that are missing. -/
def writeWithParents (tree : FileTree) (path : String) (s : String) :
    Except FileError FileTree := do
  let dir := Path.parent path
  let tree ← tree.makeDirectories dir (tree.startOf path) (Path.components dir).reverse
  tree.writeText path s

/-- The names in a directory, in order, with their entries. -/
def list (tree : FileTree) (place : List String) : List (String × FileNode) :=
  (tree.entries.filterMap fun entry =>
    match Path.below? place entry.1 with
    | some [name] => some (name, entry.2)
    | _ => none).mergeSort fun a b => a.1 ≤ b.1

end FileTree

end DocFlatten
