import DocFlatten.Command

/-! # The program

Reads what a command can see, carries the command out, and writes what it leaves behind. A
command sees the files below the working directory and below the directories of the paths
that its words name, except hidden directories that hold no configuration. What becomes of
them is decided elsewhere: this module only reads and writes.

The program has no library for YAML. It reads data files in flow style (`Config.Flow`) and takes
all others for malformed.
-/

namespace DocFlatten.Main

open DocFlatten.CommandLine DocFlatten.Text

/-! ## What a command sees -/

/-- Directories that hold no documents. -/
def systemDirs : List String := ["/dev", "/proc", "/sys"]

/-- The place of the bundled data, below a directory that is never read. -/
def dataDir : List String := ["proc", "adoc-reducer"]

/-- Bytes as the content of a file. -/
def contentOf (bytes : ByteArray) : Content :=
  match String.fromUTF8? bytes with
  | some s => .text s
  | none => .bytes bytes.toList

/-- Whether a directory is read. -/
def isRead (path name : String) : Bool :=
  (!name.startsWith "." || name == ".adoc-reducer") && !systemDirs.contains path

/-- A tree with everything that is below a directory. What cannot be read is left out, and so
are links to directories. -/
partial def readDirectory (tree : FileTree) (dir : String) : IO FileTree := do
  let mut tree := tree.addDirectory (Path.components dir)
  for entry in ← (← IO.FS.realPath dir).readDir do
    let path := Path.join dir entry.fileName
    try
      match (← entry.path.metadata).type with
      | .dir =>
        if isRead path entry.fileName && (← IO.FS.realPath path).toString == path then
          tree ← readDirectory tree path
      | .file =>
        tree := tree.addFile (Path.components path) (contentOf (← IO.FS.readBinFile path))
      | _ => pure ()
    catch _ => pure ()
  return tree

/-- A tree with the directory of a path: the path itself, or what it lies in. -/
def readAround (workingDir : List String) (tree : FileTree) (path : String) : IO FileTree := do
  let place := Path.resolveParts workingDir path
  if (tree.node? place).isSome then return tree
  try
    match (← (← IO.FS.realPath path).metadata).type with
    | .dir => readDirectory tree (Path.ofParts place)
    | _ => readDirectory tree (Path.ofParts place.dropLast)
  catch _ => return tree

/-- The files that an invocation sees. -/
def readFiles (workingDir : List String) (paths : List String) : IO FileTree := do
  let empty : FileTree := { workingDir, entries := [], clock := 0 }
  let tree := (empty.addDirectory ["dev"]).setNode ["dev", "null"] .device
  let tree ← readDirectory tree (Path.ofParts workingDir)
  paths.foldlM (readAround workingDir) (Config.install dataDir tree)

/-- The variables in a block that ends each of them with a zero. -/
def variablesOf (block : String) : Mapping String :=
  (splitAt (· == '\x00') block).filterMap fun entry =>
    match cut '=' entry with
    | (name, some value) => some (name, value)
    | (_, none) => none

/-- The variables of the environment. -/
def readEnvironment : IO (Mapping String) := do
  try return variablesOf (← IO.FS.readFile "/proc/self/environ") catch _ => return []

/-- The home directory that a line of the user database gives, with the user's name. -/
def homeOf? (line : String) : Option (String × String) :=
  match splitAt (· == ':') line with
  | [name, _, _, _, _, home, _] => some (name, home)
  | _ => none

/-- The home directories of users, and of the one who runs the program. -/
def readHomes (environment : Mapping String) : IO Path.Homes := do
  let users ← try pure (lines (← IO.FS.readFile "/etc/passwd")) catch _ => pure []
  let homes := users.filterMap homeOf?
  return fun name =>
    let home := if name == "" then Mapping.get? environment "HOME" else Mapping.get? homes name
    (home.map fun home => if home == "" then "/" else home).filter (!·.startsWith "~")

/-- Everything in a stream. -/
partial def readStream (stream : IO.FS.Stream) (bytes : ByteArray) : IO ByteArray := do
  let more ← stream.read 65536
  if more.isEmpty then return bytes else readStream stream (bytes ++ more)

/-- What an invocation sees. -/
def lookAround (args : List String) : IO Command.Surroundings := do
  let workingDir := Path.components (← IO.currentDir).toString
  let (paths, readsInput) := match Invocation.read args with
    | .ok invocation => (invocation.sources, invocation.readsInput)
    | .error _ => ([], false)
  let environment ← readEnvironment
  let host : Host := { homes := ← readHomes environment }
  let bytes ← if readsInput then readStream (← IO.getStdin) ByteArray.empty
    else pure ByteArray.empty
  let files ← readFiles workingDir paths
  if readable : Command.isReadable host environment = true then
    return {
      files, environment, dataDir := Path.ofParts dataDir
      input := decodeUtf8 bytes.toList, host, readable }
  else throw (.userError "a variable cannot be read")

/-! ## What a command leaves behind -/

/-- Write the files that are newer than a stamp. -/
def writeFiles (tree : FileTree) (stamp : Nat) : IO Unit := do
  for (place, node) in tree.entries do
    match node with
    | .file (.text s) written =>
      if stamp ≤ written then
        IO.FS.createDirAll (Path.ofParts place.dropLast)
        IO.FS.writeFile (Path.ofParts place) s
    | _ => pure ()

/-- Write what a command leaves behind, and tell its status. -/
def conclude (stamp : Nat) (outcome : Command.Outcome) : IO UInt32 := do
  writeFiles outcome.files stamp
  let stdout ← IO.getStdout
  let stderr ← IO.getStderr
  stdout.putStr outcome.output
  stdout.flush
  stderr.putStr outcome.errors
  match outcome.status with
  | .ok status => return status.toUInt32
  | .error crash =>
    stderr.putStr (Command.Outcome.complaint crash.message)
    return 1

end DocFlatten.Main

/-- Run the program on the words of its command line. -/
def main (args : List String) : IO UInt32 := do
  let surroundings ← DocFlatten.Main.lookAround args
  DocFlatten.Main.conclude surroundings.files.clock
    (DocFlatten.Command.run DocFlatten.amplyFuel surroundings args)
