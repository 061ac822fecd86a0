import DocFlatten.Document.Scan

/-! # Loading documents

A document is made from its source, or from a file, and scanned unless the caller wants to
read it line by line.
-/

namespace DocFlatten

/-- Why a document cannot be loaded. -/
inductive LoadError where
  | safeMode (e : SafeMode.ReadError)
  /-- The home directory is not known that a path starts from. -/
  | home
  | file (e : TextError)
  /-- Reading did not end within the bound. -/
  | endless
  /-- The system refused to look up the file of an include; what was noted until then. -/
  | refused (e : FileError) (journal : Journal)

/-- The wording of an error. -/
def LoadError.message : LoadError → String
  | .safeMode e => e.message
  | .home => Path.homeMessage
  | .file e => e.message
  | .endless => "reading does not end"
  | .refused e _ => e.message

/-- The error of a reading that stopped. -/
def LoadError.ofHalt : Session.Halt → LoadError
  | .endless => .endless
  | .refused e s => .refused e s.journal

/-- What was logged before an error. -/
def LoadError.log : LoadError → List Log.Record
  | .refused _ journal => journal.records
  | _ => []

/-- Change what was noted until a refusal. -/
def LoadError.mapJournal (f : Journal → Journal) : LoadError → LoadError
  | .refused e journal => .refused e (f journal)
  | e => e

/-- A bound on the looks of one reading that no document meets in practice. -/
def amplyFuel : Nat := Nat.pow 2 40

/-- Put the home directory into a path of a caller. -/
def expandPath (homes : Path.Homes) : Option String → Except LoadError (Option String)
  | none => .ok none
  | some path =>
    match Path.expand? homes path with
    | some path => .ok (some path)
    | none => .error .home

/-- Options with the home directories put into their paths. -/
def LoadOptions.expand (homes : Path.Homes) (o : LoadOptions) : Except LoadError LoadOptions := do
  let _ ← (SafeMode.ofValue o.safe).mapError .safeMode
  let docfile ← expandPath homes o.docfile
  let baseDir ← expandPath homes o.baseDir
  return { o with docfile, baseDir }

namespace Session

/-- A session on a new document, before anything is read. -/
def openSource (files : FileTree) (source : Source) (o : LoadOptions) :
    Except LoadError Session :=
  match Document.create files.workingDir source o with
  | .ok doc => .ok (start files doc)
  | .error e => .error (.safeMode e)

/-- A session on the document in a file. Unless the options name another one, this is the
document's file. -/
def openFile (files : FileTree) (path : String) (o : LoadOptions) : Except LoadError Session :=
  match files.readText (Path.tidy path) with
  | .error e => .error (.file e)
  | .ok text =>
    openSource files (.text text) { o with docfile := o.docfile <|> some (Path.tidy path) }

/-- Scan the blocks of the document. -/
def scan (fuel : Nat) (s : Session) : Except LoadError Session :=
  match Scan.document fuel s with
  | .ok ((), s) => .ok s
  | .error halt => .error (.ofHalt halt)

/-- Load a document from its source. -/
def load (fuel : Nat) (files : FileTree) (source : Source) (o : LoadOptions) :
    Except LoadError Session :=
  openSource files source o >>= scan fuel

/-- Load the document in a file. -/
def loadFile (fuel : Nat) (files : FileTree) (path : String) (o : LoadOptions) :
    Except LoadError Session :=
  openFile files path o >>= scan fuel

end Session

end DocFlatten
