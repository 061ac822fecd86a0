import DocFlatten.Document.Load
import DocFlatten.Replacement.Replay
import DocFlatten.Replacement.Tracker

/-! # Reduction

A document is reduced in three steps: it is loaded while a tracker follows the reading, the
tracker's tree is replayed over the source, and the reduced lines are put into a document.
The reduced document can end with its include map.
-/

namespace DocFlatten

open DocFlatten.Replacement

/-- What a reduction is asked for beyond loading. -/
structure ReduceOptions where
  /-- Keep conditional directives as they are. -/
  preserveConditionals : Bool := false
  /-- End the reduced document with a list of what it absorbed. -/
  includeMap : Bool := false

namespace Document

/-- A document with other source lines; its blocks stay. -/
def withSourceLines (d : Document) (lines : List String) : Document :=
  { d with sourceLines := lines }

/-- End the source with the include map; says whether there was anything to list. -/
def appendIncludeMap (d : Document) : Bool × Document :=
  if d.includes.isEmpty then (false, d)
  else (true, d.withSourceLines (d.sourceLines ++ ["", IncludeMap.format d.includes]))

/-- Take over the includes that the include map at the end of the source lists. -/
def loadIncludeMap (d : Document) : Document :=
  { d with includes := Mapping.insertAll d.includes (IncludeMap.read d.sourceLines) }

end Document

/-- A document whose source is the reduced lines. If positions of blocks were asked for and
the source has changed, the lines are loaded anew, so that every block is located in them;
otherwise the blocks of the first reading stay. -/
def rebuild (fuel : Nat) (files : FileTree) (d : Document) (lines : List String)
    (changed : Bool) : Except LoadError (Logged Document) :=
  if d.options.sourcemap && changed then
    let record := Log.debug .rebuilding "Reloading reduced document for source mapping"
    match Session.load fuel files (.lines lines) { d.reloadOptions with reduced := true } with
    | .error e => .error (e.mapJournal (.ofRecords [record] ++ ·))
    | .ok s =>
      .ok { value := { s.doc with includes := d.includes }, log := record :: s.journal.records }
  else .ok { value := d.withSourceLines lines, log := [] }

/-- A reading played back over the source of its document. -/
structure Played where
  /-- The reduced lines. -/
  lines : List String
  /-- Whether anything was recorded. -/
  changed : Bool
  /-- How deeply the lines were nested before they were flattened. -/
  depth : Nat
  log : List Log.Record

/-- Play back what a tracker records of a reading that has ended. -/
def playBack (o : ReduceOptions) (s : Session) : Played :=
  let (tracker, readLog) := (Tracker.start o.preserveConditionals).follow s.journal
  let tracker := tracker.finish s.doc.sourceLines.length
  let replayed := replay tracker.tree s.doc.sourceLines
  { lines := replayed.lines
    changed := !tracker.tree.isTrivial
    depth := depthAll replayed.tree.root.lines
    log := readLog ++
      Log.debug .reduction s!"Replaying {tracker.tree.size} tracked scope(s)" :: replayed.log }

/-- Finish a reduction after the document was read. -/
def finishReduction (fuel : Nat) (o : ReduceOptions) (s : Session) :
    Except LoadError (Logged Document) :=
  let played := playBack o s
  match rebuild fuel s.files s.doc played.lines played.changed with
  | .error e => .error (e.mapJournal (.ofRecords played.log ++ ·))
  | .ok rebuilt =>
    .ok {
      value := if o.includeMap then rebuilt.value.appendIncludeMap.2 else rebuilt.value
      log := played.log ++ rebuilt.log }

/-- Read a document that is to be reduced. If reading stops, the tracker has followed it until
then. -/
def readToReduce (fuel : Nat) (files : FileTree) (source : Source) (load : LoadOptions)
    (o : ReduceOptions) : Except LoadError Session :=
  (Session.load fuel files source load).mapError fun e =>
    e.mapJournal fun journal =>
      .ofRecords ((Tracker.start o.preserveConditionals).follow journal).2

/-- Reduce a document given by its source. -/
def reduce (fuel : Nat) (files : FileTree) (source : Source) (load : LoadOptions)
    (o : ReduceOptions) : Except LoadError (Logged Document) :=
  readToReduce fuel files source load o >>= finishReduction fuel o

end DocFlatten
