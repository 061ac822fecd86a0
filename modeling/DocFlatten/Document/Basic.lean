import DocFlatten.Attribute.Given
import DocFlatten.Attribute.Reference
import DocFlatten.FileTree
import DocFlatten.IncludeMap
import DocFlatten.Reader
import DocFlatten.SafeMode

/-! # Documents

A document is read line by line while its attributes change. This module has what a document
consists of, how it starts out and what can be asked of it; reading is elsewhere.
-/

namespace DocFlatten

/-- A structural element: a section title, a paragraph or a delimited block. -/
structure Block where
  context : String
  lines : List String
  /-- Where the block starts; only recorded if asked for. -/
  location : Option Cursor
  /-- The level of a section. -/
  level : Option Nat
  deriving Repr, DecidableEq

/-- The lines of a block as one text. -/
def Block.source (b : Block) : String :=
  Text.unlines b.lines

/-! ## Include processors -/

/-- What an include processor does to the reading. -/
inductive Action where
  /-- Enter a scope with the given content. -/
  | enter (content : Source) (file path : Option String) (lineno : Int) (attributes : Attributes)
  /-- Leave the current scope. -/
  | leave
  /-- Set an attribute, or unset it. -/
  | setAttribute (name : String) (value : Option String)
  /-- Read a line and forget it. -/
  | readLine

/-- A processor takes over the include directives whose targets it handles. -/
structure Processor where
  handles : String → Bool
  /-- What to do for a target with the attributes of its directive. -/
  actions : String → Attributes → List Action

/-! ## Documents -/

/-- How a caller wants a document to be read. Home directories have been put into the paths
(`LoadOptions.expand`), so a tilde stands for nothing there. -/
structure LoadOptions where
  attributes : Attribute.Given := .nothing
  /-- The safe mode, by name or number. -/
  safe : Value := .null
  /-- The directory that include targets of the root document start from. -/
  baseDir : Option String := none
  /-- The file that the document comes from. -/
  docfile : Option String := none
  /-- Whether blocks record where they start. -/
  sourcemap : Bool := false
  processors : List Processor := []
  /-- Whether the document is the result of a reduction. -/
  reduced : Bool := false

/-- The options of a document, with all that follows from them settled. -/
structure Options where
  settings : Attribute.Settings
  safe : SafeMode
  baseDir : String
  docfile : Option String
  sourcemap : Bool
  processors : List Processor
  reduced : Bool

/-- A document in the course of reading. -/
structure Document where
  options : Options
  attributes : Attributes
  /-- The attributes that the document cannot change. -/
  locked : List String
  sourceLines : List String
  reader : Reader
  /-- The files that were included. -/
  includes : IncludeMap
  title : Option String
  headerAttributes : Mapping (Option String)
  blocks : List Block
  parsed : Bool

namespace Document

/-- The attributes of every document. -/
def defaultAttributes : Attributes := [
  ("attribute-missing", "skip"), ("attribute-undefined", "drop-line"), ("backend", "html5"),
  ("basebackend", "html"), ("doctype", "article"), ("filetype", "html"),
  ("max-include-depth", "64")]

/-- The attributes that tell the safe mode. -/
def safeAttributes (mode : SafeMode) : Attributes := [
  ("safe-mode-name", mode.lowerName), ("safe-mode-level", toString mode.level)]

/-- The attributes that tell the document's file; from the server mode on its place is
hidden. -/
def docfileAttributes (mode : SafeMode) (docfile : String) : Attributes :=
  let name := Path.name docfile
  let (stem, suffix) := Path.splitSuffix name
  let hidden := mode.level ≥ SafeMode.server.level
  [("docname", stem), ("docfilesuffix", suffix),
   ("docfile", if hidden then name else docfile),
   ("docdir", if hidden then "" else Path.parent docfile)]

/-- Whether a setting may be changed by the document. -/
def isSoft (value : String) : Bool :=
  value.endsWith "@"

/-- Apply one setting of the caller to the attributes and the locked names. -/
def applySetting (state : Attributes × List String) (name : String) (setting : Option String) :
    Attributes × List String :=
  match setting with
  | none => (Mapping.erase state.1 name, name :: state.2)
  | some value =>
    if isSoft value then
      (Mapping.insert state.1 name (String.ofList value.toList.dropLast), state.2)
    else (Mapping.insert state.1 name value, name :: state.2)

/-- Apply the caller's settings in order. -/
def applySettings (attributes : Attributes) (settings : Attribute.Settings) :
    Attributes × List String :=
  settings.foldl (fun state entry => applySetting state entry.1 entry.2) (attributes, [])

/-- The directory that a document's includes start from: the one asked for, otherwise that
of its file, otherwise the working directory. -/
def baseDirOf (workingDir : List String) (baseDir docfile : Option String) : String :=
  match baseDir, docfile with
  | some dir, _ => Path.resolve workingDir dir
  | none, some file => Path.parent file
  | none, none => Path.ofParts workingDir

/-- A document in a safe mode, before anything is read. -/
def initial (workingDir : List String) (source : Source) (o : LoadOptions) (mode : SafeMode) :
    Document :=
  let docfile := (o.docfile.filter (· != "")).map (Path.resolve workingDir)
  let baseDir := baseDirOf workingDir o.baseDir docfile
  let settings := o.attributes.settings
  let own := match docfile with
    | some file => docfileAttributes mode file
    | none => []
  let (attributes, locked) :=
    applySettings (defaultAttributes ++ safeAttributes mode ++ own) settings
  let lines := source.prepare
  { options := {
      settings, safe := mode, baseDir, docfile, sourcemap := o.sourcemap
      processors := o.processors, reduced := o.reduced }
    attributes, locked
    sourceLines := lines
    reader := Reader.start lines docfile baseDir ((docfile.map Path.name).getD "<stdin>")
    includes := [], title := none, headerAttributes := [], blocks := [], parsed := false }

/-- A document before anything is read, unless its options name no safe mode. -/
def create (workingDir : List String) (source : Source) (o : LoadOptions) :
    Except SafeMode.ReadError Document := do
  let mode ← SafeMode.ofValue o.safe
  return initial workingDir source o mode

/-- Whether the caller's setting of an attribute stands against the document. -/
def isLocked (d : Document) (name : String) : Bool :=
  d.locked.contains name

/-- Set an attribute, or unset it, as the document asks; nothing happens if it is locked. -/
def setAttribute (d : Document) (name : String) (value : Option String) : Document :=
  if d.isLocked name then d
  else match value with
    | none => { d with attributes := Mapping.erase d.attributes name }
    | some value => { d with attributes := Mapping.insert d.attributes name value }

/-- The source as one text. -/
def source (d : Document) : String :=
  Text.unlines d.sourceLines

/-- A path as seen from the base directory, if it lies below; otherwise as it is. -/
def relativePath (workingDir : List String) (d : Document) (path : String) : String :=
  match Path.below? (Path.resolveParts workingDir d.options.baseDir)
      (Path.resolveParts workingDir path) with
  | some parts => Path.build "" parts
  | none => path

/-- Record an included file under its path without extension. -/
def registerInclude (d : Document) (path : String) (isPartial : Bool) : Document :=
  { d with includes := d.includes.register (Path.withoutExtension path) isPartial }

/-- The blocks of a context, or of any, whose source holds a text. -/
def findBlocks (d : Document) (context part : Option String) : List Block :=
  d.blocks.filter fun block =>
    (match context with
      | some c => block.context == c
      | none => true) &&
    (match part with
      | some p => Text.occursIn p.toList block.source.toList
      | none => true)

/-- The settings of a caller, as they are given anew. -/
def givenAgain (settings : Attribute.Settings) : Attribute.Given :=
  .mapping <| settings.map fun entry =>
    (entry.1, match entry.2 with
      | some value => .text value
      | none => .null)

/-- The options that load the same document from other lines. -/
def reloadOptions (d : Document) : LoadOptions :=
  { attributes := givenAgain d.options.settings
    safe := .int d.options.safe.level
    baseDir := some d.options.baseDir
    docfile := d.options.docfile
    sourcemap := d.options.sourcemap
    processors := d.options.processors }

end Document

end DocFlatten
