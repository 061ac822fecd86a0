import DocFlatten.Document.LineShape
import DocFlatten.Session

/-! # Scanning blocks

A document is scanned into a header and a flat list of blocks. Lines come from the reader, so
an attribute entry takes effect before the lines after it are looked at. All loops are bounded
by `fuel`; a scan stops only if that is not enough, or if reading stops.
-/

namespace DocFlatten.Scan

/-- A step of a scan, which stops where reading stops. -/
abbrev Step (α : Type) := StateT Session (Except Session.Halt) α

/-- The next line, left in front. -/
def peek (fuel : Nat) : Step (Option String) := fun s => s.peekLine fuel

/-- The next line, taken. -/
def take (fuel : Nat) : Step (Option String) := fun s => s.readLine fuel

/-- Change the document. -/
def modifyDocument (f : Document → Document) : Step Unit :=
  modify fun s => { s with doc := f s.doc }

/-- Where the next line is. -/
def cursor : Step Cursor :=
  return (← get).reader.cursor

/-- Where the next line is, if blocks are to record it. -/
def location : Step (Option Cursor) := do
  let s ← get
  return if s.doc.options.sourcemap then some s.reader.cursor else none

/-- Apply an attribute entry; references in its value are replaced first. Says whether the
entry had an effect. -/
def applyEntry (entry : Attribute.Entry) : Step Bool := do
  let s ← get
  let attributes := s.doc.attributes
  let value ← match entry with
    | .unset _ => pure none
    | .set _ value => do
      let mode := Attribute.Missing.ofAttributes attributes
      modify fun s => s.logAll (Attribute.substituteLog mode attributes value)
      pure (some ((Attribute.substitute? mode attributes value).getD ""))
  -- an attribute that the caller has locked keeps its value
  modifyDocument fun d => d.setAttribute entry.name value
  return !s.doc.isLocked entry.name

/-! ## The header -/

/-- The first line that is neither blank nor a comment; those before it are taken. -/
def skipToContent : (fuel : Nat) → Step (Option String)
  | 0 => throw .endless
  | fuel + 1 => do
    match ← peek (fuel + 1) with
    | none => return none
    | some line =>
      if line == "" || LineShape.isComment line then
        let _ ← take (fuel + 1)
        skipToContent fuel
      else return some line

/-- Record in the header what an entry set. -/
def recordHeader (entry : Attribute.Entry) : Step Unit :=
  modifyDocument fun d =>
    let value := match entry with
      | .unset _ => none
      | .set name _ => Mapping.get? d.attributes name
    { d with headerAttributes := Mapping.insert d.headerAttributes entry.name value }

/-- The lines below the title, up to a blank one: entries, comments, and lines on authors and
revisions. -/
def headerLines : (fuel : Nat) → Step Unit
  | 0 => throw .endless
  | fuel + 1 => do
    match ← peek (fuel + 1) with
    | none => return
    | some line =>
      if line == "" then return
      else
        let _ ← take (fuel + 1)
        -- a line that is no entry names an author or a revision
        if !LineShape.isComment line then
          match Attribute.Entry.parse? line with
          | some entry => if ← applyEntry entry then recordHeader entry
          | none => pure ()
        headerLines fuel

/-- The header: a title and the lines below it. -/
def header (fuel : Nat) : Step Unit := do
  match ← skipToContent fuel with
  | none => return
  | some line =>
    match LineShape.documentTitle? line with
    | none => return
    | some title =>
      let _ ← take fuel
      modifyDocument fun d => { d with title := some title }
      headerLines fuel

/-! ## The body -/

/-- Add a block. -/
def addBlock (context : String) (lines : List String) (location : Option Cursor)
    (level : Option Nat) : Step Unit :=
  modifyDocument fun d => { d with blocks := d.blocks ++ [{ context, lines, location, level }] }

/-- The lines of a delimited block after the first one, up to its delimiter; says whether
there was one. -/
def delimitedLines (delimiter : String) : (fuel : Nat) → Step (List String × Bool)
  | 0 => throw .endless
  | fuel + 1 => do
    match ← take (fuel + 1) with
    | none => return ([], false)
    | some line =>
      if line == delimiter then return ([line], true)
      else
        let (lines, closed) ← delimitedLines delimiter fuel
        return (line :: lines, closed)

/-- A delimited block. One without an end runs to the end of the document. -/
def delimitedBlock (fuel : Nat) (delimiter context : String) (location : Option Cursor) :
    Step Unit := do
  let start ← cursor
  let first ← take fuel
  let (lines, closed) ← delimitedLines delimiter fuel
  if !closed then
    modify fun s => s.log (Log.warning .blocks s!"{start.text}: unterminated {context} block")
  addBlock context ((Session.given first).getD delimiter :: lines) location none

/-- The lines of a paragraph. It stops before a blank line, and before a delimiter or a
section title unless that is its first line. -/
def paragraphLines : (fuel : Nat) → (isFirst : Bool) → Step (List String)
  | 0, _ => throw .endless
  | fuel + 1, isFirst => do
    match ← peek (fuel + 1) with
    | none => return []
    | some line =>
      if line == "" || (!isFirst && LineShape.endsParagraph line) then return []
      else
        let taken ← take (fuel + 1)
        let rest ← paragraphLines fuel false
        return taken.getD "" :: rest

/-- What starts with the line in front. -/
def element (fuel : Nat) (line : String) : Step Unit := do
  if line == "" || LineShape.isComment line then
    let _ ← take fuel
  else match Attribute.Entry.parse? line with
    | some entry =>
      let _ ← take fuel
      let _ ← applyEntry entry
    | none =>
      if LineShape.isMetadata line then
        let _ ← take fuel
      else
        -- the place is that of the first line, before it is taken
        let location ← location
        match LineShape.sectionLevel? line with
        | some level =>
          let _ ← take fuel
          addBlock "section" [line] location (some level)
        | none =>
          match LineShape.delimited? line with
          | some context => delimitedBlock fuel line context location
          | none =>
            let lines ← paragraphLines fuel true
            addBlock "paragraph" lines location none

/-- All elements up to the end of the document. -/
def body : (fuel : Nat) → Step Unit
  | 0 => throw .endless
  | fuel + 1 => do
    match ← peek (fuel + 1) with
    | none => return
    | some line =>
      element (fuel + 1) line
      body fuel

/-- Scan a document that has not been scanned before. -/
def document (fuel : Nat) : Step Unit := do
  if !(← get).doc.parsed then
    header fuel
    body fuel
    modifyDocument fun d => { d with parsed := true }

end DocFlatten.Scan
