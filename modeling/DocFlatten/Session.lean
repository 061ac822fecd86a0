import DocFlatten.Attribute.AttrList
import DocFlatten.Condition
import DocFlatten.Document.Basic
import DocFlatten.Event
import DocFlatten.Selection

/-! # Sessions

A session is a document being read, with the files it can see and the journal so far. Looking
at the next line acts on the directives in front of it: a conditional is consumed or leaves
its text, an include enters a scope, leaves one line or vanishes. One such act is a total
function, `Session.glance`; only repeating it needs a bound, since a document can raise its own
limit of nested includes while it is read. Reading stops if that bound is used up, or if the
system refuses to look up the file of an include.
-/

namespace DocFlatten

open DocFlatten.Text

/-- A document being read. -/
structure Session where
  files : FileTree
  doc : Document
  journal : Journal

namespace Session

/-- A session before anything is read. -/
def start (files : FileTree) (doc : Document) : Session :=
  { files, doc, journal := #[] }

/-- The reader of the document. -/
def reader (s : Session) : Reader :=
  s.doc.reader

/-- Change the reader. -/
def withReader (s : Session) (f : Reader → Reader) : Session :=
  { s with doc.reader := f s.doc.reader }

/-- Enter something into the journal. -/
def note (s : Session) (entry : JournalEntry) : Session :=
  { s with journal := s.journal.push entry }

/-- Report an event. -/
def report (s : Session) (e : Event) : Session :=
  s.note (.event e)

/-- Log a record. -/
def log (s : Session) (r : Log.Record) : Session :=
  s.note (.record r)

/-- Log some records. -/
def logAll (s : Session) (rs : List Log.Record) : Session :=
  rs.foldl log s

/-- Where the next line of the current scope is, as messages show it. -/
def place (s : Session) : String :=
  s.reader.cursor.text

/-! ## Scopes -/

/-- Leave the current scope and go on in the one around it, if there is one. -/
def leave (s : Session) : Session :=
  match s.reader.outer with
  | [] => s
  | scope :: outer =>
    let depth := s.reader.includeDepth
    (s.withReader fun r => { r with scope, outer, lookAhead := 0 }).report
      (.scopeEnd depth (depth - 1))

/-- The lines of an include with a level offset: in front an entry that sets the offset, and
at the end one that restores what was there before. -/
def framed (offset : String) (previous : Option String) (lines : List String) : List String :=
  let restore := match previous with
    | some value => ":leveloffset: " ++ value
    | none => ":leveloffset!:"
  [":leveloffset: " ++ offset, ""] ++ lines ++ ["", restore]

/-- A text that is given and not empty. -/
def given (text : Option String) : Option String :=
  text.filter (· != "")

/-- The position at which a new scope starts, seen from the one around it. -/
def scopeCursor (outer : Cursor) (file path : Option String) (lineno : Int) : Cursor :=
  match given file with
  | some file =>
    { file := some file, dir := Path.dirName file
      path := (given path).getD (Path.baseName file), lineno }
  | none => { outer with path := (given path).getD outer.path, lineno }

/-- Enter a scope with the given content. Empty content is left again right away. -/
def enter (s : Session) (content : Source) (file path : Option String) (lineno : Int)
    (attributes : Attributes) : Session :=
  let r := s.reader
  let cursor := scopeCursor r.cursor file path lineno
  match content.prepare with
  -- the scope is entered and left, which is reported
  | [] =>
    (s.withReader fun r =>
      { r with outer := r.scope :: r.outer, scope.cursor := cursor, frame := 0 }).leave
  | lines =>
    match Mapping.get? attributes "leveloffset" with
    | some offset =>
      -- the entries stand before the first line, so the numbers start two lines earlier
      let lines := framed offset (Mapping.get? s.doc.attributes "leveloffset") lines
      s.withReader fun r =>
        { r with
          outer := r.scope :: r.outer
          scope := { lines, cursor := { cursor with lineno := lineno - 2 } }
          frame := 2, lookAhead := 0 }
    | none =>
      s.withReader fun r =>
        { r with
          outer := r.scope :: r.outer, scope := { lines, cursor }, frame := 0, lookAhead := 0 }

/-! ## Conditionals -/

/-- Open a conditional. -/
def openConditional (s : Session) (target : String) (skip skipping : Bool) : Session :=
  s.withReader fun r =>
    { r with conditionals := ⟨target, skip, skipping⟩ :: r.conditionals, skipping }

/-- Act on an `endif`: it closes the innermost conditional, if it names that one or none. -/
def closeConditional (s : Session) (target text : String) : Session :=
  if text != "" then
    s.log (Log.error .reading
      s!"{s.place}: malformed preprocessor directive - text not permitted: endif::{target}[{text}]")
  else match s.reader.conditionals with
    | [] =>
      s.log (Log.error .reading
        s!"{s.place}: unmatched preprocessor directive: endif::{target}[]")
    | top :: rest =>
      if target == "" || target == top.target then
        s.withReader fun r =>
          -- what is skipped now is what was skipped around the conditional
          { r with conditionals := rest, skipping := (rest.head?.map (·.skipping)).getD false }
      else
        s.log (Log.error .reading
          (s!"{s.place}: mismatched preprocessor directive: endif::{target}[], " ++
            s!"expected endif::{top.target}[]"))

/-- Put the text of a single-line conditional in the place of its line. Unless it may be an
include directive it needs no further processing. -/
def keepText (s : Session) (text : String) : Session :=
  s.withReader fun r =>
    let r := r.setHead (stripEnd text)
    -- an include directive in the text is acted on by the next look
    if text.startsWith "include::" then r else r.hold

/-- Act on a conditional; says whether its line is used up. -/
def decide (s : Session) (c : Conditional) : Bool × Session :=
  let target := lower c.target
  let text := c.text.getD ""
  if c.keyword == .endif then (true, s.closeConditional target text)
  else
    let isBlock := c.keyword == .ifeval || text == ""
    -- inside a false conditional only the nesting is kept up
    if s.reader.skipping then (true, if isBlock then s.openConditional target true true else s)
    else match Condition.skips s.doc.attributes { c with target } with
      -- a condition that cannot be decided opens nothing
      | .error e => (true, s.log (Log.error .reading s!"{s.place}: {e.message}"))
      | .ok skip =>
        if isBlock then (true, s.openConditional target skip skip)
        else if skip then (true, s)
        else (false, s.keepText text)

/-- Act on a conditional and report it. Its line is taken if it is used up. -/
def processConditional (s : Session) (c : Conditional) : Session :=
  let (consumed, after) := s.decide c
  let reported := after.report <| .conditional {
    directive := c
    lineno := s.reader.cursor.lineno
    skippingBefore := s.reader.skipping
    skippingAfter := after.reader.skipping
    depthBefore := s.reader.conditionalDepth
    depthAfter := after.reader.conditionalDepth
    retained := !consumed }
  if consumed then reported.withReader Reader.shifted else reported

/-! ## Includes -/

/-- What an include directive leads to. -/
inductive Resolution where
  /-- The directive stays as a line of content. -/
  | kept
  | vanished
  | replaced (line : String)
  | entered (selection : Selection) (path shownPath : String) (attributes : Attributes)
  | handed (processor : Processor) (target : String) (attributes : Attributes)
  /-- The system refuses to look up the file. -/
  | refused (e : FileError)

/-- The attributes of a directive: its list is read after references were replaced. -/
def directiveAttributes (s : Session) (attrlist : String) : Attributes :=
  if attrlist == "" then []
  else Attribute.parseList ((Attribute.substitute? .drop s.doc.attributes attrlist).getD "")

/-- The line that takes the place of a directive that could not be resolved. -/
def unresolved (s : Session) (i : Include) : String :=
  "Unresolved directive in " ++ s.reader.cursor.path ++ " - " ++ i.line

/-- The line that takes the place of a directive that is not followed. -/
def link (target : String) : String :=
  "link:" ++ target ++ "[role=include]"

/-- How many scopes may be entered. -/
def maxIncludeDepth (s : Session) : Int :=
  match Mapping.get? s.doc.attributes "max-include-depth" with
  | some text =>
    match Number.readInteger text with
    | .ok n => n
    | .error _ => 64
  | none => 64

/-- A character after the first one of a scheme. -/
def isSchemeChar (c : Char) : Bool :=
  c.isAlpha || isDecimal c || c == '.' || c == '+' || c == '-'

/-- Whether a target names a place by a scheme of at least two characters. -/
def isUri (target : String) : Bool :=
  match target.toList with
  | first :: rest =>
    let scheme := rest.takeWhile isSchemeChar
    first.isAlpha && !scheme.isEmpty && rest[scheme.length]? == some ':'
  | [] => false

/-- What a blank target leads to. Missing attributes may drop the directive. -/
def resolveBlank (s : Session) (i : Include) : Resolution × List Log.Record :=
  let name := Attribute.missingName s.doc.attributes
  let lacks := !(Attribute.missingNames s.doc.attributes i.target).isEmpty
  if name == "drop-line" && lacks then
    (.vanished,
      [Log.info .reading s!"{s.place}: include dropped due to missing attribute: {i.line}"])
  else
    let reason := if name == "warn" && lacks then "due to missing attribute"
      else "because resolved target is blank"
    if Mapping.contains (s.directiveAttributes i.attrlist) "optional-option" then
      (.vanished, [Log.info .reading s!"{s.place}: optional include dropped {reason}: {i.line}"])
    else
      (.replaced (s.unresolved i),
        [Log.warning .reading s!"{s.place}: include dropped {reason}: {i.line}"])

/-- What the file of a target leads to. -/
def resolveFile (s : Session) (i : Include) (target : String) (attributes : Attributes) :
    Resolution × List Log.Record :=
  let path := Path.normalize (Path.join s.reader.cursor.dir target)
  match s.files.isFile path with
  | .error e => (.refused e, [])
  | .ok false =>
    if Mapping.contains attributes "optional-option" then
      (.vanished, [Log.info .reading
        s!"{s.place}: optional include dropped because include file not found: {path}"])
    else
      (.replaced (s.unresolved i),
        [Log.error .reading s!"{s.place}: include file not found: {path}"])
  | .ok true =>
    match s.files.readText path with
    | .error e =>
      (.replaced (s.unresolved i),
        [Log.error .reading s!"{s.place}: include file not readable: {path} ({e.message})"])
    | .ok text =>
      let shownPath := s.doc.relativePath s.files.workingDir path
      let (selection, records) :=
        Selection.ofAttributes attributes shownPath (Source.text text).prepare
      (.entered selection path shownPath attributes, records)

/-- What a target leads to. Processors come first, then the limits of the safe mode and of
nesting, then the target itself. -/
def resolveTarget (s : Session) (i : Include) (target : String) : Resolution × List Log.Record :=
  let attributes := s.directiveAttributes i.attrlist
  match s.doc.options.processors.find? (·.handles target) with
  | some processor => (.handed processor target attributes, [])
  | none =>
    if s.doc.options.safe == .secure then (.replaced (link target), [])
    else if (s.reader.includeDepth : Int) ≥ s.maxIncludeDepth then
      (.kept,
        [Log.error .reading s!"{s.place}: maximum include depth of {s.maxIncludeDepth} exceeded"])
    else if isUri target then
      if Mapping.contains s.doc.attributes "allow-uri-read" then
        (.replaced (s.unresolved i),
          [Log.error .reading s!"{s.place}: include uri not readable: {target}"])
      else (.replaced (link target), [])
    else s.resolveFile i target attributes

/-- The treatment of missing attributes in a target: one that would only warn drops the
target. -/
def targetMissing (s : Session) : Attribute.Missing :=
  match Attribute.Missing.ofAttributes s.doc.attributes with
  | .warn => .dropLine
  | mode => mode

/-- What an include directive leads to, with the records on the way. -/
def resolve (s : Session) (i : Include) : Resolution × List Log.Record :=
  let mode := s.targetMissing
  let records := Attribute.substituteLog mode s.doc.attributes i.target
  let target := (Attribute.substitute? mode s.doc.attributes i.target).getD ""
  let (resolution, further) :=
    if target == "" then s.resolveBlank i else s.resolveTarget i target
  (resolution, records ++ further)

/-- The outcome of an include that was followed: whether the session is in a deeper scope
than before. -/
def outcomeFrom (s : Session) (depthBefore : Nat) : Outcome :=
  let r := s.reader
  if r.includeDepth > depthBefore then
    .entered r.scope.lines (r.cursor.lineno + r.frame) r.frame r.includeDepth
  else .vanished depthBefore

/-! ## One look -/

/-- What one look at the line in front leads to. -/
inductive Glance where
  /-- The line is content; as such it is shown. -/
  | line (text : String) (s : Session)
  /-- The lines have changed, so look again. -/
  | again (s : Session)
  /-- A processor has to act before looking again. -/
  | hand (actions : List Action) (depthBefore : Nat) (s : Session)
  /-- The system refuses to look up the file of an include, whose directive stays in front. -/
  | refused (e : FileError) (s : Session)

/-- Act on an include directive. -/
def processInclude (s : Session) (line : String) (i : Include) : Glance :=
  let found := s.report (.includeFound { directive := i, lineno := s.reader.cursor.lineno })
  let depth := s.reader.includeDepth
  let (resolution, records) := s.resolve i
  let s := found.logAll records
  match resolution with
  | .kept =>
    -- the line was processed, so it is held and no look comes back to it
    .line line ((s.report (.includeResolved (.replaced i.line depth))).withReader Reader.hold)
  | .vanished => .again ((s.withReader Reader.shifted).report (.includeResolved (.vanished depth)))
  | .replaced text =>
    .again ((s.withReader fun r => (r.replaceNext text).2).report
      (.includeResolved (.replaced text depth)))
  | .entered selection path shownPath attributes =>
    let s := { s with doc := s.doc.registerInclude shownPath selection.isPartial }
    let s := (s.withReader Reader.shifted).enter (.lines selection.lines) (some path)
      (some shownPath) selection.lineno attributes
    .again (s.report (.includeResolved (s.outcomeFrom depth)))
  | .handed processor target attributes =>
    .hand (processor.actions target attributes) depth (s.withReader Reader.shifted)
  | .refused e => .refused e s

/-- A line that is content behind a backslash: it is shown without it. -/
def showEscaped (s : Session) (line : String) : Glance :=
  .line (Reader.dropFirst line) (s.withReader fun r => { r.hold with unescape := true })

/-- Note that the line in front is looked at. -/
def meet (s : Session) (line : String) : Session :=
  s.note (.looked ⟨line, s.reader.cursor, s.reader.skipping⟩)

/-- Look at the line in front, which has not been processed. Blank lines are always content.
Inside a false conditional only conditionals count, and a conditional behind a backslash. -/
def glance (s : Session) (line : String) : Glance :=
  if line == "" then .line line (s.withReader Reader.hold)
  else match LineKind.ofLine line with
    | .conditional c => .again (s.processConditional c)
    | .escapedConditional => s.showEscaped line
    | kind =>
      if s.reader.skipping then .again (s.withReader Reader.shifted)
      else match kind with
        | .escapedInclude => s.showEscaped line
        | .directive i => s.processInclude line i
        | _ => .line line (s.withReader Reader.hold)

/-! ## Reading -/

/-- Why reading stops before it has a line. -/
inductive Halt where
  /-- The bound on looks is used up. -/
  | endless
  /-- The system refuses to look up the file of an include; the session as it is then. -/
  | refused (e : FileError) (s : Session)

/-- Carry out an action; reading a line is left to the caller. -/
def act (readLine : Session → Except Halt Session) (s : Session) : Action → Except Halt Session
  | .enter content file path lineno attributes => .ok (s.enter content file path lineno attributes)
  | .leave => .ok s.leave
  | .setAttribute name value => .ok { s with doc := s.doc.setAttribute name value }
  | .readLine => readLine s

/-- Take the line in front, and note it in the journal. -/
def takeFront (s : Session) : Option String × Session :=
  let r := s.reader
  let noted := match r.scope.lines with
    | [] => s
    | line :: _ => s.note (.taken ⟨line, r.shown line, r.cursor, r.skipping⟩)
  (r.shift.1, noted.withReader Reader.shifted)

/-- Take the next line, given how to look at it. -/
def takeWith (peek : Session → Except Halt (Option String × Session)) (s : Session) :
    Except Halt (Option String × Session) :=
  if s.reader.lookAhead > 0 then .ok s.takeFront
  else
    match peek s with
    | .error halt => .error halt
    | .ok (none, s) => .ok (none, s)
    | .ok (some _, s) => .ok s.takeFront

/-- The next line of content, which stays in front; no line at the end of the document. At most
`fuel` looks are made. -/
def peekLine : (fuel : Nat) → Session → Except Halt (Option String × Session)
  | 0, _ => .error .endless
  | fuel + 1, s =>
    if s.reader.lookAhead > 0 then .ok (s.reader.head?, s)
    else match s.reader.scope.lines with
      | [] =>
        if s.reader.outer.isEmpty then .ok (none, s) else peekLine fuel s.leave
      | line :: _ =>
        match (s.meet line).glance line with
        | .line text s => .ok (some text, s)
        | .again s => peekLine fuel s
        | .refused e s => .error (.refused e s)
        | .hand actions depth s =>
          let readLine (s : Session) := (takeWith (peekLine fuel) s).map (·.2)
          -- a processor may read lines, which looks at lines in turn
          match actions.foldlM (act readLine) s with
          | .error halt => .error halt
          | .ok s => peekLine fuel (s.report (.includeResolved (s.outcomeFrom depth)))

/-- Take the next line of content. -/
def readLine (fuel : Nat) (s : Session) : Except Halt (Option String × Session) :=
  takeWith (peekLine fuel) s

/-- Take all lines that are left, at most `fuel` of them. -/
def readAll : (fuel : Nat) → Session → Except Halt (List String × Session)
  | 0, _ => .error .endless
  | fuel + 1, s =>
    match s.readLine (fuel + 1) with
    | .error halt => .error halt
    | .ok (none, s) => .ok ([], s)
    | .ok (some line, s) => (readAll fuel s).map fun (lines, s) => (line :: lines, s)

end Session

end DocFlatten
