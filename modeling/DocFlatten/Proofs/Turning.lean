import DocFlatten.Session
import Mathlib.Data.List.DropRight

/-! # What acting on a line does

What leaving and entering scopes and conditionals do to a session, said once for two sessions
side by side (`Agree`): they do the same to both readers.

* `Turns`: a session after some events, nothing of the document changed but its reader;
* `Ruled`, `Ruling`: what a conditional does to a reader;
* `Followed`, `Way`: what an include directive does to a reader, and which events it reports;
* `Framing`: a relation of contents that entering them keeps.
-/

namespace DocFlatten

open DocFlatten.Text

/-! ## Journals -/

namespace Journal

variable (j : Journal)

@[simp] theorem events_push_event (e : Event) : events (j.push (.event e)) = events j ++ [e] := by
  simp [events]

@[simp] theorem events_push_record (r : Log.Record) : events (j.push (.record r)) = events j := by
  simp [events]

@[simp] theorem events_push_taken (t : Taken) : events (j.push (.taken t)) = events j := by
  simp [events]

@[simp] theorem events_push_looked (l : Looked) : events (j.push (.looked l)) = events j := by
  simp [events]

@[simp] theorem taken_push_event (e : Event) : taken (j.push (.event e)) = taken j := by
  simp [taken]

@[simp] theorem taken_push_record (r : Log.Record) : taken (j.push (.record r)) = taken j := by
  simp [taken]

@[simp] theorem taken_push_taken (t : Taken) : taken (j.push (.taken t)) = taken j ++ [t] := by
  simp [taken]

@[simp] theorem taken_push_looked (l : Looked) : taken (j.push (.looked l)) = taken j := by
  simp [taken]

@[simp] theorem looked_push_event (e : Event) : looked (j.push (.event e)) = looked j := by
  simp [looked]

@[simp] theorem looked_push_record (r : Log.Record) : looked (j.push (.record r)) = looked j := by
  simp [looked]

@[simp] theorem looked_push_taken (t : Taken) : looked (j.push (.taken t)) = looked j := by
  simp [looked]

@[simp] theorem looked_push_looked (l : Looked) :
    looked (j.push (.looked l)) = looked j ++ [l] := by
  simp [looked]

@[simp] theorem records_push_event (e : Event) : records (j.push (.event e)) = records j := by
  simp [records]

@[simp] theorem records_push_taken (t : Taken) : records (j.push (.taken t)) = records j := by
  simp [records]

@[simp] theorem records_push_looked (l : Looked) : records (j.push (.looked l)) = records j := by
  simp [records]

end Journal

/-! ## Trailing blanks -/

/-- Trimming twice is trimming once. -/
theorem stripEnd_stripEnd (text : String) : stripEnd (stripEnd text) = stripEnd text := by
  unfold stripEnd
  rw [String.toList_ofList]
  exact congrArg String.ofList (List.rdropWhile_idempotent _ _)

/-- The lines of a source are trimmed. -/
theorem map_stripEnd_prepare (source : Source) :
    source.prepare.map stripEnd = source.prepare := by
  cases source <;> simp [Source.prepare, stripEnd_stripEnd]

/-- A text that ends in a bracket has no trailing blanks. -/
theorem stripEnd_append_bracket (text : String) : stripEnd (text ++ "]") = text ++ "]" := by
  have hkept : dropEndWhile isBlank (text.toList ++ [']']) = text.toList ++ [']'] :=
    List.rdropWhile_concat_neg _ _ _ (by decide)
  unfold stripEnd
  rw [String.toList_append]
  exact (congrArg String.ofList hkept).trans (by simp [String.ofList_append])

/-- A line without trailing blanks, or an entry that sets a level offset around an include. -/
def IsNeat (line : String) : Prop :=
  stripEnd line = line ∨ ∃ value, line = ":leveloffset: " ++ value

/-- A trimmed line is neat. -/
theorem isNeat_stripEnd (line : String) : IsNeat (stripEnd line) :=
  Or.inl (stripEnd_stripEnd line)

/-- The lines of a source are neat. -/
theorem isNeat_of_mem_prepare {source : Source} {line : String} (h : line ∈ source.prepare) :
    IsNeat line := by
  rw [← map_stripEnd_prepare] at h
  obtain ⟨line', -, rfl⟩ := List.mem_map.mp h
  exact isNeat_stripEnd line'

/-- Lines that a scope can be entered with. -/
structure AreEntered (lines : List String) : Prop where
  ne : lines ≠ []
  neat : ∀ line ∈ lines, IsNeat line

/-! ## Readers -/

/-- The position of the line below. -/
def Cursor.next (c : Cursor) : Cursor :=
  { c with lineno := c.lineno + 1 }

/-- Positions in one file, perhaps on different lines. -/
structure Cursor.SamePlace (c c' : Cursor) : Prop where
  file : c.file = c'.file
  dir : c.dir = c'.dir
  path : c.path = c'.path

theorem Cursor.SamePlace.symm {c c' : Cursor} (h : c.SamePlace c') : c'.SamePlace c :=
  ⟨h.file.symm, h.dir.symm, h.path.symm⟩

theorem Cursor.SamePlace.trans {c c' c'' : Cursor} (h : c.SamePlace c') (h' : c'.SamePlace c'') :
    c.SamePlace c'' :=
  ⟨h.file.trans h'.file, h.dir.trans h'.dir, h.path.trans h'.path⟩

namespace Reader

/-- Taking the line in front. -/
theorem shifted_of_lines {r : Reader} {line : String} {rest : List String}
    (h : r.scope.lines = line :: rest) :
    r.shifted =
      { r with
        scope := { lines := rest, cursor := { r.cursor with lineno := r.cursor.lineno + 1 } }
        lookAhead := r.lookAhead - 1, unescape := false } := by
  simp [shifted, shift, h, advance, cursor]

@[simp] theorem skipping_shifted (r : Reader) : r.shifted.skipping = r.skipping := by
  unfold shifted shift
  cases r.scope.lines <;> rfl

@[simp] theorem conditionals_shifted (r : Reader) : r.shifted.conditionals = r.conditionals := by
  unfold shifted shift
  cases r.scope.lines <;> rfl

@[simp] theorem outer_shifted (r : Reader) : r.shifted.outer = r.outer := by
  unfold shifted shift
  cases r.scope.lines <;> rfl

/-- The event of meeting an include directive. -/
def found (r : Reader) (i : Include) : Event :=
  .includeFound { directive := i, lineno := r.cursor.lineno }

/-- A reader with a text in the place of the line in front, which is content unless it may be
an include directive. -/
def keeping (r : Reader) (text : String) : Reader :=
  if text.startsWith "include::" then r.setHead (stripEnd text)
  else (r.setHead (stripEnd text)).hold

/-- Only the line in front is another one. -/
@[simp] theorem scope_keeping (r : Reader) (text : String) :
    (r.keeping text).scope = { r.scope with lines := stripEnd text :: r.scope.lines.tail } := by
  unfold keeping
  split <;> rfl

@[simp] theorem outer_keeping (r : Reader) (text : String) :
    (r.keeping text).outer = r.outer := by
  unfold keeping
  split <;> rfl

@[simp] theorem conditionals_keeping (r : Reader) (text : String) :
    (r.keeping text).conditionals = r.conditionals := by
  unfold keeping
  split <;> rfl

@[simp] theorem skipping_keeping (r : Reader) (text : String) :
    (r.keeping text).skipping = r.skipping := by
  unfold keeping
  split <;> rfl

@[simp] theorem unescape_keeping (r : Reader) (text : String) :
    (r.keeping text).unescape = r.unescape := by
  unfold keeping
  split <;> rfl

/-- The text of a conditional has been looked at, unless it looks like an include directive. -/
theorem lookAhead_keeping (r : Reader) (text : String) :
    (r.keeping text).lookAhead =
      if text.startsWith "include::" then r.lookAhead else r.lookAhead + 1 := by
  unfold keeping
  split <;> rfl

/-- A reader in a new scope. -/
def entered (r : Reader) (lines : List String) (cursor : Cursor) (frame : Nat) : Reader :=
  { r with outer := r.scope :: r.outer, scope := { lines, cursor }, frame, lookAhead := 0 }

/-- No line was processed in advance. -/
structure Idle (r : Reader) : Prop where
  lookAhead : r.lookAhead = 0
  plain : r.unescape = false

/-- At most the line in front was processed in advance. -/
def Steady (r : Reader) : Prop :=
  r.Idle ∨ (r.lookAhead = 1 ∧ r.scope.lines ≠ [])

/-- A steady reader that holds nothing is idle. -/
theorem Steady.idle {r : Reader} (h : r.Steady) (hlook : ¬ 0 < r.lookAhead) : r.Idle := by
  rcases h with h | ⟨hone, -⟩
  · exact h
  · omega

/-- An idle reader stays so when it takes a line. -/
theorem Idle.shifted {r : Reader} (h : r.Idle) : r.shifted.Idle := by
  unfold Reader.shifted Reader.shift
  cases r.scope.lines with
  | nil => exact ⟨by simp [h.lookAhead], h.plain⟩
  | cons line rest => exact ⟨by simp [h.lookAhead], rfl⟩

/-- A reader in which a line waits holds that line in front. -/
theorem Steady.held {r : Reader} (h : r.Steady) (hlook : 0 < r.lookAhead) :
    r.lookAhead = 1 ∧ ∃ line rest, r.scope.lines = line :: rest := by
  rcases h with h | ⟨hone, hfront⟩
  · have := h.lookAhead
    omega
  · exact ⟨hone, List.exists_cons_of_ne_nil hfront⟩

/-- A line that is held is in front. -/
theorem Steady.exists_front {r : Reader} (h : r.Steady) (hlook : 0 < r.lookAhead) :
    ∃ line rest, r.scope.lines = line :: rest :=
  (h.held hlook).2

/-- Taking a processed line leaves none. -/
theorem Steady.idle_shifted {r : Reader} (h : r.Steady) (hlook : 0 < r.lookAhead) :
    r.shifted.Idle := by
  obtain ⟨hone, line, rest, hlines⟩ := h.held hlook
  unfold Reader.shifted Reader.shift
  simp only [hlines]
  exact ⟨by simp [hone], rfl⟩

end Reader

/-- What a conditional does to a reader; tells whether its line is used up. -/
inductive Ruled (r : Reader) (c : Conditional) : Bool → Reader → Prop where
  | idle : Ruled r c true r
  | opened (target : String) (skip skipping : Bool) (h : r.skipping = true → skipping = true)
      (hsame : skip = skipping) : Ruled r c true
      { r with conditionals := ⟨target, skip, skipping⟩ :: r.conditionals, skipping }
  | closed (top : OpenConditional) (rest : List OpenConditional)
      (h : r.conditionals = top :: rest) :
    Ruled r c true
      { r with conditionals := rest, skipping := (rest.head?.map (·.skipping)).getD false }
  | kept (text : String) (hskip : r.skipping = false) (htext : c.text = some text)
      (hne : text ≠ "") : Ruled r c false (r.keeping text)

/-- What a conditional changes in a reader: the conditionals that are open, or the line in front. -/
inductive Ruling where
  | set (conditionals : List OpenConditional) (skipping : Bool)
  | keep (text : String)

def Ruling.apply : Ruling → Reader → Reader
  | .set conditionals skipping, r => { r with conditionals, skipping }
  | .keep text, r => r.keeping text

/-- Whether a ruling uses up the line of a conditional: unless it leaves its text in front. -/
inductive Ruling.Fits (c : Conditional) : Bool → Ruling → Prop where
  | set (conditionals : List OpenConditional) (skipping : Bool) :
    Fits c true (.set conditionals skipping)
  | keep (text : String) (htext : c.text = some text) : Fits c false (.keep text)

/-- The event of a conditional that led from one reader to another. -/
def Conditional.event (c : Conditional) (r after : Reader) (consumed : Bool) : Event :=
  .conditional {
    directive := c
    lineno := r.cursor.lineno
    skippingBefore := r.skipping
    skippingAfter := after.skipping
    depthBefore := r.conditionalDepth
    depthAfter := after.conditionalDepth
    retained := !consumed }

/-- Events of scopes that were left again inside an include. -/
def AreEnds (depth : Nat) (es : List Event) : Prop :=
  ∀ e ∈ es, ∃ before after : Int, e = .scopeEnd before after ∧ (depth : Int) ≤ after

/-- How an include directive was followed: the events and the reader after it. -/
inductive Followed (r : Reader) (i : Include) : List Event → Reader → Prop where
  | kept : Followed r i [r.found i, .includeResolved (.replaced i.line r.includeDepth)] r.hold
  | gone (ends : List Event) (frame : Nat) (hends : AreEnds r.includeDepth ends) :
    Followed r i (r.found i :: ends ++ [.includeResolved (.vanished r.includeDepth)])
      { r.shifted with frame }
  | replaced (text : String) (hplain : LineKind.ofLine text = .plain)
      (hne : text ≠ "" ∧ stripEnd text = text) :
    Followed r i [r.found i, .includeResolved (.replaced text r.includeDepth)]
      (r.shifted.unshift text)
  | entered (lines : List String) (cursor : Cursor) (frame : Nat) (ends : List Event)
      (hlines : AreEntered lines) (hends : AreEnds r.includeDepth ends) :
    Followed r i
      (r.found i :: ends ++
        [.includeResolved (.entered lines (cursor.lineno + frame) frame (r.includeDepth + 1))])
      (r.shifted.entered lines cursor frame)

/-- What an include directive that is followed changes in a reader. -/
inductive Way where
  | vanished
  | empty
  | replaced (text : String)
  | entered (lines : List String) (cursor : Cursor) (frame : Nat)

def Way.apply : Way → Reader → Reader
  | .vanished, r => r.shifted
  | .empty, r => { r.shifted with frame := 0 }
  | .replaced text, r => r.shifted.unshift text
  | .entered lines cursor frame, r => r.shifted.entered lines cursor frame

/-- The events of an include directive that is followed in some way. -/
inductive Way.Reported (r : Reader) (i : Include) : Way → List Event → Prop where
  | vanished (ends : List Event) (hends : AreEnds r.includeDepth ends) :
    Reported r i .vanished (r.found i :: ends ++ [.includeResolved (.vanished r.includeDepth)])
  | empty (ends : List Event) (hends : AreEnds r.includeDepth ends) :
    Reported r i .empty (r.found i :: ends ++ [.includeResolved (.vanished r.includeDepth)])
  | replaced (text : String) (hplain : LineKind.ofLine text = .plain)
      (hne : text ≠ "" ∧ stripEnd text = text) :
    Reported r i (.replaced text)
      [r.found i, .includeResolved (.replaced text r.includeDepth)]
  | entered (lines : List String) (cursor : Cursor) (frame : Nat) (ends : List Event)
      (hlines : AreEntered lines) (hends : AreEnds r.includeDepth ends) :
    Reported r i (.entered lines cursor frame)
      (r.found i :: ends ++
        [.includeResolved (.entered lines (cursor.lineno + frame) frame (r.includeDepth + 1))])

/-- An include that goes a way and reports so has been followed. -/
theorem Way.Reported.followed {r : Reader} {i : Include} {way : Way} {es : List Event}
    (h : way.Reported r i es) : Followed r i es (way.apply r) := by
  cases h with
  | vanished ends hends => exact .gone ends r.shifted.frame hends
  | empty ends hends => exact .gone ends 0 hends
  | replaced text hplain hne => exact .replaced text hplain hne
  | entered lines cursor frame ends hlines hends =>
    exact .entered lines cursor frame ends hlines hends

namespace Document

/-- Setting an attribute changes nothing but attributes. -/
theorem setAttribute_eq (d : Document) (name : String) (value : Option String) :
    d.setAttribute name value = { d with attributes := (d.setAttribute name value).attributes } := by
  unfold setAttribute
  split
  · rfl
  · cases value <;> rfl

/-- Whether a name is locked depends on the locked names only. -/
theorem isLocked_congr {d d' : Document} (h : d'.locked = d.locked) (name : String) :
    d'.isLocked name = d.isLocked name := by
  unfold isLocked
  rw [h]

end Document

namespace Session

/-! ## Parts of a session -/

section Parts

variable (s : Session)

@[simp] theorem reader_note (e : JournalEntry) : (s.note e).reader = s.reader := rfl

@[simp] theorem reader_report (e : Event) : (s.report e).reader = s.reader := rfl

@[simp] theorem reader_log (r : Log.Record) : (s.log r).reader = s.reader := rfl

@[simp] theorem reader_withReader (f : Reader → Reader) :
    (s.withReader f).reader = f s.reader := rfl

@[simp] theorem journal_withReader (f : Reader → Reader) :
    (s.withReader f).journal = s.journal := rfl

@[simp] theorem events_report (e : Event) :
    (s.report e).journal.events = s.journal.events ++ [e] :=
  Journal.events_push_event _ _

@[simp] theorem events_log (r : Log.Record) : (s.log r).journal.events = s.journal.events :=
  Journal.events_push_record _ _

@[simp] theorem taken_report (e : Event) : (s.report e).journal.taken = s.journal.taken :=
  Journal.taken_push_event _ _

@[simp] theorem taken_log (r : Log.Record) : (s.log r).journal.taken = s.journal.taken :=
  Journal.taken_push_record _ _

@[simp] theorem looked_report (e : Event) : (s.report e).journal.looked = s.journal.looked :=
  Journal.looked_push_event _ _

@[simp] theorem looked_log (r : Log.Record) : (s.log r).journal.looked = s.journal.looked :=
  Journal.looked_push_record _ _

/-! Looking at a line changes the journal only. -/

@[simp] theorem doc_meet (line : String) : (s.meet line).doc = s.doc := rfl

@[simp] theorem files_meet (line : String) : (s.meet line).files = s.files := rfl

@[simp] theorem reader_meet (line : String) : (s.meet line).reader = s.reader := rfl

@[simp] theorem events_meet (line : String) :
    (s.meet line).journal.events = s.journal.events :=
  Journal.events_push_looked _ _

@[simp] theorem taken_meet (line : String) : (s.meet line).journal.taken = s.journal.taken :=
  Journal.taken_push_looked _ _

@[simp] theorem looked_meet (line : String) : (s.meet line).journal.looked =
    s.journal.looked ++ [⟨line, s.reader.cursor, s.reader.skipping⟩] :=
  Journal.looked_push_looked _ _

end Parts

/-- A session after some events: its reader has moved, and files may have been recorded. No line
was looked at or taken, and nothing else of the document has changed. -/
structure Turns (s : Session) (r : Reader) (es : List Event) (s' : Session) : Prop where
  files : s'.files = s.files
  doc : s'.doc = { s.doc with reader := r, includes := s'.doc.includes }
  events : s'.journal.events = s.journal.events ++ es
  taken : s'.journal.taken = s.journal.taken
  looked : s'.journal.looked = s.journal.looked

namespace Turns

variable {s s' : Session} {r : Reader} {es : List Event}

/-- Doing nothing is a turn. -/
theorem refl (s : Session) : Turns s s.reader [] s :=
  ⟨rfl, rfl, by simp, rfl, rfl⟩

/-- A turn ends with the reader it tells. -/
theorem reader (h : Turns s r es s') : s'.reader = r := by
  unfold Session.reader
  rw [h.doc]

/-- A turn changes no attributes. -/
theorem attributes (h : Turns s r es s') : s'.doc.attributes = s.doc.attributes := by
  rw [h.doc]

/-- A move of the reader goes on with a turn. -/
theorem move (h : Turns s r es s') {f : Reader → Reader} {r' : Reader} (hf : f r = r') :
    Turns s r' es (s'.withReader f) := by
  subst hf
  refine ⟨h.files, ?_, h.events, h.taken, h.looked⟩
  have hdoc := h.doc
  simp only [withReader]
  rw [hdoc]

/-- A report goes on with a turn. -/
theorem report (h : Turns s r es s') (e : Event) : Turns s r (es ++ [e]) (s'.report e) :=
  ⟨h.files, h.doc, by rw [events_report, h.events, List.append_assoc],
    by rw [taken_report, h.taken], by rw [looked_report, h.looked]⟩

/-- Logging goes on with a turn. -/
theorem log (h : Turns s r es s') (record : Log.Record) : Turns s r es (s'.log record) :=
  ⟨h.files, h.doc, by rw [events_log, h.events], by rw [taken_log, h.taken],
    by rw [looked_log, h.looked]⟩

/-- Logging several records goes on with a turn. -/
theorem logAll (h : Turns s r es s') (records : List Log.Record) :
    Turns s r es (s'.logAll records) := by
  induction records generalizing s' with
  | nil => exact h
  | cons record records ih => exact ih (h.log record)

/-- Registering an include goes on with a turn. -/
theorem register (h : Turns s r es s') (path : String) (isPartial : Bool) :
    Turns s r es { s' with doc := s'.doc.registerInclude path isPartial } := by
  refine ⟨h.files, ?_, h.events, h.taken, h.looked⟩
  simp only [Document.registerInclude]
  rw [h.doc]

/-- Turns can be made one after the other. -/
theorem trans {s'' : Session} {r' : Reader} {es' : List Event} (h : Turns s r es s')
    (h' : Turns s' r' es' s'') : Turns s r' (es ++ es') s'' := by
  refine ⟨h'.files.trans h.files, ?_, by rw [h'.events, h.events, List.append_assoc],
    h'.taken.trans h.taken, h'.looked.trans h.looked⟩
  have hdoc := h'.doc
  rw [h.doc] at hdoc
  exact hdoc

end Turns

/-! ## Scopes -/

/-- Leaving a scope. -/
theorem turns_leave {s : Session} {scope : Scope} {outer : List Scope}
    (h : s.reader.outer = scope :: outer) :
    Turns s { s.reader with scope, outer, lookAhead := 0 }
      [.scopeEnd (outer.length + 1) outer.length] s.leave := by
  have hdepth : s.reader.includeDepth = outer.length + 1 := by
    simp [Reader.includeDepth, h]
  unfold leave
  rw [h]
  have hends : Event.scopeEnd (s.reader.includeDepth : Int) ((s.reader.includeDepth : Int) - 1) =
      .scopeEnd (outer.length + 1) outer.length := by
    rw [hdepth]
    simp
  simp only [hends]
  have hmoved : Turns s { s.reader with scope, outer, lookAhead := 0 } []
      (s.withReader fun r => { r with scope, outer, lookAhead := 0 }) := (Turns.refl s).move rfl
  exact hmoved.report _

/-- From the same place, a file is entered at the same cursor. -/
theorem scopeCursor_of_samePlace {c c' : Cursor} (h : c'.SamePlace c) (file path : Option String)
    (lineno : Int) : scopeCursor c' file path lineno = scopeCursor c file path lineno := by
  rcases h with ⟨hfile, hdir, hpath⟩
  unfold scopeCursor
  rw [hfile, hdir, hpath]

/-- The cursor of a file that has a name tells the file. -/
theorem scopeCursor_of_file (outer : Cursor) {file : String} (h : file ≠ "")
    (path : Option String) (lineno : Int) :
    (scopeCursor outer (some file) path lineno).file = some file ∧
      (scopeCursor outer (some file) path lineno).lineno = lineno := by
  have hgiven : given (some file) = some file := by
    simp [given, h]
  unfold scopeCursor
  rw [hgiven]
  exact ⟨rfl, rfl⟩

/-- What happens in both of two sessions. -/
def Both (s t : Session) (P : Session → Prop) : Prop :=
  ∀ u, u = s ∨ u = t → P u

theorem Both.left {s t : Session} {P : Session → Prop} (h : Both s t P) : P s :=
  h s (Or.inl rfl)

theorem Both.right {s t : Session} {P : Session → Prop} (h : Both s t P) : P t :=
  h t (Or.inr rfl)

theorem Both.intro {s t : Session} {P : Session → Prop} (hs : P s) (ht : P t) : Both s t P := by
  rintro u (rfl | rfl)
  · exact hs
  · exact ht

/-- The scope in which content is entered, and how many lines are added in front of it. -/
def scopeOf (previous : Option String) (attributes : Attributes) (cursor : Cursor)
    (lines : List String) : Scope × Nat :=
  match Mapping.get? attributes "leveloffset" with
  | some offset =>
    ({ lines := framed offset previous lines, cursor := { cursor with lineno := cursor.lineno - 2 } },
      2)
  | none => ({ lines, cursor }, 0)

/-- Empty content is left again. -/
theorem turns_enter_empty (s : Session) {content : Source} (h : content.prepare = [])
    (file path : Option String) (lineno : Int) (attributes : Attributes) :
    Turns s { s.reader with lookAhead := 0, frame := 0 }
      [.scopeEnd (s.reader.includeDepth + 1) s.reader.includeDepth]
      (s.enter content file path lineno attributes) := by
  have hopen := @Turns.move _ _ _ _ (Turns.refl s) (fun r =>
    { r with
      outer := r.scope :: r.outer
      scope.cursor := scopeCursor s.reader.cursor file path lineno
      frame := 0 }) _ rfl
  have hleft := hopen.trans (turns_leave (by rw [hopen.reader]))
  unfold enter
  rw [h]
  exact hleft

/-- Content that is not empty is entered. -/
theorem turns_enter (s : Session) {content : Source} (h : content.prepare ≠ [])
    (file path : Option String) (lineno : Int) (attributes : Attributes) {entered : Scope × Nat}
    (hentered : entered = scopeOf (Mapping.get? s.doc.attributes "leveloffset") attributes
      (scopeCursor s.reader.cursor file path lineno) content.prepare) :
    Turns s (s.reader.entered entered.1.lines entered.1.cursor entered.2) []
      (s.enter content file path lineno attributes) := by
  have hlineno : (scopeCursor s.reader.cursor file path lineno).lineno = lineno := by
    unfold scopeCursor
    split <;> rfl
  subst hentered
  unfold scopeOf enter
  cases hcontent : content.prepare with
  | nil => exact absurd hcontent h
  | cons first rest =>
    cases hoffset : Mapping.get? attributes "leveloffset" with
    -- the lines are those of the content
    | none => exact (Turns.refl s).move rfl
    -- entries stand around the lines of the content
    | some offset =>
      rw [hlineno]
      exact (Turns.refl s).move rfl

/-- Lines can still be entered with when entries are put around them. -/
theorem areEntered_framed (offset : String) (previous : Option String) {lines : List String}
    (h : AreEntered lines) : AreEntered (framed offset previous lines) := by
  refine ⟨by simp [framed], fun line hline => ?_⟩
  simp only [framed, List.append_assoc, List.mem_append, List.mem_cons, List.not_mem_nil,
    or_false] at hline
  rcases hline with (rfl | rfl) | hinner | rfl | rfl
  · -- the entry that sets the offset
    exact Or.inr ⟨offset, rfl⟩
  · -- the blank line after it
    exact Or.inl rfl
  · -- the lines of the content
    exact h.neat line hinner
  · -- the blank line before the last entry
    exact Or.inl rfl
  · -- the entry that restores the offset
    cases previous with
    | none => exact Or.inl rfl
    | some value => exact Or.inr ⟨value, rfl⟩

/-- Lines of content that is not empty can be entered with. -/
theorem areEntered_scopeOf {previous : Option String} {attributes : Attributes} {cursor : Cursor}
    {content : Source} (h : content.prepare ≠ []) :
    AreEntered (scopeOf previous attributes cursor content.prepare).1.lines := by
  have hcontent : AreEntered content.prepare := ⟨h, fun _ hline => isNeat_of_mem_prepare hline⟩
  unfold scopeOf
  split
  · exact areEntered_framed _ _ hcontent
  · exact hcontent

/-- Entering content either ends at once, if it is empty, or has its lines in front. -/
theorem enter_cases (s : Session) (content : Source) (file path : Option String) (lineno : Int)
    (attributes : Attributes) :
    (content.prepare = [] ∧
      Turns s { s.reader with lookAhead := 0, frame := 0 }
        [.scopeEnd (s.reader.includeDepth + 1) s.reader.includeDepth]
        (s.enter content file path lineno attributes)) ∨
    (content.prepare ≠ [] ∧ ∃ lines cursor frame, AreEntered lines ∧
      Turns s (s.reader.entered lines cursor frame) []
        (s.enter content file path lineno attributes)) := by
  by_cases hempty : content.prepare = []
  · exact Or.inl ⟨hempty, turns_enter_empty s hempty file path lineno attributes⟩
  · exact Or.inr ⟨hempty, _, _, _, areEntered_scopeOf hempty,
      turns_enter s hempty file path lineno attributes rfl⟩

/-- A relation of contents that begin at one position. It does not see what is added around
them. -/
structure Framing (R : Cursor → List String → List String → Prop) : Prop where
  refl : ∀ cursor lines, R cursor lines lines
  nil_iff : ∀ {cursor lines lines'}, R cursor lines lines' → (lines = [] ↔ lines' = [])
  framed : ∀ {cursor : Cursor} {lines lines'} (offset : String) (previous : Option String),
    R cursor lines lines' → R { cursor with lineno := cursor.lineno - 2 }
      (framed offset previous lines) (framed offset previous lines')

/-- Related lines stay related with entries around them. -/
theorem Framing.scopeOf {R : Cursor → List String → List String → Prop} (hR : Framing R)
    {cursor : Cursor} {lines lines' : List String} (h : R cursor lines lines')
    (previous : Option String) (attributes : Attributes) :
    R (scopeOf previous attributes cursor lines).1.cursor
        (scopeOf previous attributes cursor lines).1.lines
        (scopeOf previous attributes cursor lines').1.lines ∧
      (scopeOf previous attributes cursor lines').1.cursor =
        (scopeOf previous attributes cursor lines).1.cursor ∧
      (scopeOf previous attributes cursor lines').2 =
        (scopeOf previous attributes cursor lines).2 := by
  unfold Session.scopeOf
  cases Mapping.get? attributes "leveloffset" with
  | none => exact ⟨h, rfl, rfl⟩
  | some offset => exact ⟨hR.framed offset previous h, rfl, rfl⟩

/-- Two sessions enter related contents in the same way. -/
theorem enter_abreast {R : Cursor → List String → List String → Prop} (hR : Framing R)
    {s t : Session} (hattributes : t.doc.attributes = s.doc.attributes)
    (hplace : t.reader.cursor.SamePlace s.reader.cursor) {content content' : Source}
    {file path : Option String} {lineno : Int} (attributes : Attributes)
    (hcontent : R (scopeCursor s.reader.cursor file path lineno) content.prepare
      content'.prepare) :
    (Turns s { s.reader with lookAhead := 0, frame := 0 }
        [.scopeEnd (s.reader.includeDepth + 1) s.reader.includeDepth]
        (s.enter content file path lineno attributes) ∧
      Turns t { t.reader with lookAhead := 0, frame := 0 }
        [.scopeEnd (t.reader.includeDepth + 1) t.reader.includeDepth]
        (t.enter content' file path lineno attributes)) ∨
    (∃ lines lines' cursor frame, AreEntered lines ∧ AreEntered lines' ∧ R cursor lines lines' ∧
      Turns s (s.reader.entered lines cursor frame) []
        (s.enter content file path lineno attributes) ∧
      Turns t (t.reader.entered lines' cursor frame) []
        (t.enter content' file path lineno attributes)) := by
  by_cases hempty : content.prepare = []
  · -- the content is empty in both sessions
    have hempty' := (hR.nil_iff hcontent).mp hempty
    exact Or.inl ⟨turns_enter_empty s hempty file path lineno attributes,
      turns_enter_empty t hempty' file path lineno attributes⟩
  · -- the content has lines in both sessions
    have hfull' : content'.prepare ≠ [] := fun h => hempty ((hR.nil_iff hcontent).mpr h)
    rcases hR.scopeOf hcontent (Mapping.get? s.doc.attributes "leveloffset") attributes with
      ⟨hlines, hcursor, hframe⟩
    have hs := turns_enter s hempty file path lineno attributes rfl
    have ht := turns_enter t hfull' file path lineno attributes rfl
    refine Or.inr ⟨_, _, _, _, areEntered_scopeOf hempty, areEntered_scopeOf hfull', hlines, hs, ?_⟩
    rw [← hcursor, ← hframe]
    rwa [hattributes, scopeCursor_of_samePlace hplace file path lineno] at ht

/-! ## Conditionals -/

/-- Sessions in which a conditional means the same. -/
structure Agree (s t : Session) : Prop where
  attributes : t.doc.attributes = s.doc.attributes
  conditionals : t.reader.conditionals = s.reader.conditionals
  skipping : t.reader.skipping = s.reader.skipping

/-- A session agrees with itself. -/
theorem Agree.refl (s : Session) : Agree s s :=
  ⟨rfl, rfl, rfl⟩

/-- What sessions agree on is the same in both. -/
theorem Agree.both {s t : Session} (h : Agree s t) :
    Both s t fun u => u.doc.attributes = s.doc.attributes ∧
      u.reader.conditionals = s.reader.conditionals ∧ u.reader.skipping = s.reader.skipping :=
  .intro ⟨rfl, rfl, rfl⟩ ⟨h.attributes, h.conditionals, h.skipping⟩

/-- A ruling that changes nothing. -/
theorem Agree.apply_idle {s t : Session} (h : Agree s t) :
    Both s t fun u =>
      (Ruling.set s.reader.conditionals s.reader.skipping).apply u.reader = u.reader := by
  intro u hu
  rcases h.both u hu with ⟨-, hconditionals, hskipping⟩
  rw [← hconditionals, ← hskipping]
  rfl

/-- Closing a conditional is decided alike in both sessions. -/
theorem closeConditional_abreast {s t : Session} (h : Agree s t) (c : Conditional)
    (target text : String) :
    ∃ ruling : Ruling, ruling.Fits c true ∧ Both s t fun u =>
      Ruled u.reader c true (ruling.apply u.reader) ∧
        Turns u (ruling.apply u.reader) [] (u.closeConditional target text) := by
  -- nothing but a record
  have hidle : ∀ records : Session → Log.Record,
      (Both s t fun u => u.closeConditional target text = u.log (records u)) →
      ∃ ruling : Ruling, ruling.Fits c true ∧ Both s t fun u =>
        Ruled u.reader c true (ruling.apply u.reader) ∧
          Turns u (ruling.apply u.reader) [] (u.closeConditional target text) := by
    intro records hlogged
    refine ⟨.set s.reader.conditionals s.reader.skipping, .set _ _, ?_⟩
    intro u hu
    rw [h.apply_idle u hu, hlogged u hu]
    exact ⟨.idle, (Turns.refl u).log _⟩
  by_cases htext : (text != "") = true
  · refine hidle (fun u => Log.error .reading
      s!"{u.place}: malformed preprocessor directive - text not permitted: endif::{target}[{text}]")
      ?_
    intro u _
    unfold closeConditional
    rw [if_pos htext]
  · cases hopen : s.reader.conditionals with
    | nil =>
      refine hidle (fun u => Log.error .reading
        s!"{u.place}: unmatched preprocessor directive: endif::{target}[]") ?_
      intro u hu
      have hnone : u.reader.conditionals = [] := (h.both u hu).2.1.trans hopen
      unfold closeConditional
      rw [if_neg htext, hnone]
    | cons top rest =>
      have htop : Both s t fun u => u.reader.conditionals = top :: rest := fun u hu =>
        (h.both u hu).2.1.trans hopen
      by_cases hmatch : (target == "" || target == top.target) = true
      · refine ⟨.set rest ((rest.head?.map (·.skipping)).getD false), .set _ _, ?_⟩
        intro u hu
        refine ⟨.closed top rest (htop u hu), ?_⟩
        unfold closeConditional
        rw [if_neg htext, htop u hu]
        simp only [hmatch, if_true]
        exact (Turns.refl u).move rfl
      · refine hidle (fun u => Log.error .reading
          (s!"{u.place}: mismatched preprocessor directive: endif::{target}[], " ++
            s!"expected endif::{top.target}[]")) ?_
        intro u hu
        unfold closeConditional
        rw [if_neg htext, htop u hu]
        simp only [hmatch]
        rfl

/-- The end of a region closes what is open. -/
theorem decide_of_endif {c : Conditional} (hend : (c.keyword == .endif) = true) (u : Session) :
    u.decide c = (true, u.closeConditional (lower c.target) (c.text.getD "")) := by
  unfold decide
  simp only [hend, if_true]

/-- While lines are skipped a region is opened that is skipped, and a single line does nothing. -/
theorem decide_of_skipping {c : Conditional} {u : Session} (hend : ¬ (c.keyword == .endif) = true)
    (hskip : u.reader.skipping = true) :
    u.decide c =
      (true, if c.keyword == .ifeval || c.text.getD "" == "" then
        u.openConditional (lower c.target) true true else u) := by
  unfold decide
  simp only [hend, hskip, if_true]
  rfl

/-- While lines are read the condition is looked at. -/
theorem decide_of_reading {c : Conditional} {u : Session} (hend : ¬ (c.keyword == .endif) = true)
    (hread : u.reader.skipping = false) :
    u.decide c =
      match Condition.skips u.doc.attributes { c with target := lower c.target } with
      | .error e => (true, u.log (Log.error .reading s!"{u.place}: {e.message}"))
      | .ok skip =>
        if c.keyword == .ifeval || c.text.getD "" == "" then
          (true, u.openConditional (lower c.target) skip skip)
        else if skip then (true, u) else (false, u.keepText (c.text.getD "")) := by
  unfold decide
  simp only [hend, hread]
  rfl

/-- A decision on a conditional is one of those that `Ruled` lists, the same one in two sessions. -/
def DecidedAlike (s t : Session) (c : Conditional) : Prop :=
  ∃ consumed, ∃ ruling : Ruling, ruling.Fits c consumed ∧ Both s t fun u =>
    Ruled u.reader c consumed (ruling.apply u.reader) ∧
      (u.decide c).1 = consumed ∧ Turns u (ruling.apply u.reader) [] (u.decide c).2

section DecidedAlike

variable {s t : Session} {c : Conditional}

/-- The line is passed, and the reader stays as it is. -/
theorem Agree.decidedAlike_passed (h : Agree s t)
    (hpassed : Both s t fun u => (u.decide c).1 = true ∧ Turns u u.reader [] (u.decide c).2) :
    DecidedAlike s t c := by
  refine ⟨true, .set s.reader.conditionals s.reader.skipping, .set _ _, ?_⟩
  intro u hu
  rw [h.apply_idle u hu]
  exact ⟨.idle, hpassed u hu⟩

/-- A region is opened that is skipped or not. -/
theorem Agree.decidedAlike_opened (h : Agree s t) (skip : Bool)
    (hstill : s.reader.skipping = true → skip = true)
    (hdecided : Both s t fun u =>
      u.decide c = (true, u.openConditional (lower c.target) skip skip)) :
    DecidedAlike s t c := by
  refine ⟨true, .set (⟨lower c.target, skip, skip⟩ :: s.reader.conditionals) skip, .set _ _, ?_⟩
  intro u hu
  rcases h.both u hu with ⟨-, hconditionals, hskipping⟩
  rw [← hconditionals, hdecided u hu]
  refine ⟨.opened _ _ _ (fun hskip => hstill ?_) rfl, rfl, (Turns.refl u).move rfl⟩
  rw [← hskipping]
  exact hskip

/-- A single line leaves its text in front. -/
theorem decidedAlike_kept {text : String} (hread : Both s t fun u => u.reader.skipping = false)
    (htext : c.text = some text) (hne : text ≠ "")
    (hdecided : Both s t fun u => u.decide c = (false, u.keepText text)) :
    DecidedAlike s t c := by
  refine ⟨false, .keep text, .keep text htext, ?_⟩
  intro u hu
  have hkeep : u.keepText text = u.withReader fun r => r.keeping text := rfl
  rw [hdecided u hu, hkeep]
  exact ⟨.kept text (hread u hu) htext hne, rfl, (Turns.refl u).move rfl⟩

/-- The end of a conditional is decided alike in both sessions. -/
theorem decide_abreast_endif (h : Agree s t) (hend : (c.keyword == .endif) = true) :
    DecidedAlike s t c := by
  rcases closeConditional_abreast h c (lower c.target) (c.text.getD "") with ⟨ruling, hfits, hboth⟩
  refine ⟨true, ruling, hfits, ?_⟩
  intro u hu
  rw [decide_of_endif hend]
  exact ⟨(hboth u hu).1, rfl, (hboth u hu).2⟩

/-- A conditional in a skipped region is decided alike in both sessions. -/
theorem decide_abreast_skipping (h : Agree s t) (hend : ¬ (c.keyword == .endif) = true)
    (hskip : s.reader.skipping = true) : DecidedAlike s t c := by
  have hdecide : Both s t fun u => u.decide c = _ := fun u hu =>
    decide_of_skipping hend ((h.both u hu).2.2.trans hskip)
  by_cases hblock : (c.keyword == .ifeval || c.text.getD "" == "") = true
  · simp only [hblock, if_true] at hdecide
    exact h.decidedAlike_opened true (fun _ => rfl) hdecide
  · refine h.decidedAlike_passed fun u hu => ?_
    simp only [hdecide u hu, if_neg hblock, true_and]
    exact Turns.refl u

/-- A conditional that is read is decided alike in both sessions. -/
theorem decide_abreast_reading (h : Agree s t) (hend : ¬ (c.keyword == .endif) = true)
    (hread : s.reader.skipping = false) : DecidedAlike s t c := by
  have hreading : Both s t fun u => u.reader.skipping = false := fun u hu =>
    (h.both u hu).2.2.trans hread
  have hdecide : Both s t fun u => u.decide c = _ := fun u hu =>
    decide_of_reading hend (hreading u hu)
  -- the condition is the same in both, since the attributes are
  have hattributes : Both s t fun u => u.doc.attributes = s.doc.attributes := fun u hu =>
    (h.both u hu).1
  cases hskips : Condition.skips s.doc.attributes { c with target := lower c.target } with
  | error e =>
    refine h.decidedAlike_passed fun u hu => ?_
    simp only [hdecide u hu, hattributes u hu, hskips, true_and]
    exact (Turns.refl u).log _
  | ok skip =>
    by_cases hblock : (c.keyword == .ifeval || c.text.getD "" == "") = true
    · refine h.decidedAlike_opened skip (fun hskip => by simp [hread] at hskip) fun u hu => ?_
      simp only [hdecide u hu, hattributes u hu, hskips, hblock, if_true]
    · cases skip with
      | true =>
        refine h.decidedAlike_passed fun u hu => ?_
        simp only [hdecide u hu, hattributes u hu, hskips, if_neg hblock, if_true, true_and]
        exact Turns.refl u
      | false =>
        cases htext : c.text with
        | none => simp [htext] at hblock
        | some text =>
          have hne : text ≠ "" := by
            intro heq
            simp [htext, heq] at hblock
          refine decidedAlike_kept hreading htext hne fun u hu => ?_
          simp only [hdecide u hu, hattributes u hu, hskips, hblock]
          simp [htext]

end DecidedAlike

/-- Two sessions that agree decide on a conditional alike. -/
theorem decide_abreast {s t : Session} (h : Agree s t) (c : Conditional) : DecidedAlike s t c := by
  by_cases hend : (c.keyword == .endif) = true
  · exact decide_abreast_endif h hend
  · cases hskipping : s.reader.skipping with
    | true => exact decide_abreast_skipping h hend hskipping
    | false => exact decide_abreast_reading h hend hskipping

/-- A conditional is reported with what it did, and its line is taken if it is used up. -/
theorem processConditional_abreast {s t : Session} (h : Agree s t) (c : Conditional) :
    ∃ consumed, ∃ ruling : Ruling, ruling.Fits c consumed ∧ Both s t fun u =>
      Ruled u.reader c consumed (ruling.apply u.reader) ∧
        Turns u (if consumed then (ruling.apply u.reader).shifted else ruling.apply u.reader)
          [c.event u.reader (ruling.apply u.reader) consumed] (u.processConditional c) := by
  rcases decide_abreast h c with ⟨consumed, ruling, hfits, hboth⟩
  refine ⟨consumed, ruling, hfits, ?_⟩
  intro u hu
  rcases hboth u hu with ⟨hruled, hconsumed, hdecided⟩
  refine ⟨hruled, ?_⟩
  have hreported := hdecided.report (c.event u.reader (u.decide c).2.reader (u.decide c).1)
  have hprocess : u.processConditional c =
      if (u.decide c).1 then
        ((u.decide c).2.report (c.event u.reader (u.decide c).2.reader (u.decide c).1)).withReader
          Reader.shifted
      else (u.decide c).2.report (c.event u.reader (u.decide c).2.reader (u.decide c).1) := rfl
  rw [hprocess]
  rw [hdecided.reader, hconsumed] at hreported ⊢
  cases consumed with
  -- the line is used up, so it is shifted
  | true => exact hreported.move rfl
  | false => exact hreported

end Session

end DocFlatten
