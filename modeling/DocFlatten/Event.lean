import DocFlatten.Directive
import DocFlatten.Log.Record
import DocFlatten.Reader

/-! # Events

What a reader reports about the directives it has acted on, in the order of reading. Events
say what was decided; nothing that observes them changes how a document is read. The journal
of a reading holds its events, its log records and the lines that were looked at or taken in one
sequence.
-/

namespace DocFlatten

/-- A conditional directive after it was acted on. -/
structure ConditionalEvent where
  directive : Conditional
  lineno : Int
  skippingBefore : Bool
  skippingAfter : Bool
  depthBefore : Int
  depthAfter : Int
  /-- Whether the text of a single-line conditional took the place of the directive. -/
  retained : Bool
  deriving Repr, DecidableEq

/-- An include directive before it is acted on. -/
structure IncludeEvent where
  directive : Include
  lineno : Int
  deriving Repr, DecidableEq

/-- How an include directive was acted on. -/
inductive Outcome where
  /-- A new scope was entered: its lines, the number of the first line of its content, how
  many lines were added in front of that content, and the depth inside. -/
  | entered (lines : List String) (lineno frame depth : Int)
  /-- One line took the place of the directive. -/
  | replaced (line : String) (depth : Int)
  /-- The directive left nothing behind. -/
  | vanished (depth : Int)
  deriving Repr, DecidableEq

/-- What a reader reports. -/
inductive Event where
  | conditional (e : ConditionalEvent)
  | includeFound (e : IncludeEvent)
  | includeResolved (o : Outcome)
  | scopeEnd (depthBefore depthAfter : Int)
  deriving Repr, DecidableEq

/-- A line that was taken from a reader. -/
structure Taken where
  /-- The line as its scope spells it. -/
  spelled : String
  /-- The line as content, without a backslash that keeps it from being a directive. -/
  shown : String
  /-- Where it was. -/
  cursor : Cursor
  /-- Whether it was taken inside a false conditional. -/
  skipping : Bool
  deriving Repr, DecidableEq

/-- A line that was looked at, before it was acted on. -/
structure Looked where
  line : String
  /-- Where it was. -/
  cursor : Cursor
  /-- Whether it was inside a false conditional. -/
  skipping : Bool
  deriving Repr, DecidableEq

/-- An event, a log record, or a line that was looked at or taken. -/
inductive JournalEntry where
  | event (e : Event)
  | record (r : Log.Record)
  | taken (t : Taken)
  | looked (l : Looked)
  deriving Repr, DecidableEq

/-- What happened in a reading, in the order in which it occurred. -/
abbrev Journal := Array JournalEntry

namespace Journal

/-- A journal of log records only. -/
def ofRecords (records : List Log.Record) : Journal :=
  (records.map .record).toArray

/-- The events of a journal. -/
def events (j : Journal) : List Event :=
  j.toList.filterMap fun
    | .event e => some e
    | _ => none

/-- The log records of a journal. -/
def records (j : Journal) : List Log.Record :=
  j.toList.filterMap fun
    | .record r => some r
    | _ => none

/-- The lines that were taken. -/
def taken (j : Journal) : List Taken :=
  j.toList.filterMap fun
    | .taken t => some t
    | _ => none

/-- The lines that were looked at. -/
def looked (j : Journal) : List Looked :=
  j.toList.filterMap fun
    | .looked l => some l
    | _ => none

end Journal

end DocFlatten
