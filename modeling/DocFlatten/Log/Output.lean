import DocFlatten.Log.Format
import DocFlatten.Text.Blank
import DocFlatten.Text.LetterCase

/-! # Log output

Where the records of the library go. At most one handler is installed; it writes records to a
stream or drops them all. Records below the library's level are dropped before they reach it.
Records of others are none of our business.
-/

namespace DocFlatten.Log

/-- What is done with records. -/
inductive Handler where
  | silent
  /-- Write records to the stream with a number. -/
  | stream (index : Nat) (format : Format)

/-- The state of the log. -/
structure Output where
  /-- What was written to each stream. -/
  streams : List String
  /-- The least level of records; zero if none was set. -/
  level : Int
  /-- Whether records go on to the surrounding application. -/
  propagate : Bool
  handler : Option Handler

/-- Why the log cannot be configured. -/
inductive OutputError where
  | format (e : InvalidFormat)
  | unknownLevel (name : String)
  deriving Repr, DecidableEq

/-- The wording of an error. -/
def OutputError.message : OutputError → String
  | .format e => e.message
  | .unknownLevel name => s!"unknown log level: {name}"

namespace Output

/-- A log that nothing has been configured for. -/
def initial : Output :=
  { streams := [], level := 0, propagate := true, handler := none }

/-- The least level where none was set. -/
def defaultLevel : Int := Level.warning.number

/-- A level above all others. -/
def silentLevel : Int := Level.critical.number + 1

/-- The level with a name, whatever its letter case and the blanks around it. -/
def levelOf? (name : String) : Option Int :=
  (Text.asciiCapitals? (Text.strip name)).bind fun capitals =>
    (levelNumbers.find? (·.1 == capitals)).map (·.2)

/-- Install a handler that writes to a new stream the records from a level on, or drops all
records if there is no level. The handler before it is gone even if this fails. -/
def configure (o : Output) (level : Option String) (format : String) :
    Except OutputError Unit × Output :=
  let index := o.streams.length
  let o := { o with streams := o.streams ++ [""], handler := none }
  match level with
  | none =>
    (.ok (), { o with level := silentLevel, propagate := false, handler := some .silent })
  | some name =>
    match Format.ofText format with
    | .error e => (.error (.format e), o)
    | .ok format =>
      match levelOf? name with
      | none => (.error (.unknownLevel name), o)
      | some level =>
        (.ok (), { o with level, propagate := false, handler := some (.stream index format) })

/-- Remove the handler and the level. -/
def reset (o : Output) : Output :=
  { o with level := 0, propagate := true, handler := none }

/-- Whether a record is the library's own. -/
def isOwn (name : String) : Bool :=
  name == packageName || name.startsWith (packageName ++ ".")

/-- The least level of records that are written. -/
def threshold (o : Output) : Int :=
  if o.level == 0 then defaultLevel else o.level

/-- Add a text to the stream with a number. -/
def append (o : Output) (index : Nat) (s : String) : Output :=
  { o with streams := o.streams.modify index (· ++ s) }

/-- Log a record. -/
def write (o : Output) (e : Entry) : Output :=
  if isOwn e.name && o.threshold ≤ e.level then
    match o.handler with
    | some (.stream index format) =>
      match format.line? e with
      | some line => o.append index line
      | none => o
    | _ => o
  else o

end Output

end DocFlatten.Log
