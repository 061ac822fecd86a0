import DocFlatten.Value
import DocFlatten.Text.LetterCase

/-! # Safe modes

How much a document may reach outside of itself. In the secure mode every include becomes
a link to its target; from the server mode on the location of the document is hidden.
-/

namespace DocFlatten

/-- The safe modes, from the most liberal to the strictest. -/
inductive SafeMode where
  | unsafeMode
  | safe
  | server
  | secure
  deriving Repr, DecidableEq

namespace SafeMode

/-- All modes. -/
def all : List SafeMode := [unsafeMode, safe, server, secure]

/-- The name in capitals. -/
def name : SafeMode → String
  | unsafeMode => "UNSAFE"
  | safe => "SAFE"
  | server => "SERVER"
  | secure => "SECURE"

/-- The name in small letters, as documents see it. -/
def lowerName : SafeMode → String
  | unsafeMode => "unsafe"
  | safe => "safe"
  | server => "server"
  | secure => "secure"

/-- The number of a mode; a stricter mode has a higher one. -/
def level : SafeMode → Nat
  | unsafeMode => 0
  | safe => 1
  | server => 10
  | secure => 20

/-- Why a value names no mode. -/
inductive ReadError where
  | unknownName (shown : String)
  | unknownLevel (shown : String)
  deriving Repr, DecidableEq

/-- The wording of a refusal. -/
def ReadError.message : ReadError → String
  | .unknownName shown => s!"Unknown safe mode: {shown}"
  | .unknownLevel shown => s!"{shown} is not a valid SafeMode"

/-- The mode of a level. -/
def ofLevel? (n : Int) : Option SafeMode :=
  all.find? fun mode => Int.ofNat mode.level == n

/-- The mode with a name, whatever its letter case and the blanks around it. -/
def ofName? (s : String) : Option SafeMode :=
  match Text.asciiCapitals? (Text.strip s) with
  | some capitals => all.find? fun mode => mode.name == capitals
  | none => none

/-- The mode that a value gives: by number, or by the name that its text spells. Nothing
given means the safe mode. -/
def ofValue : Value → Except ReadError SafeMode
  | .null => .ok safe
  | .bool b => .ok (if b then safe else unsafeMode)
  | .int n =>
    match ofLevel? n with
    | some mode => .ok mode
    | none => .error (.unknownLevel (toString n))
  | v =>
    match ofName? v.display with
    | some mode => .ok mode
    | none => .error (.unknownName v.display)

end SafeMode

end DocFlatten
