import DocFlatten.Value

/-! # Failures

The failures that the library reports on its own account: each has a kind, a message and a
context for those who evaluate reports by program.
-/

namespace DocFlatten

/-- What has failed. -/
inductive FailureKind where
  | general
  | config
  | inputNotFound
  | output
  deriving Repr, DecidableEq

namespace FailureKind

/-- All kinds. -/
def all : List FailureKind := [general, config, inputNotFound, output]

/-- The code that a report gives for a kind. -/
def code : FailureKind → String
  | general => "ReducerError"
  | config => "ConfigError"
  | inputNotFound => "InputNotFoundError"
  | output => "OutputError"

end FailureKind

/-- A failure with what is known about it. -/
structure Failure where
  kind : FailureKind
  message : String
  context : Mapping Value := []
  deriving Repr

namespace Failure

/-- A failure as a value: message, code and context. -/
def report (f : Failure) : Value :=
  .mapping [("message", .text f.message), ("code", .text f.kind.code),
    ("context", .mapping f.context)]

/-- A failure that concerns a path. -/
def ofPath (kind : FailureKind) (path message : String) : Failure :=
  { kind, message, context := [("path", .text path)] }

end Failure

end DocFlatten
