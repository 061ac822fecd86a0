/-! # Log records

What the library reports while it works: a level and a message.
-/

namespace DocFlatten.Log

/-- How serious a record is. -/
inductive Level where
  | debug
  | info
  | warning
  | error
  | critical
  deriving Repr, DecidableEq

/-- The number that orders levels. -/
def Level.number : Level → Int
  | .debug => 10
  | .info => 20
  | .warning => 30
  | .error => 40
  | .critical => 50

/-- The name a record shows. -/
def Level.name : Level → String
  | .debug => "DEBUG"
  | .info => "INFO"
  | .warning => "WARNING"
  | .error => "ERROR"
  | .critical => "CRITICAL"

/-- What a record is about. -/
inductive Topic where
  | attributes
  | blocks
  | conditionals
  | configuration
  | delivery
  | includes
  | reading
  | rebuilding
  | reduction
  | replay
  | selection
  deriving Repr, DecidableEq

/-- The name that all topics start with. -/
def packageName : String := "adoc_reducer"

/-- The name a record shows for its topic. -/
def Topic.name : Topic → String
  | .attributes => "adoc_reducer.core.document.attributes"
  | .blocks => "adoc_reducer.core.document.parser"
  | .conditionals => "adoc_reducer.core.reduction.conditional_tracker"
  | .configuration => "adoc_reducer.core.config.manager"
  | .delivery => "adoc_reducer.api"
  | .includes => "adoc_reducer.core.reduction.include_tracker"
  | .reading => "adoc_reducer.core.document.reader"
  | .rebuilding => "adoc_reducer.core.reduction.rebuild"
  | .reduction => "adoc_reducer.core.reduction.reducer"
  | .replay => "adoc_reducer.core.reduction.replay"
  | .selection => "adoc_reducer.core.document.includes"

/-- A message with its level and topic. -/
structure Record where
  level : Level
  topic : Topic
  message : String
  deriving Repr, DecidableEq

/-- A record for those who look for a fault in detail. -/
def debug (topic : Topic) (message : String) : Record := ⟨.debug, topic, message⟩

/-- A record of something unusual but wanted. -/
def info (topic : Topic) (message : String) : Record := ⟨.info, topic, message⟩

/-- A record of something that is probably a mistake. -/
def warning (topic : Topic) (message : String) : Record := ⟨.warning, topic, message⟩

/-- A record of something that could not be done. -/
def error (topic : Topic) (message : String) : Record := ⟨.error, topic, message⟩

end DocFlatten.Log

namespace DocFlatten

/-- A result with the log of what was done for it. -/
structure Logged (α : Type) where
  value : α
  log : List Log.Record

end DocFlatten
