import DocFlatten.Config.Flow
import DocFlatten.Config.Schema

/-! # Libraries

What a configuration is read and checked with comes from libraries. They are parameters: a
configuration is loaded in the same way whichever they are.
-/

namespace DocFlatten.Config

/-- The libraries that a configuration is read and checked with. -/
structure Libraries where
  /-- How the text of a data file is read. -/
  parse : Parser
  /-- What a value violates in a schema most visibly. -/
  violation? : Value → Value → Option Violation

/-- What stands in for the libraries: of data files, only those in flow style are read. -/
def Libraries.builtIn : Libraries :=
  { parse := Flow.read, violation? := Config.violation? }

end DocFlatten.Config
