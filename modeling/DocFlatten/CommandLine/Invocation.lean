import DocFlatten.CommandLine.Grammar
import DocFlatten.Text.Lines

/-! # Invocations

The commands of the program with their options, and what a command line asks for.
-/

namespace DocFlatten.CommandLine

/-- The name of the program. -/
def programName : String := "adoc-reducer"

/-- The version of the program. -/
def programVersion : String := "1.0.0"

/-- What stands for the standard streams in the place of a file. -/
def standardStream : String := "-"

/-- What the reduction of a document is asked for. -/
structure ReduceArguments where
  file : String
  output : String
  attributes : List String
  preserveConditionals : Bool
  includeMap : Bool
  safe : Option String
  logLevel : Option String
  quiet : Bool
  root : Option String
  deriving Repr, DecidableEq

/-- What a command line asks for. -/
inductive Invocation where
  /-- No command was given. -/
  | overview
  | reduce (arguments : ReduceArguments)
  /-- List the include map of a reduced document. -/
  | includes (file : String) (json : Bool)
  /-- Show settings: all, or one and those below it. -/
  | config (key : Option String) (json : Bool) (root : Option String)
  deriving Repr, DecidableEq

/-! ## Grammars -/

/-- The option that asks for the usage. -/
def helpOption : Spec :=
  { name := "--help", aliases := ["-h"], stops := some .help }

/-- The option that asks for JSON. -/
def jsonOption : Spec :=
  { name := "--json" }

/-- The option that names the directory of the configuration. -/
def rootOption : Spec :=
  { name := "--repo-root", parameter := .any }

/-- The command line before the command. -/
def mainGrammar : Grammar :=
  { options := [helpOption, { name := "--version", stops := some .version }]
    operands := .command ["config", "includes", "reduce"] }

/-- The command line of a reduction. -/
def reduceGrammar : Grammar :=
  { options := [
      helpOption,
      { name := "--output", aliases := ["-o"], parameter := .any },
      { name := "--attribute", aliases := ["-a"], parameter := .any },
      { name := "--preserve-conditionals" },
      { name := "--include-map" },
      { name := "--safe", aliases := ["--safe-mode", "-S"]
        parameter := .oneOf ["unsafe", "safe", "server", "secure"] },
      { name := "--log-level"
        parameter := .oneOf ["debug", "info", "warn", "error", "fatal"] },
      { name := "--quiet", aliases := ["-q"] },
      rootOption]
    operands := .required }

/-- The command line that lists an include map. -/
def includesGrammar : Grammar :=
  { options := [helpOption, jsonOption], operands := .required }

/-- The command line that shows settings. -/
def configGrammar : Grammar :=
  { options := [helpOption, jsonOption, rootOption], operands := .optional }

/-! ## Reading -/

/-- What a command line of a reduction asks for. -/
def ReduceArguments.ofReading (r : Reading) : ReduceArguments :=
  { file := r.operand.getD "", output := (r.last? "--output").getD standardStream
    attributes := r.all "--attribute", preserveConditionals := r.has "--preserve-conditionals"
    includeMap := r.has "--include-map", safe := r.last? "--safe"
    logLevel := r.last? "--log-level", quiet := r.has "--quiet", root := r.last? "--repo-root" }

/-- The grammar of a command, and what its command line asks for. -/
def commandOf (name : String) : Grammar × (Reading → Invocation) :=
  if name == "reduce" then (reduceGrammar, fun r => .reduce (.ofReading r))
  else if name == "includes" then
    (includesGrammar, fun r => .includes (r.operand.getD "") (r.has "--json"))
  else
    (configGrammar, fun r => .config r.operand (r.has "--json") (r.last? "--repo-root"))

/-- What a command line asks for. Unknown words are refused after everything else. -/
def Invocation.read (args : List String) : Except Stop Invocation := do
  let main ← CommandLine.read mainGrammar args
  match main.operand with
  | none => if main.unknown then .error .refused else return .overview
  | some name =>
    let (grammar, invocation) := commandOf name
    let r ← CommandLine.read grammar main.rest
    if main.unknown || r.unknown then .error .refused else return invocation r

/-- Whether the standard input is read. -/
def Invocation.readsInput : Invocation → Bool
  | .reduce a => a.file == standardStream
  | _ => false

/-- The paths that are read from. -/
def Invocation.sources : Invocation → List String
  | .overview => []
  | .reduce a => (if a.file == standardStream then [] else [a.file]) ++ a.root.toList
  | .includes file _ => [file]
  | .config _ _ root => root.toList

/-- How the program is used. -/
def usage : String := Text.unlines [
  "usage: adoc-reducer [-h] [--version] <command> ...",
  "",
  "commands:",
  "  config    [--json] [--repo-root DIR] [KEY]",
  "            show the settings that a reduction falls back to",
  "  includes  [--json] FILE",
  "            list the includes recorded in a reduced document",
  "  reduce    [-o FILE] [-a KEY[=VALUE]] [--preserve-conditionals] [--include-map]",
  "            [-S MODE] [--log-level LEVEL] [-q] [--repo-root DIR] FILE",
  "            reduce a document to a single file"] ++ "\n"

end DocFlatten.CommandLine
