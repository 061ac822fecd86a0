import DocFlatten.CommandLine.Invocation
import DocFlatten.Config.Settings
import DocFlatten.Delivery
import DocFlatten.Log.Output

/-! # Outcomes of commands

What a command sees and what it leaves behind. A command ends with a status, or it crashes on
an error that no one is prepared for; what was written until then stays.
-/

namespace DocFlatten.Command

/-- Whether the variables that override settings can be read: none of them spells a lone surrogate,
which no text has here, or opens more brackets than the stack has room for. -/
def isReadable (host : Host) (environment : Mapping String) : Bool :=
  (Config.overridingVariables environment).all fun entry =>
    Json.brackets entry.2 ≤ host.stack && !(Config.coerce entry.2 matches .error .surrogate)

/-- What a command sees. -/
structure Surroundings where
  files : FileTree
  environment : Mapping String
  /-- The directory of the bundled data. -/
  dataDir : String
  /-- The standard input, or why it is no text. -/
  input : Except Text.Utf8Error String
  host : Host := {}
  libraries : Config.Libraries := .builtIn
  readable : isReadable host environment = true

/-- Where the configuration is read: in the given directory, or else in the working directory.
There is none if a home directory is not known. -/
def Surroundings.site? (w : Surroundings) (root : Option String) : Option Config.Site :=
  (Path.expand? w.host.homes ((root.filter (· != "")).getD ".")).map fun path =>
    { files := w.files, environment := w.environment, dataDir := w.dataDir
      root := Path.resolve w.files.workingDir path, libraries := w.libraries }

/-- An error that no one is prepared for. -/
inductive Crash where
  /-- A home directory is not known. -/
  | home
  | config (e : Config.Error)
  | setting (e : Config.SettingError)
  | log (e : Log.OutputError)
  | delivery (e : DeliveryError)
  | text (e : TextError)

/-- The wording of an error. -/
def Crash.message : Crash → String
  | .home => Path.homeMessage
  | .config e => e.message
  | .setting e => e.message
  | .log e => e.message
  | .delivery e => e.message
  | .text e => e.message

/-- What a command leaves behind. -/
structure Outcome where
  files : FileTree
  output : String := ""
  errors : String := ""
  status : Except Crash Nat := .ok 0

namespace Outcome

/-- A line that the program itself writes on an error. -/
def complaint (message : String) : String :=
  CommandLine.programName ++ ": " ++ message ++ "\n"

/-- The outcome of a command that wrote an output. -/
def done (files : FileTree) (output : String) : Outcome :=
  { files, output }

/-- The outcome of a command that crashed at once. -/
def crashed (files : FileTree) (e : Crash) : Outcome :=
  { files, status := .error e }

/-- The outcome of a command that failed with a complaint. -/
def failed (files : FileTree) (message : String) : Outcome :=
  { files, errors := complaint message, status := .ok 1 }

/-- A report of a failure, as JSON if asked for. -/
def report (json : Bool) (code message : String) (context : Option (Mapping Value)) : String :=
  if json then
    let entries := [("error", Value.text code), ("message", .text message)] ++
      (context.map fun c => ("context", Value.mapping c)).toList
    Json.render (.mapping entries) ++ "\n"
  else complaint message

/-- The outcome of a command that failed with a report. -/
def reported (files : FileTree) (json : Bool) (code message : String)
    (context : Option (Mapping Value)) : Outcome :=
  { files, errors := report json code message context, status := .ok 1 }

end Outcome

end DocFlatten.Command
