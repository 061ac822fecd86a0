import DocFlatten.Command.Outcome

/-! # The reduce command

Reduces a document to a single file. What the command line leaves open comes from the
configuration; the attributes of both are joined, and those of the command line win.
-/

namespace DocFlatten.Command

open DocFlatten.CommandLine

/-- Everything that a reduction is asked for. -/
structure ReducePlan where
  load : LoadOptions
  options : ReduceOptions

/-- The attributes of the configuration with those of the command line over them. -/
def joinAttributes (configured : Attribute.Settings) (flags : List String) : Attribute.Settings :=
  Mapping.insertAll configured (Attribute.Given.items (flags.map .text)).settings

/-- What a reduction is asked for by a configuration and a command line. -/
def planOf (m : Mapping Value) (a : ReduceArguments) : Except Config.SettingError ReducePlan := do
  let attributes := joinAttributes (← Config.attributes m) a.attributes
  let safe ← match a.safe with
    | some name => pure (Value.text name)
    | none => do pure (Value.int (← Config.safeMode m).level)
  let sourcemap ← Config.sourcemap m
  let preserve ← if a.preserveConditionals then pure true else Config.preserveConditionals m
  let map ← if a.includeMap then pure true else Config.includeMap m
  return {
    load := { attributes := Document.givenAgain attributes, safe, sourcemap }
    options := { preserveConditionals := preserve, includeMap := map } }

/-- The least level of the records that are shown; none if the command is to be quiet. -/
def logLevel (m : Mapping Value) (a : ReduceArguments) :
    Except Config.SettingError (Option String) :=
  if a.quiet then .ok none
  else match a.logLevel with
    | some name => .ok (some name)
    | none => (Config.logLevel m).map some

/-- The log of a command, which goes to the standard error stream. -/
def openLog (m : Mapping Value) (a : ReduceArguments) : Except Crash Log.Output := do
  let level ← (logLevel m a).mapError .setting
  let format ← (Config.logFormat m).mapError .setting
  match Log.Output.initial.configure level format with
  | (.ok (), log) => return log
  | (.error e, _) => throw (.log e)

/-- What a log has written. -/
def written (log : Log.Output) (records : List Log.Record) : String :=
  ((records.foldl (fun log r => log.write r.entry) log).streams.head?).getD ""

/-- Where the document comes from. The standard input may be no text. -/
def inputOf (w : Surroundings) (a : ReduceArguments) : Except Text.Utf8Error Input :=
  if a.file == standardStream then w.input.map fun s => .stream s none else .ok (.file a.file)

/-- Where the reduced document goes. -/
def targetOf (a : ReduceArguments) : Target :=
  if a.output == standardStream then .text else .ofPath (Path.tidy a.output)

/-- What a delivery leads to. -/
def outcomeOf (w : Surroundings) (target : Target) (errors : String) :
    Except DeliveryError Delivered → Outcome
  | .ok d =>
    { files := d.files, errors
      output := match target with
        | .text => d.document.output
        | _ => "" }
  | .error (.failure f) =>
    { files := w.files, errors := errors ++ Outcome.complaint f.message, status := .ok 1 }
  | .error (.load (.file (.file e))) | .error (.load (.refused e _)) | .error (.system e) =>
    { files := w.files, errors := errors ++ Outcome.complaint e.message, status := .ok 1 }
  | .error e => { files := w.files, errors, status := .error (.delivery e) }

/-- Reduce a document as a configuration and a command line ask for. -/
def reduceWith (fuel : Nat) (w : Surroundings) (a : ReduceArguments) (m : Mapping Value) :
    Outcome :=
  match openLog m a with
  | .error e => .crashed w.files e
  | .ok log =>
    match planOf m a with
    | .error e => .crashed w.files (.setting e)
    | .ok plan =>
      match inputOf w a with
      | .error e => .crashed w.files (.text (.encoding e))
      | .ok input =>
        let target := targetOf a
        let delivery := deliver fuel w.host w.files input plan.load plan.options target
        outcomeOf w target (written log delivery.log) delivery.value

/-- The outcome of a command whose configuration cannot be loaded. -/
def configFailed (w : Surroundings) (e : Config.Error) : Outcome :=
  match e.failure?, e with
  | some f, _ => .failed w.files f.message
  | none, .system e => .failed w.files e.message
  | none, e => .crashed w.files (.config e)

/-- Reduce a document as a command line asks for. -/
def reduce (fuel : Nat) (w : Surroundings) (a : ReduceArguments) : Outcome :=
  match w.site? a.root with
  | none => .crashed w.files .home
  | some site =>
    match (site.loadCached false []).value with
    | .error e => configFailed w e
    | .ok m => reduceWith fuel w a m

end DocFlatten.Command
