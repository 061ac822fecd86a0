import DocFlatten.Config.Validation
import DocFlatten.Failure
import DocFlatten.Log.Record

/-! # Overrides

Variables of the environment override single settings. The name of a variable spells the path
to a setting, its parts separated by two underscores; the keys on the way are matched whatever
their letter case, underscores and hyphens. The text of a variable is read as the value it
most looks like.
-/

namespace DocFlatten.Config

open DocFlatten.Text

/-- How the names of the variables start that override settings. -/
def variableStart : String := "ADOC_REDUCER_"

/-- Why a configuration cannot be loaded. -/
inductive Error where
  | invalidFile (path : String) (reason : DataError)
  | notMapping (path : String)
  | emptySegment (name : String)
  | traversesValue (path : List String)
  | number (e : Number.IntegerError)
  /-- A variable spells a lone surrogate, which no text has here. -/
  | surrogate (name : String)
  /-- The system refuses to look up a directory. -/
  | system (e : FileError)
  | validation (schemaName : String) (e : ValidationError)
  deriving Repr, DecidableEq

/-- The failure that an error is reported as, if it is the configuration's own fault. -/
def Error.failure? : Error → Option Failure
  | .invalidFile path reason =>
    some (.ofPath .config path s!"Invalid configuration file {path}: {reason.message}")
  | .notMapping path =>
    some (.ofPath .config path s!"Configuration file {path} must contain a mapping")
  | .emptySegment name =>
    some { kind := .config
           message := s!"Malformed {variableStart}* key: empty segment in '{name}'." }
  | .traversesValue path =>
    let shown := ".".intercalate path
    some { kind := .config
           message := s!"Cannot override {shown}: path traverses a non-mapping value" }
  | .validation name (.violated schemaName v) =>
    some { kind := .config, message := (ValidationError.violated schemaName v).message
           context := [("schema", .text name)] }
  | .number _ | .surrogate _ | .system _ | .validation _ _ => none

/-- The wording of an error. -/
def Error.message (e : Error) : String :=
  match e.failure?, e with
  | some f, _ => f.message
  | none, .number e => e.message
  | none, .surrogate name => s!"a lone surrogate in {variableStart}{name}"
  | none, .system e => e.message
  | none, .validation _ e => e.message
  | none, _ => ""

/-! ## Values -/

/-- Whether a text stands between the brackets of a JSON mapping or list. -/
def isBracketed (cs : List Char) : Bool :=
  match cs with
  | first :: rest =>
    (first == '\x7b' && rest.getLast? == some '\x7d') || (first == '[' && rest.getLast? == some ']')
  | [] => false

/-- Why the text of a variable has no value. -/
inductive CoerceError where
  | number (e : Number.IntegerError)
  | surrogate
  deriving Repr, DecidableEq

/-- The value that the text of a variable looks like: a truth value, a number, JSON between
brackets, otherwise the text without the blanks around it. -/
def coerce (s : String) : Except CoerceError Value :=
  let body := strip s
  if lower body == "true" then .ok (.bool true)
  else if lower body == "false" then .ok (.bool false)
  -- digits beyond what an integer can have are an error, and no text
  else if Number.isPlainInteger body.toList then
    match Number.readInteger s with
    | .ok n => .ok (.int n)
    | .error e => .error (.number e)
  else match Number.readPointed? body.toList with
    | some x => .ok (.float x)
    | none =>
      if isBracketed body.toList then
        match Json.read body with
        | .ok v => .ok v
        | .error (.number e) => .error (.number e)
        | .error .surrogate => .error .surrogate
        -- what only looks like JSON is a text
        | .error .malformed => .ok (.text body)
      else .ok (.text body)

/-! ## Paths -/

/-- The pieces of a text between pairs of underscores. -/
def splitPairs : List Char → List (List Char)
  | '_' :: '_' :: rest => [] :: splitPairs rest
  | c :: rest =>
    match splitPairs rest with
    | [] => [[c]]
    | piece :: pieces => (c :: piece) :: pieces
  | [] => [[]]

/-- The path that the name of a variable spells, after its common start. A name with an empty
part spells none, which is an error only if `strict` is set. -/
def variablePath (strict : Bool) (name : String) : Except Error (List String) :=
  if name == "" then .ok []
  else
    let pieces := splitPairs name.toList
    if pieces.any (·.isEmpty) then if strict then .error (.emptySegment name) else .ok []
    else .ok (pieces.map fun piece => lower (String.ofList piece))

/-- A key as it is compared: in lower case, without underscores and hyphens. -/
def canonical (key : String) : String :=
  lower (String.ofList (key.toList.filter fun c => c != '_' && c != '-'))

/-- The key of a mapping that a part of a path means: the last one that compares equal, a new
one if there is none. -/
def matchKey (m : Mapping Value) (part : String) : String :=
  ((Mapping.keys m).reverse.find? fun key => canonical key == canonical part).getD part

/-- Set the value at a path, with mappings made on the way where there is nothing. The result
has the keys that were used; there is none if a value on the way is no mapping. -/
def assign? : Mapping Value → List String → Value → Option (List String × Mapping Value)
  | m, [], _ => some ([], m)
  | m, [part], v =>
    let key := matchKey m part
    some ([key], Mapping.insert m key v)
  | m, part :: rest, v =>
    let key := matchKey m part
    -- a key that is missing stands for an empty mapping
    match (Mapping.get? m key).getD (.mapping []) with
    | .mapping inner =>
      (assign? inner rest v).map fun (keys, inner) =>
        (key :: keys, Mapping.insert m key (.mapping inner))
    | _ => none

/-- Set the value at a path. -/
def assign (m : Mapping Value) (path : List String) (v : Value) :
    Except Error (List String × Mapping Value) :=
  match assign? m path v with
  | some result => .ok result
  | none => .error (.traversesValue path)

/-- Set the value at a path of a mapping in which others may be shared. -/
def assignShared (shared : Sharing) (m : Mapping Value) (path : List String) (v : Value) :
    Except Error (List String × Mapping Value × Sharing) := do
  let (keys, m) ← assign m path v
  return (keys, shared.spread m (keys.map .key))

/-! ## Variables -/

/-- What a variable overrides. -/
structure Override where
  /-- The name of the variable after the common start. -/
  name : String
  path : List String
  value : Value

/-- The variables that override settings, in the order of their names, which are given after
their common start. -/
def overridingVariables (environment : Mapping String) : Mapping String :=
  ((environment.filter fun entry => entry.1.startsWith variableStart).mergeSort
    fun a b => a.1 ≤ b.1).map fun entry =>
      (String.ofList (entry.1.toList.drop variableStart.length), entry.2)

/-- The override that a variable stands for, if it spells a path. -/
def overrideOf (strict : Bool) (name text : String) : Except Error (Option Override) := do
  match ← variablePath strict name with
  | [] => return none
  | path =>
    match coerce text with
    | .ok value => return some { name, path, value }
    | .error (.number e) => .error (.number e)
    | .error .surrogate => .error (.surrogate name)

/-- The overrides that variables stand for. -/
def overridesOf (strict : Bool) (environment : Mapping String) : Except Error (List Override) := do
  let found ← environment.mapM fun entry => overrideOf strict entry.1 entry.2
  return found.filterMap id

/-- Apply the overrides of variables in order to a mapping in which others may be shared. -/
def applyOverrides (strict : Bool) (shared : Sharing) (m : Mapping Value) :
    List (String × String) → Logged (Except Error (Mapping Value))
  | [] => { value := .ok m, log := [] }
  | (name, text) :: rest =>
    match overrideOf strict name text with
    | .error e => { value := .error e, log := [] }
    | .ok none => applyOverrides strict shared m rest
    | .ok (some o) =>
      let record := Log.debug .configuration s!"Config override from {variableStart}{name}"
      match assignShared shared m o.path o.value with
      | .error e => { value := .error e, log := [record] }
      | .ok (_, m, shared) =>
        let result := applyOverrides strict shared m rest
        { result with log := record :: result.log }

end DocFlatten.Config
