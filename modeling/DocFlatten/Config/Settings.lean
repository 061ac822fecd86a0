import DocFlatten.Attribute.Given
import DocFlatten.Config.Cache
import DocFlatten.SafeMode

/-! # Settings

The settings that a reduction and the log take from a configuration. A configuration that was
not checked can hold values of any kind, so each setting can fail by itself.
-/

namespace DocFlatten.Config

/-- Why a setting has no value. -/
inductive SettingError where
  /-- A value that should hold further ones is no mapping. -/
  | notMapping
  | safeMode (e : SafeMode.ReadError)
  | integer (e : ToIntegerError)
  /-- An integer has too many digits to be written. -/
  | tooLong
  deriving Repr, DecidableEq

/-- The wording of an error. -/
def SettingError.message : SettingError → String
  | .notMapping => "a section is no mapping"
  | .safeMode e => e.message
  | .integer e => e.message
  | .tooLong =>
    s!"Exceeds the limit ({Number.digitLimit} digits) for integer string conversion; " ++
      "use sys.set_int_max_str_digits() to increase the limit"

/-- The text of a value. -/
def written (v : Value) : Except SettingError String :=
  if v.isWritable then .ok v.display else .error .tooLong

/-- A mapping of settings; anything that counts as not given is an empty one. -/
def mappingOf (v : Option Value) : Except SettingError (Mapping Value) :=
  match v with
  | none => .ok []
  | some (.mapping entries) => .ok entries
  | some v => if v.truthy then .error .notMapping else .ok []

/-- A section of a configuration. -/
def sectionOf (m : Mapping Value) (name : String) : Except SettingError (Mapping Value) :=
  mappingOf (Mapping.get? m name)

/-- A setting of a section, or what it is unless configured. -/
def settingOr (m : Mapping Value) (name key : String) (fallback : Value) :
    Except SettingError Value := do
  return (Mapping.get? (← sectionOf m name) key).getD fallback

/-! ## Reductions -/

/-- The safe mode of a reduction. -/
def safeMode (m : Mapping Value) : Except SettingError SafeMode := do
  match SafeMode.ofValue (← settingOr m "reducer" "safe" (.text "unsafe")) with
  | .ok mode => return mode
  | .error e => .error (.safeMode e)

/-- A setting that is on or off. -/
def switch (m : Mapping Value) (key : String) : Except SettingError Bool := do
  return (← settingOr m "reducer" key (.bool false)).truthy

/-- Whether blocks record where they start. -/
def sourcemap (m : Mapping Value) : Except SettingError Bool :=
  switch m "sourcemap"

/-- Whether conditional directives are kept. -/
def preserveConditionals (m : Mapping Value) : Except SettingError Bool :=
  switch m "preserveConditionals"

/-- Whether a reduced document ends with its include map. -/
def includeMap (m : Mapping Value) : Except SettingError Bool :=
  switch m "includeMap"

/-- How many includes may be nested. A limit that cannot be written is none, since it becomes an
attribute. -/
def maxIncludeDepth (m : Mapping Value) : Except SettingError Int := do
  match (← settingOr m "reducer" "maxIncludeDepth" (.int 64)).toInteger with
  | .ok n => if (Value.int n).isWritable then return n else throw .tooLong
  | .error e => throw (.integer e)

/-- The attribute that limits the nesting of includes. -/
def depthAttribute : String := "max-include-depth"

/-- The setting of an attribute that a value stands for. -/
def writtenSetting : Value → Except SettingError (Option String)
  | .null => .ok none
  | .bool b => .ok (if b then some "" else none)
  | v => (written v).map some

/-- The attributes that a configuration lists. -/
def listedAttributes (m : Mapping Value) : Except SettingError Attribute.Settings := do
  let entries ← mappingOf (Mapping.get? (← sectionOf m "reducer") "attributes")
  entries.mapM fun entry => do return (entry.1, ← writtenSetting entry.2)

/-- The attributes of every document: those that are configured, and the limit of nested
includes unless it is configured as an attribute. -/
def attributes (m : Mapping Value) : Except SettingError Attribute.Settings := do
  let settings ← listedAttributes m
  let depth ← maxIncludeDepth m
  return if Mapping.contains settings depthAttribute then settings
    else Mapping.insert settings depthAttribute (some (toString depth))

/-! ## The log -/

/-- The least level of records that are shown. -/
def logLevel (m : Mapping Value) : Except SettingError String := do
  written (← settingOr m "logging" "level" (.text "warn"))

/-- The format of records. -/
def logFormat (m : Mapping Value) : Except SettingError String := do
  written (← settingOr m "logging" "format" (.text defaultFormat))

/-! ## All settings -/

/-- A setting with its value and the layer that it comes from. -/
structure Setting where
  key : String
  value : Value
  source : String

/-- The source of settings that no layer gives. -/
def builtIn : String := "built-in"

/-- The setting of an attribute. The limit of nested includes comes from the setting of its
own unless it is configured as an attribute. -/
def attributeSetting (sources : Mapping String) (name : String) (value : Option String) : Setting :=
  let key := "reducer.attributes." ++ name
  let origin := if name == depthAttribute && !Mapping.contains sources key then
    "reducer.maxIncludeDepth" else key
  { key, value := (value.map Value.text).getD .null
    source := (Mapping.get? sources origin).getD builtIn }

/-- All settings as a reduction takes them. -/
def settings (m : Mapping Value) (sources : Mapping String) :
    Except SettingError (List Setting) := do
  let setting (key : String) (value : Value) : Setting :=
    { key, value, source := (Mapping.get? sources key).getD builtIn }
  let first := [
    setting "reducer.safe" (.text (← safeMode m).lowerName),
    setting "reducer.sourcemap" (.bool (← sourcemap m)),
    setting "reducer.preserveConditionals" (.bool (← preserveConditionals m)),
    setting "reducer.includeMap" (.bool (← includeMap m)),
    setting "reducer.maxIncludeDepth" (.int (← maxIncludeDepth m))]
  let middle := (← attributes m).map fun entry => attributeSetting sources entry.1 entry.2
  let last := [
    setting "logging.level" (.text (← logLevel m)),
    setting "logging.format" (.text (← logFormat m))]
  return first ++ middle ++ last

/-- Why the settings of a site cannot be told. -/
inductive SettingsError where
  /-- The home directory is not known that the path of the site starts from. -/
  | home
  | load (e : Error)
  | setting (e : SettingError)

/-- The wording of an error. -/
def SettingsError.message : SettingsError → String
  | .home => Path.homeMessage
  | .load e => e.message
  | .setting e => e.message

end DocFlatten.Config
