import DocFlatten.Attribute.Entry
import DocFlatten.Value

/-! # Attributes given by a caller

A caller sets attributes in a text of `name=value` words, in a list of such texts, or in a
mapping. `name!` unsets an attribute, as do the values null and false.
-/

namespace DocFlatten.Attribute

open DocFlatten.Text

/-- The attributes that a caller gives. -/
inductive Given where
  | nothing
  | words (text : String)
  | items (values : List Value)
  | mapping (entries : Mapping Value)
  deriving Inhabited

/-- Attribute settings by name: a value, or none to unset the attribute. -/
abbrev Settings := Mapping (Option String)

/-- The text that a value sets; none if it unsets. -/
def settingOf : Value → Option String
  | .null => none
  | .bool b => if b then some "" else none
  | v => some v.display

/-- A name and a setting, as they enter the settings: the name is trimmed and in lower
case, and a mark at its end unsets the attribute. -/
def namedSetting (name : String) (setting : Option String) : String × Option String :=
  let name := lower (strip name)
  if name.endsWith "!" then (String.ofList name.toList.dropLast, none) else (name, setting)

/-- The setting that a `name=value` text spells. -/
def wordSetting (text : String) : String × Option String :=
  let (name, value) := cut '=' text
  namedSetting name (some (value.getD ""))

/-- The settings that a caller's attributes mean. -/
def Given.settings : Given → Settings
  | .nothing => []
  | .words text => Mapping.ofList ((Text.words text).map wordSetting)
  | .items values => Mapping.ofList (values.map fun v => wordSetting v.display)
  | .mapping entries =>
    Mapping.ofList (entries.map fun entry => namedSetting entry.1 (settingOf entry.2))

end DocFlatten.Attribute
