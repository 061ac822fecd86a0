import DocFlatten.Command.Outcome

/-! # The config command

Shows the settings that a reduction falls back to, each with the layer it comes from.
-/

namespace DocFlatten.Command

open DocFlatten.Config

/-- Whether a setting is the one that is wanted or lies below it. -/
def isWanted (wanted : String) (s : Setting) : Bool :=
  s.key == wanted || isBelow s.key wanted

/-- A value as the list of settings shows it. -/
def shownValue : Value → String
  | .bool b => if b then "true" else "false"
  | .null => "unset"
  | .text "" => "\"\""
  | v => v.display

/-- Settings as text: keys in a column as wide as the widest one. -/
def settingsText (settings : List Setting) : String :=
  let width := (settings.map (·.key.length)).foldl max 0
  String.join (settings.map fun s =>
    s.key ++ String.ofList (List.replicate (width - s.key.length) ' ') ++ "  " ++
      shownValue s.value ++ "  (" ++ s.source ++ ")\n")

/-- Settings as JSON. -/
def settingsJson (settings : List Setting) : String :=
  Json.render (.mapping (Mapping.ofList (settings.map fun s =>
    (s.key, .mapping [("value", s.value), ("source", .text s.source)])))) ++ "\n"

/-- All settings of a valid configuration. -/
def loadSettings (w : Surroundings) (root : Option String) : Except SettingsError (List Setting) := do
  let some site := w.site? root | throw .home
  let m ← (site.load true []).value.mapError .load
  let sources ← site.sources.mapError .load
  (settings m sources).mapError .setting

/-- The failure that an error is reported as, if it is the configuration's own fault. -/
def failure? : SettingsError → Option Failure
  | .load e => e.failure?
  | .home | .setting _ => none

/-- Show settings: all, or one and those below it. -/
def showSettings (w : Surroundings) (key : Option String) (json : Bool) (root : Option String) :
    Outcome :=
  match loadSettings w root with
  | .error e => .reported w.files json "config_error" e.message ((failure? e).map (·.context))
  | .ok all =>
    let wanted := key.filter (· != "")
    let shown := match wanted with
      | some key => all.filter (isWanted key)
      | none => all
    if shown.isEmpty then
      let key := wanted.getD ""
      { files := w.files, output := s!"Key not found: {key}\n", status := .ok 1 }
    else .done w.files (if json then settingsJson shown else settingsText shown)

end DocFlatten.Command
