import DocFlatten.Config.Settings
import DocFlatten.Log.Output

/-! # Configurations that satisfy their schema

A mapping that breaks no rule of the schema has a value for every setting: what the rules say about a
value is all that the settings need of it. Each rule of a schema has its lemma, which says what a value
without reports is like (`type_of_quiet`, `enum_of_quiet`, `properties_of_quiet`); a setting is reached
through the rules of its section (`Conforms.setting`), and then its own rules decide.

The format of records is the one setting that the schema leaves too free: any text passes it, also one
that has no field (`conforms_without_field`).
-/

namespace DocFlatten

/-- The mode with a name. -/
theorem SafeMode.ofValue_of_mem {name : String} (h : name ∈ all.map lowerName) :
    ∃ mode, SafeMode.ofValue (.text name) = .ok mode := by
  obtain ⟨mode, -, rfl⟩ := List.mem_map.mp h
  refine ⟨mode, ?_⟩
  cases mode <;> rfl

/-- What a mapping gives for a key is one of its entries. -/
theorem Mapping.mem_of_get? {α : Type} {m : Mapping α} {key : String} {a : α}
    (h : get? m key = some a) : (key, a) ∈ m := by
  induction m with
  | nil => cases h
  | cons first rest ih =>
    unfold get? at h
    split at h
    · rename_i hkey
      cases h
      rw [← hkey]
      exact List.mem_cons_self
    · exact List.mem_cons_of_mem _ (ih h)

namespace Config

/-- Whether a configuration satisfies the schema of configurations. -/
def Conforms (m : Mapping Value) : Prop :=
  violation? (.mapping schema) (.mapping m) = none

instance (m : Mapping Value) : Decidable (Conforms m) :=
  inferInstanceAs (Decidable (_ = _))

/-! ## Rules without reports -/

/-- There is always a report to choose if there is one at all. -/
theorem choose_eq_none {reports : List Violation} : Violation.choose reports = none ↔ reports = [] := by
  cases reports with
  | nil => exact ⟨fun _ => rfl, fun _ => rfl⟩
  | cons first rest => exact ⟨nofun, nofun⟩

section

variable {all rules : Mapping Value} {path : List String} {v : Value}

theorem ruleViolations_cons (name : String) (rule : Value) (rest : Mapping Value) :
    ruleViolations all path v ((name, rule) :: rest) =
      ruleViolations all path v [(name, rule)] ++ ruleViolations all path v rest := by
  have hnil : ruleViolations all path v [] = [] := rfl
  rw [ruleViolations.eq_def all path v ((name, rule) :: rest),
    ruleViolations.eq_def all path v [(name, rule)]]
  dsimp only
  rw [hnil, List.append_nil]

/-- What a type rule reports by itself. -/
theorem ruleViolations_type (types : Value) :
    ruleViolations all path v [("type", types)] =
      ((typeMessage types v).map fun m => ⟨path, m, matchesType all v⟩).toList := by
  unfold ruleViolations
  dsimp only
  rw [if_pos (by decide)]
  exact List.append_nil _

/-- What an enumeration reports by itself. -/
theorem ruleViolations_enum (listed : Value) :
    ruleViolations all path v [("enum", listed)] =
      ((enumMessage listed v).map fun m => ⟨path, m, matchesType all v⟩).toList := by
  unfold ruleViolations
  dsimp only
  rw [if_neg (by decide), if_pos (by decide)]
  exact List.append_nil _

/-- What the description of a mapping's keys reports by itself. -/
theorem ruleViolations_properties (described entries : Mapping Value) :
    ruleViolations all path (.mapping entries) [("properties", .mapping described)] =
      propertyViolations path entries described := by
  unfold ruleViolations
  dsimp only
  rw [if_neg (by decide), if_neg (by decide), if_neg (by decide), if_pos (by decide)]
  exact List.append_nil _

/-- Rules that report nothing do so one by one. -/
theorem rule_of_quiet (h : ruleViolations all path v rules = []) {name : String} {rule : Value}
    (hrule : (name, rule) ∈ rules) : ruleViolations all path v [(name, rule)] = [] := by
  induction rules with
  | nil => cases hrule
  | cons first rest ih =>
    rw [ruleViolations_cons] at h
    obtain ⟨hfirst, hrest⟩ := List.append_eq_nil_iff.mp h
    rcases List.mem_cons.mp hrule with rfl | hlater
    · exact hfirst
    · exact ih hrest hlater

/-- A value with a type rule that reports nothing is of one of its types. -/
theorem type_of_quiet (h : ruleViolations all path v rules = []) {types : Value}
    (hrule : ("type", types) ∈ rules) :
    ∃ name ∈ typeNames types, isOfType name v = true := by
  have hquiet := rule_of_quiet h hrule
  rw [ruleViolations_type, Option.toList_eq_nil_iff, Option.map_eq_none_iff] at hquiet
  unfold typeMessage at hquiet
  dsimp only at hquiet
  split at hquiet
  · -- one of the types fits
    rename_i hany
    exact List.any_eq_true.mp hany
  · -- otherwise it would be reported
    cases hquiet

/-- A value with an enumeration that reports nothing is the same as one of those listed. -/
theorem enum_of_quiet (h : ruleViolations all path v rules = []) {items : List Value}
    (hrule : ("enum", .list items) ∈ rules) : ∃ item ∈ items, same item v = true := by
  have hquiet := rule_of_quiet h hrule
  rw [ruleViolations_enum, Option.toList_eq_nil_iff, Option.map_eq_none_iff] at hquiet
  unfold enumMessage at hquiet
  dsimp only at hquiet
  split at hquiet
  · rename_i hany
    exact List.any_eq_true.mp hany
  · cases hquiet

/-- What is described of a mapping without a report holds of the values of its keys. -/
theorem property_of_quiet {entries described : Mapping Value}
    (h : propertyViolations path entries described = []) {key : String} {rule : Value}
    (hrule : (key, rule) ∈ described) {x : Value} (hx : Mapping.get? entries key = some x) :
    violations (path ++ [key]) x rule = [] := by
  induction described with
  | nil => cases hrule
  | cons first rest ih =>
    rw [propertyViolations.eq_def path entries (first :: rest)] at h
    obtain ⟨hfirst, hrest⟩ := List.append_eq_nil_iff.mp h
    rcases List.mem_cons.mp hrule with rfl | hlater
    · rw [hx] at hfirst
      exact hfirst
    · exact ih hrest hlater

/-- A mapping whose keys are described without a report has values without reports. -/
theorem properties_of_quiet {entries described : Mapping Value}
    (h : ruleViolations all path (.mapping entries) rules = [])
    (hrule : ("properties", .mapping described) ∈ rules) {key : String} {rule : Value}
    (hkey : (key, rule) ∈ described) {x : Value} (hx : Mapping.get? entries key = some x) :
    violations (path ++ [key]) x rule = [] := by
  have hquiet := rule_of_quiet h hrule
  rw [ruleViolations_properties] at hquiet
  exact property_of_quiet hquiet hkey hx

end

/-! ## Types -/

/-- A value is of the only type that is asked for. -/
theorem ofType_of_quiet {all rules : Mapping Value} {name : String} {path : List String} {v : Value}
    (h : ruleViolations all path v rules = []) (hrule : ("type", .text name) ∈ rules) :
    isOfType name v = true := by
  obtain ⟨other, hother, htype⟩ := type_of_quiet h hrule
  rw [List.mem_singleton.mp hother] at htype
  exact htype

/-- A mapping is what an object is. -/
theorem eq_mapping_of_isOfType {v : Value} (h : isOfType "object" v = true) :
    ∃ entries, v = .mapping entries := by
  cases v with
  | mapping entries => exact ⟨entries, rfl⟩
  | _ => simp [isOfType] at h

/-- A text is what a string is. -/
theorem eq_text_of_isOfType {v : Value} (h : isOfType "string" v = true) :
    ∃ text, v = .text text := by
  cases v with
  | text text => exact ⟨text, rfl⟩
  | _ => simp [isOfType] at h

/-- Only a text is the same as a text. -/
theorem eq_text_of_same {s : String} {v : Value} (h : same (.text s) v = true) : v = .text s := by
  cases v with
  | text t =>
    have hst : (s == t) = true := by rw [← h, same]
    rw [beq_iff_eq.mp hst]
  | _ => simp [same, compareNumbers] at h

/-- A value that has to be one of some texts is one of them. -/
theorem oneOf_of_quiet {names : List String} {path : List String} {v : Value}
    (h : violations path v (oneOf names) = []) : ∃ name ∈ names, v = .text name := by
  have hrule : ("enum", Value.list (names.map .text)) ∈
      [("type", Value.text "string"), ("enum", .list (names.map .text))] :=
    List.mem_cons_of_mem _ List.mem_cons_self
  obtain ⟨item, hitem, hsame⟩ := enum_of_quiet h hrule
  obtain ⟨name, hname, rfl⟩ := List.mem_map.mp hitem
  exact ⟨name, hname, eq_text_of_same hsame⟩

/-- A whole number has an integer. -/
theorem toInteger_of_isOfType {v : Value} (h : isOfType "integer" v = true) :
    ∃ n, v.toInteger = .ok n := by
  cases v with
  | int n => exact ⟨n, rfl⟩
  | float x =>
    have hwhole : isWhole x = true := by simpa [isOfType] using h
    unfold isWhole at hwhole
    unfold Value.toInteger
    dsimp only
    -- a number that is whole has parts
    split at hwhole
    · rename_i negative mantissa exponent hparts
      rw [hparts]
      exact ⟨_, rfl⟩
    · cases hwhole
  -- other values are no integers
  | _ => simp [isOfType] at h

/-! ## Settings -/

/-- A setting is written unless it holds a number that is too long for that. -/
theorem writtenSetting_cases (v : Value) :
    (∃ setting, writtenSetting v = .ok setting) ∨ writtenSetting v = .error .tooLong := by
  have hwritten : (∃ text, written v = .ok text) ∨ written v = .error .tooLong := by
    unfold written
    cases v.isWritable with
    | true => exact Or.inl ⟨_, rfl⟩
    | false => exact Or.inr rfl
  unfold writtenSetting
  split
  · exact Or.inl ⟨_, rfl⟩
  · exact Or.inl ⟨_, rfl⟩
  · rcases hwritten with ⟨text, htext⟩ | hlong
    · exact Or.inl ⟨some text, by rw [htext]; rfl⟩
    · -- an integer is too long to be written
      exact Or.inr (by rw [hlong]; rfl)

/-- Either all settings of a section can be written as texts, or one of them is too long a number.
-/
theorem mapM_writtenSetting (entries : Mapping Value) :
    let listed : Except SettingError Attribute.Settings :=
      entries.mapM fun entry => do return (entry.1, ← writtenSetting entry.2)
    (∃ settings, listed = .ok settings) ∨ listed = .error .tooLong := by
  intro listed
  induction entries with
  | nil => exact Or.inl ⟨[], rfl⟩
  | cons entry rest ih =>
    obtain ⟨key, v⟩ := entry
    -- the first entry is written before the others
    have hcons : listed = do
        let setting ← writtenSetting v
        let settings ← rest.mapM fun entry => do return (entry.1, ← writtenSetting entry.2)
        return (key, setting) :: settings := by
      change List.mapM _ ((key, v) :: rest) = _
      rw [List.mapM_cons]
      cases writtenSetting v <;> rfl
    rw [hcons]
    rcases writtenSetting_cases v with ⟨setting, hsetting⟩ | hlong
    · rw [hsetting]
      rcases ih with ⟨settings, hrest⟩ | hlong
      · exact Or.inl ⟨(key, setting) :: settings, by rw [hrest]; rfl⟩
      · exact Or.inr (by rw [hlong]; rfl)
    · exact Or.inr (by rw [hlong]; rfl)

/-- What the schema asks of the sections of a configuration. -/
def sectionRules : Mapping Value :=
  match Mapping.get? schema "properties" with
  | some (.mapping described) => described
  | _ => []

namespace Conforms

variable {m : Mapping Value}

/-- A section is a mapping that breaks no rule of its own. -/
theorem sectionOf (h : Conforms m) (name : String) {described : Mapping Value}
    (hsection : Mapping.get? sectionRules name = some (sectionSchema described)) :
    ∃ entries, Config.sectionOf m name = .ok entries ∧
      ∀ key rule v, Mapping.get? described key = some rule → Mapping.get? entries key = some v →
        violations [name, key] v rule = [] := by
  have hquiet : violations [] (.mapping m) (.mapping schema) = [] := choose_eq_none.mp h
  unfold Config.sectionOf
  -- a section that is missing is empty
  cases hvalue : Mapping.get? m name with
  | none => exact ⟨[], rfl, nofun⟩
  | some v =>
    have hsectionQuiet : violations [name] v (sectionSchema described) = [] :=
      properties_of_quiet hquiet (Mapping.mem_of_get? rfl) (Mapping.mem_of_get? hsection) hvalue
    obtain ⟨entries, rfl⟩ :=
      eq_mapping_of_isOfType (ofType_of_quiet hsectionQuiet List.mem_cons_self)
    refine ⟨entries, rfl, ?_⟩
    intro key rule v hrule hkey
    exact properties_of_quiet hsectionQuiet (List.mem_cons_of_mem _ List.mem_cons_self)
      (Mapping.mem_of_get? hrule) hkey

/-- A setting is what it is unless configured, or it breaks no rule of its own. -/
theorem settingOr (h : Conforms m) (name key : String) {described : Mapping Value} {rule : Value}
    (hsection : Mapping.get? sectionRules name = some (sectionSchema described))
    (hkey : Mapping.get? described key = some rule) (fallback : Value) :
    ∃ v, Config.settingOr m name key fallback = .ok v ∧
      (v = fallback ∨ violations [name, key] v rule = []) := by
  obtain ⟨entries, hentries, hquiet⟩ := h.sectionOf name hsection
  refine ⟨(Mapping.get? entries key).getD fallback, ?_, ?_⟩
  · unfold Config.settingOr
    rw [hentries]
    rfl
  · cases hvalue : Mapping.get? entries key with
    -- a setting that is missing has its fallback
    | none => exact Or.inl rfl
    | some v => exact Or.inr (hquiet key rule v hkey hvalue)

/-- The safe mode is one. -/
theorem safeMode (h : Conforms m) : ∃ mode, Config.safeMode m = .ok mode := by
  obtain ⟨v, hv, hquiet⟩ := h.settingOr "reducer" "safe" rfl rfl (.text "unsafe")
  have hname : ∃ name ∈ SafeMode.all.map SafeMode.lowerName, v = .text name := by
    rcases hquiet with rfl | hquiet
    · exact ⟨"unsafe", List.mem_cons_self, rfl⟩
    · exact oneOf_of_quiet hquiet
  obtain ⟨name, hmem, rfl⟩ := hname
  obtain ⟨mode, hmode⟩ := SafeMode.ofValue_of_mem hmem
  refine ⟨mode, ?_⟩
  unfold Config.safeMode
  simp only [hv, hmode, bind, Except.bind, pure, Except.pure]

/-- Every switch is on or off. -/
theorem switch (h : Conforms m) (key : String) : ∃ b, Config.switch m key = .ok b := by
  obtain ⟨entries, hentries, -⟩ := h.sectionOf "reducer" rfl
  unfold Config.switch Config.settingOr
  rw [hentries]
  exact ⟨_, rfl⟩

/-- The limit of nested includes is a number, unless that is too long to be written. -/
theorem maxIncludeDepth (h : Conforms m) :
    ∃ n, Config.maxIncludeDepth m =
      if (Value.int n).isWritable then .ok n else .error .tooLong := by
  obtain ⟨v, hv, hquiet⟩ :=
    h.settingOr "reducer" "maxIncludeDepth" rfl rfl (.int 64)
  have hwhole : isOfType "integer" v = true := by
    rcases hquiet with rfl | hquiet
    · rfl
    · exact ofType_of_quiet hquiet List.mem_cons_self
  obtain ⟨n, hn⟩ := toInteger_of_isOfType hwhole
  refine ⟨n, ?_⟩
  unfold Config.maxIncludeDepth
  simp only [hv, hn, bind, Except.bind, pure, Except.pure]
  rfl

/-- The attributes of the section are a mapping. -/
theorem attributeEntries (h : Conforms m) : ∃ entries attributes,
    Config.sectionOf m "reducer" = .ok entries ∧
      mappingOf (Mapping.get? entries "attributes") = .ok attributes := by
  obtain ⟨entries, hentries, hquiet⟩ := h.sectionOf "reducer" rfl
  cases hvalue : Mapping.get? entries "attributes" with
  -- no attributes are listed
  | none => exact ⟨entries, [], hentries, by rw [hvalue]; rfl⟩
  | some v =>
    have hattributes := hquiet "attributes" _ v rfl hvalue
    obtain ⟨attributes, rfl⟩ :=
      eq_mapping_of_isOfType (ofType_of_quiet hattributes List.mem_cons_self)
    exact ⟨entries, attributes, hentries, by rw [hvalue]; rfl⟩

/-- All that can be wrong with the attributes is a number that is too long to be written. -/
theorem attributes (h : Conforms m) (htoo : Config.attributes m ≠ .error .tooLong) :
    ∃ settings, Config.attributes m = .ok settings := by
  obtain ⟨entries, attributes, hentries, hattributes⟩ := h.attributeEntries
  obtain ⟨n, hn⟩ := h.maxIncludeDepth
  have hlisted : Config.listedAttributes m =
      attributes.mapM fun entry => do return (entry.1, ← writtenSetting entry.2) := by
    unfold Config.listedAttributes
    simp only [hentries, hattributes, bind, Except.bind]
  unfold Config.attributes at htoo ⊢
  rw [hlisted, hn] at htoo ⊢
  rcases mapM_writtenSetting attributes with ⟨settings, hsettings⟩ | hlong
  · rw [hsettings] at htoo ⊢
    by_cases hwritable : (Value.int n).isWritable = true
    · -- the limit can be written
      rw [if_pos hwritable]
      exact ⟨_, rfl⟩
    · rw [if_neg hwritable] at htoo
      exact absurd rfl htoo
  · -- a value that is listed is too long to be written
    rw [hlong] at htoo
    exact absurd rfl htoo

/-- The level of the log is one that it knows. -/
theorem logLevel (h : Conforms m) : ∃ name, Config.logLevel m = .ok name ∧
    (Log.Output.levelOf? name).isSome = true := by
  obtain ⟨v, hv, hquiet⟩ := h.settingOr "logging" "level" rfl rfl (.text "warn")
  have hname : ∃ name ∈ ["debug", "info", "warn", "warning", "error", "fatal", "critical"],
      v = .text name := by
    rcases hquiet with rfl | hquiet
    · exact ⟨"warn", by decide, rfl⟩
    · exact oneOf_of_quiet hquiet
  obtain ⟨name, hmem, rfl⟩ := hname
  have hknown : ∀ name ∈ ["debug", "info", "warn", "warning", "error", "fatal", "critical"],
      (Log.Output.levelOf? name).isSome = true := by decide +kernel
  refine ⟨name, ?_, hknown name hmem⟩
  unfold Config.logLevel
  rw [hv]
  rfl

/-- The format of records is a text, whatever it says. -/
theorem logFormat (h : Conforms m) : ∃ text, Config.logFormat m = .ok text := by
  obtain ⟨v, hv, hquiet⟩ := h.settingOr "logging" "format" rfl rfl (.text defaultFormat)
  have htext : ∃ text, v = .text text := by
    rcases hquiet with rfl | hquiet
    · exact ⟨defaultFormat, rfl⟩
    · exact eq_text_of_isOfType (ofType_of_quiet hquiet List.mem_cons_self)
  obtain ⟨text, rfl⟩ := htext
  refine ⟨text, ?_⟩
  unfold Config.logFormat
  rw [hv]
  rfl

end Conforms

/-- A configuration can satisfy the schema although no record can be written in its format. -/
theorem conforms_without_field :
    Conforms [("logging", .mapping [("format", .text "plain")])] ∧
      Config.logFormat [("logging", .mapping [("format", .text "plain")])] = .ok "plain" ∧
      Log.Format.ofText "plain" = .error ⟨"plain"⟩ :=
  ⟨by decide +kernel, rfl, rfl⟩

end Config

end DocFlatten
