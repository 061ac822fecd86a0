import DocFlatten.Proofs.Leaves
import DocFlatten.Proofs.Statuses

/-! # Which attribute setting wins

The attributes of a reduction are given in three places: by options of the command line, in the
configuration, and by the setting that limits nested includes. They are joined in one mapping before a
document reads them, and what a document goes by is the last entry that names an attribute (`last?`).
Joining keeps an entry where it stands if its key is there already, so the last entry need not be the one
that was given last. It is as long as keys are written in the way in which attributes are known
(`Attribute.IsKnown`), and no later key of the configuration means the same (`Unambiguous`). One option more
then decides on its attribute and on no other (`last?_insert`), and so do all of them together
(`last?_insertAll`).
-/

namespace DocFlatten

/-! ## Joining settings -/

namespace Mapping

variable {α : Type}

/-- The value that the last entry of a name has. -/
def last? (entries : List (String × α)) (name : String) : Option α :=
  get? entries.reverse name

/-- A mapping is searched from its front. -/
theorem get?_cons (entry : String × α) (rest : Mapping α) (name : String) :
    get? (entry :: rest) name = if entry.1 = name then some entry.2 else get? rest name := by
  cases entry
  rfl

/-- What a joined mapping has comes from the first part that has it. -/
theorem get?_append (m m' : Mapping α) (name : String) :
    get? (m ++ m') name = (get? m name).or (get? m' name) := by
  induction m with
  | nil => rfl
  | cons entry rest ih =>
    rw [List.cons_append, get?_cons, get?_cons, ih]
    split <;> rfl

/-- The first entry counts if no other one does. -/
theorem last?_cons (entry : String × α) (rest : List (String × α)) (name : String) :
    last? (entry :: rest) name =
      (last? rest name).or (if entry.1 = name then some entry.2 else none) := by
  unfold last?
  rw [List.reverse_cons, get?_append, get?_cons]
  rfl

/-- What no entry names is not given. -/
theorem last?_eq_none {entries : List (String × α)} {name : String}
    (h : ∀ entry ∈ entries, entry.1 ≠ name) : last? entries name = none := by
  refine get?_of_not_mem ?_
  intro hmem
  rcases List.mem_map.mp hmem with ⟨entry, hentry, hname⟩
  exact h entry (List.mem_reverse.mp hentry) hname

/-- Pairs that are set one after the other: the last one of a key counts. -/
theorem get?_insertAll (m : Mapping α) (pairs : List (String × α)) (name : String) :
    get? (insertAll m pairs) name = (last? pairs name).or (get? m name) := by
  induction pairs generalizing m with
  | nil => rfl
  | cons pair rest ih =>
    change get? (insertAll (insert m pair.1 pair.2) rest) name = _
    rw [last?_cons, ih, get?_insert, Option.or_assoc]
    split <;> rfl

/-- Of pairs that name the same key, the last one decides. -/
theorem get?_ofList (pairs : List (String × α)) (name : String) :
    get? (ofList pairs) name = last? pairs name := by
  unfold ofList
  rw [get?_insertAll, get?_nil, Option.or_none]

/-- If no key comes twice, the last entry of a key is the only one. -/
theorem last?_of_nodup {m : Mapping α} (h : (keys m).Nodup) (name : String) :
    last? m name = get? m name := by
  induction m with
  | nil => rfl
  | cons entry rest ih =>
    obtain ⟨hfresh, hrest⟩ := List.nodup_cons.mp h
    rw [last?_cons, get?_cons, ih hrest]
    by_cases hname : entry.1 = name
    · have hnone : get? rest name = none := get?_of_not_mem (hname ▸ hfresh)
      rw [if_pos hname, if_pos hname, hnone]
      rfl
    · rw [if_neg hname, if_neg hname, Option.or_none]

/-- If no key comes twice, an entry is found under its key. -/
theorem get?_eq_some_iff_mem {m : Mapping α} (h : (keys m).Nodup) {name : String} {value : α} :
    get? m name = some value ↔ (name, value) ∈ m := by
  refine ⟨mem_of_get?, ?_⟩
  induction m with
  | nil => nofun
  | cons entry rest ih =>
    obtain ⟨hfresh, hrest⟩ := List.nodup_cons.mp h
    intro hmem
    rw [get?_cons]
    rcases List.mem_cons.mp hmem with rfl | hlater
    · rw [if_pos rfl]
    · have hother : entry.1 ≠ name := by
        intro heq
        exact hfresh (List.mem_map.mpr ⟨(name, value), hlater, heq.symm⟩)
      rw [if_neg hother]
      exact ih hrest hlater

end Mapping

namespace Attribute

open DocFlatten.Text

/-- Settings with their names as attributes are known, in lower case and without blanks and marks. -/
def known (entries : Settings) : Settings :=
  entries.map fun entry => namedSetting entry.1 entry.2

/-- Whether a name is written in the way in which attributes are known. -/
def IsKnown (name : String) : Prop :=
  lower (strip name) = name ∧ name.endsWith "!" = false

instance (name : String) : Decidable (IsKnown name) :=
  inferInstanceAs (Decidable (_ ∧ _))

/-- A known name stands for itself. -/
theorem IsKnown.namedSetting {name : String} (h : IsKnown name) (setting : Option String) :
    namedSetting name setting = (name, setting) := by
  unfold Attribute.namedSetting
  simp only [h.1, h.2, Bool.false_eq_true, if_false]

/-- Whether no entry comes after one that is written as its attribute is known and names the same
attribute. -/
def Ordered (entries : Settings) : Prop :=
  entries.Pairwise fun entry later => IsKnown entry.1 →
    (namedSetting later.1 later.2).1 ≠ entry.1

instance (entries : Settings) : Decidable (Ordered entries) :=
  inferInstanceAs (Decidable (List.Pairwise _ entries))

variable {entries : Settings} {key : String}

/-- One more setting decides on its attribute and on no other. -/
theorem last?_insert (hentries : Ordered entries) (hkey : IsKnown key) (setting : Option String)
    (name : String) :
    Mapping.last? (known (Mapping.insert entries key setting)) name =
      if key = name then some setting else Mapping.last? (known entries) name := by
  induction entries with
  | nil =>
    change Mapping.last? [namedSetting key setting] name = _
    rw [hkey.namedSetting, Mapping.last?_cons]
    rfl
  | cons entry rest ih =>
    obtain ⟨hentry, hrest⟩ := List.pairwise_cons.mp hentries
    by_cases hsame : entry.1 = key
    · -- the key keeps its place, and nothing after it names the same attribute
      have hinsert : Mapping.insert (entry :: rest) key setting = (key, setting) :: rest := by
        obtain ⟨k, v⟩ := entry
        change k = key at hsame
        unfold Mapping.insert
        rw [if_pos hsame, hsame]
      have hold : namedSetting entry.1 entry.2 = (key, entry.2) := by
        rw [hsame, hkey.namedSetting]
      have hlater : Mapping.last? (known rest) key = none := by
        refine Mapping.last?_eq_none ?_
        intro later hmem
        rcases List.mem_map.mp hmem with ⟨raw, hraw, rfl⟩
        have := hentry raw hraw (hsame.symm ▸ hkey)
        rwa [hsame] at this
      rw [hinsert]
      change Mapping.last? (namedSetting key setting :: known rest) name =
        if key = name then some setting else
          Mapping.last? (namedSetting entry.1 entry.2 :: known rest) name
      rw [hkey.namedSetting, hold, Mapping.last?_cons, Mapping.last?_cons]
      by_cases hname : key = name
      · subst hname
        rw [hlater, if_pos rfl, if_pos rfl]
        rfl
      · rw [if_neg hname, if_neg hname, if_neg hname]
    · -- the entry stays in front, and what comes after it goes first
      have hinsert : Mapping.insert (entry :: rest) key setting =
          entry :: Mapping.insert rest key setting := by
        obtain ⟨k, v⟩ := entry
        conv_lhs => unfold Mapping.insert
        rw [if_neg hsame]
      rw [hinsert]
      change Mapping.last? (namedSetting entry.1 entry.2 ::
          known (Mapping.insert rest key setting)) name =
        if key = name then some setting else
          Mapping.last? (namedSetting entry.1 entry.2 :: known rest) name
      rw [Mapping.last?_cons, Mapping.last?_cons, ih hrest]
      split <;> rfl

/-- One more setting leaves the entries in order. -/
theorem Ordered.insert (h : Ordered entries) (hkey : IsKnown key) (setting : Option String) :
    Ordered (Mapping.insert entries key setting) := by
  induction entries with
  | nil => exact List.pairwise_singleton _ _
  | cons entry rest ih =>
    obtain ⟨hentry, hrest⟩ := List.pairwise_cons.mp h
    obtain ⟨k, v⟩ := entry
    unfold Mapping.insert
    split
    · exact List.pairwise_cons.mpr ⟨hentry, hrest⟩
    · -- a key that is new comes last: it names no attribute that is written before it
      rename_i hother
      refine List.pairwise_cons.mpr ⟨?_, ih hrest⟩
      intro later hlater hknown
      rcases Mapping.mem_insert hlater with hmem | rfl
      · exact hentry later hmem hknown
      · rw [hkey.namedSetting]
        exact fun heq => hother heq.symm

/-- Settings that are given one after the other: the last one of an attribute counts, and the entries
there were before decide on all other attributes. -/
theorem last?_insertAll (hentries : Ordered entries) {pairs : Settings}
    (hpairs : ∀ pair ∈ pairs, IsKnown pair.1) (name : String) :
    Mapping.last? (known (Mapping.insertAll entries pairs)) name =
      (Mapping.last? pairs name).or (Mapping.last? (known entries) name) := by
  induction pairs generalizing entries with
  | nil => rfl
  | cons pair rest ih =>
    have hpair : IsKnown pair.1 := hpairs pair List.mem_cons_self
    have hrest : ∀ other ∈ rest, IsKnown other.1 :=
      fun other hother => hpairs other (List.mem_cons_of_mem _ hother)
    change Mapping.last? (known (Mapping.insertAll (Mapping.insert entries pair.1 pair.2) rest))
      name = _
    rw [ih (hentries.insert hpair pair.2) hrest, last?_insert hentries hpair, Mapping.last?_cons,
      Option.or_assoc]
    split <;> rfl

end Attribute

/-! ## What a document makes of settings -/

namespace Document

/-- The value that a setting of the caller gives to an attribute: a mark that leaves the attribute to the
document is no part of it. -/
def valueOf : Option String → Option String
  | none => none
  | some text => some (if isSoft text then String.ofList text.toList.dropLast else text)

/-- Whether a setting of the caller stands against the document. -/
def isHard : Option String → Bool
  | none => true
  | some text => !isSoft text

/-- A setting changes the attribute that it names, and no other. -/
theorem get?_applySetting (state : Attributes × List String) (key : String)
    (setting : Option String) (name : String) :
    Mapping.get? (applySetting state key setting).1 name =
      if key = name then valueOf setting else Mapping.get? state.1 name := by
  unfold applySetting valueOf
  cases setting with
  | none => exact Mapping.get?_erase state.1 key name
  | some text =>
    dsimp only
    split <;> exact Mapping.get?_insert _ _ _ _

/-- Each attribute that the caller sets has the value of its last setting; the others have what they
had. -/
theorem get?_applySettings (attributes : Attributes) (settings : Attribute.Settings)
    (name : String) :
    Mapping.get? (applySettings attributes settings).1 name =
      match Mapping.last? settings name with
      | some setting => valueOf setting
      | none => Mapping.get? attributes name := by
  unfold applySettings
  -- the settings are applied one after the other, to whatever the earlier ones have made
  have hgeneral : ∀ state : Attributes × List String,
      Mapping.get? (settings.foldl (fun state entry => applySetting state entry.1 entry.2) state).1
        name = match Mapping.last? settings name with
          | some setting => valueOf setting
          | none => Mapping.get? state.1 name := by
    induction settings with
    | nil => exact fun state => rfl
    | cons entry rest ih =>
      intro state
      rw [List.foldl_cons, ih, Mapping.last?_cons]
      cases Mapping.last? rest name with
      | some setting => rfl
      | none =>
        rw [Option.none_or]
        dsimp only
        rw [get?_applySetting]
        by_cases hname : entry.1 = name
        · rw [if_pos hname, if_pos hname]
        · rw [if_neg hname, if_neg hname]
  exact hgeneral (attributes, [])

/-- What the caller sets without leaving it to the document is locked, and nothing else. -/
theorem mem_applySettings {attributes : Attributes} {settings : Attribute.Settings} {name : String} :
    name ∈ (applySettings attributes settings).2 ↔
      ∃ setting, (name, setting) ∈ settings ∧ isHard setting = true := by
  unfold applySettings
  have hgeneral : ∀ state : Attributes × List String,
      name ∈ (settings.foldl (fun state entry => applySetting state entry.1 entry.2) state).2 ↔
        name ∈ state.2 ∨ ∃ setting, (name, setting) ∈ settings ∧ isHard setting = true := by
    induction settings with
    -- no setting is left
    | nil => simp
    -- the first setting, then the others
    | cons entry rest ih =>
      intro state
      obtain ⟨key, setting⟩ := entry
      have hone : name ∈ (applySetting state key setting).2 ↔
          name ∈ state.2 ∨ (name = key ∧ isHard setting = true) := by
        unfold applySetting isHard
        cases setting with
        | none => simp [or_comm]
        | some text =>
          dsimp only
          cases isSoft text <;> simp [or_comm]
      rw [List.foldl_cons, ih, hone]
      constructor
      · rintro ((hstate | ⟨rfl, hhard⟩) | ⟨other, hother, hhard⟩)
        · exact Or.inl hstate
        · exact Or.inr ⟨setting, List.mem_cons_self, hhard⟩
        · exact Or.inr ⟨other, List.mem_cons_of_mem _ hother, hhard⟩
      · rintro (hstate | ⟨other, hother, hhard⟩)
        · exact Or.inl (Or.inl hstate)
        · rcases List.mem_cons.mp hother with heq | hrest
          · cases heq
            exact Or.inl (Or.inr ⟨rfl, hhard⟩)
          · exact Or.inr ⟨other, hrest, hhard⟩
  simpa using hgeneral (attributes, [])

/-- Settings of a mapping that are given anew are read as attributes are known. -/
theorem settings_givenAgain (settings : Attribute.Settings) :
    (givenAgain settings).settings = Mapping.ofList (Attribute.known settings) := by
  unfold givenAgain Attribute.Given.settings Attribute.known
  dsimp only
  rw [List.map_map]
  refine congrArg Mapping.ofList (List.map_congr_left ?_)
  rintro ⟨name, setting⟩ -
  cases setting with
  | none => simp only [Function.comp_apply, Attribute.settingOf]
  | some value => simp only [Function.comp_apply, Attribute.settingOf, Value.display]

end Document

/-! ## The attributes of a reduction -/

namespace Config

open DocFlatten.Attribute

/-- Whether no entry of a configuration hides what is set later: none comes after one that is written
as its attribute is known and names the same attribute, and the limit of nested includes is written like
that if it is listed. -/
structure Unambiguous (listed : Settings) : Prop where
  ordered : Ordered listed
  depth : ∀ entry ∈ listed, (namedSetting entry.1 entry.2).1 = depthAttribute →
    depthAttribute ∈ Mapping.keys listed

instance (listed : Settings) : Decidable (Unambiguous listed) :=
  decidable_of_iff
    (Ordered listed ∧ ∀ entry ∈ listed, (namedSetting entry.1 entry.2).1 = depthAttribute →
      depthAttribute ∈ Mapping.keys listed)
    ⟨fun h => ⟨h.1, h.2⟩, fun h => ⟨h.ordered, h.depth⟩⟩

/-- The attributes of a configuration are those that it lists, and the limit of nested includes unless
it is one of them. -/
theorem attributes_eq {m : Mapping Value} {listed : Settings} {depth : Int}
    (hlisted : listedAttributes m = .ok listed) (hdepth : maxIncludeDepth m = .ok depth) :
    ∃ settings, attributes m = .ok settings ∧
      settings = if Mapping.contains listed depthAttribute then listed
        else Mapping.insert listed depthAttribute (some (toString depth)) := by
  refine ⟨_, ?_, rfl⟩
  unfold attributes
  rw [hlisted, hdepth]
  rfl

end Config

namespace Attribute

open DocFlatten.Config

/-- The setting that a reduction has for an attribute: that of the last option that names it, otherwise that
of the last entry of the configuration that does, otherwise the configured limit of nested includes, if
this is the attribute. -/
def chosen (flags : List String) (listed : Settings) (depth : Int) (name : String) :
    Option (Option String) :=
  (Mapping.last? (flags.map wordSetting) name).or
    ((Mapping.last? (known listed) name).or
      (if depthAttribute = name then some (some (toString depth)) else none))

/-- The name of the limit is a known one. -/
theorem isKnown_depthAttribute : IsKnown depthAttribute := by decide +kernel

/-- The limit of nested includes counts only if the configuration does not list it as an attribute. -/
theorem last?_depth {listed : Settings} (h : Unambiguous listed) (depth : Int) (name : String) :
    Mapping.last? (known (if Mapping.contains listed depthAttribute then listed
      else Mapping.insert listed depthAttribute (some (toString depth)))) name =
      (Mapping.last? (known listed) name).or
        (if depthAttribute = name then some (some (toString depth)) else none) := by
  have hcontains : Mapping.contains listed depthAttribute = true ↔
      depthAttribute ∈ Mapping.keys listed := Mapping.isSome_get?
  split
  · -- the limit is listed, and nothing is added
    rename_i hlisted
    by_cases hname : depthAttribute = name
    · -- the entry that is listed names the limit
      obtain ⟨entry, hentry, hkey⟩ := List.mem_map.mp (hcontains.mp hlisted)
      have hnamed : (namedSetting entry.1 entry.2).1 = name := by
        rw [hkey, isKnown_depthAttribute.namedSetting, hname]
      have hmem : name ∈ Mapping.keys (known listed).reverse := by
        rw [← hnamed]
        exact List.mem_map_of_mem (List.mem_reverse.mpr (List.mem_map_of_mem hentry))
      obtain ⟨setting, hsetting⟩ := Option.isSome_iff_exists.mp (Mapping.isSome_get?.mpr hmem)
      change Mapping.last? (known listed) name = some setting at hsetting
      rw [hsetting]
      rfl
    · rw [if_neg hname, Option.or_none]
  · -- the limit is not listed, so the default is added
    rename_i hlisted
    rw [last?_insert h.ordered isKnown_depthAttribute]
    by_cases hname : depthAttribute = name
    · have hnone : Mapping.last? (known listed) name = none := by
        refine Mapping.last?_eq_none ?_
        intro entry hentry hnamed
        rcases List.mem_map.mp hentry with ⟨raw, hraw, rfl⟩
        exact hlisted (hcontains.mpr (h.depth raw hraw (hnamed.trans hname.symm)))
      rw [if_pos hname, if_pos hname, hnone]
      rfl
    · rw [if_neg hname, if_neg hname, Option.or_none]

/-- The settings that a document reads are those that are chosen. -/
theorem get?_settings_joined {listed settings : Settings} {flags : List String} {depth : Int}
    (h : Unambiguous listed) (hflags : ∀ flag ∈ flags, IsKnown (wordSetting flag).1)
    (hsettings : settings = if Mapping.contains listed depthAttribute then listed
      else Mapping.insert listed depthAttribute (some (toString depth))) (name : String) :
    Mapping.get? (Document.givenAgain (Command.joinAttributes settings flags)).settings name =
      chosen flags listed depth name := by
  have hordered : Ordered settings := by
    rw [hsettings]
    split
    · exact h.ordered
    · exact h.ordered.insert isKnown_depthAttribute _
  have hpairs : ∀ pair ∈ Mapping.ofList (flags.map wordSetting), IsKnown pair.1 := by
    intro pair hpair
    rcases Mapping.mem_insertAll hpair with hnil | hmem
    · cases hnil
    · rcases List.mem_map.mp hmem with ⟨flag, hflag, rfl⟩
      exact hflags flag hflag
  have hitems : (Given.items (flags.map .text)).settings =
      Mapping.ofList (flags.map wordSetting) := by
    unfold Given.settings
    dsimp only
    rw [List.map_map]
    refine congrArg Mapping.ofList (List.map_congr_left ?_)
    intro flag _
    simp only [Function.comp_apply, Value.display]
  have hflagsLast : Mapping.last? (Mapping.ofList (flags.map wordSetting)) name =
      Mapping.last? (flags.map wordSetting) name := by
    rw [Mapping.last?_of_nodup (Mapping.nodup_keys_ofList _), Mapping.get?_ofList]
  rw [Document.settings_givenAgain, Mapping.get?_ofList]
  unfold Command.joinAttributes chosen
  rw [hitems, last?_insertAll hordered hpairs, hflagsLast, hsettings, last?_depth h]

end Attribute

namespace Command

open DocFlatten.Attribute DocFlatten.CommandLine

/-- The attributes that the document of a reduction starts out with, whether it comes from a file or not:
each one has the value of the setting that is chosen for it, or is unset by it, and is locked unless the
setting leaves it to the document; all others are as if nothing was set. -/
theorem attributes_precedence {m : Mapping Value} {args : List String} {a : ReduceArguments}
    {listed : Settings} {depth : Int} (hm : Config.Conforms m)
    (hread : Invocation.read args = .ok (.reduce a))
    (hlisted : Config.listedAttributes m = .ok listed)
    (hdepth : Config.maxIncludeDepth m = .ok depth) (hunambiguous : Config.Unambiguous listed)
    (hflags : ∀ flag ∈ a.attributes, IsKnown (wordSetting flag).1) :
    ∃ plan, planOf m a = .ok plan ∧ ∀ workingDir source docfile, ∃ d bare,
      Document.create workingDir source { plan.load with docfile } = .ok d ∧
      Document.create workingDir source { plan.load with docfile, attributes := .nothing } =
        .ok bare ∧
      ∀ name,
        (Mapping.get? d.attributes name = match chosen a.attributes listed depth name with
          | some setting => Document.valueOf setting
          | none => Mapping.get? bare.attributes name) ∧
        (d.isLocked name = true ↔ ∃ setting, chosen a.attributes listed depth name = some setting ∧
          Document.isHard setting = true) := by
  obtain ⟨hsafe, -⟩ := choices_of_read hread
  obtain ⟨settings, hsettings, hjoined⟩ := Config.attributes_eq hlisted hdepth
  obtain ⟨plan, mode, hplan, hattributes, hmode, -⟩ := planOf_conforms hm hsettings hsafe
  have hchosen := get?_settings_joined hunambiguous hflags hjoined
  rw [← hattributes] at hchosen
  refine ⟨plan, hplan, ?_⟩
  intro workingDir source docfile
  refine ⟨.initial workingDir source { plan.load with docfile } mode,
    .initial workingDir source { plan.load with docfile, attributes := .nothing } mode,
    Session.create_eq_ok.mpr ⟨mode, hmode, rfl⟩, Session.create_eq_ok.mpr ⟨mode, hmode, rfl⟩, ?_⟩
  intro name
  have hnodup := plan.load.attributes.nodup_keys_settings
  constructor
  · rw [← hchosen, ← Mapping.last?_of_nodup hnodup]
    exact Document.get?_applySettings _ _ name
  · rw [Document.isLocked, List.contains_iff_mem, ← hchosen]
    refine Document.mem_applySettings.trans ?_
    simp only [Mapping.get?_eq_some_iff_mem hnodup]

/-- A configuration that lists two attributes, one of them in capitals. -/
def listingTwo : Mapping Value :=
  [("reducer", .mapping [("attributes",
    .mapping [("X", .text "1"), ("max-include-depth", .int 3)])])]

/-- The command line that sets one of them otherwise and unsets a third one. -/
def givingTwo : ReduceArguments where
  file := "main.adoc"
  output := "-"
  attributes := ["x=2", "Y!"]
  preserveConditionals := false
  includeMap := false
  safe := none
  logLevel := none
  quiet := false
  root := none

theorem attributes_precedence_listed :
    Config.Conforms listingTwo ∧
      Invocation.read ["reduce", "-a", "x=2", "-a", "Y!", "main.adoc"] = .ok (.reduce givingTwo) ∧
      ∃ plan, planOf listingTwo givingTwo = .ok plan ∧ ∃ d,
        Document.create ["w"] (.text "") plan.load = .ok d ∧
        Mapping.get? d.attributes "x" = some "2" ∧ Mapping.get? d.attributes "y" = none ∧
        d.isLocked "y" = true ∧ Mapping.get? d.attributes "max-include-depth" = some "3" := by
  have hm : Config.Conforms listingTwo := by decide +kernel
  have hread : (Invocation.read ["reduce", "-a", "x=2", "-a", "Y!", "main.adoc"]).toOption =
      some (.reduce givingTwo) := by decide +kernel
  have hlisted : (Config.listedAttributes listingTwo).toOption =
      some [("X", some "1"), ("max-include-depth", some "3")] := by decide +kernel
  have hdepth : (Config.maxIncludeDepth listingTwo).toOption = some 64 := by decide +kernel
  have hunambiguous : Config.Unambiguous [("X", some "1"), ("max-include-depth", some "3")] := by
    decide +kernel
  have hflags : ∀ flag ∈ givingTwo.attributes, IsKnown (wordSetting flag).1 := by decide +kernel
  obtain ⟨plan, hplan, hdocuments⟩ := attributes_precedence hm (eq_ok_of_mem_toOption hread)
    (eq_ok_of_mem_toOption hlisted) (eq_ok_of_mem_toOption hdepth) hunambiguous hflags
  obtain ⟨d, bare, hd, -, hattributes⟩ := hdocuments ["w"] (.text "") plan.load.docfile
  have hx : chosen givingTwo.attributes [("X", some "1"), ("max-include-depth", some "3")] 64 "x" =
      some (some "2") := by decide +kernel
  have hy : chosen givingTwo.attributes [("X", some "1"), ("max-include-depth", some "3")] 64 "y" =
      some none := by decide +kernel
  have hlimit : chosen givingTwo.attributes [("X", some "1"), ("max-include-depth", some "3")] 64
      "max-include-depth" = some (some "3") := by decide +kernel
  refine ⟨hm, eq_ok_of_mem_toOption hread, plan, hplan, d, hd, ?_, ?_, ?_, ?_⟩
  · rw [(hattributes "x").1, hx]
    change Document.valueOf (some "2") = some "2"
    decide +kernel
  · rw [(hattributes "y").1, hy]
    rfl
  · exact (hattributes "y").2.mpr ⟨none, hy, rfl⟩
  · rw [(hattributes "max-include-depth").1, hlimit]
    change Document.valueOf (some "3") = some "3"
    decide +kernel

/-- A configuration that lists the limit of nested includes in capitals. -/
def listingCapitals : Mapping Value :=
  [("reducer", .mapping [("attributes", .mapping [("Max-Include-Depth", .int 5)])])]

/-- The limit that counts if none is listed overtakes the one that is. -/
theorem depth_overtakes_listed :
    Config.Conforms listingCapitals ∧
      ∃ listed ∈ (Config.listedAttributes listingCapitals).toOption,
        chosen givingTwo.attributes listed 64 "max-include-depth" = some (some "5") ∧
      ∃ plan ∈ (planOf listingCapitals givingTwo).toOption,
        ∃ d ∈ (Document.create ["w"] (.text "") plan.load).toOption,
          Mapping.get? d.attributes "max-include-depth" = some "64" := by
  decide +kernel

end Command

end DocFlatten
