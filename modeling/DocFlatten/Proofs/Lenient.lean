import DocFlatten.Config.Cache
import DocFlatten.Proofs.Failing

/-! # Loading a configuration without checking it

A command that reduces takes its configuration out of the cache, which is filled without a check. With an
empty cache this is loading directly (`Site.loadCached_nil_value`). Without a check the names of variables
are read leniently, and the schema is not looked at; all other errors come up all the same
(`loadDirectly_stops`).
-/

namespace DocFlatten

namespace Config

/-! ## Configurations without a cache -/

namespace Site

/-- If the system refuses to list the files that a fingerprint tells of, it refuses to list those of the
layers. -/
theorem fingerprint_cases (site : Site) :
    (∃ fingerprint, site.fingerprint = .ok fingerprint) ∨
      ∃ cause cause', site.fingerprint = .error (.system cause) ∧
        site.layers = .error (.system cause') := by
  unfold fingerprint layers layerFiles
  cases hbundled : dataFiles site.files (Path.join site.dataDir "config") <;>
    cases hproject : dataFiles site.files (site.projectDir "config") <;>
    cases hown : dataFiles site.files (site.projectDir "config.local") <;>
    simp [hbundled, hproject, hown, bind, Except.bind, pure, Except.pure]

/-- Without a cache a configuration is loaded directly, or the system refuses to list its files. -/
theorem loadCached_nil_value (site : Site) (checked : Bool) :
    (site.loadCached checked []).value = (site.loadDirectly checked).value ∨
      ∃ cause cause', (site.loadCached checked []).value = .error (.system cause) ∧
        (site.loadDirectly checked).value = .error (.system cause') := by
  unfold loadCached
  rcases site.fingerprint_cases with ⟨fingerprint, hfingerprint⟩ | ⟨cause, cause', hrefused, hlayers⟩
  · left
    rw [hfingerprint]
    simp only [Cache.get?, List.find?_nil, Option.map_none]
    cases hvalue : (site.loadDirectly checked).value <;> rfl
  · right
    refine ⟨cause, cause', ?_, ?_⟩
    · rw [hrefused]
    · unfold loadDirectly
      rw [hlayers]

end Site

/-- Whether an error comes up while a configuration is merged, not only when it is checked. -/
def Error.StopsMerging : Error → Prop
  | .invalidFile _ _ | .notMapping _ | .traversesValue _ | .number _ | .surrogate _ | .system _ => True
  | .emptySegment _ | .validation _ _ => False

/-- The error of a result, if it is one. -/
def errorOf? {α : Type} : Except Error α → Option Error
  | .ok _ => none
  | .error e => some e

/-- An error that is found is the one there is. -/
theorem eq_error_of_errorOf? {α : Type} {x : Except Error α} {e : Error}
    (h : errorOf? x = some e) : x = .error e := by
  cases x with
  | ok a => cases h
  | error e' =>
    cases h
    rfl

/-! ## Loading without a check -/

/-- Whether a result does not depend on whether a configuration is checked. -/
def Settled {α : Type} : Except Error α → Prop
  | .ok _ => True
  | .error e => e.StopsMerging

/-- The name of a variable that spells a path does so in every case. -/
theorem variablePath_settled {name : String} (h : Settled (variablePath true name)) :
    variablePath false name = variablePath true name := by
  unfold variablePath at h ⊢
  split
  · rfl
  · dsimp only
    split
    · rename_i hname hempty
      rw [if_neg hname] at h
      dsimp only at h
      rw [if_pos hempty] at h
      exact h.elim
    · rfl

/-- A variable that settles strictly is read the same leniently. -/
theorem overrideOf_settled {name text : String} (h : Settled (overrideOf true name text)) :
    overrideOf false name text = overrideOf true name text := by
  unfold overrideOf at h ⊢
  have hpath : Settled (variablePath true name) := by
    cases hpath : variablePath true name with
    | ok path => trivial
    | error e =>
      rw [hpath] at h
      exact h
  rw [variablePath_settled hpath]

/-- Overrides that can be applied with a check, or fail for another reason, do the same without it. -/
theorem applyOverrides_settled {shared : Sharing} {m : Mapping Value}
    {environment : List (String × String)}
    (h : Settled (applyOverrides true shared m environment).value) :
    (applyOverrides false shared m environment).value =
      (applyOverrides true shared m environment).value := by
  induction environment generalizing shared m with
  | nil => rfl
  | cons entry rest ih =>
    obtain ⟨name, text⟩ := entry
    unfold applyOverrides at h ⊢
    -- what the first variable comes to is settled if all of them are
    have hone : Settled (overrideOf true name text) := by
      cases hone : overrideOf true name text with
      | ok o => trivial
      | error e =>
        rw [hone] at h
        exact h
    rw [overrideOf_settled hone]
    cases hoverride : overrideOf true name text with
    | error e => rfl
    | ok o =>
      rw [hoverride] at h
      cases o with
      | none => exact ih h
      | some o =>
        dsimp only at h ⊢
        cases hassign : assignShared shared m o.path o.value with
        | error e => rfl
        | ok assigned =>
          -- the rest is applied to what the first one left
          rw [hassign] at h
          exact ih h

/-- A configuration that cannot be merged cannot be loaded without a check either. -/
theorem loadDirectly_stops {site : Site} {e : Error}
    (hload : (site.loadDirectly true).value = .error e) (hstops : e.StopsMerging) :
    (site.loadDirectly false).value = .error e := by
  unfold Site.loadDirectly at hload ⊢
  cases hlayers : site.layers with
  | error e' =>
    rw [hlayers] at hload
    exact hload
  | ok layers =>
    rw [hlayers] at hload
    dsimp only at hload ⊢
    cases hmerged :
        (applyOverrides true (sharedOf layers) (mergeLayers layers) site.overriding).value with
    | error e' =>
      rw [hmerged] at hload
      cases hload
      have hsettled : Settled
          (applyOverrides true (sharedOf layers) (mergeLayers layers) site.overriding).value := by
        rw [hmerged]
        exact hstops
      rw [applyOverrides_settled hsettled, hmerged]
    | ok m =>
      -- only the check is left, and what it finds does not stop merging
      rw [hmerged] at hload
      dsimp only at hload
      rw [if_pos rfl] at hload
      unfold Site.check at hload
      cases hvalidate :
          validate site.libraries site.files site.dataDir (.mapping m) schemaName with
      | ok _ =>
        rw [hvalidate] at hload
        cases hload
      | error _ =>
        rw [hvalidate] at hload
        cases hload
        exact hstops.elim

/-! ## Lone surrogates

Surroundings have none in the variables that are read, so loading never fails because of one. -/

/-- Loading a data file does not fail because of a surrogate. -/
theorem loadMapping_ne_surrogate {parse : Parser} {files : FileTree} {path name : String} :
    loadMapping parse files path ≠ .error (.surrogate name) := by
  unfold loadMapping
  split <;> intro h <;> cases h

/-- Nor does reading the layers. -/
theorem layers_ne_surrogate (site : Site) (name : String) :
    site.layers ≠ .error (.surrogate name) := by
  intro h
  rcases Except.bind_eq_error_iff.mp h with hfiles | ⟨layered, -, hlayers⟩
  · unfold Site.layerFiles at hfiles
    cases hbundled : dataFiles site.files (Path.join site.dataDir "config") <;>
      cases hproject : dataFiles site.files (site.projectDir "config") <;>
      cases hown : dataFiles site.files (site.projectDir "config.local") <;>
      simp [hbundled, hproject, hown, bind, Except.bind, pure, Except.pure] at hfiles
  · obtain ⟨file, -, hload⟩ := Except.exists_of_mapM_eq_error hlayers
    rcases Except.bind_eq_error_iff.mp hload with hload | ⟨_, -, hpure⟩
    · exact loadMapping_ne_surrogate hload
    · cases hpure

/-- Nor does an override, if its value can be coerced. -/
theorem overrideOf_ne_surrogate {strict : Bool} {key text name : String}
    (h : coerce text ≠ .error .surrogate) :
    overrideOf strict key text ≠ .error (.surrogate name) := by
  intro hread
  rcases Except.bind_eq_error_iff.mp hread with hpath | ⟨path, -, hvalue⟩
  · unfold variablePath at hpath
    split at hpath
    · cases hpath
    · dsimp only at hpath
      split at hpath
      · split at hpath <;> cases hpath
      · cases hpath
  · cases path with
    | nil => cases hvalue
    | cons part rest =>
      dsimp only at hvalue
      split at hvalue
      · cases hvalue
      · cases hvalue
      · rename_i hcoerce
        exact h hcoerce

/-- Nor do overrides that can all be coerced. -/
theorem applyOverrides_ne_surrogate {strict : Bool} {shared : Sharing} {m : Mapping Value}
    {named : List (String × String)} {name : String}
    (h : ∀ entry ∈ named, coerce entry.2 ≠ .error .surrogate) :
    (applyOverrides strict shared m named).value ≠ .error (.surrogate name) := by
  induction named generalizing shared m with
  | nil => nofun
  | cons entry rest ih =>
    obtain ⟨key, text⟩ := entry
    have hrest := fun entry hentry => h entry (List.mem_cons_of_mem _ hentry)
    unfold applyOverrides
    cases hread : overrideOf strict key text with
    | error e =>
      rintro ⟨⟩
      exact overrideOf_ne_surrogate (h _ List.mem_cons_self) hread
    | ok o =>
      cases o with
      | none => exact ih hrest
      | some o =>
        dsimp only
        cases hassign : assignShared shared m o.path o.value with
        | ok assigned => exact ih hrest
        | error e =>
          -- all that can be wrong with a path is that it traverses a value
          rintro ⟨⟩
          rcases Except.bind_eq_error_iff.mp hassign with hassign | ⟨_, -, hpure⟩
          · unfold assign at hassign
            split at hassign <;> cases hassign
          · cases hpure

/-- Nor does a load, if all values that override can be coerced. -/
theorem loadDirectly_ne_surrogate {site : Site} {checked : Bool} {name : String}
    (h : ∀ entry ∈ site.overriding, coerce entry.2 ≠ .error .surrogate) :
    (site.loadDirectly checked).value ≠ .error (.surrogate name) := by
  unfold Site.loadDirectly
  cases hlayers : site.layers with
  -- the layers cannot be read
  | error e =>
    rintro ⟨⟩
    exact layers_ne_surrogate site name hlayers
  | ok layers =>
    dsimp only
    cases hmerged :
        (applyOverrides checked (sharedOf layers) (mergeLayers layers) site.overriding).value with
    -- the overrides cannot be applied
    | error e =>
      rintro ⟨⟩
      exact applyOverrides_ne_surrogate h hmerged
    -- only the check can still fail
    | ok m =>
      unfold Site.check
      dsimp only
      split
      · split <;> nofun
      · rw [hmerged]
        nofun

end Config

end DocFlatten
