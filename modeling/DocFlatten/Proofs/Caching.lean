import DocFlatten.Proofs.Refusing

/-! # A cached configuration is the one that is loaded directly

Loading directly reads the names of variables strictly while it merges, and checks what it has merged.
Loading through the cache merges first, passing over malformed names, and reads them strictly and checks
only then. The two agree (`load_agrees`): in what they load, and in whether they load at all. They may
disagree about the reason, if a malformed name comes before a path that traverses a value.

* `applyOverrides_strict_iff`: strict merging is lenient merging with well-formed names;
* `loadDirectly_checked_iff`: a checked load is an unchecked one that is checked afterwards;
* `Cache.Faithful`: what a cache may hold for this, which every load keeps so.
-/

namespace DocFlatten.Config

/-! ## Reading names before or after merging -/

/-- Variables stand for overrides if each of them does. -/
theorem overridesOf_cons_ok_iff {strict : Bool} {name text : String}
    {rest : List (String × String)} :
    (∃ os, overridesOf strict ((name, text) :: rest) = .ok os) ↔
      (∃ o, overrideOf strict name text = .ok o) ∧ ∃ os, overridesOf strict rest = .ok os := by
  unfold overridesOf
  rw [List.mapM_cons]
  cases overrideOf strict name text with
  | error e => simp [bind, Except.bind]
  | ok o =>
    cases rest.mapM fun entry => overrideOf strict entry.1 entry.2 with
    | error e => simp [bind, Except.bind]
    | ok os => simp [bind, Except.bind, pure, Except.pure]

/-- Strict merging loads what lenient merging does, provided that all names are well-formed. It
does not matter whether a malformed name is found before a path that cannot be followed. -/
theorem applyOverrides_strict_iff {shared : Sharing} {m m' : Mapping Value}
    {named : List (String × String)} :
    (applyOverrides true shared m named).value = .ok m' ↔
      (applyOverrides false shared m named).value = .ok m' ∧
        ∃ os, overridesOf true named = .ok os := by
  induction named generalizing shared m with
  | nil => exact ⟨fun h => ⟨h, [], rfl⟩, And.left⟩
  | cons entry rest ih =>
    obtain ⟨name, text⟩ := entry
    rw [overridesOf_cons_ok_iff]
    cases hread : overrideOf true name text with
    | error e => simp [applyOverrides, hread]
    | ok o =>
      -- a name that is read strictly is read leniently in the same way
      have hlenient : overrideOf false name text = .ok o := by
        rw [overrideOf_settled (by rw [hread]; trivial), hread]
      cases o with
      | none => simp [applyOverrides, hread, hlenient, ih]
      | some o =>
        cases hassign : assignShared shared m o.path o.value with
        | error e => simp [applyOverrides, hread, hlenient, hassign]
        | ok assigned => simp [applyOverrides, hread, hlenient, hassign, ih]

/-- If it does not load, each may find its own reason first. -/
example :
    let named := [("A__", "1"), ("B", "1"), ("B__C", "1")]
    errorOf? (applyOverrides true [] [] named).value = some (.emptySegment "A__") ∧
      errorOf? (applyOverrides false [] [] named).value = some (.traversesValue ["b", "c"]) := by
  decide +kernel

/-! ## Checking while loading or afterwards -/

/-- The strict check accepts a mapping if its overrides can be read and the schema is satisfied. -/
theorem checkStrictly_ok_iff {site : Site} {m m' : Mapping Value} :
    site.checkStrictly m = .ok m' ↔
      m' = m ∧ (∃ os, overridesOf true site.overriding = .ok os) ∧ site.check m = .ok () := by
  unfold Site.checkStrictly
  cases overridesOf true site.overriding with
  | error e => simp [bind, Except.bind]
  | ok os =>
    cases site.check m with
    | error e => simp [bind, Except.bind]
    | ok u => simp [bind, Except.bind, pure, Except.pure, eq_comm]

/-- What a load takes: layers that can be read, variables that can be applied to them, and a
result that stands the check if there is one. -/
theorem loadDirectly_ok_iff {site : Site} {checked : Bool} {m : Mapping Value} :
    (site.loadDirectly checked).value = .ok m ↔
      ∃ layers, site.layers = .ok layers ∧
        (applyOverrides checked (sharedOf layers) (mergeLayers layers) site.overriding).value =
          .ok m ∧
        (checked = true → site.check m = .ok ()) := by
  unfold Site.loadDirectly
  cases site.layers with
  | error e => simp
  | ok layers =>
    cases hmerged :
        (applyOverrides checked (sharedOf layers) (mergeLayers layers) site.overriding).value with
    | error e => simp [hmerged]
    | ok m' =>
      cases checked with
      | false => simp [hmerged]
      | true =>
        -- the check either refuses the mapping or leaves it as it is
        have hmap : ((site.check m').map fun _ => m') = .ok m ↔ m' = m ∧ site.check m' = .ok () := by
          cases site.check m' <;> simp [Except.map]
        simp only [hmerged, if_true, hmap, Except.ok.injEq, exists_eq_left', forall_const]
        exact and_congr_right fun heq => by rw [heq]

/-- A configuration is loaded with a check if it is loaded without one and stands the check. -/
theorem loadDirectly_checked_iff {site : Site} {m : Mapping Value} :
    (site.loadDirectly true).value = .ok m ↔
      (site.loadDirectly false).value = .ok m ∧ site.checkStrictly m = .ok m := by
  rw [checkStrictly_ok_iff, loadDirectly_ok_iff, loadDirectly_ok_iff]
  constructor
  · rintro ⟨layers, hlayers, hmerged, hcheck⟩
    obtain ⟨hlenient, hnames⟩ := applyOverrides_strict_iff.mp hmerged
    exact ⟨⟨layers, hlayers, hlenient, nofun⟩, rfl, hnames, hcheck rfl⟩
  · rintro ⟨⟨layers, hlayers, hlenient, -⟩, -, hnames, hcheck⟩
    exact ⟨layers, hlayers, applyOverrides_strict_iff.mpr ⟨hlenient, hnames⟩, fun _ => hcheck⟩

/-! ## Through the cache -/

/-- A cache holds for a site nothing but what loading it without a check gives. -/
def Cache.Faithful (cache : Cache) (site : Site) : Prop :=
  ∀ fingerprint m, site.fingerprint = .ok fingerprint → cache.get? fingerprint = some m →
    (site.loadDirectly false).value = .ok m

/-- An empty cache holds nothing that is wrong. -/
theorem Cache.faithful_nil (site : Site) : Cache.Faithful [] site := nofun

/-- Loading through a faithful cache gives the configuration that loading without a check gives. -/
theorem Cache.Faithful.loadCached_iff {cache : Cache} {site : Site} {m : Mapping Value}
    (h : cache.Faithful site) :
    (site.loadCached false cache).value = .ok m ↔ (site.loadDirectly false).value = .ok m := by
  unfold Site.loadCached
  rcases site.fingerprint_cases with ⟨fingerprint, hfingerprint⟩ | ⟨cause, cause', hrefused, hlayers⟩
  · rw [hfingerprint]
    dsimp only
    cases hcached : cache.get? fingerprint with
    | some m' => rw [h fingerprint m' hfingerprint hcached]
    | none => cases (site.loadDirectly false).value <;> simp
  · -- files that cannot be listed cannot be loaded either
    rw [hrefused]
    unfold Site.loadDirectly
    rw [hlayers]
    exact iff_of_false nofun nofun

/-- A load leaves a faithful cache faithful. -/
theorem Cache.Faithful.load {cache : Cache} {site : Site} (h : cache.Faithful site)
    (checked : Bool) : (site.load checked cache).cache.Faithful site := by
  -- the check comes after the cache and does not change it
  have hcache : (site.load checked cache).cache = (site.loadCached false cache).cache := by
    unfold Site.load
    cases hvalue : (site.loadCached false cache).value <;> cases checked <;> simp [hvalue]
  rw [hcache]
  intro fingerprint m hfingerprint hm
  unfold Site.loadCached at hm
  rw [hfingerprint] at hm
  dsimp only at hm
  cases hcached : cache.get? fingerprint with
  -- what was there before the load
  | some m' =>
    rw [hcached] at hm
    exact h fingerprint m hfingerprint hm
  | none =>
    -- what the load added is what it read, since the fingerprint is that of the same files
    rw [hcached] at hm
    cases hdirect : (site.loadDirectly false).value with
    | error e => simp [hdirect, hcached] at hm
    | ok m' =>
      dsimp only at hm
      rw [hdirect] at hm
      simpa [Cache.get?] using hm

/-- A checked load checks what comes out of the cache. -/
theorem load_checked_value (site : Site) (cache : Cache) :
    (site.load true cache).value = (site.loadCached false cache).value.bind site.checkStrictly := by
  unfold Site.load
  cases hvalue : (site.loadCached false cache).value <;> simp [hvalue, Except.bind]

/-- A checked load through a faithful cache gives what a checked direct load gives. -/
theorem Cache.Faithful.load_checked_iff {cache : Cache} {site : Site} {m : Mapping Value}
    (h : cache.Faithful site) :
    (site.load true cache).value = .ok m ↔ (site.loadDirectly true).value = .ok m := by
  rw [loadDirectly_checked_iff, load_checked_value, ← h.loadCached_iff]
  cases (site.loadCached false cache).value with
  | error e => simp [Except.bind]
  | ok m' =>
    constructor
    · intro hcheck
      obtain rfl : m = m' := (checkStrictly_ok_iff.mp hcheck).1
      exact ⟨rfl, hcheck⟩
    · rintro ⟨heq, hcheck⟩
      cases heq
      exact hcheck

/-- From an empty cache on, a checked load gives the mapping that a direct one gives, and fails
exactly when that fails. -/
theorem load_agrees (site : Site) :
    (∀ m, (site.load true []).value = .ok m ↔ (site.loadDirectly true).value = .ok m) ∧
      ((∃ e, (site.load true []).value = .error e) ↔
        ∃ e, (site.loadDirectly true).value = .error e) := by
  have hok : ∀ m, (site.load true []).value = .ok m ↔ (site.loadDirectly true).value = .ok m :=
    fun m => (Cache.faithful_nil site).load_checked_iff
  refine ⟨hok, ?_⟩
  cases hload : (site.load true []).value with
  | ok m => simp [(hok m).mp hload]
  | error e =>
    cases hdirect : (site.loadDirectly true).value with
    | error e' => simp
    | ok m => simp [(hok m).mpr hdirect] at hload

end DocFlatten.Config
