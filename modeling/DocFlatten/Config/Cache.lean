import DocFlatten.Config.Layers

/-! # Cached configurations

A loaded configuration is kept under a fingerprint of what it was loaded from: the root, the
variables that override settings, and the project's files with their stamps. As long as the
fingerprint stays the same, loading again would give the same result.
-/

namespace DocFlatten.Config

/-- What a configuration depends on. -/
structure Fingerprint where
  root : String
  environment : List (String × String)
  /-- Directory, name and stamp of each file. -/
  files : List (String × String × Nat)
  deriving Repr, DecidableEq

/-- What the configuration of a site depends on. -/
def Site.fingerprint (site : Site) : Except Error Fingerprint := do
  let listed (name : String) : Except Error (List (String × String × Nat)) :=
    match dataFiles site.files (site.projectDir name) with
    | .ok files => .ok (files.map fun (file, stamp) => (name, file, stamp))
    | .error e => .error (.system e)
  let project ← listed "config"
  let own ← listed "config.local"
  return { root := site.root, environment := site.overriding, files := project ++ own }

/-- Configurations by what they were loaded from. -/
abbrev Cache := List (Fingerprint × Mapping Value)

/-- The configuration with a fingerprint. -/
def Cache.get? (cache : Cache) (fingerprint : Fingerprint) : Option (Mapping Value) :=
  (cache.find? fun entry => entry.1 == fingerprint).map (·.2)

/-- Whether the configuration of a site is cached. -/
def Site.isCached (site : Site) (cache : Cache) : Except Error Bool :=
  site.fingerprint.map fun fingerprint => (cache.get? fingerprint).isSome

/-- What loading has led to. -/
structure Loaded (α : Type) where
  value : Except Error α
  cache : Cache
  log : List Log.Record

/-- Load a configuration through the cache. One that is cached is not checked again. -/
def Site.loadCached (site : Site) (checked : Bool) (cache : Cache) : Loaded (Mapping Value) :=
  match site.fingerprint with
  | .error e => { value := .error e, cache, log := [] }
  | .ok fingerprint =>
    match cache.get? fingerprint with
    | some m => { value := .ok m, cache, log := [] }
    | none =>
      let loaded := site.loadDirectly checked
      match loaded.value with
      | .error e => { value := .error e, cache, log := loaded.log }
      | .ok m => { value := .ok m, cache := (fingerprint, m) :: cache, log := loaded.log }

/-- Check a configuration and the names of the variables that override settings. -/
def Site.checkStrictly (site : Site) (m : Mapping Value) : Except Error (Mapping Value) := do
  let _ ← overridesOf true site.overriding
  site.check m
  return m

/-- Load a configuration through the cache, and check it if asked for. -/
def Site.load (site : Site) (checked : Bool) (cache : Cache) : Loaded (Mapping Value) :=
  let loaded := site.loadCached false cache
  match loaded.value with
  | .error _ => loaded
  | .ok m => if checked then { loaded with value := site.checkStrictly m } else loaded

/-! ## Values -/

/-- The value that is found by following keys. -/
def follow? : Value → List String → Option Value
  | v, [] => some v
  | v, key :: rest => (v.get? key).bind fun v => follow? v rest

/-- The value under a dotted key. -/
def lookup? (m : Mapping Value) (key : String) : Option Value :=
  follow? (.mapping m) (Text.splitAt (· == '.') key)

end DocFlatten.Config
