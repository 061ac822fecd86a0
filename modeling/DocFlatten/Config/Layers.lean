import DocFlatten.Config.Override
import DocFlatten.Value.Merge

/-! # Layers

A configuration is merged from layers: the bundled defaults, the files of the project, its
local files that are not shared, and last the variables of the environment. It is known of
every leaf of the configuration which layer it comes from.
-/

namespace DocFlatten.Config

/-- Where a configuration is read. -/
structure Site where
  files : FileTree
  environment : Mapping String
  /-- The directory of the bundled data. -/
  dataDir : String
  /-- The directory that holds the configuration of the project. -/
  root : String
  libraries : Libraries := .builtIn

/-- One file of a configuration. -/
structure Layer where
  label : String
  data : Mapping Value
  /-- The places of mappings that stand at several of them. -/
  shared : Sharing := []

namespace Site

/-- A directory of the project's configuration. -/
def projectDir (site : Site) (name : String) : String :=
  Path.join (Path.join site.root ".adoc-reducer") name

/-- The variables of the environment that override settings. -/
def overriding (site : Site) : Mapping String :=
  overridingVariables site.environment

/-- The label of a project's file. -/
def fileLabel (kind name : String) : String :=
  kind ++ ":" ++ name

/-- The files of all layers, lowest first, with their labels. -/
def layerFiles (site : Site) : Except Error (List (String × String)) := do
  let listed (dir : String) (label : String → String) : Except Error (List (String × String)) :=
    match dataFiles site.files dir with
    | .ok files => .ok (files.map fun file => (label file.1, Path.join dir file.1))
    | .error e => .error (.system e)
  let bundled ← listed (Path.join site.dataDir "config") (fun _ => "default")
  let project ← listed (site.projectDir "config") (fileLabel "project")
  let own ← listed (site.projectDir "config.local") (fileLabel "local")
  return bundled ++ project ++ own

end Site

/-- The mapping in a file of a configuration, and what is shared in it. -/
def loadMapping (parse : Parser) (files : FileTree) (path : String) :
    Except Error (Mapping Value × Sharing) :=
  match readDataOr parse files path (.mapping []) with
  | .error e => .error (.invalidFile path e)
  | .ok { value := .mapping data, shared } => .ok (data, shared)
  | .ok _ => .error (.notMapping path)

/-- The layer in a file, given by its label and its path. -/
def Site.loadLayer (site : Site) (file : String × String) : Except Error Layer := do
  let (data, shared) ← loadMapping site.libraries.parse site.files file.2
  return { label := file.1, data, shared }

/-- All layers of files, lowest first. -/
def Site.layers (site : Site) : Except Error (List Layer) := do
  (← site.layerFiles).mapM site.loadLayer

/-- The mapping that layers amount to. -/
def mergeLayers (layers : List Layer) : Mapping Value :=
  layers.foldl (fun m layer => Value.mergeEntries m layer.data) []

/-- What is shared in the mapping that layers amount to. -/
def sharedOf (layers : List Layer) : Sharing :=
  (layers.foldl (fun (m, shared) layer =>
    (Value.mergeEntries m layer.data,
      Sharing.merge shared m { value := .mapping layer.data, shared := layer.shared })) ([], [])).2

/-- Check a configuration against its schema. -/
def Site.check (site : Site) (m : Mapping Value) : Except Error Unit :=
  match validate site.libraries site.files site.dataDir (.mapping m) schemaName with
  | .ok () => .ok ()
  | .error e => .error (.validation schemaName e)

/-- Load a configuration from all its sources. If it is to be checked, the names of variables
have to be well-formed as well. -/
def Site.loadDirectly (site : Site) (checked : Bool) : Logged (Except Error (Mapping Value)) :=
  match site.layers with
  | .error e => { value := .error e, log := [] }
  | .ok layers =>
    let merged := applyOverrides checked (sharedOf layers) (mergeLayers layers) site.overriding
    match merged.value with
    | .error e => { value := .error e, log := merged.log }
    | .ok m =>
      if checked then { value := (site.check m).map fun _ => m, log := merged.log }
      else merged

/-! ## Sources -/

mutual

/-- The keys of the leaves below a value, each with whether it is an empty mapping. -/
def leavesOf (key : String) : Value → List (String × Bool)
  | .mapping [] => [(key, true)]
  | .mapping entries => leafKeys (key ++ ".") entries
  | _ => [(key, false)]

/-- The keys of the leaves of a mapping, in front of each the keys above it. -/
def leafKeys (above : String) : List (String × Value) → List (String × Bool)
  | [] => []
  | (key, v) :: rest => leavesOf (above ++ key) v ++ leafKeys above rest

end

/-- Whether a dotted key lies below another one. -/
def isBelow (key above : String) : Bool :=
  key.startsWith (above ++ ".")

/-- Record where a key comes from; what was recorded below or above it no longer counts. -/
def recordSource (sources : Mapping String) (key label : String) : Mapping String :=
  let others := sources.filter fun entry => !(isBelow entry.1 key || isBelow key entry.1)
  Mapping.insert others key label

/-- Record the leaves of a layer. An empty mapping leaves standing what is below it. -/
def recordLayer (sources : Mapping String) (layer : Layer) : Mapping String :=
  (leafKeys "" layer.data).foldl (fun sources leaf =>
    if leaf.2 && (Mapping.keys sources).any (isBelow · leaf.1) then sources
    else recordSource sources leaf.1 layer.label) sources

/-- The leaves that an override sets, the override's own key first. -/
def overriddenKeys (key : String) (v : Value) : List String :=
  match v with
  | .mapping (entry :: rest) => key :: (leafKeys (key ++ ".") (entry :: rest)).map (·.1)
  | _ => [key]

/-- The configuration while overrides are recorded: its mapping, what is shared in it, and where
its leaves come from. -/
structure Recorded where
  mapping : Mapping Value
  shared : Sharing
  sources : Mapping String

/-- Record the leaves of an override, which is applied to the configuration so far. -/
def recordOverride (state : Recorded) (o : Override) : Except Error Recorded := do
  let (keys, m, shared) ← assignShared state.shared state.mapping o.path o.value
  let label := "env:" ++ variableStart ++ o.name
  return {
    mapping := m, shared
    sources := (overriddenKeys (".".intercalate keys) o.value).foldl
      (fun sources key => recordSource sources key label) state.sources }

/-- Record the leaves of all overrides. A variable is read when its turn has come. -/
def recordOverrides (state : Recorded) : List (String × String) → Except Error Recorded
  | [] => .ok state
  | (name, text) :: rest => do
    match ← overrideOf false name text with
    | none => recordOverrides state rest
    | some o => recordOverrides (← recordOverride state o) rest

/-- The layer that every leaf of the configuration comes from, by dotted key. -/
def Site.sources (site : Site) : Except Error (Mapping String) := do
  let layers ← site.layers
  let recorded ← recordOverrides {
    mapping := mergeLayers layers, shared := sharedOf layers
    sources := layers.foldl recordLayer [] } site.overriding
  return recorded.sources

end DocFlatten.Config
