import DocFlatten.FileTree

/-! # Bundled data

The defaults of the configuration and the schema that a configuration has to satisfy. They
are files of a data directory, so that other schemas can stand beside them.
-/

namespace DocFlatten.Config

/-- The format of log records that is used unless another one is configured. -/
def defaultFormat : String := "adoc-reducer: %(levelname)s: %(message)s"

/-- The lowest layer of every configuration. -/
def defaults : Mapping Value := [
  ("reducer", .mapping [
    ("safe", .text "unsafe"), ("sourcemap", .bool false),
    ("preserveConditionals", .bool false), ("includeMap", .bool false),
    ("maxIncludeDepth", .int 64), ("attributes", .mapping [])]),
  ("logging", .mapping [("level", .text "warn"), ("format", .text defaultFormat)])]

/-- A schema that asks for a type. -/
def ofType (name : String) : Value :=
  .mapping [("type", .text name)]

/-- A schema that asks for one of some texts. -/
def oneOf (names : List String) : Value :=
  .mapping [("type", .text "string"), ("enum", .list (names.map .text))]

/-- A schema for the mapping of a section, whose keys are all described. -/
def sectionSchema (described : Mapping Value) : Value :=
  .mapping [("type", .text "object"), ("properties", .mapping described),
    ("additionalProperties", .bool false)]

/-- The schema of a configuration. -/
def schema : Mapping Value := [
  ("title", .text "adoc-reducer configuration"),
  ("type", .text "object"),
  ("properties", .mapping [
    ("reducer", sectionSchema [
      ("safe", oneOf ["unsafe", "safe", "server", "secure"]),
      ("sourcemap", ofType "boolean"),
      ("preserveConditionals", ofType "boolean"),
      ("includeMap", ofType "boolean"),
      ("maxIncludeDepth", .mapping [("type", .text "integer"), ("minimum", .int 0)]),
      ("attributes", .mapping [
        ("type", .text "object"),
        ("additionalProperties", .mapping [
          ("type", .list [.text "string", .text "number", .text "boolean", .text "null"])])])]),
    ("logging", sectionSchema [
      ("level", oneOf ["debug", "info", "warn", "warning", "error", "fatal", "critical"]),
      ("format", ofType "string")])]),
  ("additionalProperties", .bool true)]

/-- The name of the schema of a configuration. -/
def schemaName : String := "config/config.schema.yaml"

/-- Files with the bundled data under a directory. -/
def install (dataDir : List String) (files : FileTree) : FileTree :=
  (files.addFile (dataDir ++ ["config", "defaults.yaml"]) (.data (.mapping defaults))).addFile
    (dataDir ++ ["schemas", "config", "config.schema.yaml"]) (.data (.mapping schema))

end DocFlatten.Config
