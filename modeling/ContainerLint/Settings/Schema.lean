import ContainerLint.Settings.Basic

/-!
# The JSON schema of settings files

## Main definitions

* `Settings.jsonSchema` — the schema, for editors.
-/

set_option autoImplicit false

namespace ContainerLint.Settings.JsonSchema

/-- A property with a description and a default. -/
def property (description : String) (byDefault : JsonValue)
    (shape : List (String × JsonValue)) : JsonValue :=
  .obj (shape ++ [("default", byDefault), ("description", .str description)])

/-- The shape of a property of a simple type. -/
def simple (type : String) : List (String × JsonValue) :=
  [("type", .str type)]

/-- The shape of a property that is defined elsewhere. -/
def reference (name : String) : List (String × JsonValue) :=
  [("allOf", .arr [.obj [("$ref", .str ("#/definitions/" ++ name))]])]

/-- The shape of an object with exactly the given properties. -/
def object (properties : List (String × JsonValue)) : List (String × JsonValue) :=
  [("type", .str "object"), ("properties", .obj properties), ("additionalProperties", .bool false)]

/-- The description of the whole file. -/
def overview : String :=
  "Top-level `collcheck.toml` configuration.\n\n```toml [logging] level = \"info\"\n\n" ++
  "[checks.strict_collection_incompatible_type] enabled = true severity = \"warning\"\n\n" ++
  "[checks.unexpected_type] enabled = false\n\n[catalog] extra = [\"catalogs/guava.toml\"] ```"

/-- The catalog table. -/
def catalogTable : JsonValue :=
  .obj (object [
    ("extra",
      property
        ("Catalog TOML files. Relative paths are resolved against the directory containing the " ++
          "config file.")
        (.arr []) [("type", .str "array"), ("items", .obj (simple "string"))])])

/-- The table of one check. -/
def checkTable : JsonValue :=
  .obj (object [
    ("enabled",
      property "Overrides the check's built-in default when set." .null
        [("type", .strings ["boolean", "null"])]),
    ("severity",
      property "Severity of the reported diagnostics." (.str Severity.warning.name)
        (reference "Severity"))])

/-- The table of the checks. -/
def checksTable : JsonValue :=
  let byDefault : CheckSettings := {}
  .obj (object [
    ("strict_collection_incompatible_type",
      property
        ("Bidirectional-subtype check over the full container catalog. Enabled unless set " ++
          "otherwise.")
        byDefault.toJson (reference "CheckConfig")),
    ("unexpected_type",
      property
        ("Castability check over `Map.get/containsKey/remove` and `Collection.contains/remove`. " ++
          "Disabled unless set otherwise.")
        byDefault.toJson (reference "CheckConfig"))])

/-- The logging table. -/
def loggingTable : JsonValue :=
  let byDefault : LoggingSettings := {}
  .obj (object [
    ("level",
      property "Logging level for all collcheck crates." (.str byDefault.level) (simple "string")),
    ("json", property "Emit logs in JSON format." (.bool byDefault.json) (simple "boolean")),
    ("stderr",
      property
        "Write logs to stderr. When disabled the subscriber still filters but discards output."
        (.bool byDefault.stderr) (simple "boolean"))])

/-- The severities. -/
def severityNames : JsonValue :=
  .obj [("type", .str "string"), ("enum", .strings (Severity.all.map Severity.name))]

end JsonSchema

open JsonSchema in
/-- The JSON schema of settings files. -/
def jsonSchema : JsonValue :=
  let byDefault : Settings := {}
  .obj ([("$schema", .str "http://json-schema.org/draft-07/schema#"),
      ("title", .str "CollcheckConfig"),
      ("description", .str overview)]
    ++ object [
      ("logging",
        property "Global logging settings for collcheck crates." byDefault.logging.toJson
          (reference "LoggingConfig")),
      ("checks",
        property "Per-check enablement and severity." byDefault.checksToJson
          (reference "ChecksConfig")),
      ("catalog",
        property "Additional catalog files merged into the built-in catalogs."
          byDefault.catalogToJson (reference "CatalogConfig"))]
    ++ [("definitions", .obj [
        ("CatalogConfig", catalogTable),
        ("CheckConfig", checkTable),
        ("ChecksConfig", checksTable),
        ("LoggingConfig", loggingTable),
        ("Severity", severityNames)])])

end ContainerLint.Settings
