import ContainerLint.Analysis.CallSite

/-!
# Settings

What a settings file can say, and how it is shown as a JSON value.

## Main definitions

* `LoggingSettings`, `CheckSettings`, `Settings` — what a settings file can say.
* `JsonValue` — a JSON value whose numbers are natural numbers.
* `Settings.toJson` — settings as a JSON value.
-/

set_option autoImplicit false

namespace ContainerLint

/-- How logging is set up. -/
structure LoggingSettings where
  /-- A level or a filter. -/
  level : String := "info"
  /-- Whether log lines are JSON objects. -/
  json : Bool := false
  /-- Whether log lines are written at all. -/
  stderr : Bool := true
deriving DecidableEq, Inhabited

/-- How a check is set up. -/
structure CheckSettings where
  /-- Whether the check runs, if the file says so. -/
  enabled : Option Bool := none
  /-- Severity of its reports. -/
  severity : Severity := .warning
deriving DecidableEq, Inhabited

/-- Whether a check runs, given what it does by default. -/
def CheckSettings.isEnabled (s : CheckSettings) (byDefault : Bool) : Bool :=
  s.enabled.getD byDefault

/-- The content of a settings file. -/
structure Settings where
  logging : LoggingSettings := {}
  /-- The check for unrelated types. -/
  strictCheck : CheckSettings := {}
  /-- The check for types that exclude each other. -/
  unexpectedCheck : CheckSettings := {}
  /-- Paths of further catalogs. -/
  extraCatalogs : List String := []
deriving DecidableEq, Inhabited

/-! ## Settings as JSON values -/

/-- A JSON value. The numbers of this library are counts and positions. -/
inductive JsonValue where
  | null
  | bool (b : Bool)
  | num (n : Nat)
  | str (s : String)
  | arr (items : List JsonValue)
  | obj (fields : List (String × JsonValue))
deriving Inhabited

/-- An array of strings. -/
def JsonValue.strings (ss : List String) : JsonValue :=
  .arr (ss.map .str)

/-- Logging settings as a JSON value. -/
def LoggingSettings.toJson (s : LoggingSettings) : JsonValue :=
  .obj [("level", .str s.level), ("json", .bool s.json), ("stderr", .bool s.stderr)]

/-- Check settings as a JSON value. -/
def CheckSettings.toJson (s : CheckSettings) : JsonValue :=
  .obj [("enabled", (s.enabled.map .bool).getD .null), ("severity", .str s.severity.name)]

namespace Settings

/-- The settings of both checks as a JSON value. -/
def checksToJson (s : Settings) : JsonValue :=
  .obj [("strict_collection_incompatible_type", s.strictCheck.toJson),
    ("unexpected_type", s.unexpectedCheck.toJson)]

/-- The settings of the catalogs as a JSON value. -/
def catalogToJson (s : Settings) : JsonValue :=
  .obj [("extra", .strings s.extraCatalogs)]

/-- Settings as a JSON value. -/
def toJson (s : Settings) : JsonValue :=
  .obj [("logging", s.logging.toJson), ("checks", s.checksToJson), ("catalog", s.catalogToJson)]

end Settings

end ContainerLint
