import ContainerLint.Verdict

/-!
# Log events

What happens during an analysis is told in events. An event is a cause with its data; how it is
worded, at which level and under which target it is filed, is said in one place.

## Main definitions

* `LogLevel` — the five levels.
* `LogEvent` — the events.
* `LogRecord` — an event in words, as `LogEvent.record` gives it.
-/

set_option autoImplicit false

namespace ContainerLint

/-- How important an event is. -/
inductive LogLevel where
  | error
  | warn
  | info
  | debug
  | trace
deriving DecidableEq, Inhabited

/-- The levels by verbosity, from one to five. -/
def LogLevel.verbosity : LogLevel → Nat
  | .error => 1
  | .warn => 2
  | .info => 3
  | .debug => 4
  | .trace => 5

/-- The name of a level in a log line. -/
def LogLevel.name : LogLevel → String
  | .error => "ERROR"
  | .warn => "WARN"
  | .info => "INFO"
  | .debug => "DEBUG"
  | .trace => "TRACE"

/-- A value that is attached to an event. -/
inductive FieldValue where
  /-- Text that is shown as it is. -/
  | plain (text : String)
  /-- Text that is shown in quotes. -/
  | quoted (text : String)
  | number (n : Nat)
  | flag (b : Bool)
deriving DecidableEq, Inhabited

/-- An event in words. -/
structure LogRecord where
  level : LogLevel
  target : String
  message : String
  fields : List (String × FieldValue)
deriving DecidableEq, Inhabited

/-- What can happen. -/
inductive LogEvent where
  /-- A catalog entry cannot be expressed in the class table. -/
  | entryDropped (entry reason : String)
  /-- A catalog was bound to a class table. -/
  | catalogResolved (entries dropped : Nat)
  /-- The receiver does not say what the type arguments of the base type are. -/
  | receiverUnclear (entry receiver : String)
  /-- The base type has fewer parameters than the entry asks for. -/
  | parameterMissing (entry : String) (arity : Nat)
  /-- The types to be compared are not known well enough. -/
  | comparisonOpen (entry parameter argument : String)
  /-- A matching entry was tried. -/
  | callDecided (entry receiver argument : String) (verdict : Verdict)
  /-- A checker is ready. -/
  | checkerBuilt (classes checks : Nat)
  /-- The settings switch a check off. -/
  | checkDisabled (check : String)
  /-- The settings have a key that means nothing. -/
  | unknownKey (key : String)
  /-- Logging has started. -/
  | loggingStarted (level : String) (json : Bool)
deriving DecidableEq, Inhabited

namespace LogEvent

/-- An event of the catalogs. -/
def catalogRecord (level : LogLevel) (message : String) (fields : List (String × FieldValue)) :
    LogRecord :=
  { level, target := "collcheck.catalog", message, fields }

/-- An event of the analysis. -/
def analysisRecord (level : LogLevel) (message : String) (fields : List (String × FieldValue)) :
    LogRecord :=
  { level, target := "collcheck.analysis", message, fields }

/-- An event of the settings. -/
def settingsRecord (level : LogLevel) (message : String) (fields : List (String × FieldValue)) :
    LogRecord :=
  { level, target := "collcheck.config", message, fields }

/-- The wording of an event. -/
def record : LogEvent → LogRecord
  | .entryDropped entry reason =>
    catalogRecord .warn "dropping catalog entry"
      [("entry", .plain entry), ("reason", .quoted reason)]
  | .catalogResolved entries dropped =>
    catalogRecord .debug "catalog resolved"
      [("entries", .number entries), ("dropped", .number dropped)]
  | .receiverUnclear entry receiver =>
    analysisRecord .debug "receiver type arguments unavailable for base type (raw or unrelated)"
      [("entry", .plain entry), ("receiver", .plain receiver)]
  | .parameterMissing entry arity =>
    analysisRecord .debug "type parameter index out of range"
      [("entry", .plain entry), ("arity", .number arity)]
  | .comparisonOpen entry parameter argument =>
    analysisRecord .debug "parameter or argument has no erasure"
      [("entry", .plain entry), ("parameter", .plain parameter), ("argument", .plain argument)]
  | .callDecided entry receiver argument verdict =>
    analysisRecord .trace "decided call site"
      [("entry", .plain entry), ("receiver", .plain receiver), ("argument", .plain argument),
        ("verdict", .plain verdict.name)]
  | .checkerBuilt classes checks =>
    analysisRecord .debug "checker built"
      [("classes", .number classes), ("checks", .number checks)]
  | .checkDisabled check => analysisRecord .debug "check disabled" [("check", .quoted check)]
  | .unknownKey key => settingsRecord .warn "ignoring unknown config key" [("key", .plain key)]
  | .loggingStarted level json =>
    settingsRecord .debug "tracing initialized" [("level", .plain level), ("json", .flag json)]

end LogEvent

end ContainerLint
