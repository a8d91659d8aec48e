import ContainerLint.Settings.Basic
import ContainerLint.Log.Filter

/-!
# Where log events go

Logging starts once. From then on, the events that pass the filter become lines, as text or as JSON
objects, unless output is switched off.

## Main definitions

* `LoggingSettings.filter` — the filter that settings and environment ask for.
* `LogSink` — what becomes of events, with `LogSink.lines`.
* `LogSink.start` — start logging, if it has not been started.
-/

set_option autoImplicit false

namespace ContainerLint

open Text

namespace LoggingSettings

/-- The levels that may be written alone, also in capitals, and the filters that they stand for. -/
def levelNames : List (String × String) :=
  [("trace", "trace"), ("debug", "debug"), ("info", "info"), ("warn", "warn"), ("warning", "warn"),
    ("error", "error")]

/-- The filter text that a level setting stands for. A blank setting stands for the default; what is
not a level is taken for a filter. -/
def normalizeLevel (level : String) : String :=
  let trimmed := trimBlanks level
  if trimmed.isEmpty then ({} : LoggingSettings).level
  else
    let lower := String.ofList (trimmed.toList.map Char.toLower)
    match levelNames.find? fun n => n.1 == lower with
    | some (_, level) => level
    | none => trimmed

/-- The filter of the settings alone. A malformed one is replaced by the default. -/
def ownFilter (s : LoggingSettings) : LogFilter :=
  (LogFilter.parse? (normalizeLevel s.level)).getD (.ofLevel .info)

/-- The filter of the settings together with that of the environment, which comes second and so has
the last word. If the two cannot be read together, that of the environment counts alone, and if it
cannot be read either, that of the settings. -/
def filter (s : LoggingSettings) (environment : Option String) : LogFilter :=
  match (environment.map trimBlanks).filter (!·.isEmpty) with
  | none => s.ownFilter
  | some env =>
    match LogFilter.parse? (normalizeLevel s.level ++ "," ++ env) with
    | some f => f
    | none => (LogFilter.parse? env).getD s.ownFilter

end LoggingSettings

/-- A log line. -/
inductive LogLine where
  | text (line : String)
  | json (line : JsonValue)

namespace FieldValue

/-- A field value in a line of text. The texts that are quoted need no escapes. -/
def showText : FieldValue → String
  | .plain text => text
  | .quoted text => "\"" ++ text ++ "\""
  | .number n => toString n
  | .flag b => if b then "true" else "false"

/-- A field value in a JSON object. -/
def toJson : FieldValue → JsonValue
  | .plain text => .str text
  | .quoted text => .str text
  | .number n => .num n
  | .flag b => .bool b

end FieldValue

namespace LogRecord

/-- An event as a line of text. -/
def showText (r : LogRecord) : String :=
  " ".intercalate ([r.level.name, r.target ++ ":", r.message]
    ++ r.fields.map fun (name, v) => name ++ "=" ++ v.showText)

/-- An event as a JSON object. -/
def toJson (r : LogRecord) : JsonValue :=
  .obj [("level", .str r.level.name),
    ("fields", .obj
      (("message", .str r.message) :: r.fields.map fun (name, v) => (name, v.toJson))),
    ("target", .str r.target)]

end LogRecord

/-- What becomes of log events. -/
structure LogSink where
  filter : LogFilter
  json : Bool
  silent : Bool
deriving DecidableEq, Inhabited

namespace LogSink

/-- The lines for some events. -/
def lines (sink : LogSink) (events : List LogEvent) : List LogLine :=
  if sink.silent then []
  else
    ((events.map LogEvent.record).filter sink.filter.allows).map fun r =>
      if sink.json then .json r.toJson else .text r.showText

/-- Start logging. Only the first start counts; it says whether this was the one, and it is itself
an event. -/
def start (current : Option LogSink) (s : LoggingSettings) (environment : Option String) :
    LogSink × Bool × List LogEvent :=
  match current with
  | some sink => (sink, false, [])
  | none =>
    ({ filter := s.filter environment, json := s.json, silent := !s.stderr }, true,
      [.loggingStarted s.level s.json])

end LogSink

end ContainerLint
