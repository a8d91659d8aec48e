import ContainerLint.Settings.Basic
import ContainerLint.Text.CharClass
import ContainerLint.Toml.Parser
import ContainerLint.Toml.Value

/-!
# Settings in TOML documents

A settings file may have keys that mean nothing. They do no harm, but they are reported, since they
are often misspelled. Only the outermost unknown key of a path is reported.

## Main definitions

* `Settings.decode` — the settings of a document.
* `Settings.showPath` — the path of a key as it is reported.
* `Noting`, `Visitor` — passes over a document that note keys; `Visitor.record` visits a record.
* `Settings.decodeReporting` — the settings of a document and its unknown keys, in order and without
  repetition.

## Design

There are two readers of settings. The first one asks a table for the fields that it knows. The
second one is led through the table entry by entry, in the order of the document. An entry with a
field changes the record that is read, and an entry without one is noted with its path.
-/

set_option autoImplicit false

namespace ContainerLint

open Toml

/-! ## Reading settings -/

namespace LoggingSettings

/-- The fields, in order. -/
def fieldNames : List String := ["level", "json", "stderr"]

/-- Read logging settings. -/
def decode : Decoder LoggingSettings := fun v => do
  let fields ← v.fields? fieldNames
  let byDefault : LoggingSettings := {}
  let level ← optional fields "level" .text byDefault.level
  let json ← optional fields "json" .flag byDefault.json
  let stderr ← optional fields "stderr" .flag byDefault.stderr
  return { level, json, stderr }

end LoggingSettings

namespace CheckSettings

/-- The fields, in order. -/
def fieldNames : List String := ["enabled", "severity"]

/-- The severities by name. -/
def severityNames : List (String × Severity) :=
  Severity.all.map fun s => (s.name, s)

/-- Read check settings. -/
def decode : Decoder CheckSettings := fun v => do
  let fields ← v.fields? fieldNames
  let byDefault : CheckSettings := {}
  let enabled ← optional fields "enabled" (fun v => (Decoder.flag v).map some) byDefault.enabled
  let severity ← optional fields "severity" (.choice severityNames) byDefault.severity
  return { enabled, severity }

end CheckSettings

namespace Settings

/-- The names of the checks, in order. -/
def checkNames : List String := ["strict_collection_incompatible_type", "unexpected_type"]

/-- Read the settings of both checks. -/
def decodeChecks : Decoder (CheckSettings × CheckSettings) := fun v => do
  let fields ← v.fields? checkNames
  let strict ← optional fields "strict_collection_incompatible_type" CheckSettings.decode {}
  let unexpected ← optional fields "unexpected_type" CheckSettings.decode {}
  return (strict, unexpected)

/-- Read the paths of further catalogs. -/
def decodeCatalog : Decoder (List String) := fun v => do
  let fields ← v.fields? ["extra"]
  optional fields "extra" (.list .text) []

/-- The settings of a document. -/
def decode (document : Entries) : Option Settings := do
  let logging ← optional document "logging" LoggingSettings.decode {}
  let (strictCheck, unexpectedCheck) ← optional document "checks" decodeChecks ({}, {})
  let extraCatalogs ← optional document "catalog" decodeCatalog []
  return { logging, strictCheck, unexpectedCheck, extraCatalogs }

end Settings

/-! ## Paths -/

namespace Settings

/-- Whether a segment of a path, not the first one, is shown as a position. -/
def isPosition (segment : String) : Bool :=
  !segment.isEmpty && segment.toList.all Char.isDigit

/-- A further segment of a path as it is shown: in brackets if it is a number, after a dot if it is
not. -/
def showSegment (shown segment : String) : String :=
  if isPosition segment then shown ++ "[" ++ segment ++ "]"
  else if shown.isEmpty then segment
  else shown ++ "." ++ segment

/-- A path as it is reported. Dots within keys count as dots between them, and dots at the start do
not count. -/
def showPath (path : List String) : String :=
  let joined := (".".intercalate path).toList.dropWhile (· == '.')
  match Text.splitAt '.' (String.ofList joined) with
  | [] => ""
  | first :: segments => segments.foldl showSegment first

/-- The members of a sorted list without repetitions. -/
def dropRepeated : List String → List String
  | [] => []
  | [a] => [a]
  | a :: b :: rest => if a = b then dropRepeated (b :: rest) else a :: dropRepeated (b :: rest)

end Settings

/-! ## Reading with notes -/

/-- A pass over a document. It may fail, and it notes keys on its way. -/
abbrev Noting := StateT (List String) Option

/-- Note the key that a path leads to. -/
def Noting.note (path : List String) : Noting Unit :=
  modify (· ++ [Settings.showPath path])

/-- How the value at a place of a document is read by such a pass. -/
abbrev Visitor (α : Type) := List String → Value → Noting α

namespace Visitor

variable {α σ : Type}

/-- A value in which no keys are noted. -/
def leaf (read : Decoder α) : Visitor α := fun _ v =>
  StateT.lift (read v)

/-- A field of a record: its name, and how its value changes the record. -/
def field (name : String) (visit : Visitor α) (set : α → σ → σ) : String × Visitor (σ → σ) :=
  (name, fun place v => set <$> visit place v)

/-- Change a record by the entries of a table, one after the other. An entry without a field is
noted, and its value is passed over. -/
def visitEntries (fields : List (String × Visitor (σ → σ))) (place : List String) :
    Entries → σ → Noting σ
  | [], s => pure s
  | (key, v) :: entries, s =>
    match lookup fields key with
    | some visit => do
      let change ← visit (place ++ [key]) v
      visitEntries fields place entries (change s)
    | none => do
      Noting.note (place ++ [key])
      visitEntries fields place entries s

/-- Change a record by the items of an array, which stand for its fields in their order. -/
def visitItems (place : List String) :
    List (String × Visitor (σ → σ)) → Nat → List Value → σ → Noting σ
  | (_, visit) :: fields, n, v :: items, s => do
    let change ← visit (place ++ [toString n]) v
    visitItems place fields (n + 1) items (change s)
  | _, _, _, s => pure s

/-- Read a record with the given fields. Those that are not there are as in `start`. -/
def record (start : σ) (fields : List (String × Visitor (σ → σ))) : Visitor σ := fun place v =>
  match v with
  | .table entries => visitEntries fields place entries start
  | .array items => visitItems place fields 0 items start
  | .datetime spelling => visitEntries fields place [(datetimeField, .str spelling)] start
  | _ => failure

end Visitor

open Visitor

/-- Read logging settings, with notes. -/
def LoggingSettings.visit : Visitor LoggingSettings :=
  record {} [
    field "level" (leaf .text) fun level s => { s with level },
    field "json" (leaf .flag) fun json s => { s with json },
    field "stderr" (leaf .flag) fun stderr s => { s with stderr }]

/-- Read check settings, with notes. -/
def CheckSettings.visit : Visitor CheckSettings :=
  record {} [
    field "enabled" (leaf fun v => (Decoder.flag v).map some) fun enabled s => { s with enabled },
    field "severity" (leaf (.choice severityNames)) fun severity s => { s with severity }]

namespace Settings

/-- Read the settings of both checks, with notes. -/
def visitChecks : Visitor (CheckSettings × CheckSettings) :=
  record ({}, {}) [
    field "strict_collection_incompatible_type" CheckSettings.visit
      fun strict s => (strict, s.2),
    field "unexpected_type" CheckSettings.visit fun unexpected s => (s.1, unexpected)]

/-- Read the paths of further catalogs, with notes. -/
def visitCatalog : Visitor (List String) :=
  record [] [field "extra" (leaf (.list .text)) fun paths _ => paths]

/-- Read settings, with notes. -/
def visit : Visitor Settings :=
  record {} [
    field "logging" LoggingSettings.visit fun logging s => { s with logging },
    field "checks" visitChecks fun checks s =>
      { s with strictCheck := checks.1, unexpectedCheck := checks.2 },
    field "catalog" visitCatalog fun extraCatalogs s => { s with extraCatalogs }]

/-- The keys that were noted, as they are reported. -/
def reported (notes : List String) : List String :=
  dropRepeated (notes.mergeSort fun a b => decide (a ≤ b))

/-- The settings of a document, and its keys that mean nothing. -/
def decodeReporting (document : Entries) : Option (Settings × List String) := do
  let (s, notes) ← (visit [] (.table document)).run []
  return (s, reported notes)

end Settings

end ContainerLint
