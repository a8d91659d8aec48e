import ContainerLint.Settings.Document
import ContainerLint.Settings.Validate

/-!
# Loading settings

## Main definitions

* `SettingsError` — why settings cannot be loaded.
* `SettingsReport` — what was noticed about a document.
* `Settings.ofText`, `Settings.ofTextReporting` — settings from a text.
* `Settings.ofFile`, `Settings.ofFileReporting` — settings from a file.
* `Settings.discover?`, `Settings.ofRoot` — the settings of a project.
-/

set_option autoImplicit false

namespace ContainerLint

/-- Why settings cannot be loaded. -/
inductive SettingsError where
  /-- The file cannot be read. -/
  | unreadable (path : String)
  /-- The text is not a settings document. -/
  | malformed
deriving DecidableEq, Inhabited

/-- What was noticed about a document. -/
structure SettingsReport where
  unknownKeys : List String := []
  warnings : List SettingsWarning := []
  faults : List SettingsFault := []
deriving DecidableEq, Inhabited

/-- Whether nothing was noticed. -/
def SettingsReport.isEmpty (r : SettingsReport) : Bool :=
  r.unknownKeys.isEmpty && r.warnings.isEmpty && r.faults.isEmpty

/-- Whether nothing is wrong. -/
def SettingsReport.isOk (r : SettingsReport) : Bool :=
  r.faults.isEmpty

namespace Settings

/-- The settings in a text. -/
def ofText (text : String) : Except SettingsError Settings :=
  match (Toml.parse? text).bind decode with
  | some s => .ok s
  | none => .error .malformed

/-- The settings in the text of a file in `directory`, or of no file, with a report. -/
def readReporting (tree : FileTree) (directory : Option String) (text : String) :
    Except SettingsError (Settings × SettingsReport) :=
  match (Toml.parse? text).bind decodeReporting with
  | none => .error .malformed
  | some (s, unknownKeys) =>
    let v := s.validate tree directory
    .ok (s, { unknownKeys, warnings := v.warnings, faults := v.faults })

/-- The settings in a text, with a report. -/
def ofTextReporting (text : String) : Except SettingsError (Settings × SettingsReport) :=
  readReporting {} none text

/-- The settings in a file, with a report. Paths of further catalogs are seen from its directory. -/
def ofFileReporting (tree : FileTree) (path : String) :
    Except SettingsError (Settings × SettingsReport) :=
  match tree.readText? path with
  | none => .error (.unreadable path)
  | some text =>
    let directory := Path.parent? path
    match readReporting tree directory text with
    | .error e => .error e
    | .ok (s, report) => .ok ({ s with extraCatalogs := s.resolvedCatalogs directory }, report)

/-- The settings in a file. Its unknown keys are told in events. -/
def ofFile (tree : FileTree) (path : String) : Except SettingsError Settings × List LogEvent :=
  match ofFileReporting tree path with
  | .error e => (.error e, [])
  | .ok (s, report) => (.ok s, report.unknownKeys.map .unknownKey)

/-- The names of settings files, in the order in which they are tried. -/
def fileNames : List String := ["collcheck.toml", ".collcheck.toml"]

/-- The settings file of a project with the given root directory: the one that the environment
names, whether it exists or not, else the first that exists. -/
def discover? (tree : FileTree) (environment : Option String) (root : String) : Option String :=
  match environment with
  | some path =>
    let path := Path.join root path
    some ((tree.canonical? path).getD path)
  | none =>
    ((fileNames.map (Path.join root)).find? tree.isFile).map fun path =>
      (tree.canonical? path).getD path

/-- The settings of a project, and the file that they come from. A project without settings file has
the default settings. -/
def ofRoot (tree : FileTree) (environment : Option String) (root : String) :
    Except SettingsError (Settings × Option String) × List LogEvent :=
  match discover? tree environment root with
  | none => (.ok ({}, none), [])
  | some path =>
    match ofFile tree path with
    | (.error e, events) => (.error e, events)
    | (.ok s, events) => (.ok (s, some path), events)

end Settings

end ContainerLint
