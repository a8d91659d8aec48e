import ContainerLint.Files.FileTree
import ContainerLint.Log.Sink

/-!
# Validation of settings

Settings that can be read may still make no sense. As many doubts as possible are reported.

## Main definitions

* `SettingsWarning`, `SettingsFault` — what can be wrong.
* `Validation` — the doubts about some settings.
* `Settings.validate` — find them.
* `Settings.resolvedCatalogs` — the paths of the further catalogs as seen from a directory.
-/

set_option autoImplicit false

namespace ContainerLint

open Text

/-- Something doubtful about settings. -/
inductive SettingsWarning where
  /-- The level is neither a level nor a filter. -/
  | levelInvalid (value normalized : String)
  /-- There is no catalog at this path. -/
  | catalogMissing (key path : String)
  /-- No check is enabled. -/
  | noChecks
deriving DecidableEq, Inhabited

/-- Something wrong about settings. -/
inductive SettingsFault where
  /-- The value of a key makes no sense. -/
  | invalidValue (key message : String)
deriving DecidableEq, Inhabited

/-- The doubts about some settings. -/
structure Validation where
  warnings : List SettingsWarning := []
  faults : List SettingsFault := []
deriving DecidableEq, Inhabited

namespace Settings

/-- A path in the settings, as seen from the directory of the file. -/
def resolvePath (directory : Option String) (path : String) : String :=
  match directory with
  | some directory => if Path.isAbsolute path then path else Path.join directory path
  | none => path

/-- The paths of the further catalogs, as seen from a directory. -/
def resolvedCatalogs (s : Settings) (directory : Option String) : List String :=
  s.extraCatalogs.map (resolvePath directory)

/-- Doubts about the logging level. A blank one is fine. -/
def levelWarnings (s : Settings) : List SettingsWarning :=
  let normalized := LoggingSettings.normalizeLevel s.logging.level
  if (trimBlanks s.logging.level).isEmpty || (LogFilter.parse? normalized).isSome then []
  else [.levelInvalid s.logging.level normalized]

/-- Doubts about the checks. -/
def checkWarnings (s : Settings) : List SettingsWarning :=
  if s.strictCheck.isEnabled true || s.unexpectedCheck.isEnabled false then [] else [.noChecks]

/-- The key of the further catalog at a position. -/
def catalogKey (position : Nat) : String :=
  "catalog.extra[" ++ toString position ++ "]"

/-- Doubts about the further catalogs: files that are not there. Without a directory nothing can be
said of them. -/
def catalogWarnings (s : Settings) (tree : FileTree) (directory : Option String) :
    List SettingsWarning :=
  match directory with
  | none => []
  | some directory =>
    s.extraCatalogs.zipIdx.filterMap fun (path, position) =>
      let resolved := resolvePath (some directory) path
      if path.isEmpty || tree.isFile resolved then none
      else some (.catalogMissing (catalogKey position) resolved)

/-- Faults of the further catalogs: empty paths. -/
def catalogFaults (s : Settings) : List SettingsFault :=
  s.extraCatalogs.zipIdx.filterMap fun (path, position) =>
    if path.isEmpty then
      some (.invalidValue (catalogKey position) "catalog path must not be empty")
    else none

/-- All doubts about settings that were read from a file in `directory`, or from no file. -/
def validate (s : Settings) (tree : FileTree) (directory : Option String) : Validation where
  warnings := s.levelWarnings ++ s.checkWarnings ++ s.catalogWarnings tree directory
  faults := s.catalogFaults

end Settings

end ContainerLint
