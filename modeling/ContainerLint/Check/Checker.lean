import ContainerLint.Analysis.Analyze
import ContainerLint.Files.FileTree
import ContainerLint.Settings.Basic

/-!
# Checkers

A checker runs its checks on call sites and reports the arguments that do not belong into their
container.

## Main definitions

* `CheckKind` — the two checks, with their names, texts, policies and catalogs.
* `Check` — a check with its catalog bound to a class table.
* `Checker` — checks that share an index of ancestors.
* `Checker.ofSettings` — the checker that settings ask for.
* `Finding` — a reported call, with `Finding.message`.
* `Checker.check`, `Checker.diagnostics` — run the checks.
-/

set_option autoImplicit false

namespace ContainerLint

/-! ## The kinds of checks -/

/-- The checks. -/
inductive CheckKind where
  /-- Arguments whose type is unrelated to the container's. -/
  | strictCollection
  /-- Arguments whose type excludes the container's. -/
  | unexpectedType
deriving DecidableEq, Inhabited

namespace CheckKind

/-- All checks, in the order in which they run. -/
def all : List CheckKind :=
  [.strictCollection, .unexpectedType]

/-- The name of a check in settings. -/
def name : CheckKind → String
  | .strictCollection => "strict_collection_incompatible_type"
  | .unexpectedType => "unexpected_type"

/-- The code of a check in reports. -/
def code : CheckKind → String
  | .strictCollection => "STRICT_COLLECTION_INCOMPATIBLE_TYPE"
  | .unexpectedType => "UNEXPECTED_TYPE"

/-- What a check is about. -/
def summary : CheckKind → String
  | .strictCollection =>
    "Likely programming error due to using incompatible types as arguments for a collection " ++
      "method that accepts Object."
  | .unexpectedType =>
    "Likely programming error due to using the wrong type in a method that accepts Object."

/-- What a check takes for compatible. -/
def policy : CheckKind → Policy
  | .strictCollection => .strict
  | .unexpectedType => .castable

/-- Whether a check runs if the settings do not say. -/
def enabledByDefault : CheckKind → Bool
  | .strictCollection => true
  | .unexpectedType => false

/-- The catalog of a check. -/
def catalog : CheckKind → Catalog
  | .strictCollection => .collectionMethods
  | .unexpectedType => .lookupMethods

/-- What settings say about a check. -/
def settings (s : Settings) : CheckKind → CheckSettings
  | .strictCollection => s.strictCheck
  | .unexpectedType => s.unexpectedCheck

end CheckKind

/-! ## Checks and findings -/

/-- A check with its catalog bound to a class table. -/
structure Check where
  kind : CheckKind
  severity : Severity
  policy : Policy
  catalog : ResolvedCatalog
deriving DecidableEq, Inhabited

/-- A check with its own catalog and policy, which reports warnings. -/
def Check.builtin (t : ClassTable) (kind : CheckKind) : Check :=
  { kind, severity := .warning, policy := kind.policy, catalog := kind.catalog.resolve t }

/-- Checks that share an index of ancestors. -/
structure Checker where
  index : AncestorIndex
  checks : List Check
deriving DecidableEq, Inhabited

/-- A call that was found to be wrong. -/
structure Finding where
  check : CheckKind
  severity : Severity
  span : Option Span
  mismatch : Mismatch
deriving DecidableEq, Inhabited

namespace Finding

/-- The report of a finding in words. -/
def message (t : ClassTable) (f : Finding) : String :=
  f.check.summary ++ " `" ++ Text.afterLast '.' f.mismatch.entry.baseType ++ "."
    ++ f.mismatch.entry.method ++ "` is called with `" ++ f.mismatch.argument.render t .simple
    ++ "`, which is unrelated to the container's `" ++ f.mismatch.parameter.render t .simple
    ++ "`."

/-- The report of a finding. -/
def diagnostic (t : ClassTable) (f : Finding) : Diagnostic :=
  { severity := f.severity, code := f.check.code, message := f.message t, span := f.span }

end Finding

/-- Read a catalog file. -/
def Catalog.ofFile (tree : FileTree) (path : String) : Except CatalogError Catalog :=
  match tree.readText? path with
  | none => .error (.unreadable path)
  | some text => Catalog.parseDocument text

namespace Checker

/-- A checker with an index of the given classes. -/
def build (t : ClassTable) (ids : List ClassId) (checks : List Check) : Checker :=
  { index := .build t ids, checks }

/-- The event of building a checker. -/
def buildEvents (c : Checker) : List LogEvent :=
  [.checkerBuilt c.index.size c.checks.length]

/-- Read catalog files and put them together. -/
def extraCatalog (tree : FileTree) : Catalog → List String → Except CatalogError Catalog
  | c, [] => .ok c
  | c, path :: paths =>
    match Catalog.ofFile tree path with
    | .error e => .error e
    | .ok more => extraCatalog tree (c.extend more) paths

/-- Whether settings ask for a check. -/
def isEnabled (s : Settings) (kind : CheckKind) : Bool :=
  (kind.settings s).isEnabled kind.enabledByDefault

/-- The catalog of a check with the further entries. They only concern the check for unrelated
types. -/
def catalogOf (extra : Catalog) : CheckKind → Catalog
  | .strictCollection => CheckKind.strictCollection.catalog.extend extra
  | .unexpectedType => CheckKind.unexpectedType.catalog

/-- A check as the settings ask for it. -/
def configured (t : ClassTable) (s : Settings) (extra : Catalog) (kind : CheckKind) : Check :=
  { kind
    severity := (kind.settings s).severity
    policy := kind.policy
    catalog := (catalogOf extra kind).resolve t }

/-- The checks that settings ask for. -/
def configuredChecks (t : ClassTable) (s : Settings) (extra : Catalog) : List Check :=
  (CheckKind.all.filter (isEnabled s)).map (configured t s extra)

/-- The events of setting up the checks. -/
def configuredEvents (t : ClassTable) (s : Settings) (extra : Catalog) : List LogEvent :=
  CheckKind.all.flatMap fun kind =>
    if isEnabled s kind then (catalogOf extra kind).resolveEvents t
    else [.checkDisabled kind.name]

/-- The checker that settings ask for, with the events of setting it up. -/
def ofSettings (t : ClassTable) (tree : FileTree) (ids : List ClassId) (s : Settings) :
    Except CatalogError (Checker × List LogEvent) :=
  match extraCatalog tree {} s.extraCatalogs with
  | .error e => .error e
  | .ok extra =>
    let checker := build t ids (configuredChecks t s extra)
    .ok (checker, configuredEvents t s extra ++ checker.buildEvents)

/-- What one check finds in a call: the mismatch, if the verdict is that there is one. -/
def finding? (t : ClassTable) (index : AncestorIndex) (call : CallSite) (check : Check) :
    Option Finding :=
  let analysis := check.catalog.analyze t (some index) check.policy call
  if analysis.verdict = .incompatible then
    analysis.mismatch.map fun mismatch =>
      { check := check.kind, severity := check.severity, span := call.span, mismatch }
  else none

/-- What the checks find in a call, at most one finding for each check. -/
def check (c : Checker) (t : ClassTable) (call : CallSite) : List Finding :=
  c.checks.filterMap (finding? t c.index call)

/-- The events of checking a call. -/
def checkEvents (c : Checker) (t : ClassTable) (call : CallSite) : List LogEvent :=
  c.checks.flatMap fun check => check.catalog.analyzeEvents t (some c.index) check.policy call

/-- What the checks find in a call, as reports. -/
def diagnostics (c : Checker) (t : ClassTable) (call : CallSite) : List Diagnostic :=
  (c.check t call).map (Finding.diagnostic t)

end Checker

end ContainerLint
