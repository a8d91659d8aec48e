import ContainerLint.Analysis.CallSite
import ContainerLint.Catalog.Resolve
import ContainerLint.Hierarchy.View

/-!
# Analysis of a call

An entry of a catalog matches a call if the method has the same name and the same erased parameters,
the receiver is below the base type, and the call has the argument that the entry asks for. The
matching entries are tried in catalog order. The first one that decides the question decides the
call; a call that no entry decides is left alone.

## Main definitions

* `ClassTable.eraseAll` — the erasures of a list of types, if all have one.
* `ClassTable.isBelow` — whether a receiver is below a base type, with or without an index.
* `ResolvedCatalog.matching` — the matching entries, each with the argument in question.
* `Outcome`, `ResolvedCatalog.tryEntry` — what comes of trying an entry.
* `Examination` — how one matching entry was tried, with `Examination.verdict`.
* `ResolvedCatalog.shownArg?` — the type argument that is reported, asked for a second time.
* `Analysis`, `Mismatch` — the outcome for a call.
* `ResolvedCatalog.examine` — try the matching entries, up to the first that decides.
* `ResolvedCatalog.analyze` — the outcome for a call; `ResolvedCatalog.analyzeEvents` tells what
  happened.

## Design

When an entry is tried, only its verdict is kept for the outcome of the call. The type argument that
a mismatch reports is looked up again through the receiver, and has a fallback of its own.
-/

set_option autoImplicit false

namespace ContainerLint

/-! ## Which entries a call matches -/

namespace ClassTable

/-- The erasures of a list of types, if all of them have one. -/
def eraseAll (t : ClassTable) : List Ty → Option (List Ty)
  | [] => some []
  | ty :: tys =>
    match t.erasure ty with
    | none => none
    | some erased => (t.eraseAll tys).map (erased :: ·)

/-- Whether an erased receiver is below the class `base`. The index answers for the classes that it
holds. -/
def isBelow (t : ClassTable) (index : Option AncestorIndex) (receiver : Ty) (base : ClassId) :
    Bool :=
  match index.bind fun i => receiver.class?.bind fun id => i.hasAncestor? id base with
  | some answer => answer
  | none => t.isSubtype receiver (.cls base [])

end ClassTable

/-- The entries that a call matches, each with the argument in question, in catalog order. -/
def ResolvedCatalog.matching (c : ResolvedCatalog) (t : ClassTable) (index : Option AncestorIndex)
    (call : CallSite) : List (ResolvedEntry × Ty) :=
  match t.erasure call.receiver, t.eraseAll call.params with
  | some receiver, some params =>
    (c.byMethod call.method).filterMap fun e =>
      if e.erasedParams = params ∧ t.isBelow index receiver e.base then
        call.args[e.entry.argIndex]?.map fun argument => (e, argument)
      else none
  | _, _ => []

/-! ## Trying an entry -/

/-- What came of trying an entry. -/
inductive Outcome where
  /-- The receiver does not say what the type arguments of the base type are. -/
  | receiverUnclear
  /-- The base type has only `arity` parameters. -/
  | parameterMissing (arity : Nat)
  /-- The argument was compared with the type argument `parameter`. -/
  | compared (parameter : Ty) (verdict : Verdict)
deriving DecidableEq, Inhabited

/-- The verdict of an outcome. -/
def Outcome.verdict : Outcome → Verdict
  | .compared _ verdict => verdict
  | _ => .inconclusive

/-- A matching entry, the argument in question, and what came of comparing. -/
structure Examination where
  entry : ResolvedEntry
  argument : Ty
  outcome : Outcome
deriving DecidableEq, Inhabited

/-- The verdict of the entry. -/
def Examination.verdict (x : Examination) : Verdict :=
  x.outcome.verdict

namespace ResolvedCatalog

/-- The type arguments of `base` as seen through a receiver. -/
def receiverArgs (t : ClassTable) (index : Option AncestorIndex) (receiver : Ty) (base : ClassId) :
    Option (List Ty) :=
  match index with
  | some index => index.ancestorArgs t receiver base
  | none => t.ancestorArgs receiver base

/-- Compare an argument with the type argument that an entry names. -/
def tryEntry (t : ClassTable) (index : Option AncestorIndex) (policy : Policy) (receiver : Ty)
    (e : ResolvedEntry) (argument : Ty) : Outcome :=
  match receiverArgs t index receiver e.base with
  | none => .receiverUnclear
  | some args =>
    match args[e.entry.typeParamIndex]? with
    | none => .parameterMissing args.length
    | some parameter => .compared parameter (t.decide policy parameter argument)

/-- Try an entry with an argument. -/
def examineEntry (t : ClassTable) (index : Option AncestorIndex) (policy : Policy) (receiver : Ty)
    (e : ResolvedEntry) (argument : Ty) : Examination :=
  { entry := e, argument, outcome := tryEntry t index policy receiver e argument }

end ResolvedCatalog

/-! ## The outcome for a call -/

/-- Two types that do not go together, and the entry that says that they should. -/
structure Mismatch where
  entry : CatalogEntry
  parameter : Ty
  argument : Ty
deriving DecidableEq, Inhabited

/-- The outcome for a call. -/
structure Analysis where
  verdict : Verdict := .inconclusive
  mismatch : Option Mismatch := none
deriving DecidableEq, Inhabited

/-- Take the member at a position out of a list, and put the last member into its place. -/
def swapRemove (args : List Ty) (i : Nat) (h : i < args.length) : Ty × List Ty :=
  (args[i], (args.set i (args.getLastD args[i])).dropLast)

/-- The type argument that an entry names, as the receiver shows it when it is asked a second
time. -/
def ResolvedCatalog.shownArg? (t : ClassTable) (index : Option AncestorIndex) (receiver : Ty)
    (e : ResolvedEntry) : Option Ty :=
  (receiverArgs t index receiver e.base).bind fun args =>
    if h : e.entry.typeParamIndex < args.length then
      some (swapRemove args e.entry.typeParamIndex h).1
    else none

namespace Examination

/-- The mismatch that is reported if the entry finds one. If the receiver did not show the type
argument again, an unknown type would be reported in its place. -/
def mismatch (t : ClassTable) (index : Option AncestorIndex) (receiver : Ty) (x : Examination) :
    Mismatch :=
  { entry := x.entry.entry
    parameter := (ResolvedCatalog.shownArg? t index receiver x.entry).getD .unknown
    argument := x.argument }

/-- The outcome for the call if this entry decides it. -/
def analysis (t : ClassTable) (index : Option AncestorIndex) (receiver : Ty) (x : Examination) :
    Analysis :=
  match x.verdict with
  | .incompatible => { verdict := .incompatible, mismatch := some (x.mismatch t index receiver) }
  | verdict => { verdict }

/-- The events of trying an entry. -/
def events (t : ClassTable) (call : CallSite) (x : Examination) : List LogEvent :=
  let entry := x.entry.entry.signature
  let receiver := call.receiver.render t .simple
  let argument := x.argument.render t .simple
  let detail : List LogEvent :=
    match x.outcome with
    | .receiverUnclear => [.receiverUnclear entry receiver]
    | .parameterMissing arity => [.parameterMissing entry arity]
    | .compared parameter .inconclusive =>
      [.comparisonOpen entry (parameter.render t .simple) argument]
    | .compared _ _ => []
  detail ++ [.callDecided entry receiver argument x.verdict]

end Examination

namespace ResolvedCatalog

/-- Try entries, each with the argument in question, up to the first that decides the call. -/
def tryUntilDecided (t : ClassTable) (index : Option AncestorIndex) (policy : Policy)
    (receiver : Ty) : List (ResolvedEntry × Ty) → List Examination
  | [] => []
  | (entry, argument) :: rest =>
    let x := examineEntry t index policy receiver entry argument
    if x.verdict.isConclusive then [x]
    else x :: tryUntilDecided t index policy receiver rest

/-- The entries that are tried for a call. -/
def examine (c : ResolvedCatalog) (t : ClassTable) (index : Option AncestorIndex) (policy : Policy)
    (call : CallSite) : List Examination :=
  tryUntilDecided t index policy call.receiver (c.matching t index call)

/-- The outcome for a call: that of the first entry that decides it. -/
def analyze (c : ResolvedCatalog) (t : ClassTable) (index : Option AncestorIndex) (policy : Policy)
    (call : CallSite) : Analysis :=
  match (c.examine t index policy call).find? fun x => x.verdict.isConclusive with
  | some x => x.analysis t index call.receiver
  | none => {}

/-- The events of an analysis. -/
def analyzeEvents (c : ResolvedCatalog) (t : ClassTable) (index : Option AncestorIndex)
    (policy : Policy) (call : CallSite) : List LogEvent :=
  (c.examine t index policy call).flatMap (Examination.events t call)

end ResolvedCatalog

end ContainerLint
