import ContainerLint.Declaration.Basic

/-!
# Entering declarations into a class table

A batch is entered in stages, so that its classes may refer to each other in any order: all names
are interned, then all type parameters are allocated, then their bounds are resolved, then the
classes are defined. A batch that is refused leaves the table as far as it was built.

## Main definitions

* `ClassTable.declare` — enter a batch of declarations.
* `ClassTable.internAll`, `ClassTable.allocate`, `ClassTable.bound`, `ClassTable.complete` — its
  stages.
-/

set_option autoImplicit false

namespace ContainerLint

/-- A step that may change the table and may fail. What it has changed before it fails stays. -/
abbrev TableStep (α β : Type) := ClassTable → α → ClassTable × Except DeclareError β

/-- Run a step for the members of a list, in order, up to the first failure. -/
def TableStep.each {α β : Type} (step : TableStep α β) : TableStep (List α) (List β)
  | t, [] => (t, .ok [])
  | t, a :: rest =>
    match step t a with
    | (t, .error e) => (t, .error e)
    | (t, .ok b) =>
      match each step t rest with
      | (t, .error e) => (t, .error e)
      | (t, .ok bs) => (t, .ok (b :: bs))

/-- The first member of a list that has occurred before. -/
def firstRepeated? {α : Type} [DecidableEq α] (seen : List α) : List α → Option α
  | [] => none
  | a :: rest => if a ∈ seen then some a else firstRepeated? (a :: seen) rest

/-- A declaration whose name and type parameters have their numbers. -/
structure Allocated where
  decl : ClassDecl
  id : ClassId
  formals : List (VarId × ParamHeader)

/-- The type variables that the signatures of a declaration may mention. -/
def Allocated.scope (a : Allocated) : TypeScope :=
  a.formals.map fun (x, header) => (header.name, x)

/-- Read and resolve the signatures of a declaration, from left to right. -/
def Allocated.resolveAll (a : Allocated) (t : ClassTable) :
    List String → Except DeclareError (List Ty)
  | [] => .ok []
  | text :: texts =>
    match Ty.parse t a.scope text with
    | .error e => .error (.signature a.decl.name e)
    | .ok ty => (a.resolveAll t texts).map (ty :: ·)

namespace ClassTable

/-- Intern names, in order. -/
def internAll (t : ClassTable) : List String → ClassTable × List ClassId
  | [] => (t, [])
  | name :: names =>
    let (t, id) := t.intern name
    let (t, ids) := t.internAll names
    (t, id :: ids)

/-- Allocate the type parameters of the class `className`, bounded by `Object` for the time being.
The names in `taken` are in use. A repeated parameter is noticed when it has its number. -/
def allocateParams (className : String) (taken : List String) :
    TableStep (List String) (List (VarId × ParamHeader))
  | t, [] => (t, .ok [])
  | t, text :: texts =>
    match ParamHeader.parse? text with
    | none => (t, .error (.invalidTypeParam className text))
    | some header =>
      let (t, x) := t.addParam { name := header.name, upperBounds := [t.objectTy] }
      if header.name ∈ taken then (t, .error (.duplicateTypeParam className header.name))
      else
        match allocateParams className (header.name :: taken) t texts with
        | (t, .error e) => (t, .error e)
        | (t, .ok formals) => (t, .ok ((x, header) :: formals))

/-- Allocate the type parameters of a declaration whose name has the number `id`. -/
def allocate : TableStep (ClassDecl × ClassId) Allocated
  | t, (decl, id) =>
    match allocateParams decl.name [] t decl.typeParams with
    | (t, .error e) => (t, .error e)
    | (t, .ok formals) => (t, .ok { decl, id, formals })

/-- Resolve the bounds of one type parameter. A parameter without bounds stays as it is. -/
def boundParam (a : Allocated) : TableStep (VarId × ParamHeader) Unit
  | t, (x, header) =>
    if header.bounds.isEmpty then (t, .ok ())
    else
      match a.resolveAll t header.bounds with
      | .error e => (t, .error e)
      | .ok upperBounds => (t.defineParam x { name := header.name, upperBounds }, .ok ())

/-- Resolve the bounds of the type parameters of a declaration. -/
def bound : TableStep Allocated Unit
  | t, a =>
    match TableStep.each (boundParam a) t a.formals with
    | (t, .error e) => (t, .error e)
    | (t, .ok _) => (t, .ok ())

/-- The definition that a declaration amounts to. A class that extends nothing extends `Object`,
unless it is `Object` itself. -/
def definition (t : ClassTable) (a : Allocated) : Except DeclareError ClassDef := do
  let extended ← a.resolveAll t a.decl.extended
  let implemented ← a.resolveAll t a.decl.implemented
  let defn : ClassDef :=
    { name := a.decl.name
      kind := a.decl.kind
      isFinal := a.decl.isFinal
      typeParams := a.formals.map (·.1) }
  match a.decl.kind, extended with
  | .interface, _ => return { defn with interfaces := extended ++ implemented }
  | .cls, [] =>
    let superClass := if a.id = t.known.object then none else some t.objectTy
    return { defn with superClass, interfaces := implemented }
  | .cls, [superClass] =>
    return { defn with superClass := some superClass, interfaces := implemented }
  | .cls, _ => .error (.multipleSuperclasses a.decl.name)

/-- Define the class of a declaration. -/
def complete : TableStep Allocated ClassId
  | t, a =>
    match t.definition a with
    | .error e => (t, .error e)
    | .ok d => (t.define a.id d, .ok a.id)

/-- Enter a batch of declarations. Returns the numbers of its classes, in order. -/
def declare (t : ClassTable) (decls : List ClassDecl) :
    ClassTable × Except DeclareError (List ClassId) :=
  match firstRepeated? [] (decls.map (·.name)) with
  | some name => (t, .error (.duplicateClass name))
  | none =>
    let (t, ids) := t.internAll (decls.map (·.name))
    match TableStep.each allocate t (decls.zip ids) with
    | (t, .error e) => (t, .error e)
    | (t, .ok batch) =>
      match TableStep.each bound t batch with
      | (t, .error e) => (t, .error e)
      | (t, .ok _) => TableStep.each complete t batch

end ClassTable

end ContainerLint
