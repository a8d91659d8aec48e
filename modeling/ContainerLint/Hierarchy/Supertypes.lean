import ContainerLint.Graph.BreadthFirst
import ContainerLint.Ty.Printer

/-!
# Supertypes with their arguments

A class type has the supertypes that its class declares, with the arguments put in for the formal
parameters. A raw use of a generic class has raw supertypes, since nothing can be known of their
arguments, and a class type with the wrong number of arguments has none.

## Main definitions

* `ClassTable.directSupertypes` — one step up.
* `ClassTable.supertypeClosure` — all steps up, breadth first, one type for each class.
-/

set_option autoImplicit false

namespace ContainerLint

namespace ClassTable

/-- The class of a declared supertype, without arguments. -/
def rawClass? (t : ClassTable) (ty : Ty) : Option Ty :=
  match ty.canonical t with
  | .cls id _ => some (.cls id [])
  | _ => none

/-- The supertype that every interface has. -/
def implicitSupertypes (t : ClassTable) (d : ClassDef) : List Ty :=
  match d.kind with
  | .interface => [t.objectTy]
  | .cls => []

/-- The supertypes of a raw use of a generic class. -/
def rawSupertypes (t : ClassTable) (d : ClassDef) : List Ty :=
  d.superClass.toList.filterMap t.rawClass?
    ++ sortTypes t (d.interfaces.filterMap t.rawClass?)
    ++ t.implicitSupertypes d

/-- The supertypes of a class applied to as many arguments as it has parameters. -/
def appliedSupertypes (t : ClassTable) (d : ClassDef) (args : List Ty) : List Ty :=
  let instantiate (ty : Ty) : Ty := (ty.subst (Subst.ofFormals d.typeParams args)).canonical t
  d.superClass.toList.map instantiate
    ++ sortTypes t (d.interfaces.map instantiate)
    ++ t.implicitSupertypes d

/-- The immediate supertypes of a type: the superclass, then the interfaces in the order of their
spelling, then `Object` for an interface. -/
def directSupertypes (t : ClassTable) (ty : Ty) : List Ty :=
  match ty.canonical t with
  | .cls id args =>
    match t.classDef? id with
    | none => []
    | some d =>
      if args.isEmpty && d.isGeneric then t.rawSupertypes d
      else if args.length = d.arity then t.appliedSupertypes d args
      else []
  | _ => []

/-- A class whose number is not in use has no supertypes. -/
theorem directSupertypes_eq_nil {t : ClassTable} {id : ClassId} (args : List Ty)
    (unused : id ∉ t.ids) : t.directSupertypes (.cls id args) = [] := by
  simp only [directSupertypes, Ty.canonical, classDef?_eq_none unused]

/-- The graph of class types and their supertypes. Two types of one class count as one. -/
def supertypeWalk (t : ClassTable) : Walk Ty ClassId where
  key? := Ty.class?
  next := t.directSupertypes
  domain := t.ids
  next_eq_nil := by
    intro a k key unused
    cases a with
    | cls id args =>
      obtain rfl := Option.some.inj key
      exact directSupertypes_eq_nil args unused
    | _ => cases key

/-- A type and all class types above it, breadth first. Of two types of one class the first that is
found stands for both. -/
def supertypeClosure (t : ClassTable) (ty : Ty) : List Ty :=
  t.supertypeWalk.visit (ty.canonical t)

end ClassTable

end ContainerLint
