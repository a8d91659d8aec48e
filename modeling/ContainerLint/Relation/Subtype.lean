import ContainerLint.ClassTable.Basic
import ContainerLint.Graph.BreadthFirst

/-!
# Erasure, boxing and subtyping of erased types

The erasure of a type is what is left of it at run time: classes lose their arguments, a variable
becomes its first bound, a wildcard its upper bound, an intersection its first part. Some types have
no erasure, among them variables whose bounds lead back to themselves.

Type arguments play no part in subtyping: `List<String>` and `List<Integer>` erase to the same
class. Below a class are the classes that reach it along declared superclasses and interfaces.

## Main definitions

* `Ty.eraseWith` — erasure when it is known what the variables erase to.
* `ClassTable.eraseVar` — the erasure of a variable.
* `ClassTable.erasure` — the erasure of a type.
* `ClassTable.boxed` — a type with a primitive replaced by its wrapper class.
* `ClassTable.ancestors` — the classes that can be reached from a class, itself included.
* `ClassTable.erasedSubtype` — subtyping of types that are erased already.
* `ClassTable.isSubtype` — subtyping of the erasures of two types.

## Design

A variable may be followed once on the way to an erasure. The variables that may still be followed
are handed down, so that each step uses one up and a cycle of bounds ends without a result.
-/

set_option autoImplicit false

namespace ContainerLint

/-! ## Erasure and boxing -/

/-- Erase a type when `follow` says what a variable erases to. -/
def Ty.eraseWith (t : ClassTable) (follow : VarId → Option Ty) : Ty → Option Ty
  | .void => none
  | .prim p => some (.prim p)
  | .cls id _ => some (.cls id [])
  | .array elem => (elem.eraseWith t follow).map .array
  | .var x => follow x
  | .wild => some t.objectTy
  | .wildExtends upper => upper.eraseWith t follow
  | .wildSuper _ => some t.objectTy
  | .inter [] => none
  | .inter (part :: _) => part.eraseWith t follow
  | .null => some .null
  | .named name => (t.lookup name).map (.cls · [])
  | .unknown => none
  | .error => none

namespace ClassTable

/-- The erasure of a variable: that of its first bound, or `Object` if it has none. Only the
variables in `avail` are followed. -/
def eraseVar (t : ClassTable) (avail : List VarId) (x : VarId) : Option Ty :=
  if _h : x ∈ avail then
    match t.typeParam? x with
    | none => none
    | some p =>
      match p.upperBounds with
      | [] => some t.objectTy
      | bound :: _ => bound.eraseWith t (t.eraseVar (avail.erase x))
  else none
termination_by avail.length
decreasing_by
  rw [List.length_erase_of_mem _h]
  have := List.length_pos_of_mem _h
  omega

/-- The erasure of a type. -/
def erasure (t : ClassTable) (ty : Ty) : Option Ty :=
  ty.eraseWith t fun x => t.eraseVar t.varIds x

/-- The wrapper class in place of a primitive type; every other type as it is. -/
def boxed (t : ClassTable) : Ty → Ty
  | .prim p => .cls (t.known.box p) []
  | ty => ty

end ClassTable

/-! ## Subtyping -/

namespace ClassTable

/-- The classes of the erasures of the declared supertypes of a class. -/
def parents (t : ClassTable) (id : ClassId) : List ClassId :=
  match t.classDef? id with
  | none => []
  | some d => d.supertypes.filterMap fun sup => (t.erasure sup).bind Ty.class?

/-- A class whose number is not in use has no parents. -/
theorem parents_eq_nil {t : ClassTable} {id : ClassId} (unused : id ∉ t.ids) :
    t.parents id = [] := by
  rw [parents, classDef?_eq_none unused]

/-- The graph of classes and their parents. -/
def parentWalk (t : ClassTable) : Walk ClassId ClassId where
  key? := some
  next := t.parents
  domain := t.ids
  next_eq_nil := by
    intro a k key unused
    obtain rfl := Option.some.inj key
    exact parents_eq_nil unused

/-- The classes that can be reached from `id` along declared supertypes, `id` itself included. -/
def ancestors (t : ClassTable) (id : ClassId) : List ClassId :=
  t.parentWalk.visit id

/-- Whether arrays are subtypes of the class `id`. -/
def isArraySuper (t : ClassTable) (id : ClassId) : Bool :=
  id == t.known.object || id == t.known.cloneable || id == t.known.serializable

/-- Subtyping of erased types. Arrays of references are covariant, arrays of primitives are not. -/
def erasedSubtype (t : ClassTable) : Ty → Ty → Bool
  | .null, sup => sup.isReference
  | .prim p, .prim q => p.widens q
  | .cls c as, .cls d bs =>
    (c == d && as == bs) || d == t.known.object || (t.ancestors c).contains d
  | .array (.prim p), .array (.prim q) => p == q
  | .array a, .array b => a == b || (a.isReference && b.isReference && t.erasedSubtype a b)
  | .array _, .cls d _ => t.isArraySuper d
  | sub, sup => sub == sup

/-- Subtyping of the erasures of two types. A type without erasure is in relation to none. -/
def isSubtype (t : ClassTable) (sub sup : Ty) : Bool :=
  match t.erasure sub, t.erasure sup with
  | some sub, some sup => t.erasedSubtype sub sup
  | _, _ => false

end ClassTable

end ContainerLint
