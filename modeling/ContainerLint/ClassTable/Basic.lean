import ContainerLint.Ty.Basic

/-!
# Class tables

A class table numbers class names and type parameters and says what is known of each. A name gets
its number when it is first mentioned, so that a class can be referred to before it is defined.

## Main definitions

* `ClassDef`, `TypeParam` — what is known of a class and of a type parameter.
* `WellKnown` — the classes that the typing rules refer to by themselves.
* `ClassTable` — the table, with its queries `classDef?`, `typeParam?`, `lookup` and its changes
  `intern`, `define`, `upsert`, `modify`, `addParam`, `defineParam`.
* `Ty.canonical` — a type with its open names looked up.

## Design

The name index and the class list are one list of slots: the number of a class is its position, so
names and numbers cannot disagree. Tables are lists because every query of the library is about
their order or their members; a table of a few hundred classes is large for this purpose.
-/

set_option autoImplicit false

namespace ContainerLint

/-- Whether a declaration introduces a class or an interface. -/
inductive ClassKind where
  | cls
  | interface
deriving DecidableEq, Inhabited

/-- The definition of a class or interface. -/
structure ClassDef where
  /-- Full name, for instance `java.util.Map`. -/
  name : String
  /-- Class or interface. -/
  kind : ClassKind := .cls
  /-- Whether no class may extend it. -/
  isFinal : Bool := false
  /-- Formal type parameters. -/
  typeParams : List VarId := []
  /-- The class that it extends. -/
  superClass : Option Ty := none
  /-- The interfaces that it implements or extends. -/
  interfaces : List Ty := []
deriving DecidableEq, Inhabited

/-- Whether the class has type parameters. -/
def ClassDef.isGeneric (d : ClassDef) : Bool :=
  !d.typeParams.isEmpty

/-- The number of type parameters. -/
def ClassDef.arity (d : ClassDef) : Nat :=
  d.typeParams.length

/-- The declared supertypes: the superclass first, then the interfaces. -/
def ClassDef.supertypes (d : ClassDef) : List Ty :=
  d.superClass.toList ++ d.interfaces

/-- A type parameter. -/
structure TypeParam where
  /-- Name in the declaration. -/
  name : String
  /-- Upper bounds, in the order of the declaration. -/
  upperBounds : List Ty := []
  /-- Lower bound of a captured variable. -/
  lowerBound : Option Ty := none
deriving DecidableEq, Inhabited

/-- The classes that the typing rules refer to by themselves. -/
structure WellKnown where
  object : ClassId
  string : ClassId
  integer : ClassId
  cloneable : ClassId
  serializable : ClassId
  /-- The wrapper class of a primitive type. -/
  box : Primitive → ClassId

/-- The primitive type whose wrapper is `id`. -/
def WellKnown.unbox? (w : WellKnown) (id : ClassId) : Option Primitive :=
  Primitive.all.find? fun p => w.box p == id

/-- One row of the class table: a name, and the definition once there is one. -/
structure ClassSlot where
  name : String
  defn : Option ClassDef := none
deriving DecidableEq, Inhabited

/-- A table of classes and type parameters. -/
structure ClassTable where
  /-- The classes by number. -/
  slots : List ClassSlot
  /-- The type parameters by number. -/
  params : List TypeParam
  /-- The classes that the typing rules refer to. -/
  known : WellKnown

namespace ClassTable

/-! ## Queries -/

/-- The definition of a class, if its number is in use and it has been defined. -/
def classDef? (t : ClassTable) (id : ClassId) : Option ClassDef :=
  t.slots[id.index]?.bind (·.defn)

/-- The definition of a type parameter, if its number is in use. -/
def typeParam? (t : ClassTable) (x : VarId) : Option TypeParam :=
  t.params[x.index]?

/-- The number under which exactly `name` is interned. -/
def find? (t : ClassTable) (name : String) : Option ClassId :=
  (t.slots.findIdx? fun s => s.name == name).map ClassId.mk

/-- The class that a name in a program refers to: the class of that name or, for a name without a
package, the class of that name in `java.lang`. -/
def lookup (t : ClassTable) (name : String) : Option ClassId :=
  match t.find? name with
  | some id => some id
  | none => if name.toList.contains '.' then none else t.find? ("java.lang." ++ name)

/-- The numbers of all interned classes. -/
def ids (t : ClassTable) : List ClassId :=
  (List.range t.slots.length).map ClassId.mk

/-- Nothing is known of a class whose number is not in use. -/
theorem classDef?_eq_none {t : ClassTable} {id : ClassId} (unused : id ∉ t.ids) :
    t.classDef? id = none := by
  have bound : t.slots.length ≤ id.index := by
    refine Nat.le_of_not_lt fun lt => unused ?_
    exact List.mem_map.2 ⟨id.index, List.mem_range.2 lt, rfl⟩
  rw [classDef?, List.getElem?_eq_none bound]
  rfl

/-- The numbers of the defined classes, in ascending order. -/
def definedIds (t : ClassTable) : List ClassId :=
  t.ids.filter fun id => (t.classDef? id).isSome

/-- The numbers of all type parameters. -/
def varIds (t : ClassTable) : List VarId :=
  (List.range t.params.length).map VarId.mk

/-- The type `java.lang.Object`. -/
def objectTy (t : ClassTable) : Ty :=
  .cls t.known.object []

/-! ## Changes -/

/-- The number of `name`, which gets the next free one if it has none yet. -/
def intern (t : ClassTable) (name : String) : ClassTable × ClassId :=
  match t.find? name with
  | some id => (t, id)
  | none => ({ t with slots := t.slots ++ [{ name }] }, ⟨t.slots.length⟩)

/-- Give the class `id` the definition `d`. A number that is not in use is ignored. -/
def define (t : ClassTable) (id : ClassId) (d : ClassDef) : ClassTable :=
  { t with slots := t.slots.modify id.index fun s => { s with defn := some d } }

/-- Intern the name of `d` and give it the definition `d`. -/
def upsert (t : ClassTable) (d : ClassDef) : ClassTable × ClassId :=
  let (t, id) := t.intern d.name
  (t.define id d, id)

/-- Change the definition of the class `id`, if it is defined. -/
def modify (t : ClassTable) (id : ClassId) (f : ClassDef → ClassDef) : ClassTable :=
  match t.classDef? id with
  | some d => t.define id (f d)
  | none => t

/-- Add a type parameter under the next free number. -/
def addParam (t : ClassTable) (p : TypeParam) : ClassTable × VarId :=
  ({ t with params := t.params ++ [p] }, ⟨t.params.length⟩)

/-- Redefine the type parameter `x`. A number that is not in use is ignored. -/
def defineParam (t : ClassTable) (x : VarId) (p : TypeParam) : ClassTable :=
  { t with params := t.params.set x.index p }

end ClassTable

namespace Ty

mutual

/-- Look up the open names of a type. A name that the table does not know stays as it is. -/
def canonical (t : ClassTable) : Ty → Ty
  | .named name =>
    match t.lookup name with
    | some id => .cls id []
    | none => .named name
  | .cls id args => .cls id (canonicalAll t args)
  | .array elem => .array (canonical t elem)
  | .wildExtends upper => .wildExtends (canonical t upper)
  | .wildSuper lower => .wildSuper (canonical t lower)
  | .inter parts => .inter (canonicalAll t parts)
  | .void => .void
  | .prim p => .prim p
  | .var x => .var x
  | .wild => .wild
  | .null => .null
  | .unknown => .unknown
  | .error => .error

/-- Look up the open names of a list of types. -/
def canonicalAll (t : ClassTable) : List Ty → List Ty
  | [] => []
  | ty :: tys => canonical t ty :: canonicalAll t tys

end

/-- The names of a list are looked up member by member. -/
@[simp] theorem canonicalAll_eq_map (t : ClassTable) (tys : List Ty) :
    canonicalAll t tys = tys.map (canonical t) := by
  induction tys with
  | nil => rfl
  | cons ty tys ih => simp [canonicalAll, ih]

end Ty

end ContainerLint
