import ContainerLint.Hierarchy.Supertypes
import ContainerLint.Relation.Subtype

/-!
# A type viewed as one of its supertypes

`ArrayList<String>` viewed as `Collection` is `Collection<String>`. A variable is viewed through its
bounds and an intersection through its parts; where several of them can be viewed, the view with the
fewest placeholders counts, and two different views with equally many cancel out.

An index of ancestors holds for each class its supertypes in terms of its own formal parameters. To
see a class type as an ancestor is then one substitution instead of a walk.

## Main definitions

* `mergeViews` — the view that several views agree on.
* `Ty.viewWith` — the view of a type when the views of variables are known.
* `ClassTable.viewAs` — the view of a type as a class.
* `ClassTable.ancestorArgs` — the arguments of that view.
* `AncestorIndex` — the index, built by `AncestorIndex.build`.
* `AncestorIndex.hasAncestor?` — whether a class is below another one.
* `AncestorIndex.ancestorArgs` — the arguments of an ancestor as seen through a type.
-/

set_option autoImplicit false

namespace ContainerLint

/-! ## Views -/

/-- The more informative of two views. Different views with equally many placeholders are
ambiguous. -/
def mergeTwo (a b : Ty) : Option Ty :=
  if a = b then some a
  else if a.placeholders < b.placeholders then some a
  else if b.placeholders < a.placeholders then some b
  else none

/-- The view that `found` and the views of some candidates agree on. Candidates without a view do
not count. They are viewed one after the other, and the first ambiguity ends it: a table may have
bounds whose views take very long to find. -/
def mergeViews {α : Type} (view : α → Option Ty) : (found : Option Ty) → List α → Option Ty
  | found, [] => found
  | found, a :: rest =>
    match found, view a with
    | found, none => mergeViews view found rest
    | none, some v => mergeViews view (some v) rest
    | some u, some v =>
      match mergeTwo u v with
      | some w => mergeViews view (some w) rest
      | none => none

namespace Ty

mutual

/-- The view of a type as the class `target` when `follow` gives the views of variables. -/
def viewWith (t : ClassTable) (target : ClassId) (follow : VarId → Option Ty) : Ty → Option Ty
  | .array _ => if t.isArraySuper target then some (.cls target []) else none
  | .inter parts =>
    mergeViews (fun part => part.2 ()) none (sortByKey (·.1) (viewEach t target follow parts))
  | .var x => follow x
  | .wildExtends upper => viewWith t target follow upper
  | ty => (t.supertypeClosure ty).find? fun sup => sup.class? == some target

/-- The parts of an intersection, each as the key that orders them and a way to find its view. -/
def viewEach (t : ClassTable) (target : ClassId) (follow : VarId → Option Ty) :
    List Ty → List (String × (Unit → Option Ty))
  | [] => []
  | part :: parts =>
    (part.sortKey t, fun _ => viewWith t target follow part) :: viewEach t target follow parts

end

end Ty

namespace ClassTable

/-- The view of a variable: the one that its bounds agree on. Only the variables in `avail` are
followed. -/
def viewVar (t : ClassTable) (target : ClassId) (avail : List VarId) (x : VarId) : Option Ty :=
  if _h : x ∈ avail then
    match t.typeParam? x with
    | none => none
    | some p =>
      mergeViews (Ty.viewWith t target (t.viewVar target (avail.erase x))) none
        (sortTypes t p.upperBounds)
  else none
termination_by avail.length
decreasing_by
  rw [List.length_erase_of_mem _h]
  have := List.length_pos_of_mem _h
  omega

/-- The view of a type as the class `target`. -/
def viewAs (t : ClassTable) (ty : Ty) (target : ClassId) : Option Ty :=
  ty.viewWith t target fun x => t.viewVar target t.varIds x

/-- The arguments of a view as `ancestor`, if there are as many as the class has parameters. -/
def checkedArgs (t : ClassTable) (ancestor : ClassId) : Ty → Option (List Ty)
  | .cls id args =>
    match t.classDef? id with
    | none => none
    | some d => if id = ancestor ∧ args.length = d.arity then some args else none
  | _ => none

/-- The type arguments of the class `ancestor` as seen through `ty`. -/
def ancestorArgs (t : ClassTable) (ty : Ty) (ancestor : ClassId) : Option (List Ty) :=
  (t.viewAs ty ancestor).bind (t.checkedArgs ancestor)

end ClassTable

/-! ## An index of ancestors -/

/-- The supertypes of some classes, each class applied to its own parameters. -/
structure AncestorIndex where
  entries : List (ClassId × List Ty) := []
deriving DecidableEq, Inhabited

namespace AncestorIndex

/-- A class applied to its own formal parameters. -/
def selfType (id : ClassId) (d : ClassDef) : Ty :=
  .cls id (d.typeParams.map .var)

/-- The index of the defined ones among the given classes. -/
def build (t : ClassTable) (ids : List ClassId) : AncestorIndex where
  entries := ids.eraseDups.filterMap fun id =>
    (t.classDef? id).map fun d => (id, t.supertypeClosure (selfType id d))

/-- The number of classes in the index. -/
def size (index : AncestorIndex) : Nat :=
  index.entries.length

/-- The supertypes of a class, if it is in the index. -/
def find? (index : AncestorIndex) (id : ClassId) : Option (List Ty) :=
  (index.entries.find? fun e => e.1 == id).map (·.2)

/-- The supertype of class `ancestor` in a list of supertypes. -/
def ofClass? (supers : List Ty) (ancestor : ClassId) : Option Ty :=
  supers.find? fun sup => sup.class? == some ancestor

/-- Whether `ancestor` is above the class `id` or the class itself, if `id` is in the index. -/
def hasAncestor? (index : AncestorIndex) (id ancestor : ClassId) : Option Bool :=
  (index.find? id).map fun supers => (ofClass? supers ancestor).isSome

/-- The type arguments of the class `ancestor` as seen through `ty`. A type that is not of an
indexed class, and a raw use of a generic one, is walked. -/
def ancestorArgs (index : AncestorIndex) (t : ClassTable) (ty : Ty) (ancestor : ClassId) :
    Option (List Ty) :=
  match ty.canonical t with
  | .cls id args =>
    match index.find? id with
    | none => t.ancestorArgs (.cls id args) ancestor
    | some supers =>
      match t.classDef? id with
      | none => none
      | some d =>
        if args.isEmpty && d.isGeneric then t.ancestorArgs (.cls id args) ancestor
        else if args.length = d.arity then
          (ofClass? supers ancestor).bind fun generic =>
            t.checkedArgs ancestor (generic.subst (Subst.ofFormals d.typeParams args))
        else none
  | ty => t.ancestorArgs ty ancestor

end AncestorIndex

end ContainerLint
