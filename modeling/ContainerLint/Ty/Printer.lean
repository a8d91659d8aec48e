import ContainerLint.ClassTable.Basic
import ContainerLint.Text.CharClass

/-!
# Writing types

A type is written the way a source file spells it, either with simple class names, for messages, or
with full names. The full spelling also orders types where the order must not depend on the order
of declarations.

## Main definitions

* `NameStyle` — simple or full class names.
* `Ty.render` — the spelling of a type.
* `Ty.sortKey`, `sortTypes` — the order of types by their full spelling.
-/

set_option autoImplicit false

namespace ContainerLint

/-- How class names are written. -/
inductive NameStyle where
  /-- Without the package, for readers. -/
  | simple
  /-- With the package. -/
  | full
deriving DecidableEq, Inhabited

/-- A full class name in the given style. A nested class `Outer$Inner` has the simple name
`Outer.Inner`. -/
def NameStyle.className (style : NameStyle) (name : String) : String :=
  match style with
  | .full => name
  | .simple =>
    String.ofList ((Text.afterLast '.' name).toList.map fun c => if c == '$' then '.' else c)

namespace Ty

/-- The spelling of a class without its arguments. An undefined class has no name to show. -/
def renderClass (t : ClassTable) (style : NameStyle) (id : ClassId) : String :=
  match t.classDef? id with
  | some d => style.className d.name
  | none => "<class#" ++ toString id.index ++ ">"

/-- The spelling of a type variable. -/
def renderVar (t : ClassTable) (x : VarId) : String :=
  match t.typeParam? x with
  | some p => p.name
  | none => "<tv#" ++ toString x.index ++ ">"

/-- The spelling of type arguments, which are left out if there are none. -/
def renderArgs : List String → String
  | [] => ""
  | args => "<" ++ ", ".intercalate args ++ ">"

mutual

/-- The spelling of a type. -/
def render (t : ClassTable) (style : NameStyle) : Ty → String
  | .void => "void"
  | .prim p => p.keyword
  | .cls id args => renderClass t style id ++ renderArgs (renderEach t style args)
  | .array elem => render t style elem ++ "[]"
  | .var x => renderVar t x
  | .wild => "?"
  | .wildExtends upper => "? extends " ++ render t style upper
  | .wildSuper lower => "? super " ++ render t style lower
  | .inter parts => " & ".intercalate (renderEach t style parts)
  | .null => "null"
  | .named name => name
  | .unknown => "<unknown>"
  | .error => "<error>"

/-- The spellings of a list of types. -/
def renderEach (t : ClassTable) (style : NameStyle) : List Ty → List String
  | [] => []
  | ty :: tys => render t style ty :: renderEach t style tys

end

/-- A list is written member by member. -/
@[simp] theorem renderEach_eq_map (t : ClassTable) (style : NameStyle) (tys : List Ty) :
    renderEach t style tys = tys.map (render t style) := by
  induction tys with
  | nil => rfl
  | cons ty tys ih => simp [renderEach, ih]

/-- The key by which types are ordered. -/
def sortKey (t : ClassTable) (ty : Ty) : String :=
  ty.render t .full

end Ty

/-- Sort by a text key. Members with equal keys stay in their order. -/
def sortByKey {α : Type} (key : α → String) (xs : List α) : List α :=
  xs.mergeSort fun a b => decide (key a ≤ key b)

/-- Sort types by their full spelling. -/
def sortTypes (t : ClassTable) (tys : List Ty) : List Ty :=
  sortByKey (Ty.sortKey t) tys

end ContainerLint
