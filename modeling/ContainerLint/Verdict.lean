import ContainerLint.Hierarchy.View

/-!
# Castability, and comparing an argument with a type parameter

Whether a value of one type may turn out to be of another. Primitives are boxed first. Two classes
neither of which is below the other exclude each other, a class and an interface do so if the class
is final, and two uses of one class exclude each other if their arguments are certainly different.

The question behind every check: could a value of the argument's type be an element of a container
of the parameter's type? The answer is open if one of the types is not known well enough.

## Main definitions

* `ClassTable.erasedCastable` — castability of erased types.
* `ClassTable.distinctArgs` — whether the arguments of two class types are certainly different.
* `ClassTable.isCastable` — castability of types.
* `Verdict` — match, incompatible or inconclusive.
* `Policy` — what makes two types compatible.
* `ClassTable.decide` — the verdict on two types.
-/

set_option autoImplicit false

namespace ContainerLint

/-! ## Castability -/

namespace ClassTable

/-- Whether values of two classes, neither below the other, can coincide. Of an undefined class
nothing is known that speaks against it. -/
def classesCastable (t : ClassTable) (a b : ClassId) : Bool :=
  match t.classDef? a, t.classDef? b with
  | some a, some b =>
    match a.kind, b.kind with
    | .cls, .cls => false
    | .interface, .interface => true
    | .cls, .interface => !a.isFinal
    | .interface, .cls => !b.isFinal
  | _, _ => true

/-- Castability of erased types. -/
def erasedCastable (t : ClassTable) : Ty → Ty → Bool
  | .cls a as, .cls b bs =>
    t.erasedSubtype (.cls a as) (.cls b bs) || t.erasedSubtype (.cls b bs) (.cls a as)
      || t.classesCastable a b
  | .array a, .array b =>
    t.erasedSubtype (.array a) (.array b) || t.erasedSubtype (.array b) (.array a)
      || (a.isReference && b.isReference && t.erasedCastable a b)
  | a, b => t.erasedSubtype a b || t.erasedSubtype b a

/-- Whether a class type is written without arguments although its class has parameters, or nothing
is known of its class. -/
def isRawUse (t : ClassTable) (id : ClassId) (args : List Ty) : Bool :=
  args.isEmpty && ((t.classDef? id).map (·.isGeneric)).getD true

/-- Whether two lists of arguments differ at a place where both are concrete. -/
def argsDiffer (as bs : List Ty) : Bool :=
  as.length == bs.length &&
    (as.zip bs).any fun (a, b) => a.isConcrete && b.isConcrete && a != b

/-- Whether a view has other arguments than `args`. -/
def viewDiffers (view : Option Ty) (args : List Ty) : Bool :=
  match view with
  | some (.cls _ viewed) => argsDiffer viewed args
  | _ => false

/-- Whether two class types, one viewed as the class of the other, have arguments that are certainly
different. Raw uses and unrelated classes do not count. -/
def distinctArgs (t : ClassTable) (a b : Ty) : Bool :=
  match a.canonical t, b.canonical t with
  | .cls c as, .cls d bs =>
    if t.isRawUse c as || t.isRawUse d bs then false
    else if (t.ancestors c).contains d then viewDiffers (t.viewAs (.cls c as) d) bs
    else if (t.ancestors d).contains c then viewDiffers (t.viewAs (.cls d bs) c) as
    else false
  | _, _ => false

/-- Whether a value of the first type may be of the second. -/
def isCastable (t : ClassTable) (source target : Ty) : Bool :=
  let source := t.boxed source
  let target := t.boxed target
  match t.erasure source, t.erasure target with
  | some erasedSource, some erasedTarget =>
    t.erasedCastable erasedSource erasedTarget && !t.distinctArgs source target
  | _, _ => false

end ClassTable

/-! ## Verdicts -/

/-- The outcome of a comparison. -/
inductive Verdict where
  | compatible
  | incompatible
  /-- Not enough is known to decide. -/
  | inconclusive
deriving DecidableEq, Inhabited

namespace Verdict

/-- Whether the comparison was decided. -/
def isConclusive : Verdict → Bool
  | .inconclusive => false
  | _ => true

/-- The name of a verdict in log events. -/
def name : Verdict → String
  | .compatible => "Match"
  | .incompatible => "Incompatible"
  | .inconclusive => "Inconclusive"

end Verdict

/-- What makes two types compatible. -/
inductive Policy where
  /-- One of the erased types is a subtype of the other. -/
  | strict
  /-- A value of the argument's type may be of the parameter's type. -/
  | castable
deriving DecidableEq, Inhabited

namespace ClassTable

/-- Whether two types are compatible, given the erasures of their boxed forms. -/
def compatible (t : ClassTable) (policy : Policy) (parameter argument : Ty)
    (erasedParameter erasedArgument : Ty) : Bool :=
  match policy with
  | .strict =>
    t.isSubtype erasedArgument erasedParameter || t.isSubtype erasedParameter erasedArgument
  | .castable => t.isCastable argument parameter

/-- Compare the boxed forms of a parameter and an argument. Types without erasure leave the question
open. -/
def decide (t : ClassTable) (policy : Policy) (parameter argument : Ty) : Verdict :=
  let parameter := t.boxed parameter
  let argument := t.boxed argument
  match t.erasure parameter, t.erasure argument with
  | some erasedParameter, some erasedArgument =>
    if t.compatible policy parameter argument erasedParameter erasedArgument then .compatible
    else .incompatible
  | _, _ => .inconclusive

end ClassTable

end ContainerLint
