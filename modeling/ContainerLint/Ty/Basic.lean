/-!
# Types of a Java program

A type is what a call site can mention: class types with their arguments, primitives, arrays,
type variables, wildcards and intersections, the type of `null`, names that nobody has looked up
yet, and two placeholders. Classes and type variables are numbered; what a number stands for is
said by a `ContainerLint.ClassTable`. A substitution maps some type variables to types. Applying it
leaves the other variables alone.

## Main definitions

* `Primitive` — the eight primitive types, with keyword and name of the wrapper class.
* `Ty` — types, with decidable equality.
* `Ty.isReference`, `Ty.isPlaceholder`, `Ty.isConcrete`, `Ty.placeholders` — shape of a type.
* `Subst` — a finite or infinite assignment of types to variables.
* `Subst.ofPairs`, `Subst.ofFormals` — the assignment written as a list of pairs, and the one that
  binds the formal parameters of a class to its arguments.
* `Ty.subst` — replace the variables of a type.
* `Subst.andThen` — one substitution after another.

## Main results

* `Ty.recOnMembers` — induction on types, with the hypothesis for every argument or part.
* `Ty.beq_iff` — the Boolean comparison of types decides equality.
* `Ty.substAll_eq_map` — a list is substituted member by member.
-/

set_option autoImplicit false

namespace ContainerLint

/-- The number of a class or interface in a class table. -/
structure ClassId where
  /-- Position in the class table. -/
  index : Nat
deriving DecidableEq, Inhabited

/-- The number of a type parameter in a class table. -/
structure VarId where
  /-- Position in the table of type parameters. -/
  index : Nat
deriving DecidableEq, Inhabited

/-- The primitive types. -/
inductive Primitive where
  | boolean
  | byte
  | short
  | char
  | int
  | long
  | float
  | double
deriving DecidableEq, Inhabited

namespace Primitive

/-- All primitive types, in the order in which their wrappers are numbered. -/
def all : List Primitive :=
  [.boolean, .byte, .short, .char, .int, .long, .float, .double]

/-- The keyword that spells the type. -/
def keyword : Primitive → String
  | .boolean => "boolean"
  | .byte => "byte"
  | .short => "short"
  | .char => "char"
  | .int => "int"
  | .long => "long"
  | .float => "float"
  | .double => "double"

/-- The primitive type that `word` spells. -/
def ofKeyword? (word : String) : Option Primitive :=
  all.find? fun p => p.keyword == word

/-- The name of the wrapper class. -/
def boxName : Primitive → String
  | .boolean => "java.lang.Boolean"
  | .byte => "java.lang.Byte"
  | .short => "java.lang.Short"
  | .char => "java.lang.Character"
  | .int => "java.lang.Integer"
  | .long => "java.lang.Long"
  | .float => "java.lang.Float"
  | .double => "java.lang.Double"

/-- Position in the chain `byte`, `short`, `int`, `long`, `float`, `double`. The types outside of
the chain have none. -/
def rank? : Primitive → Option Nat
  | .byte => some 0
  | .short => some 1
  | .int => some 2
  | .long => some 3
  | .float => some 4
  | .double => some 5
  | .boolean => none
  | .char => none

/-- Primitive subtyping: up the chain, and `char` below `int`. -/
def widens (sub sup : Primitive) : Bool :=
  sub == sup ||
    match sup.rank? with
    | none => false
    | some target =>
      match sub with
      | .char => 2 ≤ target
      | _ => sub.rank?.any (· ≤ target)

end Primitive

/-- A type. A class type without arguments is a raw use if the class is generic. -/
inductive Ty where
  | void
  | prim (p : Primitive)
  | cls (id : ClassId) (args : List Ty)
  | array (elem : Ty)
  | var (id : VarId)
  | wild
  | wildExtends (upper : Ty)
  | wildSuper (lower : Ty)
  | inter (parts : List Ty)
  | null
  | named (name : String)
  | unknown
  | error
deriving Inhabited

namespace Ty

/-- Induction on types in which the hypothesis holds of every argument of a class type and of
every part of an intersection.

**Proof sketch.** The recursor of nested types asks for a second predicate on lists, and here it
says that the first one holds of all members. -/
theorem recOnMembers {motive : Ty → Prop}
    (void : motive .void)
    (prim : ∀ p, motive (.prim p))
    (cls : ∀ id args, (∀ a ∈ args, motive a) → motive (.cls id args))
    (array : ∀ elem, motive elem → motive (.array elem))
    (var : ∀ id, motive (.var id))
    (wild : motive .wild)
    (wildExtends : ∀ upper, motive upper → motive (.wildExtends upper))
    (wildSuper : ∀ lower, motive lower → motive (.wildSuper lower))
    (inter : ∀ parts, (∀ p ∈ parts, motive p) → motive (.inter parts))
    (null : motive .null)
    (named : ∀ name, motive (.named name))
    (unknown : motive .unknown)
    (error : motive .error) (t : Ty) : motive t :=
  @Ty.rec motive (fun ts => ∀ t ∈ ts, motive t)
    void prim cls array var wild wildExtends wildSuper inter null named unknown error
    (fun _ h => nomatch h)
    (fun _ _ head tail _ mem =>
      match mem with
      | .head _ => head
      | .tail _ mem => tail _ mem)
    t

/-! ## Equality -/

mutual

/-- Boolean comparison of types. -/
def beq : Ty → Ty → Bool
  | .void, .void => true
  | .prim p, .prim q => p == q
  | .cls c as, .cls d bs => c == d && beqAll as bs
  | .array s, .array t => beq s t
  | .var x, .var y => x == y
  | .wild, .wild => true
  | .wildExtends s, .wildExtends t => beq s t
  | .wildSuper s, .wildSuper t => beq s t
  | .inter ss, .inter ts => beqAll ss ts
  | .null, .null => true
  | .named m, .named n => m == n
  | .unknown, .unknown => true
  | .error, .error => true
  | _, _ => false

/-- Boolean comparison of lists of types. -/
def beqAll : List Ty → List Ty → Bool
  | [], [] => true
  | s :: ss, t :: ts => beq s t && beqAll ss ts
  | _, _ => false

end

/-- Lists are compared member by member. -/
theorem beqAll_iff (ss : List Ty) (members : ∀ s ∈ ss, ∀ t, beq s t = true ↔ s = t)
    (ts : List Ty) : beqAll ss ts = true ↔ ss = ts := by
  induction ss generalizing ts with
  | nil => cases ts <;> simp [beqAll]
  | cons s ss ih =>
    cases ts with
    | nil => simp [beqAll]
    | cons t ts =>
      simp [beqAll, members s List.mem_cons_self t,
        ih fun s hs => members s (List.mem_cons_of_mem _ hs)]

/-- The Boolean comparison decides equality. -/
theorem beq_iff (s : Ty) : ∀ t, beq s t = true ↔ s = t := by
  induction s using recOnMembers with
  | cls c as ih => intro t; cases t <;> simp [beq, beqAll_iff as ih]
  | inter ps ih => intro t; cases t <;> simp [beq, beqAll_iff ps ih]
  | array s ih | wildExtends s ih | wildSuper s ih => intro t; cases t <;> simp [beq, ih]
  | _ => intro t; cases t <;> simp [beq]

/-- Equality of types is decided by the Boolean comparison. -/
instance : DecidableEq Ty := fun s t => decidable_of_iff (beq s t = true) (beq_iff s t)

/-! ## Shape -/

/-- The placeholders of a failed or absent analysis. -/
def isPlaceholder : Ty → Bool
  | .unknown => true
  | .error => true
  | _ => false

/-- Everything but `void` and the primitive types. -/
def isReference : Ty → Bool
  | .void => false
  | .prim _ => false
  | _ => true

/-- The class of a class type. -/
def class? : Ty → Option ClassId
  | .cls id _ => some id
  | _ => none

mutual

/-- Whether a type is built of primitives, classes and arrays alone, so that no variable, wildcard,
placeholder or open name can stand for something else. -/
def isConcrete : Ty → Bool
  | .prim _ => true
  | .cls _ args => allConcrete args
  | .array elem => isConcrete elem
  | _ => false

/-- Whether all of a list of types are concrete. -/
def allConcrete : List Ty → Bool
  | [] => true
  | t :: ts => isConcrete t && allConcrete ts

end

mutual

/-- The number of placeholders in a type: how much about it is not known. -/
def placeholders : Ty → Nat
  | .unknown => 1
  | .error => 1
  | .array elem => placeholders elem
  | .cls _ args => placeholdersAll args
  | .wildExtends upper => placeholders upper
  | .wildSuper lower => placeholders lower
  | .inter parts => placeholdersAll parts
  | _ => 0

/-- The number of placeholders in a list of types. -/
def placeholdersAll : List Ty → Nat
  | [] => 0
  | t :: ts => placeholders t + placeholdersAll ts

end

end Ty

/-! ## Substitution -/

/-- An assignment of types to some of the type variables. -/
abbrev Subst := VarId → Option Ty

/-- The assignment that a list of pairs describes. Of two pairs for one variable the later wins. -/
def Subst.ofPairs : List (VarId × Ty) → Subst
  | [], _ => none
  | (x, t) :: pairs, y => (Subst.ofPairs pairs y).or (if x = y then some t else none)

/-- The assignment that binds formal parameters to arguments, position by position. -/
def Subst.ofFormals (formals : List VarId) (args : List Ty) : Subst :=
  Subst.ofPairs (formals.zip args)

namespace Ty

mutual

/-- Replace the variables of a type. -/
def subst (σ : Subst) : Ty → Ty
  | .var x => (σ x).getD (.var x)
  | .cls id args => .cls id (substAll σ args)
  | .array elem => .array (subst σ elem)
  | .wildExtends upper => .wildExtends (subst σ upper)
  | .wildSuper lower => .wildSuper (subst σ lower)
  | .inter parts => .inter (substAll σ parts)
  | .void => .void
  | .prim p => .prim p
  | .wild => .wild
  | .null => .null
  | .named name => .named name
  | .unknown => .unknown
  | .error => .error

/-- Replace the variables of a list of types. -/
def substAll (σ : Subst) : List Ty → List Ty
  | [] => []
  | t :: ts => subst σ t :: substAll σ ts

end

/-- A list is substituted member by member. -/
@[simp] theorem substAll_eq_map (σ : Subst) (ts : List Ty) : substAll σ ts = ts.map (subst σ) := by
  induction ts with
  | nil => rfl
  | cons t ts ih => simp [substAll, ih]

end Ty

/-- First `σ`, then `ρ`. -/
def Subst.andThen (σ ρ : Subst) : Subst := fun x =>
  match σ x with
  | some t => some (t.subst ρ)
  | none => ρ x

end ContainerLint
