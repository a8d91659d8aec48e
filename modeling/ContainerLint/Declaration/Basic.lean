import ContainerLint.Signature.Parser

/-!
# Class declarations

A declaration says in words what a class definition says in numbers: its supertypes are written
signatures, its type parameters are written like `T extends A & B`.

## Main definitions

* `ClassDecl` — a declared class or interface.
* `ParamHeader` — a type parameter as it is declared, read by `ParamHeader.parse?`.
* `DeclareError` — why a batch of declarations is refused, with `DeclareError.message`.
-/

set_option autoImplicit false

namespace ContainerLint

open Text

/-- A declared class or interface. -/
structure ClassDecl where
  /-- Full name. -/
  name : String
  /-- Class or interface. -/
  kind : ClassKind := .cls
  /-- Whether no class may extend it. -/
  isFinal : Bool := false
  /-- Type parameters, each a name or a name with bounds. -/
  typeParams : List String := []
  /-- Signatures that it extends: at most one for a class, any number for an interface. -/
  extended : List String := []
  /-- Signatures of the interfaces that it implements. -/
  implemented : List String := []
deriving DecidableEq, Inhabited

/-- A declared type parameter: its name and the signatures of its bounds. -/
structure ParamHeader where
  name : String
  bounds : List String := []
deriving DecidableEq, Inhabited

/-- The words between a type parameter and its bounds. -/
def ParamHeader.separator : List Char := " extends ".toList

/-- Read a type parameter. The name must be a word, and no bound may be blank. -/
def ParamHeader.parse? (text : String) : Option ParamHeader :=
  let text := trimChars text.toList
  let (name, bounds) :=
    match cutAt ParamHeader.separator text with
    | some (name, bounds) => (trimChars name, (splitChars (· == '&') bounds).map trimChars)
    | none => (text, [])
  if isWord name && bounds.all (!·.isEmpty) then
    some { name := String.ofList name, bounds := bounds.map String.ofList }
  else none

/-- Why a batch of declarations is refused. -/
inductive DeclareError where
  /-- Two declarations have this name. -/
  | duplicateClass (name : String)
  /-- Two type parameters of a class have the same name. -/
  | duplicateTypeParam (className param : String)
  /-- A type parameter cannot be read. -/
  | invalidTypeParam (className param : String)
  /-- A class extends more than one class. -/
  | multipleSuperclasses (name : String)
  /-- A written type cannot be read or resolved. -/
  | signature (className : String) (cause : SignatureError)
deriving DecidableEq, Inhabited

/-- The wording of a refusal. -/
def DeclareError.message : DeclareError → String
  | .duplicateClass name => "`" ++ name ++ "` is declared more than once"
  | .duplicateTypeParam className param =>
    "`" ++ className ++ "` declares type parameter `" ++ param ++ "` more than once"
  | .invalidTypeParam className param =>
    "invalid type parameter `" ++ param ++ "` on `" ++ className ++ "`"
  | .multipleSuperclasses name => "class `" ++ name ++ "` extends more than one class"
  | .signature className cause => "in declaration of `" ++ className ++ "`: " ++ cause.message

end ContainerLint
