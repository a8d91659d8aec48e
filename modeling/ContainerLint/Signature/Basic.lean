import ContainerLint.ClassTable.Basic

/-!
# Type signatures

A signature is the syntax tree of a written type: names have been read but not looked up.

## Main definitions

* `Signature` — the syntax tree.
* `SignatureError` — why a text is not a type, with `SignatureError.message`.
* `TypeScope` — the type variables that a signature may mention by name.
* `Signature.resolve` — look up the names of a signature.
-/

set_option autoImplicit false

namespace ContainerLint

/-- The syntax tree of a written type. A name without dots may turn out to be a type variable. -/
inductive Signature where
  | prim (p : Primitive)
  | named (name : String) (args : List Signature)
  | array (elem : Signature)
  | wild
  | wildExtends (upper : Signature)
  | wildSuper (lower : Signature)
deriving Inhabited

/-- What was expected where a signature could not be read on. -/
inductive Expected where
  | typeName
  | nameSegment
  | closingBracket
  | argumentEnd
  | endOfInput
deriving DecidableEq, Inhabited

/-- The wording of an expectation. -/
def Expected.message : Expected → String
  | .typeName => "expected a type name"
  | .nameSegment => "expected a name segment after `.`"
  | .closingBracket => "expected `]`"
  | .argumentEnd => "expected `,` or `>`"
  | .endOfInput => "unexpected trailing input"

/-- Why a text does not denote a type. -/
inductive SignatureError where
  /-- The text is malformed. The offset counts the bytes in front of the offending place. -/
  | syntaxError (input : String) (offset : Nat) (expected : Expected)
  /-- No class of this name is known. -/
  | unknownType (name : String)
  /-- A type variable was given arguments. -/
  | argumentsOnVariable (name : String)
deriving DecidableEq, Inhabited

/-- The wording of a signature error. -/
def SignatureError.message : SignatureError → String
  | .syntaxError input offset expected =>
    "invalid type signature `" ++ input ++ "` at offset " ++ toString offset ++ ": "
      ++ expected.message
  | .unknownType name => "unknown type `" ++ name ++ "`"
  | .argumentsOnVariable name => "type variable `" ++ name ++ "` cannot take type arguments"

/-- The type variables that can be mentioned by name. -/
abbrev TypeScope := List (String × VarId)

/-- The variable that a name without dots denotes. Of two bindings of one name the later wins. -/
def TypeScope.find? (scope : TypeScope) (name : String) : Option VarId :=
  if name.toList.contains '.' then none
  else (scope.reverse.find? fun b => b.1 == name).map (·.2)

namespace Signature

mutual

/-- Look up the names of a signature: variables in the scope, all others in the class table. The
class of a type is looked up before its arguments. -/
def resolve (t : ClassTable) (scope : TypeScope) : Signature → Except SignatureError Ty
  | .prim p => .ok (.prim p)
  | .named name args =>
    match scope.find? name with
    | some x => if args.isEmpty then .ok (.var x) else .error (.argumentsOnVariable name)
    | none =>
      match t.lookup name with
      | none => .error (.unknownType name)
      | some id => (resolveAll t scope args).map (.cls id)
  | .array elem => (resolve t scope elem).map .array
  | .wild => .ok .wild
  | .wildExtends upper => (resolve t scope upper).map .wildExtends
  | .wildSuper lower => (resolve t scope lower).map .wildSuper

/-- Look up the names of a list of signatures, from left to right. -/
def resolveAll (t : ClassTable) (scope : TypeScope) :
    List Signature → Except SignatureError (List Ty)
  | [] => .ok []
  | sig :: sigs =>
    match resolve t scope sig with
    | .error e => .error e
    | .ok ty => (resolveAll t scope sigs).map (ty :: ·)

end

end Signature

end ContainerLint
