import ContainerLint.Signature.Basic
import ContainerLint.Text.CharClass

/-!
# Reading type signatures

The grammar, with blanks allowed before every token and at the end:

    type ::= (primitive | word ('.' word)* ['<' arg (',' arg)* '>']) ('[' ']')*
    arg  ::= type | '?' | '?' 'extends' type | '?' 'super' type

A word is read as far as it goes, and a first word that spells a primitive type is that type, so
that neither a dot nor an argument list can follow it.

## Main definitions

* `Signature.Parser.typeAt`, `Signature.Parser.argAt`, `Signature.Parser.argsAt` — read a prefix of
  the text and return the rest.
* `Signature.parse` — read a whole text.
* `Ty.parse` — read a whole text and look up its names.

## Design

A reader that fails returns the rest of the text at the place where it stopped; the offset in the
message is what lies in front of that rest. Nested types are read with a budget, one unit for a type
and one for a member of an argument list. Each nested type is preceded by a name and a bracket, so
one unit more than the length of the text is enough.
-/

set_option autoImplicit false

namespace ContainerLint

open Text

namespace Signature.Parser

/-- Where reading stopped, and what was expected there. -/
structure Stop where
  rest : List Char
  expected : Expected
deriving DecidableEq, Inhabited

/-- Read the token `c`. -/
def eat? (c : Char) (cs : List Char) : Option (List Char) :=
  match dropBlanks cs with
  | [] => none
  | d :: rest => if d == c then some rest else none

/-- Read a word, as long as possible. -/
def word? (cs : List Char) : Option (String × List Char) :=
  match dropBlanks cs with
  | [] => none
  | c :: rest =>
    if isWordStart c then
      some (String.ofList (c :: rest.takeWhile isWordRest), rest.dropWhile isWordRest)
    else none

/-- Read the word `keyword`. -/
def keyword? (keyword : String) (cs : List Char) : Option (List Char) :=
  match word? cs with
  | some (word, rest) => if word == keyword then some rest else none
  | none => none

/-- A character that is read is used up. -/
theorem length_eat? {c : Char} {cs rest : List Char} (h : eat? c cs = some rest) :
    rest.length < cs.length := by
  have blanks := (List.dropWhile_sublist isBlank (l := cs)).length_le
  unfold eat? dropBlanks at h
  split at h
  · cases h
  · next d tail eq =>
    rw [eq, List.length_cons] at blanks
    split at h
    · obtain rfl := Option.some.inj h
      omega
    · cases h

/-- A word that is read is used up. -/
theorem length_word? {cs rest : List Char} {w : String} (h : word? cs = some (w, rest)) :
    rest.length < cs.length := by
  have blanks := (List.dropWhile_sublist isBlank (l := cs)).length_le
  unfold word? dropBlanks at h
  split at h
  · cases h
  · next c tail eq =>
    have word := (List.dropWhile_sublist isWordRest (l := tail)).length_le
    rw [eq, List.length_cons] at blanks
    split at h
    · cases h
      omega
    · cases h

/-- Read the further segments of a dotted name that starts with `name`. -/
def nameAt (name : String) (cs : List Char) : Except Stop (String × List Char) :=
  match _h : eat? '.' cs with
  | none => .ok (name, cs)
  | some rest =>
    match _h' : word? rest with
    | none => .error ⟨dropBlanks rest, .nameSegment⟩
    | some (segment, rest') => nameAt (name ++ "." ++ segment) rest'
termination_by cs.length
decreasing_by
  have := length_eat? _h
  have := length_word? _h'
  omega

/-- Read the brackets that make `sig` an array type. -/
def arraysAt (sig : Signature) (cs : List Char) : Except Stop (Signature × List Char) :=
  match _h : eat? '[' cs with
  | none => .ok (sig, cs)
  | some rest =>
    match _h' : eat? ']' rest with
    | none => .error ⟨dropBlanks rest, .closingBracket⟩
    | some rest' => arraysAt (.array sig) rest'
termination_by cs.length
decreasing_by
  have := length_eat? _h
  have := length_eat? _h'
  omega

/-- Read one member of an argument list, with a reader of types. -/
def argAt (readType : List Char → Except Stop (Signature × List Char)) (cs : List Char) :
    Except Stop (Signature × List Char) :=
  match eat? '?' cs with
  | none => readType cs
  | some rest =>
    match keyword? "extends" rest with
    | some rest => (readType rest).map fun (sig, rest) => (.wildExtends sig, rest)
    | none =>
      match keyword? "super" rest with
      | some rest => (readType rest).map fun (sig, rest) => (.wildSuper sig, rest)
      | none => .ok (.wild, rest)

mutual

/-- Read a type. -/
def typeAt : Nat → List Char → Except Stop (Signature × List Char)
  | 0, cs => .error ⟨cs, .typeName⟩
  | n + 1, cs =>
    match word? cs with
    | none => .error ⟨dropBlanks cs, .typeName⟩
    | some (word, rest) =>
      match Primitive.ofKeyword? word with
      | some p => arraysAt (.prim p) rest
      | none => do
        let (name, rest) ← nameAt word rest
        match eat? '<' rest with
        | none => arraysAt (.named name []) rest
        | some rest =>
          let (args, rest) ← argsAt n rest
          arraysAt (.named name args) rest

/-- Read an argument list up to its closing bracket. -/
def argsAt : Nat → List Char → Except Stop (List Signature × List Char)
  | 0, cs => .error ⟨cs, .argumentEnd⟩
  | n + 1, cs => do
    let (arg, rest) ← argAt (typeAt n) cs
    match eat? ',' rest with
    | some rest =>
      let (args, rest) ← argsAt n rest
      return (arg :: args, rest)
    | none =>
      match eat? '>' rest with
      | some rest => return ([arg], rest)
      | none => .error ⟨dropBlanks rest, .argumentEnd⟩

end

/-- Read a type and the blanks after it, which must be all there is. -/
def wholeType (cs : List Char) : Except Stop Signature := do
  let (sig, rest) ← typeAt (cs.length + 1) cs
  match dropBlanks rest with
  | [] => return sig
  | rest => .error ⟨rest, .endOfInput⟩

end Signature.Parser

/-- Read a type signature. -/
def Signature.parse (input : String) : Except SignatureError Signature :=
  match Signature.Parser.wholeType input.toList with
  | .ok sig => .ok sig
  | .error stop =>
    .error (.syntaxError input (byteLength input.toList - byteLength stop.rest) stop.expected)

/-- Read a type whose variables are those of `scope`. -/
def Ty.parse (t : ClassTable) (scope : TypeScope) (input : String) : Except SignatureError Ty := do
  (← Signature.parse input).resolve t scope

end ContainerLint
