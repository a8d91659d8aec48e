import ContainerLint.Toml.Number
import ContainerLint.Toml.Tree

/-!
# Reading TOML documents

## Main definitions

* `Toml.valueAt` — a value, nested to a limited depth.
* `Toml.Statement`, `Toml.statements?` — the lines of a document.
* `Toml.parse?` — the table that a document describes.
-/

set_option autoImplicit false

namespace ContainerLint.Toml

/-- How deep values may be nested, and how many segments a key may have. -/
def depthLimit : Nat := 79

/-! ## Blanks and comments -/

/-- The text after a comment. -/
def dropComment : List Char → List Char
  | '#' :: rest => rest.dropWhile isText
  | cs => cs

/-- Dropping blanks makes no text longer. -/
theorem length_dropSpaces_le (cs : List Char) : (dropSpaces cs).length ≤ cs.length :=
  (List.dropWhile_sublist isSpace).length_le

/-- Nor does dropping a comment. -/
theorem length_dropComment_le (cs : List Char) : (dropComment cs).length ≤ cs.length := by
  unfold dropComment
  split
  · next rest =>
    have := (List.dropWhile_sublist (l := rest) isText).length_le
    simp only [List.length_cons]
    omega
  · exact Nat.le_refl _

/-- The end of a line takes at least one character. -/
theorem length_newline? {cs rest : List Char} (h : newline? cs = some rest) :
    rest.length < cs.length := by
  unfold newline? at h
  split at h
  · obtain rfl := Option.some.inj h
    exact Nat.lt_succ_self _
  · obtain rfl := Option.some.inj h
    exact Nat.lt_succ_of_lt (Nat.lt_succ_self _)
  · cases h

/-- The text after blanks, line breaks and comments. A comment that no line break ends stays. -/
def dropTrivia (cs : List Char) : List Char :=
  match _h : newline? (dropComment (dropSpaces cs)) with
  | some rest => dropTrivia rest
  | none => dropSpaces cs
termination_by cs.length
decreasing_by
  have := length_newline? _h
  have := length_dropComment_le (dropSpaces cs)
  have := length_dropSpaces_le cs
  omega

/-- The text after the end of a line, which may hold blanks and a comment. -/
def endOfLine? (cs : List Char) : Option (List Char) :=
  match dropComment (dropSpaces cs) with
  | [] => some []
  | cs => newline? cs

/-! ## Values -/

/-- The characters that end a value without quotes or brackets. -/
def endsToken (c : Char) : Bool :=
  c == ' ' || c == '\t' || c == '\n' || c == '\r' || c == ',' || c == ']' || c == '}' || c == '#'

/-- The value that a word without blanks spells. -/
def word? (word : List Char) : Option Value :=
  if word == "true".toList then some (.bool true)
  else if word == "false".toList then some (.bool false)
  else if isDateTime word then some (.datetime (String.ofList word))
  else if isFloat word then some (.float (String.ofList word))
  else (int? word).map .int

/-- A value without quotes or brackets, and what follows it. A blank may stand between the date and
the time of a date-time. -/
def wordAt (cs : List Char) : Option (Value × List Char) :=
  let word := cs.takeWhile (!endsToken ·)
  let rest := cs.dropWhile (!endsToken ·)
  match isDate word, rest with
  | true, ' ' :: c :: more =>
    if c.isDigit then
      let time := (c :: more).takeWhile (!endsToken ·)
      if isTime time then
        some (.datetime (String.ofList (word ++ ' ' :: time)), (c :: more).dropWhile (!endsToken ·))
      else none
    else some (.datetime (String.ofList word), rest)
  | _, _ => (word? word).map fun v => (v, rest)

/-- The elements of an array up to its closing bracket, at most `n` of them. -/
def itemsAt (item : List Char → Option (Value × List Char)) :
    (n : Nat) → List Char → Option (List Value × List Char)
  | 0, _ => none
  | n + 1, cs =>
    match dropTrivia cs with
    | ']' :: rest => some ([], rest)
    | cs => do
      let (v, rest) ← item cs
      match dropTrivia rest with
      | ',' :: rest =>
        let (vs, rest) ← itemsAt item n rest
        return (v :: vs, rest)
      | ']' :: rest => return ([v], rest)
      | _ => none

/-- A key and its value, and what follows them. -/
def pairAt (item : List Char → Option (Value × List Char)) (cs : List Char) :
    Option ((List String × Value) × List Char) := do
  let (key, rest) ← keyAt depthLimit cs
  match rest with
  | '=' :: rest =>
    let (v, rest) ← item (dropSpaces rest)
    return ((key, v), rest)
  | _ => none

/-- The pairs of an inline table up to its closing brace, at least one and at most `n` of them. -/
def pairsAt (item : List Char → Option (Value × List Char)) :
    (n : Nat) → List Char → Option (List (List String × Value) × List Char)
  | 0, _ => none
  | n + 1, cs => do
    let (pair, rest) ← pairAt item cs
    match dropSpaces rest with
    | ',' :: rest =>
      let (pairs, rest) ← pairsAt item n rest
      return (pair :: pairs, rest)
    | '\x7d' :: rest => return ([pair], rest)
    | _ => none

/-- A value with at most `depth` brackets around each of its parts and at most `limit` members in
each bracket, and what follows it. -/
def valueAt (limit : Nat) : (depth : Nat) → List Char → Option (Value × List Char)
  | _, '"' :: rest => (stringAt ('"' :: rest)).map fun (s, rest) => (.str s, rest)
  | _, '\'' :: rest => (stringAt ('\'' :: rest)).map fun (s, rest) => (.str s, rest)
  | 0, '[' :: _ => none
  | 0, '\x7b' :: _ => none
  | depth + 1, '[' :: rest =>
    (itemsAt (valueAt limit depth) limit rest).map fun (vs, rest) => (.array vs, rest)
  | depth + 1, '\x7b' :: rest =>
    match dropSpaces rest with
    | '\x7d' :: rest => some (.table [], rest)
    | rest => do
      let (pairs, rest) ← pairsAt (valueAt limit depth) limit rest
      return (.table (Node.entries (← insertPairs pairs [])), rest)
  | _, cs => wordAt cs

/-! ## Documents -/

/-- A line of a document that says something. -/
inductive Statement where
  | pair (key : List String) (v : Value)
  | header (path : List String)
  | elementHeader (path : List String)

/-- The text after a character. -/
def after? (c : Char) : List Char → Option (List Char)
  | [] => none
  | d :: rest => if d == c then some rest else none

/-- One statement, and what follows it. -/
def statementAt (limit : Nat) : List Char → Option (Statement × List Char)
  | '[' :: '[' :: rest => do
    let (path, rest) ← keyAt depthLimit rest
    let rest ← after? ']' rest
    let rest ← after? ']' rest
    return (.elementHeader path, rest)
  | '[' :: rest => do
    let (path, rest) ← keyAt depthLimit rest
    let rest ← after? ']' rest
    return (.header path, rest)
  | cs => do
    let ((key, v), rest) ← pairAt (valueAt limit depthLimit) cs
    return (.pair key v, rest)

/-- The statements of a document of at most `n` lines. -/
def statementsAt (limit : Nat) : (n : Nat) → List Char → Option (List Statement)
  | 0, cs => if cs.isEmpty then some [] else none
  | n + 1, cs =>
    match endOfLine? cs with
    | some [] => some []
    | some rest => statementsAt limit n rest
    | none => do
      let (s, rest) ← statementAt limit (dropSpaces cs)
      let rest ← endOfLine? rest
      return s :: (← statementsAt limit n rest)

/-- The statements of a text. It has at most one line for each character and one more, and no
bracket has more members than that. -/
def statementsOf (cs : List Char) : Option (List Statement) :=
  let limit := cs.length + 1
  statementsAt limit limit cs

/-- The statements of a document. A byte-order mark at the start does not count. -/
def statements? (text : String) : Option (List Statement) :=
  match text.toList with
  | '\ufeff' :: cs => statementsOf cs
  | cs => statementsOf cs

/-- The pairs in front of the next header, and the rest. -/
def section? : List Statement → List (List String × Value) × List Statement
  | .pair key v :: rest =>
    let (pairs, rest) := section? rest
    ((key, v) :: pairs, rest)
  | rest => ([], rest)

/-- Add the sections of a document, each a header with its pairs. A pair without header is not
expected. -/
def addSections : (n : Nat) → List Statement → Nodes → Option Nodes
  | 0, _, nodes => some nodes
  | n + 1, statements, nodes =>
    match statements with
    | [] => some nodes
    | .pair _ _ :: _ => none
    | .header path :: rest => do
      let (pairs, rest) := section? rest
      addSections n rest (← openTable path pairs nodes)
    | .elementHeader path :: rest => do
      let (pairs, rest) := section? rest
      addSections n rest (← openElement path pairs nodes)

/-- The table that a document describes, if it is well formed. -/
def parse? (text : String) : Option Entries := do
  let statements ← statements? text
  let (pairs, rest) := section? statements
  let nodes ← addSections rest.length rest (← insertPairs pairs [])
  return Node.entries nodes

end ContainerLint.Toml
