/-!
# Strings and keys of TOML documents

There are four kinds of strings: in double quotes with escapes, in single quotes without, and both
in triple quotes over several lines. A key is a string on one line or a bare word.

## Main definitions

* `Toml.isText` — the characters that may stand in a string or comment.
* `Toml.basicBody`, `Toml.literalBody`, `Toml.multiBasicBody`, `Toml.multiLiteralBody` — the rest of
  a string after its opening quotes.
* `Toml.stringAt` — a string.
* `Toml.keyAt` — a dotted key.
-/

set_option autoImplicit false

namespace ContainerLint.Toml

/-- Blanks within a line. -/
def isSpace (c : Char) : Bool :=
  c == ' ' || c == '\t'

/-- The text after blanks within a line. -/
def dropSpaces (cs : List Char) : List Char :=
  cs.dropWhile isSpace

/-- Characters that may stand in strings and comments: everything but control characters, where a
tab does not count as one. -/
def isText (c : Char) : Bool :=
  c == '\t' || (32 ≤ c.toNat && c.toNat != 127)

/-- The text after a line break. -/
def newline? : List Char → Option (List Char)
  | '\n' :: rest => some rest
  | '\r' :: '\n' :: rest => some rest
  | _ => none

/-! ## Escapes -/

/-- The value of a hexadecimal digit. -/
def hexValue? (c : Char) : Option Nat :=
  if c.isDigit then some (c.toNat - '0'.toNat)
  else if 'a' ≤ c ∧ c ≤ 'f' then some (c.toNat - 'a'.toNat + 10)
  else if 'A' ≤ c ∧ c ≤ 'F' then some (c.toNat - 'A'.toNat + 10)
  else none

/-- The character whose code point is spelled by hexadecimal digits. -/
def codePoint? (digits : List Char) : Option Char := do
  let n ← digits.foldlM (fun n c => (hexValue? c).map (16 * n + ·)) 0
  if n < 0xD800 || (0xDFFF < n && n < 0x110000) then some (Char.ofNat n) else none

/-- The character that a one-letter escape stands for. -/
def escape? : Char → Option Char
  | 'b' => some (Char.ofNat 8)
  | 't' => some '\t'
  | 'n' => some '\n'
  | 'f' => some (Char.ofNat 12)
  | 'r' => some '\r'
  | '"' => some '"'
  | '\\' => some '\\'
  | _ => none

/-- Put a character in front of the content that was read. -/
def prepend (c : Option Char) (read : Option (List Char × List Char)) :
    Option (List Char × List Char) :=
  match c, read with
  | some c, some (content, rest) => some (c :: content, rest)
  | _, _ => none

/-! ## Strings -/

/-- The content of a string in double quotes, and what follows it. -/
def basicBody : List Char → Option (List Char × List Char)
  | [] => none
  | '"' :: rest => some ([], rest)
  | '\\' :: 'u' :: a :: b :: c :: d :: rest => prepend (codePoint? [a, b, c, d]) (basicBody rest)
  | '\\' :: 'U' :: a :: b :: c :: d :: e :: f :: g :: h :: rest =>
    prepend (codePoint? [a, b, c, d, e, f, g, h]) (basicBody rest)
  | '\\' :: e :: rest => prepend (escape? e) (basicBody rest)
  | c :: rest => if isText c && c != '\\' then prepend (some c) (basicBody rest) else none

/-- The content of a string in single quotes, and what follows it. -/
def literalBody : List Char → Option (List Char × List Char)
  | [] => none
  | '\'' :: rest => some ([], rest)
  | c :: rest => if isText c then prepend (some c) (literalBody rest) else none

/-- Whether nothing but blanks stands in front of the next line break. -/
def endsLine (cs : List Char) : Bool :=
  (newline? (dropSpaces cs)).isSome

/-- The content of a string in triple double quotes, and what follows it. After a backslash at the
end of a line, `skip` is set and all blanks and line breaks are left out. Up to two quotes may stand
directly before the closing ones. -/
def multiBasicBody (skip : Bool) : List Char → Option (List Char × List Char)
  | [] => none
  | '"' :: '"' :: '"' :: '"' :: '"' :: rest => some (['"', '"'], rest)
  | '"' :: '"' :: '"' :: '"' :: rest => some (['"'], rest)
  | '"' :: '"' :: '"' :: rest => some ([], rest)
  | '\\' :: 'u' :: a :: b :: c :: d :: rest =>
    prepend (codePoint? [a, b, c, d]) (multiBasicBody false rest)
  | '\\' :: 'U' :: a :: b :: c :: d :: e :: f :: g :: h :: rest =>
    prepend (codePoint? [a, b, c, d, e, f, g, h]) (multiBasicBody false rest)
  | '\\' :: e :: rest =>
    if endsLine (e :: rest) then multiBasicBody true (e :: rest)
    else prepend (escape? e) (multiBasicBody false rest)
  | '\r' :: '\n' :: rest =>
    if skip then multiBasicBody true rest else prepend (some '\n') (multiBasicBody false rest)
  | '\n' :: rest =>
    if skip then multiBasicBody true rest else prepend (some '\n') (multiBasicBody false rest)
  | c :: rest =>
    if skip && isSpace c then multiBasicBody true rest
    else if isText c && c != '\\' then prepend (some c) (multiBasicBody false rest)
    else none

/-- The content of a string in triple single quotes, and what follows it. -/
def multiLiteralBody : List Char → Option (List Char × List Char)
  | [] => none
  | '\'' :: '\'' :: '\'' :: '\'' :: '\'' :: rest => some (['\'', '\''], rest)
  | '\'' :: '\'' :: '\'' :: '\'' :: rest => some (['\''], rest)
  | '\'' :: '\'' :: '\'' :: rest => some ([], rest)
  | '\r' :: '\n' :: rest => prepend (some '\n') (multiLiteralBody rest)
  | '\n' :: rest => prepend (some '\n') (multiLiteralBody rest)
  | c :: rest => if isText c then prepend (some c) (multiLiteralBody rest) else none

/-- The text without a line break at its start: one that follows opening triple quotes does not
count. -/
def dropNewline (cs : List Char) : List Char :=
  (newline? cs).getD cs

/-- A string, and what follows it. -/
def stringAt (cs : List Char) : Option (String × List Char) :=
  let read :=
    match cs with
    | '"' :: '"' :: '"' :: rest => multiBasicBody false (dropNewline rest)
    | '"' :: rest => basicBody rest
    | '\'' :: '\'' :: '\'' :: rest => multiLiteralBody (dropNewline rest)
    | '\'' :: rest => literalBody rest
    | _ => none
  read.map fun (content, rest) => (String.ofList content, rest)

/-! ## Keys -/

/-- The characters of a key without quotes. -/
def isBareKey (c : Char) : Bool :=
  c.isAlphanum || c == '_' || c == '-'

/-- One segment of a key, and what follows it. -/
def segmentAt (cs : List Char) : Option (String × List Char) :=
  let read :=
    match cs with
    | '"' :: rest => basicBody rest
    | '\'' :: rest => literalBody rest
    | _ =>
      let word := cs.takeWhile isBareKey
      if word.isEmpty then none else some (word, cs.dropWhile isBareKey)
  read.map fun (content, rest) => (String.ofList content, rest)

/-- A key of at most `limit` segments with dots between them, and what follows it. Blanks around the
segments do not count. -/
def keyAt : (limit : Nat) → List Char → Option (List String × List Char)
  | 0, _ => none
  | limit + 1, cs => do
    let (segment, rest) ← segmentAt (dropSpaces cs)
    match dropSpaces rest with
    | '.' :: rest =>
      let (segments, rest) ← keyAt limit rest
      return (segment :: segments, rest)
    | rest => return ([segment], rest)

end ContainerLint.Toml
