import ContainerLint.Text.CharTable

/-!
# Character classes and trimming

Blanks, letters and numbers are the Unicode classes, not the ASCII ones: a class name may be
written in any script, and any Unicode blank may stand between two words.

## Main definitions

* `Text.isBlank`, `Text.isLetter`, `Text.isLetterOrNumber` — the three classes.
* `Text.isWordStart`, `Text.isWordRest`, `Text.isWord` — how an identifier is spelled.
* `Text.trimBlanks` — a text without the blanks at its two ends.
-/

set_option autoImplicit false

namespace ContainerLint.Text

/-- Whether code point `n` lies in one of the closed ranges `rs`. -/
def inRanges (rs : List (Nat × Nat)) (n : Nat) : Bool :=
  rs.any fun r => r.1 ≤ n && n ≤ r.2

/-- White space. -/
def isBlank (c : Char) : Bool :=
  inRanges blankRanges c.toNat

/-- Letters and the marks that count as letters. -/
def isLetter (c : Char) : Bool :=
  c.isAlpha || (127 < c.toNat && inRanges letterRanges c.toNat)

/-- Letters, and every kind of number. -/
def isLetterOrNumber (c : Char) : Bool :=
  isLetter c || c.isDigit || (127 < c.toNat && inRanges numberRanges c.toNat)

/-- The first character of an identifier. -/
def isWordStart (c : Char) : Bool :=
  isLetter c || c == '_' || c == '$'

/-- A further character of an identifier. -/
def isWordRest (c : Char) : Bool :=
  isLetterOrNumber c || c == '_' || c == '$'

/-- A whole identifier: a first character, then further ones. -/
def isWord : List Char → Bool
  | [] => false
  | c :: cs => isWordStart c && cs.all isWordRest

/-- `cs` without its leading blanks. -/
def dropBlanks (cs : List Char) : List Char :=
  cs.dropWhile isBlank

/-- `cs` without the blanks at its two ends. -/
def trimChars (cs : List Char) : List Char :=
  (dropBlanks (dropBlanks cs).reverse).reverse

/-- `s` without the blanks at its two ends. -/
def trimBlanks (s : String) : String :=
  String.ofList (trimChars s.toList)

/-- The number of bytes that `cs` takes in UTF-8. -/
def byteLength : List Char → Nat
  | [] => 0
  | c :: cs => c.utf8Size + byteLength cs

/-- The pieces of `cs` between the characters that satisfy `p`, in order. There is one piece more
than there are such characters. -/
def splitChars (p : Char → Bool) : List Char → List (List Char)
  | [] => [[]]
  | c :: cs =>
    match splitChars p cs with
    | [] => [[]]
    | piece :: pieces => if p c then [] :: piece :: pieces else (c :: piece) :: pieces

/-- The pieces of `s` between the occurrences of `sep`. -/
def splitAt (sep : Char) (s : String) : List String :=
  (splitChars (· == sep) s.toList).map String.ofList

/-- What follows the last `sep` in `s`, or all of `s`. -/
def afterLast (sep : Char) (s : String) : String :=
  (splitAt sep s).getLastD s

/-- The two sides of the first occurrence of `sep` in `cs`. -/
def cutAt (sep : List Char) : List Char → Option (List Char × List Char)
  | [] => if sep.isEmpty then some ([], []) else none
  | c :: cs =>
    if sep.isPrefixOf (c :: cs) then some ([], (c :: cs).drop sep.length)
    else (cutAt sep cs).map fun (before, after) => (c :: before, after)

end ContainerLint.Text
