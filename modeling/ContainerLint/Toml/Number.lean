import ContainerLint.Toml.Quoted

/-!
# Numbers and date-times of TOML documents

## Main definitions

* `Toml.digits?` — digits with single underscores between them.
* `Toml.int?` — an integer of 64 bits, decimal or with a base prefix.
* `Toml.isFloat` — whether a text spells a floating-point number.
* `Toml.isDate`, `Toml.isTime` — a date, and a time of day with or without offset.
* `Toml.isDateTime` — a date, a time of day, or both with `T` between them.
-/

set_option autoImplicit false

namespace ContainerLint.Toml

/-! ## Numbers -/

/-- The digits of a text in which single underscores may stand between two digits. -/
def digits? (isDigit : Char → Bool) : List Char → Option (List Char)
  | [] => none
  | [c] => if isDigit c then some [c] else none
  | c :: '_' :: rest => if isDigit c then (digits? isDigit rest).map (c :: ·) else none
  | c :: rest => if isDigit c then (digits? isDigit rest).map (c :: ·) else none

/-- The number that digits spell. -/
def valueOf (base : Nat) (digits : List Char) : Nat :=
  digits.foldl (fun n c => base * n + (hexValue? c).getD 0) 0

/-- The digits of a decimal number: no zero in front of others. -/
def decimal? (cs : List Char) : Option (List Char) :=
  match cs with
  | ['0'] => some ['0']
  | '0' :: _ => none
  | _ => digits? Char.isDigit cs

/-- The largest integer. -/
def maxInt : Nat := Nat.pow 2 63 - 1

/-- A natural number that is at most `limit`. -/
def upToLimit (limit : Nat) (n : Nat) : Option Nat :=
  if n ≤ limit then some n else none

/-- The integer that a text spells. -/
def int? : List Char → Option Int
  | '0' :: 'x' :: rest =>
    (digits? (fun c => (hexValue? c).isSome) rest).bind fun ds =>
      (upToLimit maxInt (valueOf 16 ds)).map Int.ofNat
  | '0' :: 'o' :: rest =>
    (digits? (fun c => '0' ≤ c && c ≤ '7') rest).bind fun ds =>
      (upToLimit maxInt (valueOf 8 ds)).map Int.ofNat
  | '0' :: 'b' :: rest =>
    (digits? (fun c => c == '0' || c == '1') rest).bind fun ds =>
      (upToLimit maxInt (valueOf 2 ds)).map Int.ofNat
  | '-' :: rest =>
    (decimal? rest).bind fun ds =>
      (upToLimit (maxInt + 1) (valueOf 10 ds)).map fun n => -(n : Int)
  | '+' :: rest =>
    (decimal? rest).bind fun ds => (upToLimit maxInt (valueOf 10 ds)).map Int.ofNat
  | cs => (decimal? cs).bind fun ds => (upToLimit maxInt (valueOf 10 ds)).map Int.ofNat

/-! ## Floating-point numbers -/

/-- The least real number that rounds to infinity in double precision. -/
def overflowBound : Nat := Nat.pow 2 1024 - Nat.pow 2 970

/-- Whether `m * 10 ^ e` rounds to infinity. -/
def overflows (m : Nat) (e : Int) : Bool :=
  if m = 0 then false
  else
    match e with
    -- Every power beyond this one is too large already.
    | .ofNat e => 400 < e || overflowBound ≤ m * Nat.pow 10 e
    | .negSucc e =>
      -- A quotient by more digits than `m` has is below one.
      (e < (Nat.toDigits 10 m).length) && overflowBound * Nat.pow 10 (e + 1) ≤ m

/-- The exponent part of a number: a sign and digits. -/
def exponent? : List Char → Option Int
  | '-' :: rest => (digits? Char.isDigit rest).map fun ds => -(valueOf 10 ds : Int)
  | '+' :: rest => (digits? Char.isDigit rest).map fun ds => (valueOf 10 ds : Int)
  | cs => (digits? Char.isDigit cs).map fun ds => (valueOf 10 ds : Int)

/-- A digit or an underscore. -/
def isDigitOrUnderscore (c : Char) : Bool :=
  c.isDigit || c == '_'

/-- The digits before the point, the digits after it and the exponent of a number with a point, an
exponent or both. -/
def floatParts? (cs : List Char) : Option (List Char × List Char × Int) := do
  let whole ← decimal? (cs.takeWhile isDigitOrUnderscore)
  match cs.dropWhile isDigitOrUnderscore with
  | '.' :: rest =>
    let fraction ← digits? Char.isDigit (rest.takeWhile isDigitOrUnderscore)
    match rest.dropWhile isDigitOrUnderscore with
    | [] => return (whole, fraction, 0)
    | 'e' :: rest => return (whole, fraction, ← exponent? rest)
    | 'E' :: rest => return (whole, fraction, ← exponent? rest)
    | _ => none
  | 'e' :: rest => return (whole, [], ← exponent? rest)
  | 'E' :: rest => return (whole, [], ← exponent? rest)
  | _ => none

/-- Whether a text without sign spells a floating-point number. A number that is too large is none,
unless it has a minus sign. -/
def isUnsignedFloat (negative : Bool) (cs : List Char) : Bool :=
  cs == "inf".toList || cs == "nan".toList ||
    match floatParts? cs with
    | none => false
    | some (whole, fraction, exponent) =>
      negative || !overflows (valueOf 10 (whole ++ fraction)) (exponent - fraction.length)

/-- Whether a text spells a floating-point number. -/
def isFloat : List Char → Bool
  | '-' :: rest => isUnsignedFloat true rest
  | '+' :: rest => isUnsignedFloat false rest
  | cs => isUnsignedFloat false cs

/-! ## Date-times -/

/-- The number that exactly `width` digits at the start of a text spell, and what follows them. -/
def fixedDigits (width : Nat) (cs : List Char) : Option (Nat × List Char) :=
  let ds := cs.take width
  if ds.length == width && ds.all Char.isDigit then some (valueOf 10 ds, cs.drop width) else none

/-- The number of days of a month. -/
def daysIn (year month : Nat) : Nat :=
  if month = 2 then
    if year % 4 = 0 ∧ (year % 100 ≠ 0 ∨ year % 400 = 0) then 29 else 28
  else if month ∈ [4, 6, 9, 11] then 30
  else 31

/-- The number that follows the character `mark`, of exactly `width` digits, and what follows it. -/
def numberAfter (mark : Char) (width : Nat) : List Char → Option (Nat × List Char)
  | [] => none
  | c :: rest => if c == mark then fixedDigits width rest else none

/-- What follows a date. -/
def date? (cs : List Char) : Option (List Char) := do
  let (year, rest) ← fixedDigits 4 cs
  let (month, rest) ← numberAfter '-' 2 rest
  let (day, rest) ← numberAfter '-' 2 rest
  if 1 ≤ month && month ≤ 12 && 1 ≤ day && day ≤ daysIn year month then some rest else none

/-- What follows the hours and minutes of a time of day. -/
def hourMinute? (cs : List Char) : Option (List Char) := do
  let (hour, rest) ← fixedDigits 2 cs
  let (minute, rest) ← numberAfter ':' 2 rest
  if hour < 24 && minute < 60 then some rest else none

/-- What follows a time of day. A minute may have a leap second. -/
def timeOfDay? (cs : List Char) : Option (List Char) := do
  let rest ← hourMinute? cs
  let (second, rest) ← numberAfter ':' 2 rest
  if 60 < second then none
  else
    match rest with
    | '.' :: rest =>
      let fraction := rest.takeWhile Char.isDigit
      if fraction.isEmpty then none else some (rest.dropWhile Char.isDigit)
    | rest => some rest

/-- Whether a text is empty or an offset from universal time. -/
def isOffset : List Char → Bool
  | [] => true
  | ['Z'] => true
  | ['z'] => true
  | '+' :: rest => hourMinute? rest == some []
  | '-' :: rest => hourMinute? rest == some []
  | _ => false

/-- Whether a text is a date. -/
def isDate (cs : List Char) : Bool :=
  date? cs == some []

/-- Whether a text is a time of day with or without an offset. -/
def isTime (cs : List Char) : Bool :=
  (timeOfDay? cs).any isOffset

/-- Whether a text is a date, a time of day without offset, or a date and a time. -/
def isDateTime (cs : List Char) : Bool :=
  timeOfDay? cs == some [] ||
    match date? cs with
    | some [] => true
    | some ('T' :: rest) => isTime rest
    | some ('t' :: rest) => isTime rest
    | _ => false

end ContainerLint.Toml
