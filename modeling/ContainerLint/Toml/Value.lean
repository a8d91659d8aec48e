/-!
# TOML values and records

A record with named fields can be written as a table, or as an array that gives the fields in their
order. In an array fields may be missing at the end, and surplus elements do not count.

## Main definitions

* `Toml.Value` — a value of a TOML document; a document is a list of table entries.
* `Toml.lookup` — the value of a key.
* `Toml.Value.fields?` — the fields of a record.
* `Toml.Decoder` — how a value is read, with the readers `text`, `flag`, `natural`, `list` and
  `choice`.
* `Toml.required`, `Toml.optional`, `Toml.onlyFields` — access to the fields of a record.
-/

set_option autoImplicit false

namespace ContainerLint.Toml

/-! ## Values -/

/-- A value of a TOML document. Of floating-point numbers and date-times only the spelling is kept,
since no document of this library has a field for them. -/
inductive Value where
  | str (s : String)
  | int (n : Int)
  | float (spelling : String)
  | bool (b : Bool)
  | datetime (spelling : String)
  | array (items : List Value)
  | table (entries : List (String × Value))
deriving Inhabited

/-- The entries of a table. -/
abbrev Entries := List (String × Value)

/-- The value of a key. -/
def lookup {α : Type} (entries : List (String × α)) (key : String) : Option α :=
  (entries.find? fun e => e.1 == key).map (·.2)

/-! ## Records -/

/-- The field under which the spelling of a date-time is found where a record is expected. -/
def datetimeField : String := "$__toml_private_datetime"

/-- The fields of a record whose fields are named `names`. -/
def Value.fields? (names : List String) : Value → Option Entries
  | .table entries => some entries
  | .array items => some (names.zip items)
  | .datetime spelling => some [(datetimeField, .str spelling)]
  | _ => none

/-- How a value is read. -/
abbrev Decoder (α : Type) := Value → Option α

namespace Decoder

/-- A string. -/
def text : Decoder String
  | .str s => some s
  | _ => none

/-- A truth value. -/
def flag : Decoder Bool
  | .bool b => some b
  | _ => none

/-- An integer from zero to `limit`. -/
def natural (limit : Nat) : Decoder Nat
  | .int (.ofNat n) => if n ≤ limit then some n else none
  | _ => none

/-- An array. -/
def list {α : Type} (item : Decoder α) : Decoder (List α)
  | .array items => items.mapM item
  | _ => none

/-- Whether a value has nothing in it. -/
def isHollow : Value → Bool
  | .array [] => true
  | .table [] => true
  | _ => false

/-- One of a few named choices: its name, or a table whose one key is the name and whose one value
is empty. -/
def choice {α : Type} (options : List (String × α)) : Decoder α
  | .str name => lookup options name
  | .table [(name, v)] => if isHollow v then lookup options name else none
  | _ => none

end Decoder

/-- The value of a field that must be there. -/
def required {α : Type} (fields : Entries) (name : String) (decode : Decoder α) : Option α :=
  (lookup fields name).bind decode

/-- The value of a field, or `default` if it is not there. -/
def optional {α : Type} (fields : Entries) (name : String) (decode : Decoder α) (default : α) :
    Option α :=
  match lookup fields name with
  | none => some default
  | some v => decode v

/-- Whether a record has no fields but the named ones. -/
def onlyFields (names : List String) (fields : Entries) : Bool :=
  fields.all fun f => f.1 ∈ names

end ContainerLint.Toml
