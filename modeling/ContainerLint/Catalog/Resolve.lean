import ContainerLint.Catalog.Basic
import ContainerLint.Log.Event
import ContainerLint.Signature.Parser

/-!
# Catalogs bound to a class table

The names in a catalog are looked up once. Entries that the class table cannot express are dropped.

## Main definitions

* `ResolvedEntry`, `ResolvedCatalog` — a catalog with its names looked up, indexed by method name.
* `ResolvedCatalog.byMethod` — the entries for a method name.
* `Catalog.resolve` — bind a catalog to a class table; `Catalog.resolveEvents` tells what happened.
-/

set_option autoImplicit false

namespace ContainerLint

/-- An entry with its names looked up. -/
structure ResolvedEntry where
  entry : CatalogEntry
  /-- The base type. -/
  base : ClassId
  /-- The erased parameter types. -/
  erasedParams : List Ty
deriving DecidableEq, Inhabited

/-- Where the entries for each method name stand in a catalog. -/
abbrev MethodIndex := List (String × List Nat)

namespace MethodIndex

/-- The positions of the entries for a method name. -/
def positions : MethodIndex → String → List Nat
  | [], _ => []
  | (name, ps) :: rest, method => if name = method then ps else positions rest method

/-- Record that the entry at position `p` is for `method`. -/
def insert : MethodIndex → String → Nat → MethodIndex
  | [], method, p => [(method, [p])]
  | (name, ps) :: rest, method, p =>
    if name = method then (name, ps ++ [p]) :: rest else (name, ps) :: insert rest method p

end MethodIndex

/-- A resolved catalog with an index of its method names. -/
structure ResolvedCatalog where
  entries : List ResolvedEntry := []
  index : MethodIndex := []
deriving DecidableEq, Inhabited

namespace ResolvedCatalog

/-- The number of entries. -/
def size (c : ResolvedCatalog) : Nat :=
  c.entries.length

/-- Add an entry at the end. -/
def push (c : ResolvedCatalog) (e : ResolvedEntry) : ResolvedCatalog :=
  { entries := c.entries ++ [e]
    index := c.index.insert e.entry.method c.entries.length }

/-- The entries for a method name, in the order of the catalog. -/
def byMethod (c : ResolvedCatalog) (method : String) : List ResolvedEntry :=
  (c.index.positions method).filterMap fun p => c.entries[p]?

end ResolvedCatalog

/-- Why an entry cannot be expressed in a class table. -/
inductive DropReason where
  | baseUnknown
  | baseUndefined
  | typeParamOutOfRange
  | parameterUnknown
deriving DecidableEq, Inhabited

/-- The wording of a reason. -/
def DropReason.message : DropReason → String
  | .baseUnknown => "base type is unknown"
  | .baseUndefined => "base type is not defined"
  | .typeParamOutOfRange => "type_param_index is out of range for the base type"
  | .parameterUnknown => "parameter type is unknown"

namespace CatalogEntry

/-- The erasures of written parameter types, if all of them have one. -/
def eraseParams (t : ClassTable) : List String → Option (List Ty)
  | [] => some []
  | text :: texts =>
    match Ty.parse t [] text with
    | .error _ => none
    | .ok ty =>
      match t.erasure ty with
      | none => none
      | some erased => (eraseParams t texts).map (erased :: ·)

/-- Look up the names of an entry. -/
def resolve (t : ClassTable) (e : CatalogEntry) : Except DropReason ResolvedEntry :=
  match t.lookup e.baseType with
  | none => .error .baseUnknown
  | some base =>
    match t.classDef? base with
    | none => .error .baseUndefined
    | some d =>
      if d.arity ≤ e.typeParamIndex then .error .typeParamOutOfRange
      else
        match eraseParams t e.erasedParams with
        | none => .error .parameterUnknown
        | some erasedParams => .ok { entry := e, base, erasedParams }

end CatalogEntry

namespace Catalog

/-- Bind a catalog to a class table. -/
def resolve (t : ClassTable) (c : Catalog) : ResolvedCatalog :=
  c.entries.foldl
    (fun resolved e =>
      match e.resolve t with
      | .ok entry => resolved.push entry
      | .error _ => resolved)
    {}

/-- The events of binding a catalog: a warning for each dropped entry, then a summary. -/
def resolveEvents (t : ClassTable) (c : Catalog) : List LogEvent :=
  let dropped := c.entries.filterMap fun e =>
    match e.resolve t with
    | .ok _ => none
    | .error reason => some (LogEvent.entryDropped e.signature reason.message)
  dropped ++ [.catalogResolved (c.entries.length - dropped.length) dropped.length]

end Catalog

end ContainerLint
