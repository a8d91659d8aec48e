import ContainerLint.Toml.Parser

/-!
# Catalogs of container methods

A catalog lists methods like `Map.get(Object)`, whose parameter is of type `Object` although only
arguments related to a type parameter of the container make sense. Two catalogs come with the
checks; others are read from documents, which have a format version and a list of `[[entry]]`
tables.

## Main definitions

* `CatalogEntry` — one method, with `CatalogEntry.signature`.
* `Catalog` — a list of entries in a certain format version.
* `Catalog.extend` — add the entries of another catalog.
* `CatalogError` — why a catalog is refused, with `CatalogError.message?`.
* `Catalog.collectionMethods`, `Catalog.lookupMethods` — the catalogs that come with the checks.
* `CatalogEntry.decode`, `Catalog.parseDocument` — one entry, and the catalog of a document.
-/

set_option autoImplicit false

namespace ContainerLint

open Toml

/-- A method of a container: the argument `argIndex` of `baseType.method` should be related to the
type parameter `typeParamIndex` of the base type. -/
structure CatalogEntry where
  /-- Name of the class or interface that declares the method. -/
  baseType : String
  /-- Name of the method. -/
  method : String
  /-- Signatures of the parameters, erased. -/
  erasedParams : List String
  /-- Which type parameter of the base type counts. -/
  typeParamIndex : Nat
  /-- Which argument counts. -/
  argIndex : Nat
deriving DecidableEq, Inhabited

/-- The method as it is shown in messages. -/
def CatalogEntry.signature (e : CatalogEntry) : String :=
  e.baseType ++ "." ++ e.method ++ "(" ++ ", ".intercalate e.erasedParams ++ ")"

/-- The format version that is understood. -/
def Catalog.supportedVersion : Nat := 1

/-- A catalog. -/
structure Catalog where
  version : Nat := Catalog.supportedVersion
  entries : List CatalogEntry := []
deriving DecidableEq, Inhabited

/-- Add the entries of another catalog, except for those that are there already. -/
def Catalog.extend (c other : Catalog) : Catalog :=
  { c with
    entries := other.entries.foldl
      (fun entries e => if e ∈ entries then entries else entries ++ [e]) c.entries }

/-- What is wrong with an entry. -/
inductive EntryFault where
  | emptyMethod
  | argIndexOutOfRange
deriving DecidableEq, Inhabited

/-- The wording of a fault. -/
def EntryFault.message : EntryFault → String
  | .emptyMethod => "method name must not be empty"
  | .argIndexOutOfRange => "arg_index is out of range for erased_params"

/-- Why a catalog is refused. -/
inductive CatalogError where
  /-- The file cannot be read. -/
  | unreadable (path : String)
  /-- The text is not a catalog document. -/
  | malformed
  /-- The format version is not the supported one. -/
  | unsupportedVersion (found : Nat)
  /-- An entry makes no sense. -/
  | invalidEntry (index : Nat) (method : String) (fault : EntryFault)
deriving DecidableEq, Inhabited

/-- The wording of a refusal, where it does not depend on the file system or the document syntax. -/
def CatalogError.message? : CatalogError → Option String
  | .unreadable _ => none
  | .malformed => none
  | .unsupportedVersion found =>
    some ("unsupported catalog version " ++ toString found ++ " (supported: "
      ++ toString Catalog.supportedVersion ++ ")")
  | .invalidEntry index method fault =>
    some ("catalog entry #" ++ toString index ++ " (" ++ method ++ "): " ++ fault.message)

/-- What is wrong with an entry, if anything is. -/
def CatalogEntry.fault? (e : CatalogEntry) : Option EntryFault :=
  if e.method.isEmpty then some .emptyMethod
  else if e.erasedParams.length ≤ e.argIndex then some .argIndexOutOfRange
  else none

/-- The first faulty entry of a list whose first member has number `index`. -/
def firstFault? (index : Nat) : List CatalogEntry → Option CatalogError
  | [] => none
  | e :: rest =>
    match e.fault? with
    | some fault => some (.invalidEntry index e.method fault)
    | none => firstFault? (index + 1) rest

/-- A catalog that has the supported version and no faulty entry. -/
def Catalog.validate (c : Catalog) : Except CatalogError Catalog :=
  if c.version ≠ Catalog.supportedVersion then .error (.unsupportedVersion c.version)
  else
    match firstFault? 0 c.entries with
    | some e => .error e
    | none => .ok c

/-! ## The catalogs that come with the checks -/

/-- A method of a container in `java.util` with one `Object` parameter. -/
def CatalogEntry.ofObject (container method : String) (typeParamIndex : Nat) : CatalogEntry :=
  { baseType := "java.util." ++ container
    method
    erasedParams := ["java.lang.Object"]
    typeParamIndex
    argIndex := 0 }

open CatalogEntry in
/-- The container methods of the class library. -/
def Catalog.collectionMethods : Catalog where
  entries := [
    ofObject "Collection" "contains" 0,
    ofObject "Collection" "remove" 0,
    ofObject "Deque" "removeFirstOccurrence" 0,
    ofObject "Deque" "removeLastOccurrence" 0,
    ofObject "Dictionary" "get" 0,
    ofObject "Dictionary" "remove" 0,
    ofObject "List" "indexOf" 0,
    ofObject "List" "lastIndexOf" 0,
    ofObject "Map" "containsKey" 0,
    ofObject "Map" "containsValue" 1,
    ofObject "Map" "get" 0,
    { ofObject "Map" "getOrDefault" 0 with
      erasedParams := ["java.lang.Object", "java.lang.Object"] },
    ofObject "Map" "remove" 0,
    ofObject "Stack" "search" 0,
    { ofObject "Vector" "indexOf" 0 with erasedParams := ["java.lang.Object", "int"] },
    { ofObject "Vector" "lastIndexOf" 0 with erasedParams := ["java.lang.Object", "int"] },
    ofObject "Vector" "removeElement" 0]

open CatalogEntry in
/-- The most common container methods. -/
def Catalog.lookupMethods : Catalog where
  entries := [
    ofObject "Map" "get" 0,
    ofObject "Map" "containsKey" 0,
    ofObject "Map" "remove" 0,
    ofObject "Collection" "contains" 0,
    ofObject "Collection" "remove" 0]

/-! ## Catalogs in TOML documents -/

/-- The fields of an entry, in order. -/
def CatalogEntry.fieldNames : List String :=
  ["base_type", "method", "erased_params", "type_param_index", "arg_index"]

/-- The largest position that can be written. -/
def CatalogEntry.indexLimit : Nat := Nat.pow 2 64 - 1

/-- The largest version that can be written. -/
def Catalog.versionLimit : Nat := Nat.pow 2 32 - 1

/-- Read an entry. -/
def CatalogEntry.decode : Decoder CatalogEntry := fun v => do
  let fields ← v.fields? fieldNames
  if onlyFields fieldNames fields then
    let baseType ← required fields "base_type" .text
    let method ← required fields "method" .text
    let erasedParams ← required fields "erased_params" (.list .text)
    let typeParamIndex ← required fields "type_param_index" (.natural indexLimit)
    let argIndex ← required fields "arg_index" (.natural indexLimit)
    return { baseType, method, erasedParams, typeParamIndex, argIndex }
  else none

namespace Catalog

/-- Read a catalog, whatever its version and entries are. -/
def decode (fields : Entries) : Option Catalog := do
  if onlyFields ["version", "entry"] fields then
    let version ← required fields "version" (.natural versionLimit)
    let entries ← optional fields "entry" (.list CatalogEntry.decode) []
    return { version, entries }
  else none

/-- The catalog of a document, if it is well formed and valid. -/
def parseDocument (text : String) : Except CatalogError Catalog :=
  match (Toml.parse? text).bind decode with
  | none => .error .malformed
  | some c => c.validate

end Catalog

end ContainerLint
