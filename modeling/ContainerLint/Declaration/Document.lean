import ContainerLint.Declaration.Basic
import ContainerLint.Toml.Parser
import ContainerLint.Toml.Value

/-!
# Declarations in TOML documents

A document of declarations is a list of `[[class]]` tables.

## Main definitions

* `ClassDecl.decode` — one declaration.
* `ClassDecl.parseDocument?` — the declarations of a document.
-/

set_option autoImplicit false

namespace ContainerLint

open Toml

namespace ClassDecl

/-- The fields of a declaration, in order. -/
def fieldNames : List String :=
  ["name", "kind", "final", "type_params", "extends", "implements"]

/-- The kinds of declarations. -/
def kindNames : List (String × ClassKind) :=
  [("class", .cls), ("interface", .interface)]

/-- One string, or an array of strings. -/
def oneOrMany : Decoder (List String)
  | .str s => some [s]
  | v => Decoder.list .text v

/-- Read a declaration. -/
def decode : Decoder ClassDecl := fun v => do
  let fields ← v.fields? fieldNames
  if onlyFields fieldNames fields then
    let name ← required fields "name" .text
    let kind ← optional fields "kind" (.choice kindNames) .cls
    let isFinal ← optional fields "final" .flag false
    let typeParams ← optional fields "type_params" (.list .text) []
    let extended ← optional fields "extends" oneOrMany []
    let implemented ← optional fields "implements" (.list .text) []
    return { name, kind, isFinal, typeParams, extended, implemented }
  else none

/-- The declarations of a document, if it is well formed. -/
def parseDocument? (text : String) : Option (List ClassDecl) := do
  let fields ← Toml.parse? text
  if onlyFields ["class"] fields then
    optional fields "class" (.list decode) []
  else none

end ClassDecl

end ContainerLint
