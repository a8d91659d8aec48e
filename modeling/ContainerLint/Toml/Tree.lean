import ContainerLint.Toml.Value

/-!
# Building the tables of a document

The entries of a document arrive one by one, and each may open tables on its way. A table remembers
how it was opened, because a table may not be written in two places: one that a header opened cannot
be extended by dotted keys, one that dotted keys opened cannot be opened by a header, and one that
only lies on the way to others may be opened by a header later, once.

## Main definitions

* `Toml.Node` — a value or a table under construction.
* `Toml.insertPair` — add the value of a dotted key to a table.
* `Toml.openTable`, `Toml.openElement` — add a table with a header.
* `Toml.Node.value` — the finished value.
-/

set_option autoImplicit false

namespace ContainerLint.Toml

/-- How a table came into being. -/
inductive Origin where
  /-- Opened by a header. -/
  | header
  /-- On the way to a table that a header opened. -/
  | implied
  /-- On the way to the value of a dotted key. -/
  | dotted
deriving DecidableEq, Inhabited

/-- A part of a document under construction. -/
inductive Node where
  | leaf (v : Value)
  | table (origin : Origin) (entries : List (String × Node))
  /-- The elements that headers in double brackets have opened. -/
  | elements (tables : List (List (String × Node)))
deriving Inhabited

/-- The entries of a table under construction. -/
abbrev Nodes := List (String × Node)

/-- Put a node in the place of the entry with its key, or at the end. -/
def Nodes.set (key : String) (node : Node) : Nodes → Nodes
  | [] => [(key, node)]
  | (k, n) :: rest => if k == key then (key, node) :: rest else (k, n) :: Nodes.set key node rest

/-- Change the table at the end of a path. Missing tables are opened on the way, with the given
origin; the last element of an array of tables stands for the array. Dotted keys do not lead through
a table that a header opened. The change is told how the table at the end came into being. -/
def Nodes.modifyAt (origin : Origin) (change : Origin → Nodes → Option Nodes) :
    List String → Origin → Nodes → Option Nodes
  | [], here, nodes => change here nodes
  | key :: path, _, nodes =>
    match lookup nodes key with
    | none => do
      let sub ← Nodes.modifyAt origin change path origin []
      return nodes.set key (.table origin sub)
    | some (.leaf _) => none
    | some (.elements tables) => do
      let last ← tables.getLast?
      let sub ← Nodes.modifyAt origin change path .header last
      return nodes.set key (.elements (tables.dropLast ++ [sub]))
    | some (.table there sub) =>
      if origin = .dotted ∧ there = .header then none
      else do
        let sub ← Nodes.modifyAt origin change path there sub
        return nodes.set key (.table there sub)

/-- Add the value of a key, which must be new. -/
def Nodes.insert (key : String) (v : Value) (nodes : Nodes) : Option Nodes :=
  match lookup nodes key with
  | none => some (nodes ++ [(key, .leaf v)])
  | some _ => none

/-- Add the value of a dotted key to the entries of a table. The table that gets the value is either
this one or one that dotted keys have opened. -/
def insertPair (key : List String) (v : Value) (nodes : Nodes) : Option Nodes :=
  match key.getLast? with
  | none => none
  | some last =>
    Nodes.modifyAt .dotted
      (fun origin sub =>
        if key.length = 1 ∨ origin = .dotted then sub.insert last v else none)
      key.dropLast .header nodes

/-- Add the values of dotted keys, in order. -/
def insertPairs (pairs : List (List String × Value)) (nodes : Nodes) : Option Nodes :=
  pairs.foldlM (fun nodes (key, v) => insertPair key v nodes) nodes

/-- Add a table with a header. Its entries join those of a table that only lies on the way to
others. -/
def openTable (path : List String) (pairs : List (List String × Value)) (nodes : Nodes) :
    Option Nodes :=
  match path.getLast? with
  | none => none
  | some last =>
    Nodes.modifyAt .implied
      (fun _ sub =>
        match lookup sub last with
        | none => do return sub.set last (.table .header (← insertPairs pairs []))
        | some (.table .implied old) => do
          return sub.set last (.table .header (← insertPairs pairs old))
        | some _ => none)
      path.dropLast .header nodes

/-- Add a table with a header in double brackets, as a further element of an array of tables. -/
def openElement (path : List String) (pairs : List (List String × Value)) (nodes : Nodes) :
    Option Nodes :=
  match path.getLast? with
  | none => none
  | some last =>
    Nodes.modifyAt .implied
      (fun _ sub =>
        match lookup sub last with
        | none => do return sub.set last (.elements [← insertPairs pairs []])
        | some (.elements tables) => do
          return sub.set last (.elements (tables ++ [← insertPairs pairs []]))
        | some _ => none)
      path.dropLast .header nodes

mutual

/-- The finished value of a node. -/
def Node.value : Node → Value
  | .leaf v => v
  | .table _ entries => .table (Node.entries entries)
  | .elements tables => .array (Node.values tables)

/-- The finished entries of a table. -/
def Node.entries : List (String × Node) → Entries
  | [] => []
  | (key, node) :: rest => (key, node.value) :: Node.entries rest

/-- The finished elements of an array of tables. -/
def Node.values : List (List (String × Node)) → List Value
  | [] => []
  | entries :: rest => .table (Node.entries entries) :: Node.values rest

end

end ContainerLint.Toml
