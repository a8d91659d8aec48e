import ContainerLint.Toml.Parser
import Mathlib.Data.List.Nodup

/-!
# The keys of a table are distinct

A document may not give two values to one key of a table. The entries of a document arrive one by
one, and each operation on the tables that they build refuses a key that is taken, or puts a table
in the place of the one that had the key before. So the table that a document describes has distinct
keys, and so has every table inside of it.

## Main definitions

* `Toml.Value.Distinct` — every table in a value has distinct keys.
* `Toml.Nodes.Distinct` — the same for a table under construction.

## Main results

* `Toml.lookup_eq_some_iff` — in a table with distinct keys each entry is found.
* `Toml.Nodes.Distinct.modifyAt` — a change at the end of a path keeps the keys distinct.
* `Toml.distinct_of_valueAt` — values that are read have distinct keys.
* `Toml.distinct_of_parse?` — so has the table that a document describes.
-/

set_option autoImplicit false

namespace ContainerLint.Toml

/-- Every table in a value has distinct keys. -/
inductive Value.Distinct : Value → Prop where
  | str (s : String) : Distinct (.str s)
  | int (n : Int) : Distinct (.int n)
  | float (spelling : String) : Distinct (.float spelling)
  | bool (b : Bool) : Distinct (.bool b)
  | datetime (spelling : String) : Distinct (.datetime spelling)
  | array {items : List Value} : (∀ v ∈ items, Distinct v) → Distinct (.array items)
  | table {entries : Entries} : (entries.map (·.1)).Nodup → (∀ e ∈ entries, Distinct e.2) →
      Distinct (.table entries)

/-! ## Looking up keys -/

section Lookup

variable {α : Type} {entries : List (String × α)} {key : String} {a : α}

/-- The first entry is found, or the key is looked up behind it. -/
lemma lookup_cons (e : String × α) (entries : List (String × α)) (key : String) :
    lookup (e :: entries) key = if e.1 = key then some e.2 else lookup entries key := by
  by_cases h : e.1 = key
  · simp [lookup, h]
  · rw [lookup, List.find?_cons_of_neg (by simpa using h), if_neg h, lookup]

/-- What is found is an entry. -/
lemma mem_of_lookup (h : lookup entries key = some a) : (key, a) ∈ entries := by
  obtain ⟨⟨k, b⟩, found, rfl⟩ := Option.map_eq_some_iff.1 h
  have same : k = key := by simpa using List.find?_some found
  exact same ▸ List.mem_of_find?_eq_some found

/-- A key is not found if no entry has it. -/
lemma lookup_eq_none_iff : lookup entries key = none ↔ key ∉ entries.map (·.1) := by
  simp only [lookup, Option.map_eq_none_iff, List.find?_eq_none, beq_iff_eq, List.mem_map,
    not_exists, not_and]

/-- **In a table with distinct keys each entry is found.** -/
theorem lookup_eq_some_iff (distinct : (entries.map (·.1)).Nodup) :
    lookup entries key = some a ↔ (key, a) ∈ entries := by
  refine ⟨mem_of_lookup, fun mem => ?_⟩
  induction entries with
  | nil => cases mem
  | cons e entries ih =>
    rw [List.map_cons, List.nodup_cons] at distinct
    rw [lookup_cons]
    rcases List.mem_cons.1 mem with rfl | mem
    · exact if_pos rfl
    · have other : e.1 ≠ key := by
        rintro rfl
        exact distinct.1 (List.mem_map.2 ⟨_, mem, rfl⟩)
      rw [if_neg other, ih distinct.2 mem]

end Lookup

/-! ## Tables under construction -/

/-- The finished entries have the keys of the nodes. -/
lemma Node.entries_eq_map (nodes : Nodes) :
    Node.entries nodes = nodes.map fun e => (e.1, e.2.value) := by
  induction nodes with
  | nil => rfl
  | cons e nodes ih => rw [Node.entries, ih, List.map_cons]

/-- The finished elements of an array of tables are tables. -/
lemma Node.values_eq_map (tables : List Nodes) :
    Node.values tables = tables.map fun nodes => .table (Node.entries nodes) := by
  induction tables with
  | nil => rfl
  | cons nodes tables ih => rw [Node.values, ih, List.map_cons]

/-- A table under construction will have distinct keys, and so will every table inside of it. -/
def Nodes.Distinct (nodes : Nodes) : Prop :=
  (Value.table (Node.entries nodes)).Distinct

namespace Nodes

variable {nodes nodes' : Nodes} {key : String} {node : Node}

/-- The keys of the nodes are distinct, and the nodes will have distinct keys. -/
lemma distinct_iff :
    Nodes.Distinct nodes ↔ (nodes.map (·.1)).Nodup ∧ ∀ e ∈ nodes, e.2.value.Distinct := by
  have keys : (Node.entries nodes).map (·.1) = nodes.map (·.1) := by
    rw [Node.entries_eq_map, List.map_map]
    rfl
  have values : (∀ e ∈ Node.entries nodes, e.2.Distinct) ↔ ∀ e ∈ nodes, e.2.value.Distinct := by
    rw [Node.entries_eq_map, List.forall_mem_map]
  rw [← keys, ← values]
  constructor
  · intro h
    cases h with
    | table nodup members => exact ⟨nodup, members⟩
  · exact fun h => .table h.1 h.2

/-- Nothing has been built yet. -/
lemma Distinct.nil : Nodes.Distinct [] :=
  distinct_iff.2 ⟨List.nodup_nil, fun _ h => nomatch h⟩

/-- A table that is a node is a table under construction. -/
lemma distinct_table_iff {origin : Origin} :
    (Node.table origin nodes).value.Distinct ↔ Nodes.Distinct nodes :=
  Iff.rfl

/-- So is every element of an array of tables. -/
lemma distinct_elements_iff {tables : List Nodes} :
    (Node.elements tables).value.Distinct ↔ ∀ nodes ∈ tables, Nodes.Distinct nodes := by
  have members : (∀ v ∈ Node.values tables, v.Distinct) ↔
      ∀ nodes ∈ tables, Nodes.Distinct nodes := by
    rw [Node.values_eq_map, List.forall_mem_map]
    rfl
  rw [← members]
  constructor
  · intro h
    cases h with
    | array h => exact h
  · exact .array

/-- A node of a table will have distinct keys. -/
lemma Distinct.value_of_lookup (h : Nodes.Distinct nodes) (found : lookup nodes key = some node) :
    node.value.Distinct :=
  (distinct_iff.1 h).2 _ (mem_of_lookup found)

/-- The keys after a node has been put in. -/
lemma keys_set (key : String) (node : Node) (nodes : Nodes) :
    (Nodes.set key node nodes).map (·.1) =
      if key ∈ nodes.map (·.1) then nodes.map (·.1) else nodes.map (·.1) ++ [key] := by
  induction nodes with
  | nil => rfl
  | cons e nodes ih =>
    obtain ⟨k, n⟩ := e
    by_cases same : k = key
    · simp [Nodes.set, same]
    · have other : key ≠ k := fun h => same h.symm
      simp only [Nodes.set, beq_iff_eq, same, if_false, List.map_cons, ih, List.mem_cons, other,
        false_or]
      split <;> rfl

/-- The nodes after a node has been put in. -/
lemma mem_set {e : String × Node} (h : e ∈ Nodes.set key node nodes) :
    e = (key, node) ∨ e ∈ nodes := by
  induction nodes with
  | nil => exact .inl (List.mem_singleton.1 h)
  | cons e' nodes ih =>
    obtain ⟨k, n⟩ := e'
    rw [Nodes.set] at h
    split at h
    · rcases List.mem_cons.1 h with eq | mem
      · exact .inl eq
      · exact .inr (List.mem_cons_of_mem _ mem)
    · rcases List.mem_cons.1 h with eq | mem
      · exact .inr (eq ▸ List.mem_cons_self)
      · exact (ih mem).imp_right (List.mem_cons_of_mem _)

/-- A node is put in the place of the one with its key, or its key is new. -/
lemma Distinct.set (h : Nodes.Distinct nodes) (hnode : node.value.Distinct) (key : String) :
    Nodes.Distinct (Nodes.set key node nodes) := by
  obtain ⟨nodup, members⟩ := distinct_iff.1 h
  refine distinct_iff.2 ⟨?_, fun e he => ?_⟩
  · rw [keys_set]
    split
    · exact nodup
    · next new => exact nodup.append (List.nodup_singleton key) (List.disjoint_singleton.2 new)
  · rcases mem_set he with rfl | mem
    · exact hnode
    · exact members e mem

/-- A value is added under a new key. -/
lemma Distinct.insert (h : Nodes.Distinct nodes) {v : Value} (hv : v.Distinct)
    (added : Nodes.insert key v nodes = some nodes') : Nodes.Distinct nodes' := by
  unfold Nodes.insert at added
  split at added
  · next new =>
    cases added
    obtain ⟨nodup, members⟩ := distinct_iff.1 h
    refine distinct_iff.2 ⟨?_, ?_⟩
    · rw [List.map_append]
      exact nodup.append (List.nodup_singleton key)
        (List.disjoint_singleton.2 (lookup_eq_none_iff.1 new))
    · rw [List.forall_mem_append]
      exact ⟨members, by simpa [Node.value] using hv⟩
  · cases added

/-- **A change at the end of a path keeps the keys distinct** if it does so where it is made.

**Proof sketch.** Induction on the path. The table that is changed is a node of this one, or the
last element of an array of tables, or it is new; it is put back under the key that led to it. -/
theorem Distinct.modifyAt {origin : Origin} {change : Origin → Nodes → Option Nodes}
    (keeps : ∀ here sub sub', Nodes.Distinct sub → change here sub = some sub' →
      Nodes.Distinct sub')
    {path : List String} {here : Origin} (h : Nodes.Distinct nodes)
    (changed : Nodes.modifyAt origin change path here nodes = some nodes') :
    Nodes.Distinct nodes' := by
  induction path generalizing here nodes nodes' with
  | nil => exact keeps here nodes nodes' h changed
  | cons key path ih =>
    rw [Nodes.modifyAt] at changed
    -- the key is new, or leads to a value, to an array of tables, or to a table
    split at changed
    · obtain ⟨sub, hsub, eq⟩ := Option.bind_eq_some_iff.1 changed
      cases eq
      exact h.set (distinct_table_iff.2 (ih .nil hsub)) key
    · cases changed
    · next tables found =>
      obtain ⟨last, hlast, changed⟩ := Option.bind_eq_some_iff.1 changed
      obtain ⟨sub, hsub, eq⟩ := Option.bind_eq_some_iff.1 changed
      cases eq
      have elements := distinct_elements_iff.1 (h.value_of_lookup found)
      have hsub := ih (elements last (List.mem_of_getLast? hlast)) hsub
      refine h.set (distinct_elements_iff.2 ?_) key
      rw [List.forall_mem_append, List.forall_mem_singleton]
      exact ⟨fun ns hns => elements ns ((List.dropLast_sublist _).subset hns), hsub⟩
    · next there sub found =>
      split at changed
      · cases changed
      · obtain ⟨sub', hsub, eq⟩ := Option.bind_eq_some_iff.1 changed
        cases eq
        have old := distinct_table_iff.1 (h.value_of_lookup found)
        exact h.set (distinct_table_iff.2 (ih old hsub)) key

/-- The value of a dotted key is added. -/
lemma Distinct.insertPair (h : Nodes.Distinct nodes) {key : List String} {v : Value}
    (hv : v.Distinct) (added : Toml.insertPair key v nodes = some nodes') :
    Nodes.Distinct nodes' := by
  unfold Toml.insertPair at added
  split at added
  · cases added
  · next last _ =>
    refine h.modifyAt (fun here sub sub' hsub changed => ?_) added
    split_ifs at changed
    exact hsub.insert hv changed

/-- The values of dotted keys are added one after the other. -/
lemma Distinct.insertPairs (h : Nodes.Distinct nodes) {pairs : List (List String × Value)}
    (hpairs : ∀ p ∈ pairs, p.2.Distinct) (added : Toml.insertPairs pairs nodes = some nodes') :
    Nodes.Distinct nodes' := by
  induction pairs generalizing nodes with
  | nil =>
    cases added
    exact h
  | cons p pairs ih =>
    obtain ⟨hp, hpairs⟩ := List.forall_mem_cons.1 hpairs
    obtain ⟨next, first, rest⟩ := Option.bind_eq_some_iff.1 added
    exact ih (h.insertPair hp first) hpairs rest

/-- A table with a header is added. -/
lemma Distinct.openTable (h : Nodes.Distinct nodes) {path : List String}
    {pairs : List (List String × Value)} (hpairs : ∀ p ∈ pairs, p.2.Distinct)
    (added : Toml.openTable path pairs nodes = some nodes') : Nodes.Distinct nodes' := by
  unfold Toml.openTable at added
  split at added
  · cases added
  · next last _ =>
    refine h.modifyAt (fun here sub sub' hsub changed => ?_) added
    split at changed
    · obtain ⟨body, hbody, eq⟩ := Option.bind_eq_some_iff.1 changed
      cases eq
      exact hsub.set (distinct_table_iff.2 (Distinct.nil.insertPairs hpairs hbody)) last
    · next found =>
      obtain ⟨body, hbody, eq⟩ := Option.bind_eq_some_iff.1 changed
      cases eq
      have old := distinct_table_iff.1 (hsub.value_of_lookup found)
      exact hsub.set (distinct_table_iff.2 (old.insertPairs hpairs hbody)) last
    · cases changed

/-- An element of an array of tables is added.

**Proof sketch.** The element is built from pairs into an empty table, so its keys are distinct. It
becomes the first element of a new array or the last one of an array that is there, and either is
set under a single key. -/
lemma Distinct.openElement (h : Nodes.Distinct nodes) {path : List String}
    {pairs : List (List String × Value)} (hpairs : ∀ p ∈ pairs, p.2.Distinct)
    (added : Toml.openElement path pairs nodes = some nodes') : Nodes.Distinct nodes' := by
  unfold Toml.openElement at added
  split at added
  · cases added
  · next last _ =>
    refine h.modifyAt (fun here sub sub' hsub changed => ?_) added
    split at changed
    · obtain ⟨body, hbody, eq⟩ := Option.bind_eq_some_iff.1 changed
      cases eq
      have hbody := Distinct.nil.insertPairs hpairs hbody
      exact hsub.set (distinct_elements_iff.2 (List.forall_mem_singleton.2 hbody)) last
    · next found =>
      obtain ⟨body, hbody, eq⟩ := Option.bind_eq_some_iff.1 changed
      cases eq
      have hbody := Distinct.nil.insertPairs hpairs hbody
      have elements := distinct_elements_iff.1 (hsub.value_of_lookup found)
      refine hsub.set (distinct_elements_iff.2 ?_) last
      rw [List.forall_mem_append, List.forall_mem_singleton]
      exact ⟨elements, hbody⟩
    · cases changed

end Nodes

/-! ## Values that are read -/

/-- A value without quotes or brackets has no tables. -/
lemma distinct_of_word? {word : List Char} {v : Value} (h : word? word = some v) : v.Distinct := by
  unfold word? at h
  split_ifs at h
  · cases h
    exact .bool true
  · cases h
    exact .bool false
  · cases h
    exact .datetime _
  · cases h
    exact .float _
  · obtain ⟨n, -, rfl⟩ := Option.map_eq_some_iff.1 h
    exact .int n

/-- The same with what follows it. -/
lemma distinct_of_wordAt {cs rest : List Char} {v : Value} (h : wordAt cs = some (v, rest)) :
    v.Distinct := by
  unfold wordAt at h
  dsimp only at h
  split at h
  · split_ifs at h
    · cases h
      exact .datetime _
    · cases h
      exact .datetime _
  · obtain ⟨w, hw, eq⟩ := Option.map_eq_some_iff.1 h
    cases eq
    exact distinct_of_word? hw

section Members

variable {item : List Char → Option (Value × List Char)}
  (hitem : ∀ cs v rest, item cs = some (v, rest) → v.Distinct)

include hitem

/-- The elements of an array that is read are values that are read. -/
lemma distinct_of_itemsAt {n : Nat} {cs rest : List Char} {vs : List Value}
    (h : itemsAt item n cs = some (vs, rest)) : ∀ v ∈ vs, v.Distinct := by
  induction n generalizing cs vs rest with
  | zero => cases h
  | succ n ih =>
    rw [itemsAt] at h
    split at h
    · cases h
      exact fun _ hv => nomatch hv
    · obtain ⟨⟨v, tail⟩, hv, h⟩ := Option.bind_eq_some_iff.1 h
      dsimp only at h
      split at h
      · obtain ⟨⟨vs', tail'⟩, hvs, eq⟩ := Option.bind_eq_some_iff.1 h
        cases eq
        exact List.forall_mem_cons.2 ⟨hitem _ _ _ hv, ih hvs⟩
      · cases h
        exact List.forall_mem_singleton.2 (hitem _ _ _ hv)
      · cases h

/-- The value of a pair that is read is a value that is read. -/
lemma distinct_of_pairAt {cs rest : List Char} {pair : List String × Value}
    (h : pairAt item cs = some (pair, rest)) : pair.2.Distinct := by
  obtain ⟨⟨key, tail⟩, -, h⟩ := Option.bind_eq_some_iff.1 h
  dsimp only at h
  split at h
  · obtain ⟨⟨v, tail'⟩, hv, eq⟩ := Option.bind_eq_some_iff.1 h
    cases eq
    exact hitem _ _ _ hv
  · cases h

/-- So are the values of the pairs of an inline table. -/
lemma distinct_of_pairsAt {n : Nat} {cs rest : List Char} {pairs : List (List String × Value)}
    (h : pairsAt item n cs = some (pairs, rest)) : ∀ p ∈ pairs, p.2.Distinct := by
  induction n generalizing cs pairs rest with
  | zero => cases h
  | succ n ih =>
    rw [pairsAt] at h
    obtain ⟨⟨pair, tail⟩, hpair, h⟩ := Option.bind_eq_some_iff.1 h
    have first := distinct_of_pairAt hitem hpair
    dsimp only at h
    split at h
    · obtain ⟨⟨pairs', tail'⟩, hpairs, eq⟩ := Option.bind_eq_some_iff.1 h
      cases eq
      exact List.forall_mem_cons.2 ⟨first, ih hpairs⟩
    · cases h
      exact List.forall_mem_singleton.2 first
    · cases h

end Members

/-- **Values that are read have distinct keys.**

**Proof sketch.** Induction on how deep values may be nested. The pairs of an inline table are added
to an empty table. -/
theorem distinct_of_valueAt {limit depth : Nat} {cs rest : List Char} {v : Value}
    (h : valueAt limit depth cs = some (v, rest)) : v.Distinct := by
  induction depth using Nat.strongRecOn generalizing cs v rest with
  | _ depth ih =>
    unfold valueAt at h
    -- strings, brackets that are too deep, arrays, inline tables, and what has no brackets
    split at h
    · obtain ⟨s, -, eq⟩ := Option.map_eq_some_iff.1 h
      cases eq
      exact .str _
    · obtain ⟨s, -, eq⟩ := Option.map_eq_some_iff.1 h
      cases eq
      exact .str _
    · cases h
    · cases h
    · obtain ⟨items, hitems, eq⟩ := Option.map_eq_some_iff.1 h
      cases eq
      exact .array (distinct_of_itemsAt (fun _ _ _ => ih _ (Nat.lt_succ_self _)) hitems)
    · split at h
      · cases h
        exact Nodes.Distinct.nil
      · obtain ⟨⟨pairs, tail⟩, hpairs, h⟩ := Option.bind_eq_some_iff.1 h
        obtain ⟨nodes, hnodes, eq⟩ := Option.bind_eq_some_iff.1 h
        cases eq
        exact Nodes.Distinct.nil.insertPairs
          (distinct_of_pairsAt (fun _ _ _ => ih _ (Nat.lt_succ_self _)) hpairs) hnodes
    · exact distinct_of_wordAt h

/-! ## Documents -/

/-- What a statement says has distinct keys. -/
def Statement.Distinct : Statement → Prop
  | .pair _ v => v.Distinct
  | _ => True

/-- A statement that is read has distinct keys. -/
lemma distinct_of_statementAt {limit : Nat} {cs rest : List Char} {s : Statement}
    (h : statementAt limit cs = some (s, rest)) : s.Distinct := by
  unfold statementAt at h
  split at h
  · simp only [Option.bind_eq_bind, Option.bind_eq_some_iff] at h
    obtain ⟨path, -, _, -, _, -, eq⟩ := h
    cases eq
    trivial
  · simp only [Option.bind_eq_bind, Option.bind_eq_some_iff] at h
    obtain ⟨path, -, _, -, eq⟩ := h
    cases eq
    trivial
  · obtain ⟨⟨⟨key, v⟩, tail⟩, hpair, eq⟩ := Option.bind_eq_some_iff.1 h
    cases eq
    exact distinct_of_pairAt (fun _ _ _ => distinct_of_valueAt) hpair

/-- So have all statements of a document. -/
lemma distinct_of_statementsAt {limit n : Nat} {cs : List Char} {statements : List Statement}
    (h : statementsAt limit n cs = some statements) : ∀ s ∈ statements, s.Distinct := by
  induction n generalizing cs statements with
  | zero =>
    rw [statementsAt] at h
    split_ifs at h
    cases h
    exact List.forall_mem_nil _
  | succ n ih =>
    rw [statementsAt] at h
    split at h
    · cases h
      exact List.forall_mem_nil _
    · exact ih h
    · simp only [Option.bind_eq_bind, Option.bind_eq_some_iff] at h
      obtain ⟨⟨s, tail⟩, hs, line, -, statements, hstatements, eq⟩ := h
      cases eq
      exact List.forall_mem_cons.2 ⟨distinct_of_statementAt hs, ih hstatements⟩

/-- The pairs in front of a header have distinct keys in their values, and so have the statements
behind them. -/
lemma distinct_of_section? {statements rest : List Statement} {pairs : List (List String × Value)}
    (h : ∀ s ∈ statements, s.Distinct) (cut : section? statements = (pairs, rest)) :
    (∀ p ∈ pairs, p.2.Distinct) ∧ ∀ s ∈ rest, s.Distinct := by
  fun_induction section? statements generalizing pairs rest with
  | case1 key v behind more tail eq ih =>
    obtain ⟨hv, hbehind⟩ := List.forall_mem_cons.1 h
    obtain ⟨hmore, htail⟩ := ih hbehind eq
    cases cut
    exact ⟨List.forall_mem_cons.2 ⟨hv, hmore⟩, htail⟩
  | case2 =>
    cases cut
    exact ⟨List.forall_mem_nil _, h⟩

/-- The sections of a document are added one after the other. -/
lemma Nodes.Distinct.addSections {n : Nat} {statements : List Statement} {nodes nodes' : Nodes}
    (h : Nodes.Distinct nodes) (hstatements : ∀ s ∈ statements, s.Distinct)
    (added : Toml.addSections n statements nodes = some nodes') : Nodes.Distinct nodes' := by
  fun_induction Toml.addSections n statements nodes with
  | case1 =>
    cases added
    exact h
  | case2 =>
    cases added
    exact h
  | case3 => cases added
  | case4 n nodes path behind pairs rest cut ih =>
    obtain ⟨hpairs, hrest⟩ := distinct_of_section? (List.forall_mem_cons.1 hstatements).2 cut
    obtain ⟨next, opened, added⟩ := Option.bind_eq_some_iff.1 added
    exact ih next (h.openTable hpairs opened) hrest added
  | case5 n nodes path behind pairs rest cut ih =>
    obtain ⟨hpairs, hrest⟩ := distinct_of_section? (List.forall_mem_cons.1 hstatements).2 cut
    obtain ⟨next, opened, added⟩ := Option.bind_eq_some_iff.1 added
    exact ih next (h.openElement hpairs opened) hrest added

/-- **The table that a document describes has distinct keys**, and so has every table in it. -/
theorem distinct_of_parse? {text : String} {document : Entries}
    (h : parse? text = some document) : (Value.table document).Distinct := by
  obtain ⟨statements, hstatements, h⟩ := Option.bind_eq_some_iff.1 h
  have read : ∀ s ∈ statements, s.Distinct := by
    unfold statements? at hstatements
    split at hstatements <;> exact distinct_of_statementsAt hstatements
  obtain ⟨hpairs, hrest⟩ := distinct_of_section? read rfl
  obtain ⟨start, hstart, h⟩ := Option.bind_eq_some_iff.1 h
  obtain ⟨nodes, hnodes, eq⟩ := Option.bind_eq_some_iff.1 h
  cases eq
  exact (Nodes.Distinct.nil.insertPairs hpairs hstart).addSections hrest hnodes

end ContainerLint.Toml
