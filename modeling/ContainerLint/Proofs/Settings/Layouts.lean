import ContainerLint.Proofs.Toml.DistinctKeys

/-!
# Layouts and the places of a document

A layout says which keys a value may have, and what is found if a value is searched for others. This
file says what that means without going through the search: a layout is laid over a value, field
over entry and position over element, and at each place where a record of the layout meets a table,
the entries without a field are the ones that have no name. The search finds exactly the paths of
these entries, and one more thing: a date-time in the place of a record, which has no entry at all,
is found under the one field that date-times have.

Removing the entries without a name leaves the other places as they were.

## Main definitions

* `Layout` — which keys a value may have at which place.
* `Layout.unknownPaths` — the paths of the keys that the layout does not name.
* `Layout.At` — the places where a layout meets a value.
* `Layout.Unnamed` — the paths of the entries that the layout does not name at their level.
* `Layout.Dated` — the paths under which date-times in the place of records are reported.
* `Layout.prune` — a value without the entries that its layout does not name.

## Main results

* `Layout.mem_unknownPaths_table_iff` — what is found in a table is found entry by entry.
* `Layout.mem_unknownPaths_iff` — the paths that are found.
* `Layout.at_prune_iff` — the places of what is left.
* `Layout.not_unnamed_prune`, `Layout.dated_prune_iff` — what is still reported about it.
-/

set_option autoImplicit false

namespace ContainerLint

open Toml

/-- Which keys a value may have: none that matter, or those of a record. -/
inductive Layout where
  | leaf
  | record (fields : List (String × Layout))
deriving Inhabited

namespace Layout

/-- Put a segment in front of paths. -/
def under (segment : String) (paths : List (List String)) : List (List String) :=
  paths.map (segment :: ·)

/-- The keys that are not among the given names. -/
def strangers (names : List String) (entries : Entries) : List (List String) :=
  entries.filterMap fun e => if e.1 ∈ names then none else some [e.1]

mutual

/-- The paths of the keys in a value that its layout does not name. -/
def unknownPaths : Layout → Value → List (List String)
  | .leaf, _ => []
  | .record fields, v =>
    match v with
    | .table entries => strangers (fields.map (·.1)) entries ++ unknownByName fields entries
    | .array items => unknownByPosition fields 0 items
    | .datetime _ => [[datetimeField]]
    | _ => []

/-- The paths of unknown keys below the named fields of a table. -/
def unknownByName : List (String × Layout) → Entries → List (List String)
  | [], _ => []
  | (name, layout) :: fields, entries =>
    (match lookup entries name with
      | some v => under name (unknownPaths layout v)
      | none => [])
    ++ unknownByName fields entries

/-- The paths of unknown keys below the fields of a record that is written as an array. -/
def unknownByPosition : List (String × Layout) → Nat → List Value → List (List String)
  | [], _, _ => []
  | _ :: _, _, [] => []
  | (_, layout) :: fields, n, v :: items =>
    under (toString n) (unknownPaths layout v) ++ unknownByPosition fields (n + 1) items

end

/-- The fields of each record in a layout have distinct names. -/
inductive Distinct : Layout → Prop where
  | leaf : Distinct .leaf
  | record {fields : List (String × Layout)} :
      (fields.map (·.1)).Nodup → (∀ f ∈ fields, Distinct f.2) → Distinct (.record fields)

/-! ## Places -/

/-- `l.At v path l' w` says that `path` leads from the value `v` with layout `l` to its part `w`,
and that `l'` is the layout of `w`. A table is entered by the names of fields. An array stands for
the fields in their order, and is entered by positions; elements beyond the last field have no
layout. -/
inductive At : Layout → Value → List String → Layout → Value → Prop where
  | here (l : Layout) (v : Value) : At l v [] l v
  | field {fields : List (String × Layout)} {entries : Entries} {name : String} {l l' : Layout}
      {v w : Value} {path : List String} :
      (name, l) ∈ fields → (name, v) ∈ entries → At l v path l' w →
        At (.record fields) (.table entries) (name :: path) l' w
  | position {fields : List (String × Layout)} {items : List Value} {n : Nat}
      {f : String × Layout} {l' : Layout} {v w : Value} {path : List String} :
      fields[n]? = some f → items[n]? = some v → At f.2 v path l' w →
        At (.record fields) (.array items) (toString n :: path) l' w

variable {l l' : Layout} {v w : Value} {path front : List String}

/-- Paths are followed one after the other. -/
lemma At.trans {l'' : Layout} {x : Value} (first : l.At v front l' w) (next : l'.At w path l'' x) :
    l.At v (front ++ path) l'' x := by
  induction first with
  | here => exact next
  | field hf he _ ih => exact .field hf he (ih next)
  | position hf hv _ ih => exact .position hf hv (ih next)

/-- The path leads to an entry of a table, and the layout has a record for the table but no field
for the entry. -/
def Unnamed (l : Layout) (v : Value) (path : List String) : Prop :=
  ∃ front fields entries e, l.At v front (.record fields) (.table entries) ∧
    e ∈ entries ∧ e.1 ∉ fields.map (·.1) ∧ path = front ++ [e.1]

/-- The path leads to the spelling of a date-time that stands where the layout has a record. -/
def Dated (l : Layout) (v : Value) (path : List String) : Prop :=
  ∃ front fields spelling, l.At v front (.record fields) (.datetime spelling) ∧
    path = front ++ [datetimeField]

/-- The path leads to something that is reported. -/
def Reported (l : Layout) (v : Value) (path : List String) : Prop :=
  l.Unnamed v path ∨ l.Dated v path

/-- What is reported about a part is reported about the whole. -/
lemma At.reported (first : l.At v front l' w) (h : l'.Reported w path) :
    l.Reported v (front ++ path) := by
  rcases h with ⟨behind, fields, entries, e, place, mem, unnamed, rfl⟩ |
    ⟨behind, fields, spelling, place, rfl⟩
  · exact .inl ⟨_, fields, entries, e, first.trans place, mem, unnamed,
      (List.append_assoc ..).symm⟩
  · exact .inr ⟨_, fields, spelling, first.trans place, (List.append_assoc ..).symm⟩

/-! ## The paths that are found -/

section Found

variable {fields : List (String × Layout)} {entries : Entries} {items : List Value}

/-- The strangers in a table are the keys of its entries that are no names. -/
lemma mem_strangers_iff {names : List String} :
    path ∈ strangers names entries ↔ ∃ e ∈ entries, e.1 ∉ names ∧ path = [e.1] := by
  simp only [strangers, List.mem_filterMap, Option.ite_none_left_eq_some, Option.some.injEq,
    @eq_comm _ path]

/-- What is found under a segment starts with it. -/
lemma mem_under_iff {segment : String} {paths : List (List String)} :
    path ∈ under segment paths ↔ ∃ rest ∈ paths, path = segment :: rest := by
  simp only [under, List.mem_map, @eq_comm _ path]

/-- A path below a named field starts with the name. -/
lemma mem_unknownByName_iff :
    path ∈ unknownByName fields entries ↔
      ∃ f ∈ fields, ∃ v, lookup entries f.1 = some v ∧
        ∃ rest ∈ f.2.unknownPaths v, path = f.1 :: rest := by
  induction fields with
  | nil => simp [unknownByName]
  | cons f fields ih =>
    rw [unknownByName, List.mem_append, ih, List.exists_mem_cons_iff]
    refine or_congr_left ?_
    cases lookup entries f.1 with
    | none => simp
    | some v => simp [mem_under_iff]

/-- A path below an element starts with its position.

**Proof sketch.** By induction on the fields and the elements together. The first element has the
first position, and the positions of the others are counted from the next one. -/
lemma mem_unknownByPosition_iff {n : Nat} :
    path ∈ unknownByPosition fields n items ↔
      ∃ i f v, fields[i]? = some f ∧ items[i]? = some v ∧
        ∃ rest ∈ f.2.unknownPaths v, path = toString (n + i) :: rest := by
  induction fields generalizing n items with
  | nil => simp [unknownByPosition]
  | cons f fields ih =>
    cases items with
    | nil => simp [unknownByPosition]
    | cons v items =>
      rw [unknownByPosition, List.mem_append, ih, mem_under_iff]
      constructor
      · rintro (first | ⟨i, g, w, hg, hw, rest⟩)
        · exact ⟨0, f, v, rfl, rfl, first⟩
        · exact ⟨i + 1, g, w, hg, hw, by rwa [Nat.add_right_comm] at rest⟩
      · rintro ⟨i, g, w, hg, hw, rest⟩
        cases i with
        | zero =>
          cases hg
          cases hw
          exact .inl rest
        | succ i => exact .inr ⟨i, g, w, hg, hw, by rwa [Nat.add_right_comm]⟩

/-- The paths that are found at an entry of a table, or below it. -/
def entryPaths (fields : List (String × Layout)) (e : String × Value) : List (List String) :=
  match lookup fields e.1 with
  | some l => under e.1 (l.unknownPaths e.2)
  | none => [[e.1]]

/-- A path is found at an entry if the entry has no field and the path leads to it, or if it has one
and the path goes on to something that is found in its value. -/
lemma mem_entryPaths_iff {e : String × Value} :
    path ∈ entryPaths fields e ↔
      (e.1 ∉ fields.map (·.1) ∧ path = [e.1]) ∨
        ∃ l, lookup fields e.1 = some l ∧ ∃ rest ∈ l.unknownPaths e.2, path = e.1 :: rest := by
  rw [entryPaths, ← lookup_eq_none_iff]
  cases lookup fields e.1 with
  | none => simp
  | some l => simp [mem_under_iff]

/-- **What is found in a table is found entry by entry**, if no field and no key is repeated. -/
theorem mem_unknownPaths_table_iff (names : (fields.map (·.1)).Nodup)
    (keys : (entries.map (·.1)).Nodup) :
    path ∈ (record fields).unknownPaths (.table entries) ↔
      ∃ e ∈ entries, path ∈ entryPaths fields e := by
  simp only [mem_entryPaths_iff, and_or_left, exists_or]
  rw [unknownPaths, List.mem_append, mem_strangers_iff, mem_unknownByName_iff]
  refine or_congr_right ?_
  simp only [lookup_eq_some_iff names, lookup_eq_some_iff keys]
  constructor
  · rintro ⟨⟨name, l⟩, hf, v, hv, rest⟩
    exact ⟨(name, v), hv, l, hf, rest⟩
  · rintro ⟨⟨key, v⟩, hv, l, hf, rest⟩
    exact ⟨(key, l), hf, v, hv, rest⟩

end Found

/-- What is found has a place.

**Proof sketch.** By induction on the layout. What is found in a table, an array or a date-time is
at this place, or it is found below a field, and then it has a place in the part that the field
leads to. -/
lemma reported_of_mem (distinct : l.Distinct) (h : path ∈ l.unknownPaths v) :
    l.Reported v path := by
  induction distinct generalizing v path with
  | leaf => cases h
  | @record fields nodup _ ih =>
    cases v with
    | table entries =>
      rw [unknownPaths, List.mem_append, mem_strangers_iff, mem_unknownByName_iff] at h
      rcases h with ⟨e, mem, unnamed, rfl⟩ | ⟨f, hf, v, found, rest, hrest, rfl⟩
      · exact .inl ⟨[], fields, entries, e, .here .., mem, unnamed, rfl⟩
      · exact At.reported (.field hf (mem_of_lookup found) (.here ..)) (ih f hf hrest)
    | array items =>
      rw [unknownPaths, mem_unknownByPosition_iff] at h
      obtain ⟨i, f, v, hf, hv, rest, hrest, rfl⟩ := h
      rw [Nat.zero_add]
      exact At.reported (.position hf hv (.here ..)) (ih f (List.mem_of_getElem? hf) hrest)
    | datetime spelling =>
      rw [unknownPaths, List.mem_singleton] at h
      exact .inr ⟨[], fields, spelling, .here .., h⟩
    | _ => cases h

/-- What is found in a part is found in the whole. -/
lemma At.mem_unknownPaths (place : l.At v front l' w) (distinct : v.Distinct)
    (h : path ∈ l'.unknownPaths w) : front ++ path ∈ l.unknownPaths v := by
  induction place with
  | here => exact h
  | field hf he _ ih =>
    cases distinct with
    | table nodup members =>
      rw [unknownPaths, List.mem_append, mem_unknownByName_iff]
      exact .inr ⟨_, hf, _, (lookup_eq_some_iff nodup).2 he, _, ih (members _ he) h, rfl⟩
  | position hf hv _ ih =>
    cases distinct with
    | array members =>
      rw [unknownPaths, mem_unknownByPosition_iff]
      exact ⟨_, _, _, hf, hv, _, ih (members _ (List.mem_of_getElem? hv)) h, by
        rw [Nat.zero_add, List.cons_append]⟩

/-- **The paths that are found are those of the entries that the layout does not name, and those of
date-times in the place of records.** -/
theorem mem_unknownPaths_iff (hl : l.Distinct) (hv : v.Distinct) :
    path ∈ l.unknownPaths v ↔ l.Reported v path := by
  refine ⟨reported_of_mem hl, ?_⟩
  rintro (⟨front, fields, entries, e, place, mem, unnamed, rfl⟩ |
    ⟨front, fields, spelling, place, rfl⟩)
  · refine place.mem_unknownPaths hv ?_
    rw [unknownPaths, List.mem_append, mem_strangers_iff]
    exact .inl ⟨e, mem, unnamed, rfl⟩
  · refine place.mem_unknownPaths hv ?_
    rw [unknownPaths]
    exact List.mem_singleton_self _

/-! ## Removing the entries without a name -/

mutual

/-- A value without the entries that its layout does not name. -/
def prune : Layout → Value → Value
  | .leaf, v => v
  | .record fields, v =>
    match v with
    | .table entries => .table (entries.filterMap fun e => pruneEntry fields e)
    | .array items => .array (pruneItems fields items)
    | v => v

/-- What is left of an entry of a table. -/
def pruneEntry : List (String × Layout) → String × Value → Option (String × Value)
  | [], _ => none
  | (name, l) :: fields, e => if name = e.1 then some (e.1, prune l e.2) else pruneEntry fields e

/-- What is left of the elements of an array. -/
def pruneItems : List (String × Layout) → List Value → List Value
  | [], items => items
  | _ :: _, [] => []
  | (_, l) :: fields, v :: items => prune l v :: pruneItems fields items

end

section Pruning

variable {fields : List (String × Layout)} {entries : Entries} {items : List Value}

/-- Of a table the entries are left that a field keeps. -/
lemma prune_table : (record fields).prune (.table entries) =
    .table (entries.filterMap (pruneEntry fields)) := by
  rw [prune]

/-- Of an array all elements are left, each as its field leaves it. -/
lemma prune_array : (record fields).prune (.array items) = .array (pruneItems fields items) := by
  rw [prune]

/-- An entry is left if its key is the name of a field, and the layout of the field applies to its
value. -/
lemma pruneEntry_eq_map (e : String × Value) :
    pruneEntry fields e = (lookup fields e.1).map fun l => (e.1, l.prune e.2) := by
  induction fields with
  | nil => rw [pruneEntry]; rfl
  | cons f fields ih =>
    rw [pruneEntry, lookup_cons, ih]
    split_ifs <;> rfl

/-- The entries that are left. -/
lemma mem_filterMap_pruneEntry_iff (nodup : (fields.map (·.1)).Nodup) {name : String} :
    (name, w) ∈ entries.filterMap (pruneEntry fields) ↔
      ∃ l v, (name, l) ∈ fields ∧ (name, v) ∈ entries ∧ l.prune v = w := by
  simp only [List.mem_filterMap, pruneEntry_eq_map, Option.map_eq_some_iff,
    lookup_eq_some_iff nodup, Prod.mk.injEq]
  constructor
  · rintro ⟨⟨_, v⟩, mem, l, hl, rfl, rfl⟩
    exact ⟨l, v, hl, mem, rfl⟩
  · rintro ⟨l, v, hl, mem, rfl⟩
    exact ⟨(name, v), mem, l, hl, rfl, rfl⟩

/-- The elements that are left are at their positions. -/
lemma getElem?_pruneItems {n : Nat} {f : String × Layout} (hf : fields[n]? = some f) :
    (pruneItems fields items)[n]? = items[n]?.map f.2.prune := by
  induction fields generalizing n items with
  | nil => cases hf
  | cons g fields ih =>
    cases items with
    | nil => simp [pruneItems]
    | cons v items =>
      rw [pruneItems]
      cases n with
      | zero =>
        cases hf
        rfl
      | succ n => exact ih hf

/-- An element that is left is one beyond the fields, or what a field leaves of one. -/
lemma mem_pruneItems (h : w ∈ pruneItems fields items) :
    w ∈ items ∨ ∃ f ∈ fields, ∃ v ∈ items, f.2.prune v = w := by
  induction fields generalizing items with
  | nil => exact .inl h
  | cons f fields ih =>
    cases items with
    | nil => cases h
    | cons v items =>
      rw [pruneItems, List.mem_cons] at h
      rcases h with rfl | h
      · exact .inr ⟨f, List.mem_cons_self, v, List.mem_cons_self, rfl⟩
      · rcases ih h with beyond | ⟨g, hg, x, hx, eq⟩
        · exact .inl (List.mem_cons_of_mem _ beyond)
        · exact .inr ⟨g, List.mem_cons_of_mem _ hg, x, List.mem_cons_of_mem _ hx, eq⟩

/-- Only tables leave tables. -/
lemma prune_eq_table_iff :
    (record fields).prune v = .table entries ↔
      ∃ all, v = .table all ∧ all.filterMap (pruneEntry fields) = entries := by
  cases v <;> simp [prune]

/-- Only date-times leave date-times. -/
lemma prune_eq_datetime_iff {spelling : String} :
    (record fields).prune v = .datetime spelling ↔ v = .datetime spelling := by
  cases v <;> simp [prune]

end Pruning

/-- A place of what is left is a place of the whole.

**Proof sketch.** By induction on the layout. A step of the path through a table goes through an
entry that is left, and the field that kept the entry is the one of the path, since names are
distinct. A step through an array keeps its position. -/
lemma at_of_at_prune (distinct : l.Distinct) (place : l.At (l.prune v) path l' w) :
    ∃ x, l.At v path l' x ∧ l'.prune x = w := by
  induction distinct generalizing v path with
  | leaf =>
    cases place
    exact ⟨v, .here .., rfl⟩
  | @record fields nodup _ ih =>
    cases v with
    | table entries =>
      rw [prune_table] at place
      cases place with
      | here => exact ⟨_, .here .., prune_table⟩
      | @field _ _ name l _ _ _ path hl hmem place =>
        obtain ⟨k, v, hk, mem, rfl⟩ := (mem_filterMap_pruneEntry_iff nodup).1 hmem
        -- the field that kept the entry is the one that the path goes through
        have same : k = l := by
          rw [← lookup_eq_some_iff nodup] at hk hl
          exact Option.some.inj (hk.symm.trans hl)
        subst same
        obtain ⟨x, found, eq⟩ := ih _ hk place
        exact ⟨x, .field hk mem found, eq⟩
    | array items =>
      rw [prune_array] at place
      cases place with
      | here => exact ⟨_, .here .., prune_array⟩
      | position hf hv place =>
        rw [getElem?_pruneItems hf, Option.map_eq_some_iff] at hv
        obtain ⟨v, hv, rfl⟩ := hv
        obtain ⟨x, found, eq⟩ := ih _ (List.mem_of_getElem? hf) place
        exact ⟨x, .position hf hv found, eq⟩
    | _ =>
      cases place
      exact ⟨_, .here .., rfl⟩

/-- A place of the whole is a place of what is left. -/
lemma At.prune (place : l.At v path l' w) (distinct : l.Distinct) :
    l.At (l.prune v) path l' (l'.prune w) := by
  induction place with
  | here => exact .here ..
  | field hf he _ ih =>
    cases distinct with
    | record nodup members =>
      rw [prune_table]
      exact .field hf ((mem_filterMap_pruneEntry_iff nodup).2 ⟨_, _, hf, he, rfl⟩)
        (ih (members _ hf))
  | position hf hv _ ih =>
    cases distinct with
    | record nodup members =>
      rw [prune_array]
      exact .position hf (by rw [getElem?_pruneItems hf, hv, Option.map_some])
        (ih (members _ (List.mem_of_getElem? hf)))

/-- **The places of what is left are the places of the whole**, with what is left of their
contents. -/
theorem at_prune_iff (distinct : l.Distinct) :
    l.At (l.prune v) path l' w ↔ ∃ x, l.At v path l' x ∧ l'.prune x = w := by
  refine ⟨at_of_at_prune distinct, ?_⟩
  rintro ⟨x, place, rfl⟩
  exact place.prune distinct

/-- Every entry that is left has a name. -/
lemma not_unnamed_prune (distinct : l.Distinct) : ¬ l.Unnamed (l.prune v) path := by
  rintro ⟨front, fields, entries, e, place, mem, unnamed, -⟩
  obtain ⟨x, -, eq⟩ := (at_prune_iff distinct).1 place
  obtain ⟨all, -, rfl⟩ := prune_eq_table_iff.1 eq
  obtain ⟨e', -, left⟩ := List.mem_filterMap.1 mem
  rw [pruneEntry_eq_map, Option.map_eq_some_iff] at left
  obtain ⟨l', named, rfl⟩ := left
  exact unnamed (List.mem_map.2 ⟨_, mem_of_lookup named, rfl⟩)

/-- The date-times in the place of records are still there. -/
lemma dated_prune_iff (distinct : l.Distinct) : l.Dated (l.prune v) path ↔ l.Dated v path := by
  simp only [Dated, at_prune_iff distinct, prune_eq_datetime_iff, exists_eq_right]

/-- What is left has distinct keys.

**Proof sketch.** By induction on the layout. Of a table some entries are left, with the keys that
they had, so that no key is repeated. -/
lemma distinct_prune (hl : l.Distinct) (hv : v.Distinct) : (l.prune v).Distinct := by
  induction hl generalizing v with
  | leaf => exact hv
  | @record fields nodup _ ih =>
    cases hv with
    | @table entries keys members =>
      rw [prune_table]
      refine .table ?_ fun e he => ?_
      · -- entries are removed or keep their keys
        rw [List.Nodup, List.pairwise_map] at keys ⊢
        refine keys.filterMap _ fun e e' apart f hf f' hf' => ?_
        rw [pruneEntry_eq_map, Option.map_eq_some_iff] at hf hf'
        obtain ⟨_, _, rfl⟩ := hf
        obtain ⟨_, _, rfl⟩ := hf'
        exact apart
      · obtain ⟨l, v, hl, mem, eq⟩ := (mem_filterMap_pruneEntry_iff nodup).1 he
        rw [← eq]
        exact ih _ hl (members _ mem)
    | @array items members =>
      rw [prune_array]
      refine .array fun x hx => ?_
      rcases mem_pruneItems hx with beyond | ⟨f, hf, v, hv, rfl⟩
      · exact members x beyond
      · exact ih f hf (members v hv)
    | _ => constructor

end Layout

end ContainerLint
