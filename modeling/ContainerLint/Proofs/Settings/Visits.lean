import ContainerLint.Settings.Document
import ContainerLint.Proofs.Settings.Layouts

/-!
# Visits and readers

Settings are read in two ways. A reader asks a table for its fields, in the order of the fields. A
visitor is led through the table, in the order of its entries, and notes the entries that have no
field. This file says when the two agree: a visitor follows a reader and a layout if it reads what
the reader reads, fails where the reader fails, and notes what the layout does not name.

The step that needs an argument is that of a record. A visitor changes the record in the order of
the entries, and a reader in the order of the fields. Since no key is repeated, and the changes by
different fields do not interfere, the order does not matter.

## Main definitions

* `Noting.Adds` — what a pass returns and what it adds to the notes.
* `Visitor.Follows` — a visitor reads what a reader reads and notes what a layout does not name.
* `readFields`, `readEntries` — a record that is changed by its fields, in the order of the fields
  or of the entries.
* `DescribedField` — a field as reader, layout and visitor see it.

## Main results

* `readEntries_eq_readFields` — the order does not matter.
* `Visitor.follows_record` — visiting a record follows reading it.
-/

set_option autoImplicit false

namespace ContainerLint

open Toml

variable {α β σ : Type}

/-! ## What a pass adds to the notes -/

namespace Noting

/-- The pass returns what is given, or fails with it, and adds the given keys to the notes. -/
def Adds (pass : Noting α) (result : Option α) (found : List String) : Prop :=
  ∀ notes, pass notes = result.map fun a => (a, notes ++ found)

/-- To return a value adds nothing. -/
lemma adds_pure (a : α) : Adds (pure a) (some a) [] := by
  intro notes
  rw [List.append_nil]
  rfl

/-- To take over what a reader reads adds nothing. -/
lemma adds_lift (result : Option α) : Adds (StateT.lift result) result [] := by
  intro notes
  rw [List.append_nil]
  cases result <;> rfl

/-- To note a key adds it as it is shown. -/
lemma adds_note (path : List String) : Adds (note path) (some ()) [Settings.showPath path] := by
  intro notes
  rfl

/-- Passes one after the other add their notes one after the other. -/
lemma Adds.bind {pass : Noting α} {result : Option α} {found : List String}
    (first : pass.Adds result found) {next : α → Noting β} {results : α → Option β}
    {more : List String} (second : ∀ a, (next a).Adds (results a) more) :
    Adds (pass >>= next) (result.bind results) (found ++ more) := by
  intro notes
  have step : (pass >>= next) notes = (pass notes).bind fun p => next p.1 p.2 := rfl
  rw [step, first notes]
  cases result with
  | none => rfl
  | some a =>
    rw [Option.map_some, Option.bind_some, Option.bind_some, second a, List.append_assoc]

/-- To change what is returned adds nothing. -/
lemma Adds.map {pass : Noting α} {result : Option α} {found : List String}
    (h : pass.Adds result found) (f : α → β) : Adds (f <$> pass) (result.map f) found := by
  intro notes
  have step : (f <$> pass) notes = (pass notes).map fun p => (f p.1, p.2) := by
    cases h : pass notes <;> simp [Functor.map, StateT.map, h]
  rw [step, h notes, Option.map_map, Option.map_map]
  rfl

end Noting

/-! ## Visitors that follow readers -/

/-- Paths from a place of the document, as they are shown. -/
def shown (place : List String) (paths : List (List String)) : List String :=
  paths.map fun path => Settings.showPath (place ++ path)

/-- Paths are shown one after the other. -/
lemma shown_append (place : List String) (paths paths' : List (List String)) :
    shown place (paths ++ paths') = shown place paths ++ shown place paths' :=
  List.map_append

/-- The paths from a place below are those that go on from there. -/
lemma shown_under (place : List String) (segment : String) (paths : List (List String)) :
    shown place (Layout.under segment paths) = shown (place ++ [segment]) paths := by
  simp [shown, Layout.under, Function.comp_def]

/-- The visitor reads what the reader reads, and notes what the layout does not name. -/
def Visitor.Follows (visit : Visitor α) (read : Decoder α) (l : Layout) : Prop :=
  ∀ v, v.Distinct → ∃ paths, (∀ path, path ∈ paths ↔ path ∈ l.unknownPaths v) ∧
    ∀ place, (visit place v).Adds (read v) (shown place paths)

namespace Visitor

/-- A value in which no keys are noted is a leaf. -/
lemma follows_leaf (read : Decoder α) : (leaf read).Follows read .leaf := by
  intro v _
  refine ⟨[], fun path => ?_, fun _ => Noting.adds_lift (read v)⟩
  rw [Layout.unknownPaths]

/-- To change what is read changes no notes. -/
lemma Follows.map {visit : Visitor α} {read : Decoder α} {l : Layout} (h : visit.Follows read l)
    (f : α → β) :
    Follows (fun place v => f <$> visit place v) (fun v => (read v).map f) l := by
  intro v distinct
  obtain ⟨paths, same, adds⟩ := h v distinct
  exact ⟨paths, same, fun place => (adds place).map f⟩

end Visitor

/-! ## Records in the order of fields and of entries -/

/-- Change a record by what is found in its fields, in the order of the fields. -/
def readFields (entries : Entries) : List (String × Decoder (σ → σ)) → σ → Option σ
  | [], s => some s
  | (name, read) :: fields, s =>
    (Toml.optional entries name read id).bind fun change => readFields entries fields (change s)

/-- Change a record by what is found in its fields, in the order of the entries. -/
def readEntries (fields : List (String × Decoder (σ → σ))) : Entries → σ → Option σ
  | [], s => some s
  | (key, v) :: entries, s =>
    match lookup fields key with
    | some read => (read v).bind fun change => readEntries fields entries (change s)
    | none => readEntries fields entries s

/-- Changes by the one reader do not interfere with changes by the other. -/
def Independent (read read' : Decoder (σ → σ)) : Prop :=
  ∀ v v' change change', read v = some change → read' v' = some change' →
    ∀ s, change (change' s) = change' (change s)

section Order

variable {fields : List (String × Decoder (σ → σ))} {key : String} {v : Value} {entries : Entries}

/-- Without entries nothing changes. -/
lemma readFields_nil (fields : List (String × Decoder (σ → σ))) (s : σ) :
    readFields [] fields s = some s := by
  induction fields with
  | nil => rfl
  | cons f fields ih => exact ih

/-- An entry with another key is not looked at. -/
lemma optional_cons_of_ne {name : String} (ne : key ≠ name) (read : Decoder α) (default : α) :
    Toml.optional ((key, v) :: entries) name read default =
      Toml.optional entries name read default := by
  rw [Toml.optional, Toml.optional, lookup_cons, if_neg ne]

/-- An entry without a field is not looked at. -/
lemma readFields_cons_of_not_mem (unnamed : key ∉ fields.map (·.1)) (s : σ) :
    readFields ((key, v) :: entries) fields s = readFields entries fields s := by
  induction fields generalizing s with
  | nil => rfl
  | cons f fields ih =>
    rw [List.map_cons, List.mem_cons, not_or] at unnamed
    rw [readFields, readFields, optional_cons_of_ne unnamed.1]
    simp only [ih unnamed.2]

/-- An entry for the first field is read first. -/
lemma readFields_cons_self {read : Decoder (σ → σ)} (other : key ∉ fields.map (·.1)) (s : σ) :
    readFields ((key, v) :: entries) ((key, read) :: fields) s =
      (read v).bind fun change => readFields entries fields (change s) := by
  have here : Toml.optional ((key, v) :: entries) key read id = read v := by
    rw [Toml.optional, lookup_cons, if_pos rfl]
  rw [readFields, here]
  simp only [readFields_cons_of_not_mem other]

/-- The change by a field does not interfere either if the field may be missing. -/
lemma Independent.optional {read read' : Decoder (σ → σ)} (apart : Independent read read')
    {name : String} {change change' : σ → σ}
    (h : Toml.optional entries name read id = some change) (h' : read' v = some change') (s : σ) :
    change (change' s) = change' (change s) := by
  rw [Toml.optional] at h
  split at h
  · obtain rfl := Option.some.inj h
    rfl
  · exact apart _ _ _ _ h h' s

/-- An entry with a field changes the record, and it may do so first.

**Proof sketch.** By induction on the fields. If the first field is the one of the entry, no other
field and no other entry has its key, and the change is made first in any case. If not, its change
is made before that of the entry, and the two can be exchanged. -/
lemma readFields_cons (names : (fields.map (·.1)).Nodup)
    (independent : fields.Pairwise fun f g => Independent f.2 g.2) {read : Decoder (σ → σ)}
    (named : lookup fields key = some read) (fresh : key ∉ entries.map (·.1)) (s : σ) :
    readFields ((key, v) :: entries) fields s =
      (read v).bind fun change => readFields entries fields (change s) := by
  induction fields generalizing s with
  | nil => cases named
  | cons f fields ih =>
    rw [List.map_cons, List.nodup_cons] at names
    rw [List.pairwise_cons] at independent
    rw [lookup_cons] at named
    by_cases same : f.1 = key
    · -- no other field and no other entry has the key
      subst same
      obtain rfl : f.2 = read := by simpa using named
      have missing : Toml.optional entries f.1 f.2 id = some id := by
        rw [Toml.optional, lookup_eq_none_iff.2 fresh]
      rw [readFields_cons_self names.1]
      refine Option.bind_congr fun change _ => ?_
      rw [readFields, missing]
      rfl
    · -- the change of the field in front commutes with that of the entry
      rw [if_neg same] at named
      have apart : Independent f.2 read := independent.1 _ (mem_of_lookup named)
      rw [readFields, optional_cons_of_ne (Ne.symm same)]
      simp only [ih names.2 independent.2 named]
      cases hread : read v with
      | none => simp
      | some change =>
        simp only [Option.bind_some, readFields]
        refine Option.bind_congr fun change' h' => ?_
        rw [apart.optional h' hread]

/-- **The order of the entries does not matter**, if no key is repeated and the changes by different
fields do not interfere. -/
theorem readEntries_eq_readFields (names : (fields.map (·.1)).Nodup)
    (independent : fields.Pairwise fun f g => Independent f.2 g.2)
    (keys : (entries.map (·.1)).Nodup) (s : σ) :
    readEntries fields entries s = readFields entries fields s := by
  induction entries generalizing s with
  | nil => exact (readFields_nil fields s).symm
  | cons e entries ih =>
    rw [List.map_cons, List.nodup_cons] at keys
    rw [readEntries]
    cases named : lookup fields e.1 with
    | none =>
      rw [readFields_cons_of_not_mem (lookup_eq_none_iff.1 named)]
      exact ih keys.2 s
    | some read =>
      rw [readFields_cons names independent named keys.1]
      exact Option.bind_congr fun change _ => ih keys.2 (change s)

end Order

/-! ## Visiting a record -/

/-- A field of a record as a layout, a reader and a visitor see it. -/
structure DescribedField (σ : Type) where
  name : String
  layout : Layout
  read : Decoder (σ → σ)
  visit : Visitor (σ → σ)
  follows : visit.Follows read layout

namespace DescribedField

/-- The field whose value is stored by `set`. -/
def of {visit : Visitor α} {read : Decoder α} {l : Layout} (name : String)
    (h : visit.Follows read l) (set : α → σ → σ) : DescribedField σ where
  name
  layout := l
  read := fun v => (read v).map set
  visit := fun place v => set <$> visit place v
  follows := h.map set

/-- The fields as a layout sees them. -/
def layouts (fields : List (DescribedField σ)) : List (String × Layout) :=
  fields.map fun f => (f.name, f.layout)

/-- The fields as a reader sees them. -/
def readers (fields : List (DescribedField σ)) : List (String × Decoder (σ → σ)) :=
  fields.map fun f => (f.name, f.read)

/-- The fields as a visitor sees them. -/
def visitors (fields : List (DescribedField σ)) : List (String × Visitor (σ → σ)) :=
  fields.map fun f => (f.name, f.visit)

/-- The layout has the names of the fields. -/
lemma names_layouts (fields : List (DescribedField σ)) :
    (layouts fields).map (·.1) = fields.map (·.name) :=
  List.map_map

/-- So have the readers. -/
lemma names_readers (fields : List (DescribedField σ)) :
    (readers fields).map (·.1) = fields.map (·.name) :=
  List.map_map

/-- Reading a field is asking for its value, or for the default that changes nothing. -/
lemma readFields_of {visit : Visitor α} {read : Decoder α} {l : Layout} {h : visit.Follows read l}
    {name : String} {set : α → σ → σ} {s : σ} (default : α) (unchanged : set default s = s)
    (fields : List (DescribedField σ)) (entries : Entries) :
    readFields entries (readers (of name h set :: fields)) s =
      (Toml.optional entries name read default).bind fun a =>
        readFields entries (readers fields) (set a s) := by
  have step : readFields entries (readers (of name h set :: fields)) s =
      (Toml.optional entries name (fun v => (read v).map set) id).bind fun change =>
        readFields entries (readers fields) (change s) := rfl
  rw [step, Toml.optional, Toml.optional]
  cases lookup entries name with
  | none =>
    rw [Option.bind_some, Option.bind_some, unchanged]
    rfl
  | some v => rw [Option.bind_map]; rfl

/-- Fields do not interfere if what they store can be stored in any order. -/
lemma independent_of {visit : Visitor α} {read : Decoder α} {l : Layout} {h : visit.Follows read l}
    {visit' : Visitor β} {read' : Decoder β} {l' : Layout} {h' : visit'.Follows read' l'}
    {name name' : String} {set : α → σ → σ} {set' : β → σ → σ}
    (commute : ∀ a b s, set a (set' b s) = set' b (set a s)) :
    Independent (of name h set).read (of name' h' set').read := by
  intro v v' change change' hread hread' s
  obtain ⟨a, -, rfl⟩ := Option.map_eq_some_iff.1 hread
  obtain ⟨b, -, rfl⟩ := Option.map_eq_some_iff.1 hread'
  exact commute a b s

/-- A key has a field for all of them, or for none. -/
lemma lookup_cases (fields : List (DescribedField σ)) (key : String) :
    (lookup (layouts fields) key = none ∧ lookup (readers fields) key = none ∧
      lookup (visitors fields) key = none) ∨
    ∃ f : DescribedField σ, lookup (layouts fields) key = some f.layout ∧
      lookup (readers fields) key = some f.read ∧ lookup (visitors fields) key = some f.visit := by
  induction fields with
  | nil => exact .inl ⟨rfl, rfl, rfl⟩
  | cons f fields ih =>
    simp only [layouts, readers, visitors, List.map_cons, lookup_cons]
    by_cases same : f.name = key
    · simp only [if_pos same]
      exact .inr ⟨f, rfl, rfl, rfl⟩
    · simp only [if_neg same]
      exact ih

end DescribedField

namespace Visitor

open DescribedField Layout

variable {fields : List (DescribedField σ)}

/-- Visiting entries is reading in their order, and notes what is found entry by entry. -/
lemma adds_visitEntries {entries : Entries} (distinct : ∀ e ∈ entries, e.2.Distinct) :
    ∃ paths, (∀ path, path ∈ paths ↔ ∃ e ∈ entries, path ∈ entryPaths (layouts fields) e) ∧
      ∀ place s, (visitEntries (visitors fields) place entries s).Adds
        (readEntries (readers fields) entries s) (shown place paths) := by
  induction entries with
  | nil => exact ⟨[], by simp, fun _ s => Noting.adds_pure s⟩
  | cons e entries ih =>
    obtain ⟨more, same, adds⟩ := ih fun e' he' => distinct e' (List.mem_cons_of_mem e he')
    rcases lookup_cases fields e.1 with ⟨hl, hr, hv⟩ | ⟨f, hl, hr, hv⟩
    · refine ⟨[e.1] :: more, ?_, fun place s => ?_⟩
      · simp [same, entryPaths, hl]
      · rw [visitEntries, readEntries, hr, hv]
        exact (Noting.adds_note (place ++ [e.1])).bind fun _ => adds place s
    · obtain ⟨here, found, addsHere⟩ := f.follows e.2 (distinct e List.mem_cons_self)
      refine ⟨under e.1 here ++ more, ?_, fun place s => ?_⟩
      · simp [same, entryPaths, hl, mem_under_iff, found]
      · rw [visitEntries, readEntries, hr, hv, shown_append, shown_under]
        exact (addsHere (place ++ [e.1])).bind fun change => adds place (change s)

/-- Visiting items is reading the fields that they stand for.

**Proof sketch.** By induction on the fields and the items together. The first item stands for the
first field, and no other field has its name, so the rest of the fields is read in the rest of the
items. -/
lemma adds_visitItems (names : (fields.map (·.name)).Nodup) {items : List Value}
    (distinct : ∀ v ∈ items, v.Distinct) (n : Nat) :
    ∃ paths, (∀ path, path ∈ paths ↔ path ∈ unknownByPosition (layouts fields) n items) ∧
      ∀ place s, (visitItems place (visitors fields) n items s).Adds
        (readFields ((fields.map (·.name)).zip items) (readers fields) s) (shown place paths) := by
  induction fields generalizing items n with
  | nil => exact ⟨[], by simp [layouts, unknownByPosition], fun _ s => Noting.adds_pure s⟩
  | cons f fields ih =>
    cases items with
    | nil =>
      refine ⟨[], by simp [layouts, unknownByPosition], fun place s => ?_⟩
      rw [List.zip_nil_right, readFields_nil]
      exact Noting.adds_pure s
    | cons v items =>
      rw [List.map_cons, List.nodup_cons] at names
      obtain ⟨more, same, adds⟩ :=
        ih names.2 (fun w hw => distinct w (List.mem_cons_of_mem v hw)) (n + 1)
      obtain ⟨here, found, addsHere⟩ := f.follows v (distinct v List.mem_cons_self)
      refine ⟨under (toString n) here ++ more, fun path => ?_, fun place s => ?_⟩
      · rw [layouts, List.map_cons, unknownByPosition, List.mem_append, List.mem_append,
          mem_under_iff, mem_under_iff, same]
        simp only [found, layouts]
      · have other : f.name ∉ (readers fields).map (·.1) := by
          rw [names_readers]
          exact names.1
        have read : readFields (((f :: fields).map (·.name)).zip (v :: items))
            (readers (f :: fields)) s =
              (f.read v).bind fun change =>
                readFields ((fields.map (·.name)).zip items) (readers fields) (change s) :=
          readFields_cons_self other s
        rw [read, shown_append, shown_under]
        exact (addsHere (place ++ [toString n])).bind fun change => adds place (change s)

/-- Visiting a table follows reading its fields. -/
lemma adds_visitEntries_table (start : σ) (names : (fields.map (·.name)).Nodup)
    (independent : fields.Pairwise fun f g => Independent f.read g.read) {entries : Entries}
    (distinct : (Value.table entries).Distinct) :
    ∃ paths, (∀ path, path ∈ paths ↔
        path ∈ (Layout.record (layouts fields)).unknownPaths (.table entries)) ∧
      ∀ place, (visitEntries (visitors fields) place entries start).Adds
        (readFields entries (readers fields) start) (shown place paths) := by
  cases distinct with
  | table keys members =>
    obtain ⟨paths, same, adds⟩ := adds_visitEntries members
    have inLayout : ((layouts fields).map (·.1)).Nodup := by rwa [names_layouts]
    have inReader : ((readers fields).map (·.1)).Nodup := by rwa [names_readers]
    have apart : (readers fields).Pairwise fun f g => Independent f.2 g.2 :=
      List.pairwise_map.2 independent
    refine ⟨paths, fun path => ?_, fun place => ?_⟩
    · rw [same, mem_unknownPaths_table_iff inLayout keys]
    · rw [← readEntries_eq_readFields inReader apart keys]
      exact adds place start

/-- **Visiting a record follows reading it**, if the fields have distinct names, none of them that
of date-times, and the changes by different fields do not interfere.

**Proof sketch.** A table is visited entry by entry, and the order of the changes does not matter
(`readEntries_eq_readFields`). An array is visited in the order of the fields. A date-time is
visited like a table with one entry, which has no field. -/
theorem follows_record (fields : List (DescribedField σ)) (start : σ)
    (names : (fields.map (·.name)).Nodup) (undated : datetimeField ∉ fields.map (·.name))
    (independent : fields.Pairwise fun f g => Independent f.read g.read) :
    (record start (visitors fields)).Follows
      (fun v => (v.fields? (fields.map (·.name))).bind fun entries =>
        readFields entries (readers fields) start)
      (.record (layouts fields)) := by
  intro v distinct
  cases v with
  | table entries => exact adds_visitEntries_table start names independent distinct
  | array items =>
    cases distinct with
    | array members =>
      obtain ⟨paths, same, adds⟩ := adds_visitItems names members 0
      exact ⟨paths, fun path => by rw [same, unknownPaths], fun place => adds place start⟩
  | datetime spelling =>
    have keys : ([(datetimeField, Value.str spelling)].map (·.1)).Nodup := List.nodup_singleton _
    obtain ⟨paths, same, adds⟩ := adds_visitEntries_table start names independent
      (.table keys (List.forall_mem_singleton.2 (.str spelling)))
    refine ⟨paths, fun path => ?_, adds⟩
    have inLayout : ((layouts fields).map (·.1)).Nodup := by rwa [names_layouts]
    have unnamed : lookup (layouts fields) datetimeField = none := by
      rw [lookup_eq_none_iff, names_layouts]
      exact undated
    rw [same, mem_unknownPaths_table_iff inLayout keys, unknownPaths]
    simp [entryPaths, unnamed]
  | _ => exact ⟨[], fun path => by simp [unknownPaths], fun _ _ => rfl⟩

end Visitor

end ContainerLint
