import ContainerLint.Settings.Load
import ContainerLint.Proofs.Settings.Reports
import Mathlib

/-!
# Unknown keys of settings files

Settings are read by asking for the fields that are known. So an entry that the layout of settings
does not name has no effect on them, and all that such an entry does is to be reported.

One report is not about an entry: where a table of settings is expected and the document has a
date-time, the field that stands for the spelling of a date-time is reported, although it is not in
the document. Removing entries does not remove this report.

## Main definitions

* `Layout.Covers` — a reader finds nothing that the layout does not name.
* `Settings.withoutUnnamed` — a document without the entries that mean nothing.

## Main results

* `Layout.bind_fields?_prune` — a record is read alike before and after the removal.
* `Settings.decode_withoutUnnamed` — so are settings.
* `Settings.ofText_eq_map` — a text is loaded with a report as without.
* `Settings.unknownKeys_without_effect` — unknown keys are reported and have no other effect.
-/

set_option autoImplicit false

namespace ContainerLint

open Toml

/-! ## Readers ask for known fields only -/

namespace Layout

variable {α : Type} {l : Layout} {fields : List (String × Layout)} {before after : Entries}

/-- A reader reads the same in a value and in what the layout leaves of it. -/
def Covers (l : Layout) (read : Decoder α) : Prop :=
  ∀ v, read (l.prune v) = read v

/-- Nothing is removed from a leaf. -/
lemma covers_leaf (read : Decoder α) : Covers .leaf read := by
  intro v
  rw [prune]

/-- What is found in each field of a record is what its layout leaves of it. -/
def Trimmed (fields : List (String × Layout)) (before after : Entries) : Prop :=
  ∀ name l, lookup fields name = some l → lookup after name = (lookup before name).map l.prune

/-- The entries of a table. -/
lemma trimmed_filterMap (entries : Entries) :
    Trimmed fields entries (entries.filterMap (pruneEntry fields)) := by
  intro name l named
  induction entries with
  | nil => rfl
  | cons e entries ih =>
    rw [List.filterMap_cons, pruneEntry_eq_map, lookup_cons e]
    by_cases same : e.1 = name
    · subst same
      rw [named, if_pos rfl, Option.map_some]
      exact (lookup_cons ..).trans (if_pos rfl)
    · -- kept or removed, an entry with another key is passed over
      rw [if_neg same, ← ih]
      cases lookup fields e.1 with
      | none => rfl
      | some l => exact (lookup_cons ..).trans (if_neg same)

/-- The elements of an array, as the fields in their order. -/
lemma trimmed_zip (items : List Value) :
    Trimmed fields ((fields.map (·.1)).zip items)
      ((fields.map (·.1)).zip (pruneItems fields items)) := by
  intro name l named
  induction fields generalizing items with
  | nil => cases named
  | cons f fields ih =>
    cases items with
    | nil => rfl
    | cons v items =>
      rw [lookup_cons] at named
      rw [pruneItems, List.map_cons, List.zip_cons_cons, List.zip_cons_cons, lookup_cons,
        lookup_cons]
      by_cases same : f.1 = name
      · rw [if_pos same, Option.some.injEq] at named
        rw [if_pos same, if_pos same, named, Option.map_some]
      · rw [if_neg same] at named
        rw [if_neg same, if_neg same, ih items named]

/-- The spelling of a date-time. -/
lemma trimmed_datetime (key spelling : String) :
    Trimmed fields [(key, .str spelling)] [(key, .str spelling)] := by
  intro name l _
  have unchanged : l.prune (.str spelling) = .str spelling := by
    cases l <;> rfl
  rw [lookup_cons]
  split_ifs
  · rw [Option.map_some, unchanged]
  · rfl

/-- **A record is read alike before and after the removal**, if what is made of its fields depends
only on what is found in them. -/
theorem bind_fields?_prune {use : Entries → Option α}
    (alike : ∀ before after, Trimmed fields before after → use after = use before) (v : Value) :
    (((record fields).prune v).fields? (fields.map (·.1))).bind use =
      (v.fields? (fields.map (·.1))).bind use := by
  cases v with
  | table entries =>
    rw [prune_table]
    exact alike _ _ (trimmed_filterMap entries)
  | array items =>
    rw [prune_array]
    exact alike _ _ (trimmed_zip items)
  | datetime spelling => exact alike _ _ (trimmed_datetime datetimeField spelling)
  | _ => rfl

/-- A field with a default is read alike. -/
lemma Trimmed.optional (h : Trimmed fields before after) {name : String}
    (named : lookup fields name = some l) {read : Decoder α} (covers : l.Covers read)
    (default : α) :
    Toml.optional after name read default = Toml.optional before name read default := by
  rw [Toml.optional, Toml.optional, h name l named]
  cases lookup before name with
  | none => rfl
  | some v => exact covers v

/-- So is a field without fields of its own. -/
lemma Trimmed.optional_leaf {names : List String}
    (h : Trimmed (names.map fun name => (name, leaf)) before after) {name : String}
    (mem : name ∈ names) (read : Decoder α) (default : α) :
    Toml.optional after name read default = Toml.optional before name read default := by
  refine h.optional ?_ (covers_leaf read) default
  clear h
  induction names with
  | nil => cases mem
  | cons first names ih =>
    rw [List.map_cons, lookup_cons]
    split_ifs with same
    · rfl
    · exact ih ((List.mem_cons.1 mem).resolve_left (Ne.symm same))

end Layout

namespace Settings

open Layout

/-! ## Settings without unknown keys -/

/-- The reader of logging settings looks at its three fields only. -/
lemma covers_logging : (leaves LoggingSettings.fieldNames).Covers LoggingSettings.decode := by
  refine bind_fields?_prune fun before after h => ?_
  dsimp only
  rw [h.optional_leaf (by decide), h.optional_leaf (by decide), h.optional_leaf (by decide)]

/-- That of check settings looks at its two. -/
lemma covers_check : (leaves CheckSettings.fieldNames).Covers CheckSettings.decode := by
  refine bind_fields?_prune fun before after h => ?_
  dsimp only
  rw [h.optional_leaf (by decide), h.optional_leaf (by decide)]

/-- The checks are fields with fields of their own. -/
lemma covers_checks : checksLayout.Covers decodeChecks := by
  refine bind_fields?_prune fun before after h => ?_
  rw [h.optional rfl covers_check, h.optional rfl covers_check]

/-- The paths of further catalogs are in the one field of their table. -/
lemma covers_catalog : (leaves ["extra"]).Covers decodeCatalog := by
  refine bind_fields?_prune fun before after h => ?_
  exact h.optional_leaf (by decide) _ []

/-- A document without the entries that the layout of settings does not name. -/
def withoutUnnamed (document : Entries) : Entries :=
  document.filterMap (pruneEntry tables)

/-- That is what the layout leaves of the document. -/
lemma prune_layout (document : Entries) :
    layout.prune (.table document) = .table (withoutUnnamed document) :=
  prune_table

/-- **Entries without a name have no effect on settings.** -/
theorem decode_withoutUnnamed (document : Entries) :
    decode (withoutUnnamed document) = decode document := by
  have h : Trimmed tables document (withoutUnnamed document) := trimmed_filterMap document
  rw [decode, decode, h.optional rfl covers_logging, h.optional rfl covers_checks,
    h.optional rfl covers_catalog]

/-- What is left of a document has distinct keys. -/
lemma distinct_withoutUnnamed {document : Entries} (distinct : (Value.table document).Distinct) :
    (Value.table (withoutUnnamed document)).Distinct := by
  rw [← prune_layout]
  exact distinct_prune distinct_layout distinct

/-- Of a document without unnamed entries only date-times are reported. -/
lemma unknownKeys_withoutUnnamed_eq_nil_iff {document : Entries}
    (distinct : (Value.table document).Distinct) :
    unknownKeys (withoutUnnamed document) = [] ↔
      ∀ path, ¬ layout.Dated (.table document) path := by
  rw [unknownKeys_eq_nil_iff (distinct_withoutUnnamed distinct), ← prune_layout]
  refine forall_congr' fun path => not_congr ?_
  rw [Reported, dated_prune_iff distinct_layout]
  exact or_iff_right (not_unnamed_prune distinct_layout)

/-! ## Loading -/

/-- **A text is loaded with a report as without.** The pass that notes keys succeeds on the table
that the text describes if and only if the one that does not succeeds, with the same settings. -/
theorem ofText_eq_map (text : String) : ofText text = (ofTextReporting text).map (·.1) := by
  rw [ofText, ofTextReporting, readReporting]
  cases parsed : parse? text with
  | none => rfl
  | some document =>
    rw [Option.bind_some, Option.bind_some, decodeReporting_eq (distinct_of_parse? parsed)]
    cases decode document with
    | none => rfl
    | some s => rfl

/-- The settings and the report are about the table that a text describes. -/
lemma of_ofTextReporting {text : String} {document : Entries} {s : Settings}
    {report : SettingsReport} (parsed : parse? text = some document)
    (h : ofTextReporting text = .ok (s, report)) :
    decode document = some s ∧ report.unknownKeys = unknownKeys document := by
  rw [ofTextReporting, readReporting, parsed, Option.bind_some,
    decodeReporting_eq (distinct_of_parse? parsed)] at h
  cases decoded : decode document with
  | none =>
    rw [decoded] at h
    cases h
  | some s' =>
    rw [decoded] at h
    cases h
    exact ⟨rfl, rfl⟩

/-- **Unknown keys are reported, and have no other effect.** Loading a text with a report gives the
settings that it gives without one, or fails alike. If the text describes a table, then

* the pass with notes reads in this table what the one without notes reads, and fails where that
  one fails, and it reports the unknown keys; the same holds of the table without the entries that
  the layout does not name;
* the settings and the report of the text are about this table;
* the report has the paths of the entries that the layout does not name at their level, and those of
  date-times in the place of tables, and is strictly increasing in the order of bytes;
* removing the entries that the layout does not name, on whatever level, changes no setting;
* nothing is reported of what is left, if no date-time stands in the place of a table;
* nothing is reported of the table itself, if moreover each of its entries has a name. Elements of
  an array beyond the fields that it stands for belong to no level of the layout.

**Proof sketch.** The pass with notes is led through each table entry by entry. Its changes to the
settings can be made in the order of the fields, in which the other pass makes them, and its notes
are what a search along the layout finds (`decodeReporting_eq`). What is found is characterized by
the places where the layout meets the table (`mem_unknownKeys_iff`); here it counts that the keys of
the table are distinct. The removal keeps these places, and takes from each table the entries that
would be reported. Readers only look up fields, and find there what the removal leaves
(`decode_withoutUnnamed`). -/
theorem unknownKeys_without_effect (text : String) :
    ofText text = (ofTextReporting text).map (·.1) ∧
    ∀ document, parse? text = some document →
      (∀ d ∈ [document, withoutUnnamed document],
        decodeReporting d = (decode d).map fun s => (s, unknownKeys d)) ∧
      (∀ s report, ofTextReporting text = .ok (s, report) →
        decode document = some s ∧ report.unknownKeys = unknownKeys document) ∧
      (∀ key, key ∈ unknownKeys document ↔
        ∃ path, layout.Reported (.table document) path ∧ showPath path = key) ∧
      (unknownKeys document).Pairwise (fun a b => Text.bytes a < Text.bytes b) ∧
      decode (withoutUnnamed document) = decode document ∧
      (∀ path, ¬ layout.Unnamed (.table (withoutUnnamed document)) path) ∧
      (unknownKeys (withoutUnnamed document) = [] ↔
        ∀ path, ¬ layout.Dated (.table document) path) ∧
      (unknownKeys document = [] ↔
        (∀ path, ¬ layout.Unnamed (.table document) path) ∧
          ∀ path, ¬ layout.Dated (.table document) path) := by
  refine ⟨ofText_eq_map text, fun document parsed => ?_⟩
  have distinct := distinct_of_parse? parsed
  refine ⟨?_, fun s report h => of_ofTextReporting parsed h,
    fun key => mem_unknownKeys_iff distinct, pairwise_unknownKeys document,
    decode_withoutUnnamed document, ?_, unknownKeys_withoutUnnamed_eq_nil_iff distinct, ?_⟩
  · refine List.forall_mem_cons.2 ⟨decodeReporting_eq distinct, List.forall_mem_singleton.2 ?_⟩
    exact decodeReporting_eq (distinct_withoutUnnamed distinct)
  · rw [← prune_layout]
    exact fun path => not_unnamed_prune distinct_layout
  · simp only [unknownKeys_eq_nil_iff distinct, Reported, not_or, forall_and]

/-- A document with an unknown key at the top, and one in a table within an array. -/
def misspelled : Entries :=
  [("check", .bool true),
    ("checks", .array [.table [("enabeld", .bool true), ("severity", .str "error")]])]

/-- **Misspelled keys are reported, and do nothing else.** The pass with notes reads the severity of
the first check. It notes the unknown keys and nothing else, and if they are removed, it notes
nothing.

**Proof sketch.** The text is parsed, and the search along the layout is computed. What the pass
with notes reads and reports is then given by the general theorem. -/
theorem unknownKeys_misspelled :
    parse? "check = true\n[[checks]]\nenabeld = true\nseverity = 'error'\n" = some misspelled ∧
      decodeReporting misspelled =
        some ({ strictCheck := { severity := .error } }, ["check", "checks[0].enabeld"]) ∧
      decodeReporting (withoutUnnamed misspelled) =
        some ({ strictCheck := { severity := .error } }, []) ∧
      unknownKeys misspelled = ["check", "checks[0].enabeld"] ∧
      withoutUnnamed misspelled =
        [("checks", .array [.table [("severity", .str "error")]])] ∧
      decode (withoutUnnamed misspelled) = decode misspelled ∧
      unknownKeys (withoutUnnamed misspelled) = [] ∧
      ∀ path, ¬ layout.Dated (.table misspelled) path := by
  have parsed : parse? "check = true\n[[checks]]\nenabeld = true\nseverity = 'error'\n" =
      some misspelled := by
    cbv
  have reported : unknownKeys misspelled = ["check", "checks[0].enabeld"] := by
    rw [unknownKeys, Settings.reported, List.mergeSort_of_pairwise (by decide)]
    decide
  have silent : unknownKeys (withoutUnnamed misspelled) = [] := by
    rw [unknownKeys, Settings.reported, List.mergeSort_of_pairwise (by decide)]
    decide
  have read : decode misspelled = some { strictCheck := { severity := .error } } := rfl
  obtain ⟨noted, -, -, -, same, -, left, -⟩ := (unknownKeys_without_effect _).2 misspelled parsed
  obtain ⟨before, after⟩ := List.forall_mem_cons.1 noted
  rw [List.forall_mem_singleton, same] at after
  rw [read, reported] at before
  rw [read, silent] at after
  exact ⟨parsed, before, after, reported, rfl, same, silent, left.1 silent⟩

/-- The date-time of a document can be reported, although each entry of the document has a name and
nothing can be removed.

**Proof sketch.** The text is parsed, and the search along the layout is computed. Nothing is
removed, since the one key is the name of a table. -/
theorem unknownKeys_dated :
    parse? "logging = 1979-05-27\n" = some [("logging", .datetime "1979-05-27")] ∧
      decode [("logging", .datetime "1979-05-27")] = some {} ∧
      withoutUnnamed [("logging", .datetime "1979-05-27")] =
        [("logging", .datetime "1979-05-27")] ∧
      (∀ path, ¬ layout.Unnamed (.table [("logging", .datetime "1979-05-27")]) path) ∧
      unknownKeys [("logging", .datetime "1979-05-27")] =
        ["logging.$__toml_private_datetime"] ∧
      decodeReporting [("logging", .datetime "1979-05-27")] =
        some ({}, ["logging.$__toml_private_datetime"]) := by
  have parsed : parse? "logging = 1979-05-27\n" =
      some [("logging", .datetime "1979-05-27")] := by
    cbv
  have unchanged : withoutUnnamed [("logging", .datetime "1979-05-27")] =
      [("logging", .datetime "1979-05-27")] := rfl
  have reported : unknownKeys [("logging", .datetime "1979-05-27")] =
      ["logging.$__toml_private_datetime"] := by
    rw [unknownKeys, Settings.reported, List.mergeSort_of_pairwise (by decide)]
    decide
  refine ⟨parsed, rfl, unchanged, fun path => ?_, reported, ?_⟩
  · rw [← unchanged, ← prune_layout]
    exact not_unnamed_prune distinct_layout
  · rw [decodeReporting_eq (distinct_of_parse? parsed), reported]
    rfl

end Settings

end ContainerLint
