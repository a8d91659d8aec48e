import ContainerLint.Proofs.Settings.Visits
import ContainerLint.Proofs.Text.ByteOrder
import Mathlib.Data.List.Sort

/-!
# The report about a settings file

A settings file is visited along the layout of settings: each of its tables is a record whose fields
are described by a layout, a reader and a visitor that agree. So the settings that are read with
notes are those that are read without, and the notes are the keys that the layout does not name. The
report is in the order of bytes and has no repetitions.

## Main definitions

* `Settings.layout` — the keys of a settings file.
* `Settings.unknownKeys` — the keys of a document that the layout does not name, as they are
  reported.

## Main results

* `Settings.follows_settings` — settings are read and visited alike.
* `Settings.decodeReporting_eq` — settings are read with notes as without.
* `Settings.mem_unknownKeys_iff`, `Settings.pairwise_unknownKeys` — the report.
-/

set_option autoImplicit false

namespace ContainerLint

open Toml

namespace Settings

open Layout

/-! ## The layout of settings -/

/-- The layout of a record whose fields have no fields of their own. -/
def leaves (names : List String) : Layout :=
  .record (names.map fun name => (name, .leaf))

/-- The layout of both checks. -/
def checksLayout : Layout :=
  .record (checkNames.map fun name => (name, leaves CheckSettings.fieldNames))

/-- The tables of a settings file. -/
def tables : List (String × Layout) :=
  [("logging", leaves LoggingSettings.fieldNames), ("checks", checksLayout),
    ("catalog", leaves ["extra"])]

/-- The keys of a settings file. -/
def layout : Layout :=
  .record tables

/-- Distinct names make a layout with distinct names. -/
lemma distinct_leaves {names : List String} (nodup : names.Nodup) : (leaves names).Distinct := by
  refine .record ?_ (List.forall_mem_map.2 fun _ _ => .leaf)
  rw [List.map_map]
  exact (List.map_id names).symm ▸ nodup

/-- The fields of settings have distinct names, on each level. -/
lemma distinct_layout : layout.Distinct := by
  have checks : checksLayout.Distinct :=
    .record (by decide) (List.forall_mem_map.2 fun _ _ => distinct_leaves (by decide))
  refine .record (by decide) ?_
  simp only [tables, List.forall_mem_cons]
  exact ⟨distinct_leaves (by decide), checks, distinct_leaves (by decide), List.forall_mem_nil _⟩

/-! ## Settings with notes -/

section Follows

open Visitor DescribedField

/-- The fields of logging settings. -/
def loggingFields : List (DescribedField LoggingSettings) :=
  [.of "level" (follows_leaf .text) fun level s => { s with level },
    .of "json" (follows_leaf .flag) fun json s => { s with json },
    .of "stderr" (follows_leaf .flag) fun stderr s => { s with stderr }]

/-- Logging settings are read and visited alike. -/
lemma follows_logging :
    LoggingSettings.visit.Follows LoggingSettings.decode (leaves LoggingSettings.fieldNames) := by
  have read : LoggingSettings.decode = fun v =>
      (v.fields? LoggingSettings.fieldNames).bind fun entries =>
        readFields entries (readers loggingFields) {} := by
    funext v
    refine Option.bind_congr fun entries _ => ?_
    rw [loggingFields, readFields_of _ rfl]
    refine Option.bind_congr fun level _ => ?_
    rw [readFields_of _ rfl]
    refine Option.bind_congr fun json _ => ?_
    rw [readFields_of _ rfl]
    rfl
  rw [read]
  refine follows_record loggingFields {} (by decide) (by decide) ?_
  refine .cons (List.forall_mem_cons.2 ?_) (List.pairwise_pair.2 ?_)
  · exact ⟨independent_of fun _ _ _ => rfl,
      List.forall_mem_singleton.2 (independent_of fun _ _ _ => rfl)⟩
  · exact independent_of fun _ _ _ => rfl

/-- The fields of check settings. -/
def checkFields : List (DescribedField CheckSettings) :=
  [.of "enabled" (follows_leaf fun v => (Decoder.flag v).map some)
      fun enabled s => { s with enabled },
    .of "severity" (follows_leaf (.choice CheckSettings.severityNames))
      fun severity s => { s with severity }]

/-- Check settings are read and visited alike. -/
lemma follows_check :
    CheckSettings.visit.Follows CheckSettings.decode (leaves CheckSettings.fieldNames) := by
  have read : CheckSettings.decode = fun v =>
      (v.fields? CheckSettings.fieldNames).bind fun entries =>
        readFields entries (readers checkFields) {} := by
    funext v
    refine Option.bind_congr fun entries _ => ?_
    rw [checkFields, readFields_of _ rfl]
    refine Option.bind_congr fun enabled _ => ?_
    rw [readFields_of _ rfl]
    rfl
  rw [read]
  refine follows_record checkFields {} (by decide) (by decide) ?_
  exact List.pairwise_pair.2 (independent_of fun _ _ _ => rfl)

/-- The fields of the table of checks. -/
def checksFields : List (DescribedField (CheckSettings × CheckSettings)) :=
  [.of "strict_collection_incompatible_type" follows_check fun strict s => (strict, s.2),
    .of "unexpected_type" follows_check fun unexpected s => (s.1, unexpected)]

/-- The settings of both checks are read and visited alike. -/
lemma follows_checks : visitChecks.Follows decodeChecks checksLayout := by
  have read : decodeChecks = fun v => (v.fields? checkNames).bind fun entries =>
      readFields entries (readers checksFields) ({}, {}) := by
    funext v
    refine Option.bind_congr fun entries _ => ?_
    rw [checksFields, readFields_of _ rfl]
    refine Option.bind_congr fun strict _ => ?_
    rw [readFields_of _ rfl]
    rfl
  rw [read]
  refine follows_record checksFields ({}, {}) (by decide) (by decide) ?_
  exact List.pairwise_pair.2 (independent_of fun _ _ _ => rfl)

/-- The field of the table of catalogs. -/
def catalogFields : List (DescribedField (List String)) :=
  [.of "extra" (follows_leaf (.list .text)) fun paths _ => paths]

/-- The paths of further catalogs are read and visited alike. -/
lemma follows_catalog : visitCatalog.Follows decodeCatalog (leaves ["extra"]) := by
  have read : decodeCatalog = fun v => (v.fields? ["extra"]).bind fun entries =>
      readFields entries (readers catalogFields) [] := by
    funext v
    refine Option.bind_congr fun entries _ => ?_
    rw [catalogFields, readFields_of [] rfl]
    exact (Option.bind_fun_some _).symm
  rw [read]
  exact follows_record catalogFields [] (by decide) (by decide) (List.pairwise_singleton ..)

/-- The tables of a settings file. -/
def settingsFields : List (DescribedField Settings) :=
  [.of "logging" follows_logging fun logging s => { s with logging },
    .of "checks" follows_checks fun checks s =>
      { s with strictCheck := checks.1, unexpectedCheck := checks.2 },
    .of "catalog" follows_catalog fun extraCatalogs s => { s with extraCatalogs }]

/-- Settings are read and visited alike. -/
lemma follows_settings : Settings.visit.Follows
    (fun v => (v.fields? (tables.map (·.1))).bind decode) layout := by
  have read (entries : Entries) :
      decode entries = readFields entries (readers settingsFields) {} := by
    rw [settingsFields, readFields_of _ rfl]
    refine Option.bind_congr fun logging _ => ?_
    rw [readFields_of ({}, {}) rfl]
    refine Option.bind_congr fun checks _ => ?_
    rw [readFields_of _ rfl]
    rfl
  simp only [funext read]
  refine follows_record settingsFields {} (by decide) (by decide) ?_
  refine .cons (List.forall_mem_cons.2 ?_) (List.pairwise_pair.2 ?_)
  · exact ⟨independent_of fun _ _ _ => rfl,
      List.forall_mem_singleton.2 (independent_of fun _ _ _ => rfl)⟩
  · exact independent_of fun _ _ _ => rfl

end Follows

/-! ## The report -/

/-- No member is lost with the repetitions. -/
lemma mem_dropRepeated_iff {key : String} {keys : List String} :
    key ∈ dropRepeated keys ↔ key ∈ keys := by
  fun_induction dropRepeated keys with
  | case1 => rfl
  | case2 => rfl
  | case3 a rest ih =>
    rw [ih]
    simp only [List.mem_cons, or_self_left]
  | case4 a b rest _ ih => rw [List.mem_cons, ih, ← List.mem_cons]

/-- A sorted list without repetitions is strictly sorted. -/
lemma pairwise_dropRepeated {keys : List String} (sorted : keys.Pairwise (· ≤ ·)) :
    (dropRepeated keys).Pairwise (· < ·) := by
  fun_induction dropRepeated keys with
  | case1 => exact .nil
  | case2 a => exact List.pairwise_singleton _ a
  | case3 a rest ih => exact ih sorted.tail
  | case4 a b rest ne ih =>
    -- only neighbours are compared; what comes after `b` is above it by the order
    obtain ⟨above, sorted⟩ := List.pairwise_cons.1 sorted
    have first : a < b := lt_of_le_of_ne (above b List.mem_cons_self) ne
    refine List.pairwise_cons.2 ⟨fun key mem => ?_, ih sorted⟩
    rcases List.mem_cons.1 (mem_dropRepeated_iff.1 mem) with rfl | behind
    · exact first
    · exact first.trans_le (List.rel_of_pairwise_cons sorted behind)

/-- What is reported are the keys that were noted. -/
lemma mem_reported_iff {key : String} {notes : List String} :
    key ∈ reported notes ↔ key ∈ notes := by
  rw [reported, mem_dropRepeated_iff, List.mem_mergeSort]

/-- Each is reported once, and in order. -/
lemma pairwise_reported (notes : List String) : (reported notes).Pairwise (· < ·) := by
  refine pairwise_dropRepeated ?_
  refine (List.pairwise_mergeSort (fun a b c hab hbc => ?_) (fun a b => ?_) _).imp of_decide_eq_true
  · exact decide_eq_true ((of_decide_eq_true hab).trans (of_decide_eq_true hbc))
  · simpa using le_total a b

/-- In which order and how often keys are noted does not count. -/
lemma reported_congr {notes notes' : List String} (h : ∀ key, key ∈ notes ↔ key ∈ notes') :
    reported notes = reported notes' := by
  refine (pairwise_reported notes).eq_of_mem_iff (pairwise_reported notes') fun key => ?_
  rw [mem_reported_iff, mem_reported_iff, h]

/-- The keys of a document that the layout of settings does not name, as they are reported. -/
def unknownKeys (document : Entries) : List String :=
  reported ((layout.unknownPaths (.table document)).map showPath)

/-- The report is in the order of bytes, without repetitions. -/
theorem pairwise_unknownKeys (document : Entries) :
    (unknownKeys document).Pairwise fun a b => Text.bytes a < Text.bytes b :=
  (pairwise_reported _).imp Text.bytes_lt_bytes

/-- **Settings are read with notes as without**, and the keys that the layout does not name are
noted. -/
theorem decodeReporting_eq {document : Entries} (distinct : (Value.table document).Distinct) :
    decodeReporting document = (decode document).map fun s => (s, unknownKeys document) := by
  obtain ⟨paths, same, adds⟩ := follows_settings (.table document) distinct
  have run : (visit [] (.table document)).run [] =
      (decode document).map fun s => (s, shown [] paths) := adds [] []
  have report : reported (shown [] paths) = unknownKeys document := by
    refine reported_congr fun key => ?_
    simp only [shown, List.nil_append, List.mem_map, same]
  rw [decodeReporting, run, ← report]
  cases decode document <;> rfl

/-- **The report has the paths of the entries without a name, and those of date-times in the place
of tables.** -/
theorem mem_unknownKeys_iff {document : Entries} (distinct : (Value.table document).Distinct)
    {key : String} :
    key ∈ unknownKeys document ↔
      ∃ path, layout.Reported (.table document) path ∧ showPath path = key := by
  simp only [unknownKeys, mem_reported_iff, List.mem_map,
    mem_unknownPaths_iff distinct_layout distinct]

/-- Nothing is reported if there is nothing to report. -/
lemma unknownKeys_eq_nil_iff {document : Entries} (distinct : (Value.table document).Distinct) :
    unknownKeys document = [] ↔ ∀ path, ¬ layout.Reported (.table document) path := by
  simp only [List.eq_nil_iff_forall_not_mem, mem_unknownKeys_iff distinct, not_exists, not_and]
  exact ⟨fun h path reported => h _ path reported rfl, fun h _ path reported _ => h path reported⟩

end Settings

end ContainerLint
