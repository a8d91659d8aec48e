import ContainerLint.Proofs.Analysis.FirstConclusive

/-!
# Extending a catalog

A catalog that is extended by another one is asked first, and the other one only where it leaves a
call open. Entries that are skipped as duplicates, dropped as unresolvable or listed twice make no
difference: what the first of them says, the others say too. So the check for unrelated types, which
takes further catalogs from files, gives the answer of the first catalog that has one, and no file
changes an answer that the built-in catalog has.

## Main definitions

* `Catalog.decision?` — what a catalog says about a call if it decides it.
* `Analysis.firstConclusive` — the first of several analyses that decides the call.

## Main results

* `Catalog.analyze_resolve` — an analysis is the decision of the catalog, if there is one.
* `Catalog.decision?_extend` — an extended catalog decides as the first one or else as the second.
* `Checker.ofSettings_of_files` — the checker that settings ask for, if the files can be read.
* `Checker.analyze_extend_first_conclusive` — all of this for catalogs and for checkers.
-/

set_option autoImplicit false

namespace ContainerLint

/-- The first of several analyses that decides the call. If none does, the call is left open. -/
def Analysis.firstConclusive (analyses : List Analysis) : Analysis :=
  (analyses.find? fun a => a.verdict.isConclusive).getD {}

/-! ## Lists of which the first answer counts -/

section FirstAnswer

variable {α β γ : Type}

/-- To add members that are not there yet adds their answers behind those that are there. -/
lemma findSome?_foldl_insertNew [DecidableEq α] (f : α → Option β) (xs ys : List α) :
    (ys.foldl (fun zs y => if y ∈ zs then zs else zs ++ [y]) xs).findSome? f =
      (xs.findSome? f).or (ys.findSome? f) := by
  induction ys generalizing xs with
  | nil => simp
  | cons y ys ih =>
    rw [List.foldl_cons, ih]
    split
    · next mem =>
      cases hxs : xs.findSome? f with
      | some b => rfl
      | none =>
        -- nothing that is there has an answer, so the skipped member has none either
        rw [List.findSome?_cons, List.findSome?_eq_none_iff.1 hxs y mem]
    · rw [List.findSome?_append, Option.or_assoc]
      cases hy : f y <;> simp [hy]

/-- The first answer among the members that are kept. -/
lemma findSome?_filter_filterMap (g : α → Option β) (p : β → Bool) (f : β → Option γ)
    (xs : List α) :
    ((xs.filterMap g).filter p).findSome? f =
      xs.findSome? fun x => (g x).bind fun b => if p b then f b else none := by
  induction xs with
  | nil => rfl
  | cons x xs ih =>
    rw [List.findSome?_cons, List.filterMap_cons]
    cases g x with
    | none => exact ih
    | some b =>
      by_cases hb : p b = true
      · rw [List.filter_cons_of_pos hb, List.findSome?_cons, ih, Option.bind_some, if_pos hb]
      · rw [List.filter_cons_of_neg hb, Option.bind_some, if_neg hb]
        exact ih

end FirstAnswer

/-! ## What a catalog says -/

/-- What an entry says about a call if the table can express it, and it is for the method that is
called, matches the call and decides it. -/
def CatalogEntry.decision? (t : ClassTable) (index : Option AncestorIndex) (policy : Policy)
    (call : CallSite) (e : CatalogEntry) : Option Analysis :=
  match t.erasure call.receiver, t.eraseAll call.params with
  | some receiver, some params =>
    (e.resolve t).toOption.bind fun r =>
      if r.entry.method = call.method then
        ResolvedCatalog.judge t index policy call receiver params r
      else none
  | _, _ => none

/-- What a catalog says about a call if it decides it: what the first entry says that does. -/
def Catalog.decision? (t : ClassTable) (index : Option AncestorIndex) (policy : Policy)
    (call : CallSite) (c : Catalog) : Option Analysis :=
  c.entries.findSome? (CatalogEntry.decision? t index policy call)

namespace Catalog

variable {t : ClassTable} {index : Option AncestorIndex} {policy : Policy} {call : CallSite}

/-- A decision decides the call. -/
lemma isConclusive_of_decision? {c : Catalog} {a : Analysis}
    (h : c.decision? t index policy call = some a) : a.verdict.isConclusive = true := by
  obtain ⟨e, -, he⟩ := List.exists_of_findSome?_eq_some h
  unfold CatalogEntry.decision? at he
  split at he
  · obtain ⟨r, -, hr⟩ := Option.bind_eq_some_iff.1 he
    split at hr
    · obtain ⟨-, argument, -, conclusive, rfl⟩ := ResolvedCatalog.exists_of_judge_eq_some hr
      rw [Examination.verdict_analysis]
      exact conclusive
    · cases hr
  · cases he

/-- **An analysis is the decision of the catalog**, if it has one. -/
theorem analyze_resolve (t : ClassTable) (index : Option AncestorIndex) (policy : Policy)
    (call : CallSite) (c : Catalog) :
    (c.resolve t).analyze t index policy call = (c.decision? t index policy call).getD {} := by
  rw [ResolvedCatalog.analyze_eq, (c.indexed_resolve t).byMethod, c.entries_resolve]
  unfold decision? CatalogEntry.decision?
  have silent : (c.entries.findSome? fun _ => (none : Option Analysis)) = none :=
    List.findSome?_eq_none_iff.2 fun _ _ => rfl
  cases t.erasure call.receiver with
  | none => rw [silent, Option.getD_none]
  | some receiver =>
    cases t.eraseAll call.params with
    | none => rw [silent, Option.getD_none]
    | some params => simp [findSome?_filter_filterMap]

/-- An analysis is conclusive if and only if it is a decision. -/
lemma isConclusive_analyze_resolve (c : Catalog) :
    ((c.resolve t).analyze t index policy call).verdict.isConclusive =
      (c.decision? t index policy call).isSome := by
  rw [analyze_resolve]
  cases h : c.decision? t index policy call with
  | none => rfl
  | some a => exact isConclusive_of_decision? h

/-- **An extended catalog decides as the first one, or else as the second.** -/
theorem decision?_extend (c c' : Catalog) :
    (c.extend c').decision? t index policy call =
      (c.decision? t index policy call).or (c'.decision? t index policy call) :=
  findSome?_foldl_insertNew _ _ _

/-- A catalog that is extended many times decides as the first that does. -/
lemma decision?_foldl_extend (c : Catalog) (cs : List Catalog) :
    (cs.foldl extend c).decision? t index policy call =
      (c :: cs).findSome? (decision? t index policy call) := by
  induction cs generalizing c with
  | nil => cases h : c.decision? t index policy call <;> simp [h]
  | cons c' cs ih =>
    rw [List.foldl_cons, ih]
    simp only [List.findSome?_cons, decision?_extend]
    cases c.decision? t index policy call <;> rfl

/-- The first conclusive analysis is the first decision. -/
lemma firstConclusive_map_analyze (cs : List Catalog) :
    Analysis.firstConclusive (cs.map fun c => (c.resolve t).analyze t index policy call) =
      (cs.findSome? (decision? t index policy call)).getD {} := by
  unfold Analysis.firstConclusive
  induction cs with
  | nil => rfl
  | cons c cs ih =>
    rw [List.map_cons, List.find?_cons, isConclusive_analyze_resolve, List.findSome?_cons]
    cases h : c.decision? t index policy call with
    | none => exact ih
    | some a => simp [analyze_resolve, h]

end Catalog

/-! ## Checkers with further catalogs -/

namespace Checker

variable {t : ClassTable} {tree : FileTree}

/-- Catalogs from files that can all be read are put together in order. -/
lemma extraCatalog_of_files {paths : List String} {files : List Catalog}
    (h : paths.map (Catalog.ofFile tree) = files.map .ok) (c : Catalog) :
    extraCatalog tree c paths = .ok (files.foldl Catalog.extend c) := by
  induction paths generalizing files c with
  | nil =>
    obtain rfl : files = [] := by simpa using h.symm
    rfl
  | cons path paths ih =>
    cases files with
    | nil => simp at h
    | cons file files =>
      obtain ⟨first, rest⟩ := List.cons.inj h
      rw [extraCatalog, first]
      exact ih rest (c.extend file)

/-- The checker that settings ask for if all files can be read. -/
lemma ofSettings_of_files {s : Settings} {files : List Catalog}
    (h : s.extraCatalogs.map (Catalog.ofFile tree) = files.map .ok) (ids : List ClassId) :
    ∃ events, ofSettings t tree ids s =
      .ok (build t ids (configuredChecks t s (files.foldl Catalog.extend {})), events) := by
  unfold ofSettings
  rw [extraCatalog_of_files h]
  exact ⟨_, rfl⟩

/-- Every checker that settings lead to has the checks that they ask for. -/
lemma exists_of_ofSettings {ids : List ClassId} {s : Settings} {checker : Checker}
    {events : List LogEvent} (h : ofSettings t tree ids s = .ok (checker, events)) :
    ∃ extra, checker = build t ids (configuredChecks t s extra) := by
  unfold ofSettings at h
  split at h
  · cases h
  · next extra _ =>
    cases h
    exact ⟨extra, rfl⟩

/-- The kinds of the checks are those that are asked for. -/
lemma map_kind_configuredChecks (s : Settings) (extra : Catalog) :
    (configuredChecks t s extra).map (·.kind) = CheckKind.all.filter (isEnabled s) := by
  simp [configuredChecks, configured, Function.comp_def]

/-- The check for unrelated types decides as the first catalog that does, starting with the built-in
one. -/
lemma analyze_strict_of_mem {s : Settings} {files : List Catalog} {check : Check}
    (hcheck : check ∈ configuredChecks t s (files.foldl Catalog.extend {}))
    (hkind : check.kind = .strictCollection) (index : Option AncestorIndex) (call : CallSite) :
    check.catalog.analyze t index check.policy call =
      Analysis.firstConclusive ((Catalog.collectionMethods :: files).map fun c =>
        (c.resolve t).analyze t index .strict call) := by
  obtain ⟨kind, -, rfl⟩ := List.mem_map.1 hcheck
  obtain rfl : kind = .strictCollection := hkind
  change ((Catalog.collectionMethods.extend (files.foldl Catalog.extend {})).resolve t).analyze t
    index .strict call = _
  rw [Catalog.analyze_resolve, Catalog.decision?_extend, Catalog.decision?_foldl_extend,
    Catalog.firstConclusive_map_analyze, List.findSome?_cons, List.findSome?_cons]
  have empty : ({} : Catalog).decision? t index .strict call = none := rfl
  rw [empty]
  cases Catalog.collectionMethods.decision? t index .strict call <;> rfl

/-- The check for types that exclude each other is the same whatever the further catalogs are. -/
lemma filter_configuredChecks (s : Settings) (paths : List String) (extra extra' : Catalog) :
    (configuredChecks t s extra).filter (fun check => check.kind = .unexpectedType) =
      (configuredChecks t { s with extraCatalogs := paths } extra').filter
        fun check => check.kind = .unexpectedType := by
  have same (kind : CheckKind) : isEnabled { s with extraCatalogs := paths } kind =
      isEnabled s kind := by
    cases kind <;> rfl
  unfold configuredChecks
  simp only [List.filter_map, funext same]
  refine List.map_congr_left fun kind hkind => ?_
  obtain rfl : kind = .unexpectedType := of_decide_eq_true (List.mem_filter.1 hkind).2
  rfl

/-- The findings of one kind are those of the checks of that kind. -/
lemma filter_check (checker : Checker) (call : CallSite) (kind : CheckKind) :
    (checker.check t call).filter (fun finding => finding.check = kind) =
      (checker.checks.filter fun check => check.kind = kind).filterMap
        (finding? t checker.index call) := by
  unfold Checker.check
  rw [List.filter_filterMap, List.filterMap_filter]
  refine List.filterMap_congr fun check _ => ?_
  unfold finding?
  dsimp only
  split
  · cases (check.catalog.analyze t (some checker.index) check.policy call).mismatch with
    | none => simp
    | some mismatch => by_cases same : check.kind = kind <;> simp [Option.filter, same]
  · simp

/-- **To extend a catalog is to ask it first.** For every table, index, policy and call:

* a catalog that is extended by another one gives its own analysis if that is conclusive, and the
  analysis of the other one if not, whatever entries they share, repeat or cannot resolve;
* if the files that settings name can be read, there is a checker. Its check for unrelated types
  gives the first conclusive analysis among those of the built-in catalog and of the files, in
  order. If that of the built-in catalog is conclusive, the files change nothing;
* the findings of the check for types that exclude each other do not depend on the files.

**Proof sketch.** An analysis is the decision of the catalog, if it has one
(`Catalog.analyze_resolve`), and a decision is that of the first entry that has one. Extending a
catalog appends the entries of the other one that it does not have, and a repeated entry decides
nothing new (`Catalog.decision?_extend`). The catalog of the check for unrelated types is the
built-in one extended by the files; that of the other check does not mention them. -/
theorem analyze_extend_first_conclusive (t : ClassTable) :
    (∀ (index : Option AncestorIndex) (policy : Policy) (call : CallSite) (c c' : Catalog),
      ((c.extend c').resolve t).analyze t index policy call =
        if ((c.resolve t).analyze t index policy call).verdict.isConclusive then
          (c.resolve t).analyze t index policy call
        else (c'.resolve t).analyze t index policy call) ∧
    ∀ (tree : FileTree) (ids : List ClassId) (s : Settings) (files : List Catalog),
      s.extraCatalogs.map (Catalog.ofFile tree) = files.map .ok →
      ∃ checker events, ofSettings t tree ids s = .ok (checker, events) ∧
        checker.checks.map (·.kind) = CheckKind.all.filter (isEnabled s) ∧
        (∀ check ∈ checker.checks, check.kind = .strictCollection →
          ∀ (index : Option AncestorIndex) (call : CallSite),
            check.catalog.analyze t index check.policy call =
              Analysis.firstConclusive ((Catalog.collectionMethods :: files).map fun c =>
                (c.resolve t).analyze t index .strict call) ∧
            (((Catalog.collectionMethods.resolve t).analyze t index .strict
                call).verdict.isConclusive = true →
              check.catalog.analyze t index check.policy call =
                (Catalog.collectionMethods.resolve t).analyze t index .strict call)) ∧
        ∀ (tree' : FileTree) (paths : List String) (checker' : Checker) (events' : List LogEvent),
          ofSettings t tree' ids { s with extraCatalogs := paths } = .ok (checker', events') →
          ∀ call : CallSite,
            (checker.check t call).filter (fun f => f.check = .unexpectedType) =
              (checker'.check t call).filter fun f => f.check = .unexpectedType := by
  refine ⟨fun index policy call c c' => ?_, fun tree ids s files hfiles => ?_⟩
  · rw [Catalog.isConclusive_analyze_resolve, Catalog.analyze_resolve, Catalog.analyze_resolve,
      Catalog.analyze_resolve, Catalog.decision?_extend]
    cases c.decision? t index policy call <;> rfl
  · obtain ⟨events, hchecker⟩ := ofSettings_of_files (t := t) hfiles ids
    refine ⟨_, events, hchecker, map_kind_configuredChecks s _, ?_, ?_⟩
    · intro check hcheck hkind index call
      have first := analyze_strict_of_mem hcheck hkind index call
      refine ⟨first, fun builtin => ?_⟩
      rw [first, Analysis.firstConclusive, List.map_cons, List.find?_cons, builtin]
      rfl
    · intro tree' paths checker' events' hchecker' call
      obtain ⟨extra', rfl⟩ := exists_of_ofSettings hchecker'
      rw [filter_check, filter_check]
      exact congrArg (List.filterMap _) (filter_configuredChecks s paths _ extra')

/-! ## A catalog in a file -/

open ResolvedCatalog

/-- An entry for `Base.put(Object, Object)` as a catalog file writes it. -/
def putTable (argument : String) : String :=
  "[[entry]]\nbase_type = \"com.example.Base\"\nmethod = \"put\"\n" ++
    "erased_params = [\"Object\", \"Object\"]\ntype_param_index = 0\n" ++
    "arg_index = " ++ argument ++ "\n"

/-- A file with an entry for each argument of `Base.put(Object, Object)`. -/
def putTree : FileTree where
  files := [(["put.toml"], ("version = 1\n" ++ putTable "1" ++ putTable "0").toUTF8)]

/-- Settings that name this file. -/
def putSettings : Settings where
  extraCatalogs := ["/put.toml"]

/-- The file can be read. -/
lemma ofFile_putTree :
    putSettings.extraCatalogs.map (Catalog.ofFile putTree) =
      [{ entries := [putEntry 1, putEntry 0] }].map .ok := by
  decide +kernel

/-- The built-in catalog has no entry for the method. -/
lemma analyze_collectionMethods_putCall (t : ClassTable) (index : Option AncestorIndex) :
    (Catalog.collectionMethods.resolve t).analyze t index .strict putCall = {} := by
  have others : ∀ e ∈ Catalog.collectionMethods.entries, e.method ≠ putCall.method := by decide
  have none : Catalog.collectionMethods.decision? t index .strict putCall = none := by
    refine List.findSome?_eq_none_iff.2 fun e he => ?_
    unfold CatalogEntry.decision?
    split
    · cases hresolve : e.resolve t with
      | error => rfl
      | ok r => simp [Except.toOption, (CatalogEntry.resolve_eq_ok hresolve).1, others e he]
    · rfl
  rw [Catalog.analyze_resolve, none]
  rfl

/-- **A file is asked where the built-in catalog has no answer.** The settings lead to a checker
whose check for unrelated types finds what the file says about the call of `put` on `Right`.

**Proof sketch.** The general theorem gives the checker, and its check for unrelated types asks the
built-in catalog and the file in this order. The built-in catalog has no entry for `put`, and what
the file says is `analyze_putCall`. -/
theorem analyze_putTree :
    putSettings.extraCatalogs.map (Catalog.ofFile putTree) =
      [{ entries := [putEntry 1, putEntry 0] }].map .ok ∧
    ∃ checker events, ofSettings skewed putTree skewed.ids putSettings = .ok (checker, events) ∧
      ∃ check ∈ checker.checks, check.kind = .strictCollection ∧
        check.catalog.analyze skewed (some putChecker.index) check.policy putCall =
          { verdict := .incompatible,
            mismatch := some
              { entry := putEntry 0, parameter := .cls ⟨1⟩ [], argument := .cls ⟨9⟩ [] } } := by
  obtain ⟨checker, events, hchecker, kinds, strict, -⟩ :=
    (analyze_extend_first_conclusive skewed).2 putTree skewed.ids putSettings _ ofFile_putTree
  refine ⟨ofFile_putTree, checker, events, hchecker, ?_⟩
  have mem : CheckKind.strictCollection ∈ checker.checks.map (·.kind) := by
    rw [kinds]
    decide
  obtain ⟨check, hcheck, hkind⟩ := List.mem_map.1 mem
  refine ⟨check, hcheck, hkind, ?_⟩
  rw [(strict check hcheck hkind _ _).1, List.map_cons, List.map_singleton,
    analyze_collectionMethods_putCall, show (({ entries := [putEntry 1, putEntry 0] } :
      Catalog).resolve skewed) = putCheck.catalog from rfl, analyze_putCall]
  rfl

end Checker

end ContainerLint
