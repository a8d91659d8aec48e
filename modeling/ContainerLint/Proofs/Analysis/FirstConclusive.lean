import ContainerLint.Check.Checker
import ContainerLint.Proofs.Analysis.IndexedAnalysis
import ContainerLint.Proofs.Catalog.Resolution

/-!
# The first conclusive entry decides a call

An entry of a resolved catalog matches a call or not, and if it does, it has a verdict of its own.
The analysis of a call gives the verdict of the first matching entry that decides anything, in the
order of the catalog. A mismatch that it reports is genuine: the argument is the one that the entry
asks for, the parameter is what the receiver shows for the type parameter that the entry names, and
the two were found to be incompatible. The parameter is asked for a second time when it is reported,
but it is the one that was compared: the receiver shows it again, at a position that is in range,
and the unknown type is never reported in its place. A checker has one finding for each of its
checks that come across a mismatch.

## Main definitions

* `ResolvedEntry.Matches` — an entry matches a call.
* `ResolvedCatalog.FirstConclusive` — the first matching entry of a catalog that decides a call.
* `Mismatch.Genuine` — a mismatch is what an entry found.
* `Finding.IsFor` — a finding tells what a check found.

## Main results

* `ResolvedCatalog.analyze_cases` — no entry decides a call, or the first one that does.
* `ResolvedCatalog.typeParamIndex_lt_of_receiverArgs` — the type parameter of an entry is always
  there.
* `Checker.forall₂_check` — the findings of a checker, check by check.
* `ResolvedCatalog.analyze_resolve_first_conclusive` — all of this for resolved catalogs.
-/

set_option autoImplicit false

namespace ContainerLint

/-- A comparison is conclusive unless its verdict says otherwise. -/
lemma Verdict.isConclusive_iff {v : Verdict} : v.isConclusive = true ↔ v ≠ .inconclusive := by
  cases v <;> simp [isConclusive]

/-! ## Matching entries -/

/-- An entry matches a call: the method and the erased parameters are the same, the receiver is
below the base type, and the call has the argument that the entry asks for. -/
structure ResolvedEntry.Matches (e : ResolvedEntry) (t : ClassTable) (index : Option AncestorIndex)
    (call : CallSite) (argument : Ty) : Prop where
  method : e.entry.method = call.method
  params : t.eraseAll call.params = some e.erasedParams
  receiver : ∃ erased, t.erasure call.receiver = some erased ∧ t.isBelow index erased e.base = true
  argument : call.args[e.entry.argIndex]? = some argument

namespace ResolvedCatalog

/-- An entry is the first in a catalog that matches a call and decides it. -/
structure FirstConclusive (c : ResolvedCatalog) (t : ClassTable) (index : Option AncestorIndex)
    (policy : Policy) (call : CallSite) (e : ResolvedEntry) (argument : Ty) : Prop where
  /-- The entries in front of it that match are inconclusive. -/
  first : ∃ before after, c.entries = before ++ e :: after ∧
    ∀ e' ∈ before, ∀ argument', e'.Matches t index call argument' →
      (tryEntry t index policy call.receiver e' argument').verdict = .inconclusive
  matched : e.Matches t index call argument
  conclusive : (tryEntry t index policy call.receiver e argument).verdict ≠ .inconclusive

variable {c : ResolvedCatalog} {t : ClassTable} {index : Option AncestorIndex} {policy : Policy}
  {call : CallSite} {e : ResolvedEntry} {argument : Ty}

/-- The first conclusive entry is in the catalog. -/
lemma FirstConclusive.mem (h : c.FirstConclusive t index policy call e argument) :
    e ∈ c.entries := by
  obtain ⟨before, after, hentries, -⟩ := h.first
  simp [hentries]

/-- A judgement is what is found when the entry is tried with an argument and decides the call. -/
lemma exists_of_judge_eq_some {receiver : Ty} {params : List Ty} {out : Analysis}
    (h : judge t index policy call receiver params e = some out) :
    (e.erasedParams = params ∧ t.isBelow index receiver e.base = true) ∧
      ∃ argument, call.args[e.entry.argIndex]? = some argument ∧
        (examineEntry t index policy call.receiver e argument).verdict.isConclusive = true ∧
        (examineEntry t index policy call.receiver e argument).analysis t index call.receiver =
          out := by
  unfold judge at h
  split at h
  · next hmatch =>
    obtain ⟨argument, hargument, h⟩ := Option.bind_eq_some_iff.1 h
    dsimp only at h
    split at h
    · next conclusive => exact ⟨hmatch, argument, hargument, conclusive, Option.some.inj h⟩
    · cases h
  · cases h

/-- An entry for the method of a call has a judgement if it matches the call and decides it.

**Proof sketch.** Both sides ask for the same: the erased parameters, a base type above the erased
receiver, the argument, and a conclusive outcome. The erasures are unique, so those in the match are
the given ones. -/
lemma judge_eq_some_iff {receiver : Ty} {params : List Ty}
    (hreceiver : t.erasure call.receiver = some receiver)
    (hparams : t.eraseAll call.params = some params) (hmethod : e.entry.method = call.method)
    {out : Analysis} :
    judge t index policy call receiver params e = some out ↔
      ∃ argument, e.Matches t index call argument ∧
        (tryEntry t index policy call.receiver e argument).verdict ≠ .inconclusive ∧
        (examineEntry t index policy call.receiver e argument).analysis t index call.receiver =
          out := by
  constructor
  · intro h
    obtain ⟨⟨same, below⟩, argument, hargument, conclusive, hout⟩ := exists_of_judge_eq_some h
    refine ⟨argument, ⟨hmethod, ?_, ⟨receiver, hreceiver, below⟩, hargument⟩,
      Verdict.isConclusive_iff.1 conclusive, hout⟩
    rw [hparams, same]
  · rintro ⟨argument, ⟨-, hparams', ⟨receiver', hreceiver', below⟩, hargument⟩, conclusive, rfl⟩
    obtain rfl : receiver = receiver' := Option.some.inj (hreceiver.symm.trans hreceiver')
    have same : e.erasedParams = params := Option.some.inj (hparams'.symm.trans hparams)
    have decided :
        (examineEntry t index policy call.receiver e argument).verdict.isConclusive = true :=
      Verdict.isConclusive_iff.2 conclusive
    simp [judge, same, below, hargument, decided]

/-- An entry that matches and has no judgement leaves the call open. -/
lemma verdict_tryEntry_of_judge_eq_none {receiver : Ty} {params : List Ty}
    (hreceiver : t.erasure call.receiver = some receiver)
    (hparams : t.eraseAll call.params = some params) (hmatch : e.Matches t index call argument)
    (h : judge t index policy call receiver params e = none) :
    (tryEntry t index policy call.receiver e argument).verdict = .inconclusive := by
  by_contra conclusive
  have judged :=
    (judge_eq_some_iff hreceiver hparams hmatch.method).2 ⟨argument, hmatch, conclusive, rfl⟩
  rw [h] at judged
  cases judged

/-- The first judgement among the entries for the method of a call is that of the first conclusive
entry.

**Proof sketch.** The entries for the method split at the one that is found, and so does the
catalog. In front of it there are entries for other methods, which do not match, and entries without
a judgement. -/
lemma exists_firstConclusive_of_findSome? {receiver : Ty} {params : List Ty}
    (hreceiver : t.erasure call.receiver = some receiver)
    (hparams : t.eraseAll call.params = some params) {out : Analysis}
    (h : (c.entries.filter fun e => e.entry.method = call.method).findSome?
      (judge t index policy call receiver params) = some out) :
    ∃ e argument, c.FirstConclusive t index policy call e argument ∧
      out = (examineEntry t index policy call.receiver e argument).analysis t index
        call.receiver := by
  obtain ⟨front, e, rest, hsplit, hjudge, hfront⟩ := List.findSome?_eq_some_iff.1 h
  obtain ⟨l, l', hentries, hl, hl'⟩ := List.filter_eq_append_iff.1 hsplit
  obtain ⟨skipped, after, rfl, hskipped, hmethod, -⟩ := List.filter_eq_cons_iff.1 hl'
  obtain ⟨argument, hmatch, conclusive, rfl⟩ :=
    (judge_eq_some_iff hreceiver hparams (by simpa using hmethod)).1 hjudge
  refine ⟨e, argument, ⟨⟨l ++ skipped, after, ?_, ?_⟩, hmatch, conclusive⟩, rfl⟩
  · rw [hentries, List.append_assoc]
  · intro e' he' argument' hmatch'
    have sameMethod := hmatch'.method
    refine verdict_tryEntry_of_judge_eq_none hreceiver hparams hmatch' (hfront e' ?_)
    rcases List.mem_append.1 he' with he' | he'
    · rw [← hl]
      exact List.mem_filter.2 ⟨he', by simpa using sameMethod⟩
    · exact absurd (by simpa using sameMethod) (hskipped e' he')

/-- **No entry decides a call, or the first one that does.**

**Proof sketch.** If the receiver or a parameter has no erasure, no entry matches. Otherwise the
analysis is the first judgement (`analyze_eq`) among the entries for the method. If there is one,
its entry is the first conclusive one; if there is none, each matching entry is inconclusive. -/
theorem analyze_cases (indexed : c.Indexed) (t : ClassTable) (index : Option AncestorIndex)
    (policy : Policy) (call : CallSite) :
    (c.analyze t index policy call = {} ∧
      ∀ e ∈ c.entries, ∀ argument, e.Matches t index call argument →
        (tryEntry t index policy call.receiver e argument).verdict = .inconclusive) ∨
    ∃ e argument, c.FirstConclusive t index policy call e argument ∧
      c.analyze t index policy call =
        (examineEntry t index policy call.receiver e argument).analysis t index
          call.receiver := by
  rw [analyze_eq]
  cases hreceiver : t.erasure call.receiver with
  | none =>
    refine .inl ⟨rfl, fun e _ argument hmatch => ?_⟩
    obtain ⟨erased, herased, -⟩ := hmatch.receiver
    simp [hreceiver] at herased
  | some receiver =>
    cases hparams : t.eraseAll call.params with
    | none =>
      refine .inl ⟨rfl, fun e _ argument hmatch => ?_⟩
      have erased := hmatch.params
      simp [hparams] at erased
    | some params =>
      dsimp only
      rw [indexed.byMethod]
      cases hfind : (c.entries.filter fun e => e.entry.method = call.method).findSome?
          (judge t index policy call receiver params) with
      | some out => exact .inr (exists_firstConclusive_of_findSome? hreceiver hparams hfind)
      | none =>
        rw [List.findSome?_eq_none_iff] at hfind
        refine .inl ⟨rfl, fun e he argument hmatch => ?_⟩
        have sameMethod := hmatch.method
        refine verdict_tryEntry_of_judge_eq_none hreceiver hparams hmatch (hfind e ?_)
        exact List.mem_filter.2 ⟨he, by simpa using sameMethod⟩

end ResolvedCatalog

/-! ## The type parameter of an entry -/

/-- The arguments seen through a type are as many as the class has parameters. -/
lemma ClassTable.exists_classDef?_of_ancestorArgs {t : ClassTable} {ty : Ty} {ancestor : ClassId}
    {args : List Ty} (h : t.ancestorArgs ty ancestor = some args) :
    ∃ d, t.classDef? ancestor = some d ∧ args.length = d.arity := by
  obtain ⟨s, -, hs⟩ := Option.bind_eq_some_iff.1 h
  exact (checkedArgs_eq_some_iff.1 hs).2

/-- So are those that an index gives, whatever it holds. -/
lemma AncestorIndex.exists_classDef?_of_ancestorArgs {index : AncestorIndex} {t : ClassTable}
    {ty : Ty} {ancestor : ClassId} {args : List Ty}
    (h : index.ancestorArgs t ty ancestor = some args) :
    ∃ d, t.classDef? ancestor = some d ∧ args.length = d.arity := by
  unfold AncestorIndex.ancestorArgs at h
  split at h
  · split at h
    · exact ClassTable.exists_classDef?_of_ancestorArgs h
    · split at h
      · cases h
      · split at h
        · exact ClassTable.exists_classDef?_of_ancestorArgs h
        · split at h
          · obtain ⟨s, -, hs⟩ := Option.bind_eq_some_iff.1 h
            exact (ClassTable.checkedArgs_eq_some_iff.1 hs).2
          · cases h
  · exact ClassTable.exists_classDef?_of_ancestorArgs h

namespace ResolvedCatalog

variable {t : ClassTable} {index : Option AncestorIndex} {policy : Policy} {receiver : Ty}
  {e : ResolvedEntry} {argument : Ty}

/-- With an index or without, the arguments seen through a receiver are as many as the base type has
parameters. -/
lemma exists_classDef?_of_receiverArgs {base : ClassId} {args : List Ty}
    (h : receiverArgs t index receiver base = some args) :
    ∃ d, t.classDef? base = some d ∧ args.length = d.arity := by
  cases index with
  | none => exact ClassTable.exists_classDef?_of_ancestorArgs h
  | some index => exact AncestorIndex.exists_classDef?_of_ancestorArgs h

/-- **The type parameter that an entry of a resolved catalog names is always there**, if the
receiver shows any arguments of the base type. -/
theorem typeParamIndex_lt_of_receiverArgs {c : Catalog} (he : e ∈ (c.resolve t).entries)
    {args : List Ty} (h : receiverArgs t index receiver e.base = some args) :
    e.entry.typeParamIndex < args.length := by
  obtain ⟨d, hd, hlen⟩ := exists_classDef?_of_receiverArgs h
  obtain ⟨d', hd', hindex⟩ := Catalog.exists_classDef?_of_mem_resolve he
  obtain rfl : d = d' := Option.some.inj (hd.symm.trans hd')
  omega

/-- So an entry of a resolved catalog is never tried in vain. -/
lemma tryEntry_ne_parameterMissing {c : Catalog} (he : e ∈ (c.resolve t).entries)
    (arity : Nat) : tryEntry t index policy receiver e argument ≠ .parameterMissing arity := by
  intro h
  unfold tryEntry at h
  split at h
  · cases h
  · next args hargs =>
    split at h
    · next missing =>
      have inRange := typeParamIndex_lt_of_receiverArgs he hargs
      rw [List.getElem?_eq_none_iff] at missing
      omega
    · cases h

end ResolvedCatalog

/-! ## Mismatches -/

/-- A mismatch tells what the first conclusive entry of a catalog found: the argument is the one
that the entry asks for, the parameter is the type argument that the receiver shows for the type
parameter that the entry names, also when it is asked a second time, and the two are those that were
compared and found to be incompatible. -/
def Mismatch.Genuine (m : Mismatch) (c : ResolvedCatalog) (t : ClassTable)
    (index : Option AncestorIndex) (policy : Policy) (call : CallSite) : Prop :=
  ∃ e args, c.FirstConclusive t index policy call e m.argument ∧ m.entry = e.entry ∧
    call.args[m.entry.argIndex]? = some m.argument ∧
    ResolvedCatalog.receiverArgs t index call.receiver e.base = some args ∧
    args[m.entry.typeParamIndex]? = some m.parameter ∧
    ResolvedCatalog.shownArg? t index call.receiver e = some m.parameter ∧
    ResolvedCatalog.tryEntry t index policy call.receiver e m.argument =
      .compared m.parameter .incompatible ∧
    t.decide policy m.parameter m.argument = .incompatible

namespace Outcome

/-- Types are found to be incompatible only if they are compared. -/
lemma exists_of_verdict_eq_incompatible {outcome : Outcome} (h : outcome.verdict = .incompatible) :
    ∃ parameter, outcome = .compared parameter .incompatible := by
  cases outcome with
  | receiverUnclear => cases h
  | parameterMissing => cases h
  | compared parameter verdict =>
    obtain rfl : verdict = .incompatible := h
    exact ⟨parameter, rfl⟩

end Outcome

namespace Examination

variable {t : ClassTable} {index : Option AncestorIndex} {receiver : Ty} {x : Examination}

/-- An entry that decides a call reports a mismatch if its verdict is that there is one. -/
lemma isSome_mismatch_analysis_iff :
    (x.analysis t index receiver).mismatch.isSome ↔ x.verdict = .incompatible := by
  unfold analysis
  cases x.verdict <;> simp

end Examination

namespace ResolvedCatalog

variable {c : ResolvedCatalog} {t : ClassTable} {index : Option AncestorIndex} {policy : Policy}
  {call : CallSite}

/-- The verdict is open if and only if all matching entries leave it open. -/
lemma verdict_analyze_eq_inconclusive_iff (indexed : c.Indexed) :
    (c.analyze t index policy call).verdict = .inconclusive ↔
      ∀ e ∈ c.entries, ∀ argument, e.Matches t index call argument →
        (tryEntry t index policy call.receiver e argument).verdict = .inconclusive := by
  rcases analyze_cases indexed t index policy call with ⟨h, open'⟩ | ⟨e, argument, first, h⟩
  · exact ⟨fun _ => open', fun _ => by rw [h]⟩
  · rw [h, Examination.verdict_analysis]
    constructor
    · intro undecided
      exact absurd undecided first.conclusive
    · intro all
      exact absurd (all e first.mem argument first.matched) first.conclusive

/-- A conclusive verdict is that of the first conclusive entry. -/
lemma exists_firstConclusive (indexed : c.Indexed)
    (h : (c.analyze t index policy call).verdict ≠ .inconclusive) :
    ∃ e argument, c.FirstConclusive t index policy call e argument ∧
      (c.analyze t index policy call).verdict =
        (tryEntry t index policy call.receiver e argument).verdict := by
  rcases analyze_cases indexed t index policy call with ⟨eq, -⟩ | ⟨e, argument, first, eq⟩
  · rw [eq] at h
    exact absurd rfl h
  · refine ⟨e, argument, first, ?_⟩
    rw [eq, Examination.verdict_analysis]
    rfl

/-- There is a mismatch if and only if the verdict is that there is one. -/
lemma isSome_mismatch_analyze_iff (indexed : c.Indexed) :
    (c.analyze t index policy call).mismatch.isSome ↔
      (c.analyze t index policy call).verdict = .incompatible := by
  rcases analyze_cases indexed t index policy call with ⟨eq, -⟩ | ⟨e, argument, -, eq⟩
  · rw [eq]
    simp
  · rw [eq, Examination.verdict_analysis]
    exact Examination.isSome_mismatch_analysis_iff

/-- A mismatch is made of the two types that the entry compared. -/
lemma eq_of_mismatch_analysis {receiver : Ty} {e : ResolvedEntry} {argument : Ty} {m : Mismatch}
    (h : ((examineEntry t index policy receiver e argument).analysis t index receiver).mismatch =
      some m) :
    m.entry = e.entry ∧ m.argument = argument ∧
      tryEntry t index policy receiver e argument = .compared m.parameter .incompatible := by
  have verdict : (tryEntry t index policy receiver e argument).verdict = .incompatible :=
    Examination.isSome_mismatch_analysis_iff.1 (Option.isSome_of_eq_some h)
  obtain ⟨parameter, outcome⟩ := Outcome.exists_of_verdict_eq_incompatible verdict
  rw [analysis_of_incompatible outcome] at h
  obtain rfl := Option.some.inj h
  exact ⟨rfl, rfl, outcome⟩

/-- Every mismatch is genuine. -/
lemma genuine_of_mismatch_analyze (indexed : c.Indexed) {m : Mismatch}
    (h : (c.analyze t index policy call).mismatch = some m) :
    m.Genuine c t index policy call := by
  rcases analyze_cases indexed t index policy call with ⟨eq, -⟩ | ⟨e, argument, first, eq⟩
  · simp [eq] at h
  · rw [eq] at h
    obtain ⟨hentry, rfl, outcome⟩ := eq_of_mismatch_analysis h
    obtain ⟨args, hargs, hparameter, hdecide⟩ := exists_of_tryEntry_eq_compared outcome
    rw [← hentry] at hparameter
    have asked := first.matched.argument
    rw [← hentry] at asked
    exact ⟨e, args, first, hentry, asked, hargs, hparameter, shownArg?_of_compared outcome, outcome,
      hdecide⟩

end ResolvedCatalog

/-! ## Checkers -/

/-- A finding tells what a check found in a call. -/
structure Finding.IsFor (f : Finding) (check : Check) (t : ClassTable) (index : AncestorIndex)
    (call : CallSite) : Prop where
  kind : f.check = check.kind
  severity : f.severity = check.severity
  span : f.span = call.span
  genuine : f.mismatch.Genuine check.catalog t (some index) check.policy call

/-- **The findings of a checker are those of its checks**, one for each check with a mismatch, in
the order of the checks.

**Proof sketch.** By induction on the checks. A check has a finding if its verdict is that there is
a mismatch and the analysis has one, and either of these implies the other. -/
theorem Checker.forall₂_check {checker : Checker}
    (indexed : ∀ check ∈ checker.checks, check.catalog.Indexed) (t : ClassTable) (call : CallSite) :
    List.Forall₂ (fun check finding => finding.IsFor check t checker.index call)
      (checker.checks.filter fun check =>
        (check.catalog.analyze t (some checker.index) check.policy call).verdict = .incompatible)
      (checker.check t call) := by
  unfold Checker.check
  generalize checker.checks = checks at indexed
  induction checks with
  | nil => exact .nil
  | cons check checks ih =>
    have rest := ih fun other hother => indexed other (List.mem_cons_of_mem _ hother)
    have here := indexed check List.mem_cons_self
    rw [List.filter_cons, List.filterMap_cons]
    cases hmismatch :
        (check.catalog.analyze t (some checker.index) check.policy call).mismatch with
    | none =>
      have silent : ¬(check.catalog.analyze t (some checker.index) check.policy call).verdict =
          .incompatible := by
        rw [← ResolvedCatalog.isSome_mismatch_analyze_iff here, hmismatch]
        simp
      simpa [Checker.finding?, hmismatch, silent] using rest
    | some m =>
      have reported : (check.catalog.analyze t (some checker.index) check.policy call).verdict =
          .incompatible := by
        rw [← ResolvedCatalog.isSome_mismatch_analyze_iff here, hmismatch]
        rfl
      have genuine := ResolvedCatalog.genuine_of_mismatch_analyze here hmismatch
      simpa [Checker.finding?, hmismatch, reported] using
        List.Forall₂.cons ⟨rfl, rfl, rfl, genuine⟩ rest

namespace ResolvedCatalog

/-- **The first conclusive entry decides a call, and every mismatch is genuine.** For every table,
index, policy and call, and every catalog resolved against the table:

* the verdict is open if and only if all matching entries leave it open;
* otherwise it is the verdict of the first matching entry that is conclusive;
* a mismatch is reported if and only if the verdict is that there is one, and it is genuine;
* the parameter of a mismatch is what the first conclusive entry compared, and not the unknown type
  that stands in when the receiver does not show it again;
* the type parameter that an entry names is never missing, whenever the receiver is asked;
* a checker over such catalogs has one finding for each check whose verdict is that there is a
  mismatch, in the order of the checks, and each finding carries a genuine mismatch.

**Proof sketch.** Resolving lists the entries under their methods, so the analysis is that of the
first entry that decides the call, if there is one (`analyze_cases`). An entry finds a mismatch only
if it has compared two types, and then the receiver shows the same arguments when it is asked again,
so that the parameter is found in its place (`shownArg?_of_compared`). Resolving an entry checks its
type parameter against the arity of the base type, and a receiver shows as many arguments as that.
-/
theorem analyze_resolve_first_conclusive (t : ClassTable) (index : Option AncestorIndex)
    (policy : Policy) (call : CallSite) (c : Catalog) :
    (((c.resolve t).analyze t index policy call).verdict = .inconclusive ↔
      ∀ e ∈ (c.resolve t).entries, ∀ argument, e.Matches t index call argument →
        (tryEntry t index policy call.receiver e argument).verdict = .inconclusive) ∧
    (((c.resolve t).analyze t index policy call).verdict ≠ .inconclusive →
      ∃ e argument, (c.resolve t).FirstConclusive t index policy call e argument ∧
        ((c.resolve t).analyze t index policy call).verdict =
          (tryEntry t index policy call.receiver e argument).verdict) ∧
    (((c.resolve t).analyze t index policy call).mismatch.isSome ↔
      ((c.resolve t).analyze t index policy call).verdict = .incompatible) ∧
    (∀ m, ((c.resolve t).analyze t index policy call).mismatch = some m →
      m.Genuine (c.resolve t) t index policy call) ∧
    (∀ e argument parameter,
      tryEntry t index policy call.receiver e argument = .compared parameter .incompatible →
      shownArg? t index call.receiver e = some parameter ∧
      (examineEntry t index policy call.receiver e argument).analysis t index call.receiver =
        { verdict := .incompatible, mismatch := some { entry := e.entry, parameter, argument } }) ∧
    (∀ e ∈ (c.resolve t).entries, ∀ args, receiverArgs t index call.receiver e.base = some args →
      e.entry.typeParamIndex < args.length) ∧
    (∀ e ∈ (c.resolve t).entries, ∀ argument arity,
      tryEntry t index policy call.receiver e argument ≠ .parameterMissing arity) ∧
    ∀ checker : Checker,
      (∀ check ∈ checker.checks, ∃ c : Catalog, check.catalog = c.resolve t) →
      List.Forall₂ (fun check finding => finding.IsFor check t checker.index call)
        (checker.checks.filter fun check =>
          (check.catalog.analyze t (some checker.index) check.policy call).verdict = .incompatible)
        (checker.check t call) := by
  have indexed := c.indexed_resolve t
  refine ⟨verdict_analyze_eq_inconclusive_iff indexed, exists_firstConclusive indexed,
    isSome_mismatch_analyze_iff indexed, fun m => genuine_of_mismatch_analyze indexed,
    fun e argument parameter outcome =>
      ⟨shownArg?_of_compared outcome, analysis_of_incompatible outcome⟩,
    fun e he args => typeParamIndex_lt_of_receiverArgs he,
    fun e he argument => tryEntry_ne_parameterMissing he, fun checker resolved => ?_⟩
  refine Checker.forall₂_check (fun check hcheck => ?_) t call
  obtain ⟨c', hc'⟩ := resolved check hcheck
  rw [hc']
  exact c'.indexed_resolve t

/-! ## An entry behind an inconclusive one -/

/-- An entry for `Base.put(Object, Object)`, for one of the arguments. -/
def putEntry (argument : Nat) : CatalogEntry where
  baseType := "com.example.Base"
  method := "put"
  erasedParams := ["Object", "Object"]
  typeParamIndex := 0
  argIndex := argument

/-- A check of both arguments of `Base.put(Object, Object)`, the second one first. -/
def putCheck : Check where
  kind := .strictCollection
  severity := .warning
  policy := .strict
  catalog := ({ entries := [putEntry 1, putEntry 0] } : Catalog).resolve skewed

/-- A checker with this check alone. -/
def putChecker : Checker :=
  .build skewed skewed.ids [putCheck]

/-- A call of `put` on `Right` with an `Integer` and an argument of which nothing is known. -/
def putCall : CallSite where
  receiver := .cls ⟨16⟩ []
  method := "put"
  params := [.cls ⟨0⟩ [], .cls ⟨0⟩ []]
  args := [.cls ⟨9⟩ [], .unknown]

/-- Both entries are resolved. -/
lemma byMethod_putCheck :
    putCheck.catalog.byMethod putCall.method =
      [{ entry := putEntry 1, base := ⟨13⟩, erasedParams := [.cls ⟨0⟩ [], .cls ⟨0⟩ []] },
       { entry := putEntry 0, base := ⟨13⟩, erasedParams := [.cls ⟨0⟩ [], .cls ⟨0⟩ []] }] := by
  rw [putCheck, skewed_eq]
  decide +kernel

/-- The index finds `Base` above `Right`. -/
lemma isBelow_putChecker :
    skewed.isBelow (some putChecker.index) putCall.receiver ⟨13⟩ = true := by
  have hid : (⟨16⟩ : ClassId) ∈ skewed.ids := by
    rw [skewed_eq]
    decide
  have hd : skewed.classDef? ⟨16⟩ =
      some { name := "com.example.Right", superClass := some (.cls ⟨0⟩ []),
             interfaces := [.cls ⟨13⟩ [.cls ⟨1⟩ []]] } := by
    rw [skewed_eq]
    rfl
  refine (ClassTable.isBelow_of_find?_eq_some (AncestorIndex.find?_build hid hd) [] _).trans ?_
  exact congrArg Option.isSome find?_supertypeClosure_right

/-- With the index `Right` is seen as `Base<String>`. -/
lemma receiverArgs_putChecker :
    receiverArgs skewed (some putChecker.index) putCall.receiver ⟨13⟩ = some [.cls ⟨1⟩ []] := by
  have lawful : skewed.Lawful := (ClassTable.Reachable.declare _ .core).lawful
  have plain : skewed.PlainSupertypes := by
    rw [skewed_eq]
    exact ClassTable.plainSupertypes_of_slots (by decide)
  have named : putCall.receiver.canonical skewed = putCall.receiver := rfl
  have view : skewed.viewAs putCall.receiver ⟨13⟩ = some (.cls ⟨13⟩ [.cls ⟨1⟩ []]) := by
    rw [ClassTable.viewAs_eq_find? rfl]
    exact find?_supertypeClosure_right
  refine (AncestorIndex.ancestorArgs_build lawful plain skewed.ids (.inr named) ⟨13⟩).trans ?_
  rw [ClassTable.ancestorArgs, view, skewed_eq]
  rfl

/-- The entry for the second argument leaves the call open, the one for the first decides it.

**Proof sketch.** Both entries match, and both compare the argument that they name with `String`.
Nothing is known of the second argument, so the first entry leaves the call open; the first argument
is an `Integer`. -/
lemma analyze_putCall :
    putCheck.catalog.analyze skewed (some putChecker.index) .strict putCall =
      { verdict := .incompatible,
        mismatch := some
          { entry := putEntry 0, parameter := .cls ⟨1⟩ [], argument := .cls ⟨9⟩ [] } } := by
  have erasure : skewed.erasure putCall.receiver = some putCall.receiver := rfl
  have params : skewed.eraseAll putCall.params = some [.cls ⟨0⟩ [], .cls ⟨0⟩ []] := rfl
  have unknown : skewed.decide .strict (.cls ⟨1⟩ []) .unknown = .inconclusive := by
    simp [ClassTable.decide, ClassTable.boxed, ClassTable.erasure, Ty.eraseWith]
  have outcome (k : Nat) (argument : Ty) :
      tryEntry skewed (some putChecker.index) .strict putCall.receiver
          { entry := putEntry k, base := ⟨13⟩, erasedParams := [.cls ⟨0⟩ [], .cls ⟨0⟩ []] }
          argument =
        .compared (.cls ⟨1⟩ []) (skewed.decide .strict (.cls ⟨1⟩ []) argument) := by
    simp [tryEntry, receiverArgs_putChecker, putEntry]
  have shown : shownArg? skewed (some putChecker.index) putCall.receiver
      { entry := putEntry 0, base := ⟨13⟩, erasedParams := [.cls ⟨0⟩ [], .cls ⟨0⟩ []] } =
        some (.cls ⟨1⟩ []) :=
    shownArg?_of_compared (outcome 0 .unknown)
  have second : putCall.args[(putEntry 1).argIndex]? = some .unknown := rfl
  have first : putCall.args[(putEntry 0).argIndex]? = some (.cls ⟨9⟩ []) := rfl
  rw [analyze_eq, erasure, params, byMethod_putCheck]
  simp [judge, isBelow_putChecker, second, first, examineEntry, outcome, unknown,
    decide_string_integer, Examination.verdict, Outcome.verdict, Verdict.isConclusive,
    Examination.analysis, Examination.mismatch, shown]

/-- **An inconclusive entry does not block the next one.** The entry for the second argument of the
call leaves it open, and the one for the first argument finds that an `Integer` is put where a
`String` belongs. This is what the checker reports.

**Proof sketch.** The analysis is `analyze_putCall`. Since its verdict is that there is a mismatch,
the only check of the checker is one of those with a finding. -/
theorem check_putCall :
    (putCheck.catalog.analyze skewed (some putChecker.index) .strict putCall).verdict =
      .incompatible ∧
    (∃ e argument,
      putCheck.catalog.FirstConclusive skewed (some putChecker.index) .strict putCall e argument ∧
      (putCheck.catalog.analyze skewed (some putChecker.index) .strict putCall).verdict =
        (tryEntry skewed (some putChecker.index) .strict putCall.receiver e argument).verdict) ∧
    Mismatch.Genuine { entry := putEntry 0, parameter := .cls ⟨1⟩ [], argument := .cls ⟨9⟩ [] }
      putCheck.catalog skewed (some putChecker.index) .strict putCall ∧
    List.Forall₂ (fun check finding => finding.IsFor check skewed putChecker.index putCall)
      [putCheck] (putChecker.check skewed putCall) := by
  have verdict := congrArg Analysis.verdict analyze_putCall
  obtain ⟨-, decided, -, genuine, -, -, -, findings⟩ :=
    analyze_resolve_first_conclusive skewed (some putChecker.index) .strict putCall
      { entries := [putEntry 1, putEntry 0] }
  have found := findings putChecker fun check hcheck =>
    ⟨{ entries := [putEntry 1, putEntry 0] }, by rw [List.mem_singleton.1 hcheck]; rfl⟩
  have reporting : (putChecker.checks.filter fun check =>
      (check.catalog.analyze skewed (some putChecker.index) check.policy putCall).verdict =
        .incompatible) = [putCheck] :=
    List.filter_eq_self.2 fun check hcheck => by
      rw [List.mem_singleton.1 hcheck]
      exact decide_eq_true verdict
  refine ⟨verdict, decided fun h => ?_, genuine _ (congrArg Analysis.mismatch analyze_putCall),
    reporting ▸ found⟩
  cases verdict.symm.trans h

end ResolvedCatalog

end ContainerLint
