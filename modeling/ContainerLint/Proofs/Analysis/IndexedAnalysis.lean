import ContainerLint.Analysis.Analyze
import ContainerLint.Proofs.Hierarchy.IndexMembership

/-!
# Analysis with an index

With an index the analysis of a call sees the arguments of the receiver as it does without one. It
may match other entries, though: whether the receiver is below a base type is asked of the index,
which does not always answer as subtyping does. The analyses of all calls on a receiver agree
exactly if the two answers agree for each base type of which the receiver shows an argument that can
be compared. They do so if all declared supertypes are well applied and `Object` is on top.

## Main definitions

* `ResolvedCatalog.judge` — what an entry says about a call if it decides it.
* `ClassTable.AgreesOnBases` — the index and subtyping agree on the base types of a receiver.

## Main results

* `ResolvedCatalog.analyze_eq` — an analysis is the first judgement.
* `ResolvedCatalog.shownArg?_of_compared` — the receiver shows the compared type again.
* `ResolvedCatalog.analyze_build_eq_iff` — when analyses with and without an index agree.
-/

set_option autoImplicit false

namespace ContainerLint

/-- Two types are compared if both have an erasure once they are boxed. -/
lemma ClassTable.isConclusive_decide_iff {t : ClassTable} {policy : Policy}
    {parameter argument : Ty} :
    (t.decide policy parameter argument).isConclusive = true ↔
      (t.erasure (t.boxed parameter)).isSome ∧ (t.erasure (t.boxed argument)).isSome := by
  unfold ClassTable.decide
  dsimp only
  cases t.erasure (t.boxed parameter) with
  | none => simp [Verdict.isConclusive]
  | some erasedParameter =>
    cases t.erasure (t.boxed argument) with
    | none => simp [Verdict.isConclusive]
    | some erasedArgument =>
      dsimp only
      split <;> simp [Verdict.isConclusive]

/-- Classes of which neither is below the other do not go together. -/
lemma ClassTable.decide_eq_incompatible {t : ClassTable} {a b : ClassId}
    (hab : ¬t.ClassBelow a b) (hba : ¬t.ClassBelow b a) :
    t.decide .strict (.cls a []) (.cls b []) = .incompatible := by
  simp [ClassTable.decide, ClassTable.boxed, ClassTable.erasure, Ty.eraseWith,
    ClassTable.compatible, ClassTable.isSubtype_cls_iff, hab, hba]

open ClassTable.Core in
/-- A `String` and an `Integer` do not go together, whatever is added to the core classes. -/
lemma ClassTable.decide_string_integer_withRows (defs : List ClassDef) (params : List TypeParam) :
    (core.withRows defs params).decide .strict (.cls string []) (.cls (box .int) []) =
      .incompatible := by
  have same : ∀ c ∈ [object, string, serializable, number, box .int],
      (core.withRows defs params).parents c = core.parents c := by
    intro c hc
    simp only [List.mem_cons, List.not_mem_nil, or_false] at hc
    rcases hc with rfl | rfl | rfl | rfl | rfl <;> rfl
  have closed {ids : List ClassId} (sub : ids ⊆ [object, string, serializable, number, box .int])
      (h : ∀ a ∈ ids, ∀ b ∈ core.parents a, b ∈ ids) :
      ∀ a ∈ ids, ∀ b ∈ (core.withRows defs params).parents a, b ∈ ids := by
    intro a ha
    rw [same a (sub ha)]
    exact h a ha
  refine decide_eq_incompatible ?_ ?_
  · exact not_classBelow_of_closed [string, serializable, object] (by decide)
      (closed (by decide) (by decide)) (by decide) (show box .int ≠ object by decide)
  · exact not_classBelow_of_closed [box .int, number, serializable, object] (by decide)
      (closed (by decide) (by decide)) (by decide) (show string ≠ object by decide)

/-! ## What an entry finds -/

namespace Examination

/-- The verdict for a call is that of the entry that decides it. -/
lemma verdict_analysis (t : ClassTable) (index : Option AncestorIndex) (receiver : Ty)
    (x : Examination) : (x.analysis t index receiver).verdict = x.verdict := by
  unfold analysis
  cases x.verdict <;> rfl

/-- The arguments that the receiver shows are all that is asked for when an outcome is reported. -/
lemma analysis_congr {t t' : ClassTable} {index index' : Option AncestorIndex} {receiver other : Ty}
    (args : ∀ base, ResolvedCatalog.receiverArgs t index receiver base =
      ResolvedCatalog.receiverArgs t' index' other base) (x : Examination) :
    x.analysis t index receiver = x.analysis t' index' other := by
  simp only [analysis, mismatch, ResolvedCatalog.shownArg?, args]

end Examination

namespace ResolvedCatalog

section Entry

variable {t : ClassTable} {index : Option AncestorIndex} {policy : Policy} {receiver : Ty}
  {e : ResolvedEntry} {argument parameter : Ty}

/-- What is compared with the argument is what the receiver shows for the type parameter. -/
lemma exists_of_tryEntry_eq_compared {verdict : Verdict}
    (h : tryEntry t index policy receiver e argument = .compared parameter verdict) :
    ∃ args, receiverArgs t index receiver e.base = some args ∧
      args[e.entry.typeParamIndex]? = some parameter ∧
      t.decide policy parameter argument = verdict := by
  unfold tryEntry at h
  split at h
  · cases h
  · next args hargs =>
    split at h
    · cases h
    · next parameter' hparameter =>
      cases h
      exact ⟨args, hargs, hparameter, rfl⟩

/-- **Asked a second time, the receiver shows the type argument that was compared.** So neither the
position can be out of range nor is the fallback reached. -/
theorem shownArg?_of_compared {verdict : Verdict}
    (h : tryEntry t index policy receiver e argument = .compared parameter verdict) :
    shownArg? t index receiver e = some parameter := by
  obtain ⟨args, hargs, hparameter, -⟩ := exists_of_tryEntry_eq_compared h
  obtain ⟨inRange, member⟩ := List.getElem?_eq_some_iff.1 hparameter
  rw [shownArg?, hargs, Option.bind_some, dif_pos inRange, swapRemove, member]

/-- So the mismatch that is reported is made of the two types that were compared. -/
lemma analysis_of_incompatible
    (h : tryEntry t index policy receiver e argument = .compared parameter .incompatible) :
    (examineEntry t index policy receiver e argument).analysis t index receiver =
      { verdict := .incompatible, mismatch := some { entry := e.entry, parameter, argument } } := by
  have verdict : (examineEntry t index policy receiver e argument).verdict = .incompatible := by
    rw [Examination.verdict, examineEntry, h, Outcome.verdict]
  rw [Examination.analysis, verdict]
  dsimp only
  rw [Examination.mismatch, examineEntry, shownArg?_of_compared h, Option.getD_some]

end Entry

/-! ## An analysis is the first judgement -/

variable {t : ClassTable}

/-- What an entry says about a call, given the erasures of the receiver and of the parameters, if it
matches the call and decides it. -/
def judge (t : ClassTable) (index : Option AncestorIndex) (policy : Policy) (call : CallSite)
    (receiver : Ty) (params : List Ty) (e : ResolvedEntry) : Option Analysis :=
  if e.erasedParams = params ∧ t.isBelow index receiver e.base then
    call.args[e.entry.argIndex]?.bind fun argument =>
      let x := examineEntry t index policy call.receiver e argument
      if x.verdict.isConclusive then some (x.analysis t index call.receiver) else none
  else none

/-- An entry that matches and compares two incompatible types reports them. -/
lemma judge_of_incompatible {index : Option AncestorIndex} {policy : Policy} {call : CallSite}
    {receiver : Ty} {params : List Ty} {e : ResolvedEntry} {argument parameter : Ty}
    (same : e.erasedParams = params) (below : t.isBelow index receiver e.base = true)
    (hargument : call.args[e.entry.argIndex]? = some argument)
    (outcome : tryEntry t index policy call.receiver e argument =
      .compared parameter .incompatible) :
    judge t index policy call receiver params e =
      some { verdict := .incompatible,
             mismatch := some { entry := e.entry, parameter, argument } } := by
  have conclusive :
      (examineEntry t index policy call.receiver e argument).verdict.isConclusive = true := by
    rw [Examination.verdict, examineEntry, outcome]
    rfl
  rw [judge, if_pos ⟨same, below⟩, hargument, Option.bind_some]
  dsimp only
  rw [if_pos conclusive, analysis_of_incompatible outcome]

/-- An entry is tried, and those behind it only if it does not decide. -/
lemma tryUntilDecided_cons (t : ClassTable) (index : Option AncestorIndex) (policy : Policy)
    (receiver : Ty) (e : ResolvedEntry) (argument : Ty) (rest : List (ResolvedEntry × Ty)) :
    tryUntilDecided t index policy receiver ((e, argument) :: rest) =
      if (examineEntry t index policy receiver e argument).verdict.isConclusive then
        [examineEntry t index policy receiver e argument]
      else
        examineEntry t index policy receiver e argument ::
          tryUntilDecided t index policy receiver rest :=
  rfl

/-- The first entry that decides a call is the first that has a judgement.

**Proof sketch.** By induction on the entries. An entry that does not match, or whose argument is
missing, is passed over on both sides. One that matches is tried, and is the result on both sides if
it is conclusive. -/
lemma find?_tryUntilDecided (t : ClassTable) (index : Option AncestorIndex) (policy : Policy)
    (call : CallSite) (receiver : Ty) (params : List Ty) (es : List ResolvedEntry) :
    ((tryUntilDecided t index policy call.receiver (es.filterMap fun e =>
          if e.erasedParams = params ∧ t.isBelow index receiver e.base then
            call.args[e.entry.argIndex]?.map fun argument => (e, argument)
          else none)).find? fun x => x.verdict.isConclusive).map
        (Examination.analysis t index call.receiver) =
      es.findSome? (judge t index policy call receiver params) := by
  induction es with
  | nil => rfl
  | cons e es ih =>
    rw [List.filterMap_cons, List.findSome?_cons, judge]
    split_ifs with hmatch
    · cases call.args[e.entry.argIndex]? with
      | none => exact ih
      | some argument =>
        simp only [Option.map_some, Option.bind_some, tryUntilDecided_cons]
        split_ifs with conclusive
        · simp [conclusive]
        · simp only [List.find?_cons, conclusive]
          exact ih
    · exact ih

/-- **An analysis is the judgement of the first entry that has one.**

**Proof sketch.** Without an erasure of the receiver and of the parameters nothing matches. With
them the entries that are tried are the matching ones for the method, and `find?_tryUntilDecided`
applies. -/
theorem analyze_eq (c : ResolvedCatalog) (t : ClassTable) (index : Option AncestorIndex)
    (policy : Policy) (call : CallSite) :
    c.analyze t index policy call =
      match t.erasure call.receiver, t.eraseAll call.params with
      | some receiver, some params =>
        ((c.byMethod call.method).findSome? (judge t index policy call receiver params)).getD {}
      | _, _ => {} := by
  have first : c.analyze t index policy call =
      (((c.examine t index policy call).find? fun x => x.verdict.isConclusive).map
        (Examination.analysis t index call.receiver)).getD {} := by
    unfold analyze
    cases (c.examine t index policy call).find? fun x => x.verdict.isConclusive <;> rfl
  rw [first, examine, matching]
  cases t.erasure call.receiver with
  | none => rfl
  | some receiver =>
    cases t.eraseAll call.params with
    | none => rfl
    | some params =>
      dsimp only
      rw [find?_tryUntilDecided]

end ResolvedCatalog

/-! ## Agreement on base types -/

namespace ClassTable

/-- The index and subtyping give the same answer for each base type of which the receiver shows
arguments, at least one of them with an erasure. -/
def AgreesOnBases (t : ClassTable) (index : AncestorIndex) (receiver : Ty) : Prop :=
  ∀ erased base args, t.erasure receiver = some erased →
    t.ancestorArgs receiver base = some args → (∃ a ∈ args, (t.erasure (t.boxed a)).isSome) →
    t.isBelow (some index) erased base = t.isBelow none erased base

variable {t : ClassTable}

/-- They agree if declared supertypes are proper: `Object`, which the index may miss, has no
arguments to show. -/
lemma ProperSupertypes.agreesOnBases (proper : t.ProperSupertypes) (ids : List ClassId)
    (receiver : Ty) : t.AgreesOnBases (AncestorIndex.build t ids) receiver := by
  rintro erased base args - hargs ⟨a, ha, -⟩
  refine isBelow_build proper ids erased ?_
  rintro rfl
  obtain ⟨s, -, hs⟩ := Option.bind_eq_some_iff.1 hargs
  obtain ⟨-, d, hd, hlen⟩ := checkedArgs_eq_some_iff.1 hs
  rw [ClassDef.arity, (proper.object hd).1] at hlen
  rw [List.eq_nil_of_length_eq_zero hlen] at ha
  exact absurd ha (by simp)

end ClassTable

namespace ResolvedCatalog

variable {t : ClassTable}

/-- Only an entry whose base type shows an argument with an erasure decides anything. -/
lemma exists_of_isConclusive_tryEntry {policy : Policy} {receiver : Ty} {e : ResolvedEntry}
    {argument : Ty}
    (h : (tryEntry t none policy receiver e argument).verdict.isConclusive = true) :
    ∃ args, t.ancestorArgs receiver e.base = some args ∧
      ∃ a ∈ args, (t.erasure (t.boxed a)).isSome := by
  unfold tryEntry receiverArgs at h
  dsimp only at h
  cases hargs : t.ancestorArgs receiver e.base with
  | none => simp [hargs, Outcome.verdict, Verdict.isConclusive] at h
  | some args =>
    rw [hargs] at h
    dsimp only at h
    cases hparam : args[e.entry.typeParamIndex]? with
    | none => simp [hparam, Outcome.verdict, Verdict.isConclusive] at h
    | some parameter =>
      rw [hparam] at h
      exact ⟨args, rfl, parameter, List.mem_of_getElem? hparam,
        (ClassTable.isConclusive_decide_iff.1 h).1⟩

/-- With an index the receiver shows the same arguments. -/
lemma receiverArgs_build (lawful : t.Lawful) (plain : t.PlainSupertypes) (ids : List ClassId)
    {receiver : Ty} (hreceiver : receiver.canonical t = receiver) (base : ClassId) :
    receiverArgs t (some (AncestorIndex.build t ids)) receiver base =
      receiverArgs t none receiver base :=
  AncestorIndex.ancestorArgs_build lawful plain ids (.inr hreceiver) base

/-- With an index an entry is tried with the same outcome. -/
lemma tryEntry_build (lawful : t.Lawful) (plain : t.PlainSupertypes) (ids : List ClassId)
    (policy : Policy) {receiver : Ty} (hreceiver : receiver.canonical t = receiver)
    (e : ResolvedEntry) (argument : Ty) :
    tryEntry t (some (AncestorIndex.build t ids)) policy receiver e argument =
      tryEntry t none policy receiver e argument := by
  simp only [tryEntry, receiverArgs_build lawful plain ids hreceiver]

/-- An entry that matches with the index only, or without it only, has no judgement.

**Proof sketch.** With the index the receiver shows the same arguments, so each entry is tried with
the same outcome and reports the same. What may differ is whether the entry matches. If it does, the
index and subtyping disagree about its base type, so by assumption there is nothing that the
receiver shows of it, and the outcome is inconclusive. -/
lemma judge_build (lawful : t.Lawful) (plain : t.PlainSupertypes) (ids : List ClassId)
    (policy : Policy) {call : CallSite} (hreceiver : call.receiver.canonical t = call.receiver)
    (agree : t.AgreesOnBases (AncestorIndex.build t ids) call.receiver) {receiver : Ty}
    (herasure : t.erasure call.receiver = some receiver) (params : List Ty) (e : ResolvedEntry) :
    judge t (some (AncestorIndex.build t ids)) policy call receiver params e =
      judge t none policy call receiver params e := by
  have same (argument : Ty) :
      examineEntry t (some (AncestorIndex.build t ids)) policy call.receiver e argument =
        examineEntry t none policy call.receiver e argument := by
    rw [examineEntry, tryEntry_build lawful plain ids policy hreceiver, examineEntry]
  have reported (x : Examination) :
      x.analysis t (some (AncestorIndex.build t ids)) call.receiver =
        x.analysis t none call.receiver :=
    x.analysis_congr (receiverArgs_build lawful plain ids hreceiver)
  unfold judge
  simp only [same, reported]
  by_cases below : t.isBelow (some (AncestorIndex.build t ids)) receiver e.base =
      t.isBelow none receiver e.base
  · rw [below]
  · -- the answers differ, so there is nothing to compare and the entry decides nothing
    have undecided (argument : Ty) :
        ¬(examineEntry t none policy call.receiver e argument).verdict.isConclusive = true := by
      intro conclusive
      obtain ⟨args, hargs, ha⟩ := exists_of_isConclusive_tryEntry conclusive
      exact below (agree receiver e.base args herasure hargs ha)
    simp only [undecided, if_false, Bool.false_eq_true]
    cases call.args[e.entry.argIndex]? <;> simp

/-- Where the index and subtyping agree on the base types of the receiver, analyses agree. -/
lemma analyze_build (lawful : t.Lawful) (plain : t.PlainSupertypes) (ids : List ClassId)
    (policy : Policy) (c : ResolvedCatalog) {call : CallSite}
    (hreceiver : call.receiver.canonical t = call.receiver)
    (agree : t.AgreesOnBases (AncestorIndex.build t ids) call.receiver) :
    c.analyze t (some (AncestorIndex.build t ids)) policy call =
      c.analyze t none policy call := by
  rw [analyze_eq, analyze_eq]
  cases herasure : t.erasure call.receiver with
  | none => rfl
  | some receiver =>
    cases t.eraseAll call.params with
    | none => rfl
    | some params =>
      dsimp only
      congr 2
      funext e
      exact judge_build lawful plain ids policy hreceiver agree herasure params e

/-! ## Disagreement shows -/

/-- A catalog with one entry, which compares the argument of a method without declared parameters
with a type parameter of `base`. -/
def probe (base : String) (param : Nat) : Catalog where
  entries := [{ baseType := base, method := "probe", erasedParams := [], typeParamIndex := param,
                argIndex := 0 }]

/-- A call of that method with the argument `null`, which can be compared with everything. -/
def probeCall (receiver : Ty) : CallSite where
  receiver
  method := "probe"
  args := [.null]

/-- If the receiver shows the argument that the probe asks for, the probe decides its call exactly
if the receiver is found to be below the base type.

**Proof sketch.** The probe is resolved to a single entry, whose base type is found under its name
and has enough parameters. It compares the argument that the receiver shows with `null`, which is
conclusive, so all that counts is whether it matches. -/
lemma isConclusive_analyze_probe (lawful : t.Lawful) {index : Option AncestorIndex}
    (policy : Policy) {receiver erased a : Ty} {base : ClassId} {d : ClassDef} {args : List Ty}
    {k : Nat} (herasure : t.erasure receiver = some erased) (hd : t.classDef? base = some d)
    (hlen : args.length = d.arity) (hargs : receiverArgs t index receiver base = some args)
    (hk : args[k]? = some a) (ha : (t.erasure (t.boxed a)).isSome) :
    (((probe d.name k).resolve t).analyze t index policy
      (probeCall receiver)).verdict.isConclusive = t.isBelow index erased base := by
  have hlookup : t.lookup d.name = some base := by
    rw [ClassTable.lookup, lawful.find?_of_nameOf? (lawful.defName hd)]
  have harity : ¬d.arity ≤ k := by
    have lt := (List.getElem?_eq_some_iff.1 hk).1
    omega
  have byMethod : ((probe d.name k).resolve t).byMethod "probe" =
      [{ entry := { baseType := d.name, method := "probe", erasedParams := [], typeParamIndex := k,
                    argIndex := 0 }, base, erasedParams := [] }] := by
    simp [probe, Catalog.resolve, CatalogEntry.resolve, hlookup, hd, harity,
      CatalogEntry.eraseParams, push, MethodIndex.insert, ResolvedCatalog.byMethod,
      MethodIndex.positions]
  have conclusive : (t.decide policy a .null).isConclusive = true :=
    ClassTable.isConclusive_decide_iff.2 ⟨ha, rfl⟩
  rw [analyze_eq]
  simp only [probeCall, herasure, ClassTable.eraseAll, byMethod, List.findSome?_cons, judge,
    examineEntry, tryEntry, hargs, hk]
  cases t.isBelow index erased base with
  | false => simp [Verdict.isConclusive]
  | true => simp [Examination.verdict_analysis, Examination.verdict, Outcome.verdict, conclusive]

/-- Where analyses agree, the index and subtyping agree on the base types of the receiver.

**Proof sketch.** A base type whose argument the receiver shows is probed. With the index and
without it the probe is conclusive exactly if the receiver is found to be below the base type, and
the two analyses agree. -/
lemma agreesOnBases_of_analyze (lawful : t.Lawful) (plain : t.PlainSupertypes)
    (ids : List ClassId) (policy : Policy) {receiver : Ty}
    (hreceiver : receiver.canonical t = receiver)
    (h : ∀ (c : Catalog) (call : CallSite), call.receiver = receiver →
      (c.resolve t).analyze t (some (AncestorIndex.build t ids)) policy call =
        (c.resolve t).analyze t none policy call) :
    t.AgreesOnBases (AncestorIndex.build t ids) receiver := by
  rintro erased base args herasure hargs ⟨a, ha, haerasure⟩
  obtain ⟨k, hk⟩ := List.mem_iff_getElem?.1 ha
  obtain ⟨s, -, hs⟩ := Option.bind_eq_some_iff.1 hargs
  obtain ⟨-, d, hd, hlen⟩ := ClassTable.checkedArgs_eq_some_iff.1 hs
  have indexed : receiverArgs t (some (AncestorIndex.build t ids)) receiver base = some args :=
    (AncestorIndex.ancestorArgs_build lawful plain ids (.inr hreceiver) base).trans hargs
  calc t.isBelow (some (AncestorIndex.build t ids)) erased base
    _ = (((probe d.name k).resolve t).analyze t (some (AncestorIndex.build t ids)) policy
          (probeCall receiver)).verdict.isConclusive :=
        (isConclusive_analyze_probe lawful policy herasure hd hlen indexed hk haerasure).symm
    _ = (((probe d.name k).resolve t).analyze t none policy
          (probeCall receiver)).verdict.isConclusive := by rw [h _ (probeCall receiver) rfl]
    _ = t.isBelow none erased base :=
        isConclusive_analyze_probe lawful policy herasure hd hlen hargs hk haerasure

/-- **When analyses with and without an index agree.** In a table that declarations lead to, where
no declared supertype is a bare variable and no class lists an interface twice, let a receiver have
no open names. The analyses of all calls on it, by all catalogs, agree exactly if the index and
subtyping agree on the base types of which it shows an argument with an erasure. This is so for
every receiver if declared supertypes are well applied and `Object` declares neither parameters nor
supertypes. -/
theorem analyze_build_eq_iff (t : ClassTable) (ht : t.Reachable) (plain : t.PlainSupertypes)
    (ids : List ClassId) (policy : Policy) (receiver : Ty)
    (hnames : ∀ name, Ty.named name ∉ receiver.subterms) :
    ((∀ (c : Catalog) (call : CallSite), call.receiver = receiver →
        (c.resolve t).analyze t (some (AncestorIndex.build t ids)) policy call =
          (c.resolve t).analyze t none policy call) ↔
      t.AgreesOnBases (AncestorIndex.build t ids) receiver) ∧
    (t.ProperSupertypes → ∀ (c : Catalog) (call : CallSite), call.receiver = receiver →
      (c.resolve t).analyze t (some (AncestorIndex.build t ids)) policy call =
        (c.resolve t).analyze t none policy call) := by
  have hreceiver : receiver.canonical t = receiver := Ty.canonical_eq_self receiver hnames
  have agree (h : t.AgreesOnBases (AncestorIndex.build t ids) receiver) (c : Catalog)
      (call : CallSite) (hcall : call.receiver = receiver) :
      (c.resolve t).analyze t (some (AncestorIndex.build t ids)) policy call =
        (c.resolve t).analyze t none policy call := by
    subst hcall
    exact analyze_build ht.lawful plain ids policy _ hreceiver h
  exact ⟨⟨agreesOnBases_of_analyze ht.lawful plain ids policy hreceiver, agree⟩,
    fun proper => agree (proper.agreesOnBases ids receiver)⟩

/-- The supertypes in the table `nested` are proper, so all analyses of calls on `A<String>`
agree. -/
theorem analyze_build_eq_nested :
    ClassTable.nested.Reachable ∧ ClassTable.nested.PlainSupertypes ∧
    ClassTable.nested.ProperSupertypes ∧
    ∀ (policy : Policy) (c : Catalog) (call : CallSite),
      call.receiver = .cls ⟨15⟩ [.cls ⟨1⟩ []] →
      (c.resolve ClassTable.nested).analyze ClassTable.nested
          (some (AncestorIndex.build ClassTable.nested ClassTable.nested.ids)) policy call =
        (c.resolve ClassTable.nested).analyze ClassTable.nested none policy call := by
  have proper : ClassTable.nested.ProperSupertypes :=
    ClassTable.properSupertypes_of_slots (by decide +kernel) (by decide +kernel)
  refine ⟨AncestorIndex.reachable_nested, AncestorIndex.plainSupertypes_nested, proper, ?_⟩
  intro policy
  exact (analyze_build_eq_iff ClassTable.nested AncestorIndex.reachable_nested
    AncestorIndex.plainSupertypes_nested ClassTable.nested.ids policy (.cls ⟨15⟩ [.cls ⟨1⟩ []])
    (by simp [Ty.subterms, Ty.subtermsAll])).2 proper

/-! ## A wrong number of arguments -/

/-- A table in which `Left` extends `Mid<String>` although `Mid` has no parameters. Behind it there
is `Base<Integer>`, and `Right` implements `Base<String>`. -/
def skewed : ClassTable :=
  (ClassTable.core.declare
    [{ name := "com.example.Base", kind := .interface, typeParams := ["T"] },
     { name := "com.example.Mid", implemented := ["com.example.Base<Integer>"] },
     { name := "com.example.Left", extended := ["com.example.Mid<String>"] },
     { name := "com.example.Right", implemented := ["com.example.Base<String>"] }]).1

/-- The rows of this table. -/
lemma skewed_eq : skewed = ClassTable.core.withRows
    [{ name := "com.example.Base", kind := .interface, typeParams := [⟨0⟩] },
     { name := "com.example.Mid", superClass := some (.cls ⟨0⟩ []),
       interfaces := [.cls ⟨13⟩ [.cls ⟨9⟩ []]] },
     { name := "com.example.Left", superClass := some (.cls ⟨14⟩ [.cls ⟨1⟩ []]) },
     { name := "com.example.Right", superClass := some (.cls ⟨0⟩ []),
       interfaces := [.cls ⟨13⟩ [.cls ⟨1⟩ []]] }]
    [{ name := "T", upperBounds := [.cls ⟨0⟩ []] }] := by
  decide +kernel

/-- The entry for `Base.get(Object)`. -/
def getEntry : CatalogEntry where
  baseType := "com.example.Base"
  method := "get"
  erasedParams := ["Object"]
  typeParamIndex := 0
  argIndex := 0

/-- A call of `get` on `Left & Right` with an `Integer`. -/
def getCall : CallSite where
  receiver := .inter [.cls ⟨15⟩ [], .cls ⟨16⟩ []]
  method := "get"
  params := [.cls ⟨0⟩ []]
  args := [.cls ⟨9⟩ []]

/-- The entry is resolved. -/
lemma byMethod_getEntry :
    (({ entries := [getEntry] } : Catalog).resolve skewed).byMethod "get" =
      [{ entry := getEntry, base := ⟨13⟩, erasedParams := [.cls ⟨0⟩ []] }] := by
  rw [skewed_eq]
  decide +kernel

/-- The class `Left` is below `Base`. -/
lemma isBelow_left : skewed.isBelow none (.cls ⟨15⟩ []) ⟨13⟩ = true := by
  have mid : skewed.Parent ⟨15⟩ ⟨14⟩ :=
    ClassTable.mem_parents_iff.1 (by rw [skewed_eq]; decide)
  have base : skewed.Parent ⟨14⟩ ⟨13⟩ :=
    ClassTable.mem_parents_iff.1 (by rw [skewed_eq]; decide)
  exact ClassTable.isBelow_none_cls_iff.2 (.inr (.tail (.single mid) base))

/-- The walk does not find `Base` above `Left`: it stops at `Mid<String>`. -/
lemma find?_supertypeClosure_left :
    (skewed.supertypeClosure (.cls ⟨15⟩ [])).find? (fun s => s.class? == some ⟨13⟩) = none := by
  rw [List.find?_eq_none]
  intro s hs
  have mem : s ∈ [Ty.cls ⟨15⟩ [], .cls ⟨14⟩ [.cls ⟨1⟩ []]] := by
    rw [skewed_eq] at hs
    exact ClassTable.mem_of_above (by decide) (by decide)
      (ClassTable.above_of_mem_supertypeClosure hs).1
  simp only [List.mem_cons, List.not_mem_nil, or_false] at mem
  rcases mem with rfl | rfl <;> decide

/-- The walk finds `Base<String>` above `Right`. -/
lemma find?_supertypeClosure_right :
    (skewed.supertypeClosure (.cls ⟨16⟩ [])).find? (fun s => s.class? == some ⟨13⟩) =
      some (.cls ⟨13⟩ [.cls ⟨1⟩ []]) := by
  have coherent : skewed.Coherent (.cls ⟨16⟩ []) := by
    rw [skewed_eq]
    exact ClassTable.coherent_of_closed
      [.cls ⟨16⟩ [], .cls ⟨13⟩ [.cls ⟨1⟩ []], .cls ⟨0⟩ []]
      (by decide) (by decide) (by decide)
  have above : skewed.Above (.cls ⟨16⟩ []) (.cls ⟨13⟩ [.cls ⟨1⟩ []]) := by
    rw [skewed_eq]
    exact .single ((ClassTable.mem_declaredSupertypes_iff rfl).1 (by decide))
  rw [← ClassTable.viewAs_eq_find? rfl]
  exact ClassTable.viewAs_of_above rfl coherent above rfl

/-- So the index does not find `Base` above `Left` either. -/
lemma isBelow_build_left :
    skewed.isBelow (some (AncestorIndex.build skewed skewed.ids)) (.cls ⟨15⟩ []) ⟨13⟩ = false := by
  have hid : (⟨15⟩ : ClassId) ∈ skewed.ids := by
    rw [skewed_eq]
    decide
  have hd : skewed.classDef? ⟨15⟩ =
      some { name := "com.example.Left", superClass := some (.cls ⟨14⟩ [.cls ⟨1⟩ []]) } := by
    rw [skewed_eq]
    rfl
  rw [ClassTable.isBelow_of_find?_eq_some (AncestorIndex.find?_build hid hd)]
  exact congrArg Option.isSome find?_supertypeClosure_left

/-- `Left & Right` is seen as `Base<String>`, through `Right`. -/
lemma ancestorArgs_left_and_right :
    skewed.ancestorArgs getCall.receiver ⟨13⟩ = some [.cls ⟨1⟩ []] := by
  have order : (Ty.cls ⟨15⟩ []).sortKey skewed ≤ (Ty.cls ⟨16⟩ []).sortKey skewed := by
    rw [skewed_eq]
    decide
  have view : skewed.viewAs getCall.receiver ⟨13⟩ = some (.cls ⟨13⟩ [.cls ⟨1⟩ []]) := by
    simp [ClassTable.viewAs, getCall, Ty.viewWith, Ty.viewEach, sortByKey, List.mergeSort, order,
      mergeViews, find?_supertypeClosure_left, find?_supertypeClosure_right]
  rw [ClassTable.ancestorArgs, view, skewed_eq]
  rfl

/-- A `String` and an `Integer` do not go together. -/
lemma decide_string_integer :
    skewed.decide .strict (.cls ⟨1⟩ []) (.cls ⟨9⟩ []) = .incompatible := by
  rw [skewed_eq]
  exact ClassTable.decide_string_integer_withRows _ _

/-- **With an index a mismatch can be lost.** The call of `get` on `Left & Right` with an `Integer`
is found to be wrong, since `Left` is below `Base` and the receiver is a `Base<String>`. The index
does not find `Base` above `Left`, because `Mid<String>` has a wrong number of arguments, and with
it the call is left alone.

**Proof sketch.** Both analyses ask the one entry for `get`. Without the index it matches and
compares `String` with `Integer`. With the index it does not match, since `Base` is not found above
`Left`. -/
theorem analyze_build_ne_skewed :
    skewed.Reachable ∧ skewed.PlainSupertypes ∧
    (∀ name, Ty.named name ∉ getCall.receiver.subterms) ∧
    (({ entries := [getEntry] } : Catalog).resolve skewed).analyze skewed none .strict getCall =
      { verdict := .incompatible,
        mismatch := some
          { entry := getEntry, parameter := .cls ⟨1⟩ [], argument := .cls ⟨9⟩ [] } } ∧
    (({ entries := [getEntry] } : Catalog).resolve skewed).analyze skewed
        (some (AncestorIndex.build skewed skewed.ids)) .strict getCall =
      { verdict := .inconclusive, mismatch := none } := by
  have erasure : skewed.erasure getCall.receiver = some (.cls ⟨15⟩ []) := rfl
  have params : skewed.eraseAll getCall.params = some [.cls ⟨0⟩ []] := rfl
  have entries : (({ entries := [getEntry] } : Catalog).resolve skewed).byMethod getCall.method =
      [{ entry := getEntry, base := ⟨13⟩, erasedParams := [.cls ⟨0⟩ []] }] := byMethod_getEntry
  have outcome : tryEntry skewed none .strict getCall.receiver
      { entry := getEntry, base := ⟨13⟩, erasedParams := [.cls ⟨0⟩ []] } (.cls ⟨9⟩ []) =
        .compared (.cls ⟨1⟩ []) .incompatible := by
    simp [tryEntry, receiverArgs, ancestorArgs_left_and_right, getEntry, decide_string_integer]
  have argument : getCall.args[getEntry.argIndex]? = some (.cls ⟨9⟩ []) := rfl
  refine ⟨.declare _ .core, ClassTable.plainSupertypes_of_slots (by decide +kernel),
    by simp [getCall, Ty.subterms, Ty.subtermsAll], ?_, ?_⟩
  · rw [analyze_eq, erasure, params, entries]
    dsimp only
    rw [List.findSome?_cons, judge_of_incompatible rfl isBelow_left argument outcome]
    rfl
  · rw [analyze_eq, erasure, params, entries]
    simp [judge, isBelow_build_left]

end ResolvedCatalog

end ContainerLint
