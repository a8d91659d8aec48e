import ContainerLint.Proofs.Analysis.FirstConclusive
import ContainerLint.Proofs.Relation.DecisionSymmetry

/-!
# Arguments that fit everywhere

The type of `null` is below every reference type, and every reference type is below `Object`. So an
argument of one of these two types goes together with every parameter that is compared as a
reference. Primitive parameters are boxed before they are compared, but boxing looks at the
parameter itself and not at what it erases to. A wildcard, a variable or an intersection with a
primitive bound is not boxed and is compared as a primitive, with which neither `null` nor an
`Object` goes together.

## Main definitions

* `ClassTable.IsUniversal` — the type of `null` and `Object`.

## Main results

* `ClassTable.decide_universal` — the verdict on such an argument.
* `ClassTable.exists_bound_of_erasure_boxed` — which parameters are compared as primitives.
* `ResolvedCatalog.analyze_universal_argument` — a mismatch with such an argument is one with a
  primitive.
-/

set_option autoImplicit false

namespace ContainerLint

namespace ClassTable

variable {t : ClassTable}

/-- The type of `null` and the class `Object`. -/
def IsUniversal (t : ClassTable) (a : Ty) : Prop :=
  a = .null ∨ a = t.objectTy

/-- A universal type is left as it is by boxing and by erasure. -/
lemma IsUniversal.erased {a : Ty} (h : t.IsUniversal a) : a.Erased ∧ t.boxed a = a := by
  rcases h with rfl | rfl
  · exact ⟨.null, rfl⟩
  · exact ⟨.cls _, rfl⟩

/-! ## Erased types -/

/-- A universal type is above or below an erased type if and only if that is a reference type. -/
lemma IsUniversal.erasedSubtype_or {a e : Ty} (h : t.IsUniversal a) (he : e.Erased) :
    (t.erasedSubtype a e || t.erasedSubtype e a) = e.isReference := by
  rcases h with rfl | rfl
  · cases he <;> simp [erasedSubtype, Ty.isReference]
  · cases he with
    | prim p => rfl
    | null => rfl
    | cls id =>
      have below : t.erasedSubtype (.cls id []) t.objectTy = true :=
        erasedSubtype_cls_iff.2 (.inl rfl)
      rw [below, Bool.or_true]
      rfl
    | array he =>
      have below : t.isArraySuper t.known.object = true := by simp [isArraySuper]
      simp [objectTy, erasedSubtype, below, Ty.isReference]

/-- The same condition decides castability. -/
lemma IsUniversal.erasedCastable {a e : Ty} (h : t.IsUniversal a) (he : e.Erased) :
    t.erasedCastable a e = e.isReference := by
  rw [← h.erasedSubtype_or he]
  rcases h with rfl | rfl
  · rfl
  · cases he with
    | cls id =>
      have below : t.erasedSubtype (.cls id []) t.objectTy = true :=
        erasedSubtype_cls_iff.2 (.inl rfl)
      rw [objectTy] at below ⊢
      simp [ClassTable.erasedCastable, below]
    | prim | null | array => rfl

/-! ## Type arguments -/

/-- A universal type has no arguments that are certainly different from those of another type, if
`Object` declares no supertypes.

**Proof sketch.** The comparison is with the empty list of arguments, whichever of the two types is
viewed: nothing but `Object` is above `Object`. -/
lemma IsUniversal.distinctArgs {a : Ty} (h : t.IsUniversal a)
    (top : ∀ d, t.classDef? t.known.object = some d → d.supertypes = []) (p : Ty) :
    t.distinctArgs a p = false := by
  have alone : ∀ d, ¬ t.Parent t.known.object d := by
    rintro d ⟨defn, hdefn, sup, hsup, -⟩
    simp [top defn hdefn] at hsup
  rcases h with rfl | rfl
  · rfl
  · have fixed : t.objectTy.canonical t = .cls t.known.object [] := rfl
    unfold ClassTable.distinctArgs
    rw [fixed]
    cases p.canonical t with
    | cls d bs =>
      dsimp only
      split
      · rfl
      · split
        · next up =>
          rw [List.contains_iff_mem, mem_ancestors_iff] at up
          have self : d = t.known.object := by
            rcases Relation.ReflTransGen.cases_head up with same | ⟨e, first, -⟩
            · exact same.symm
            · exact absurd first (alone e)
          rw [self, viewAs_self fixed, viewDiffers, argsDiffer_comm, argsDiffer_nil]
        · split
          · exact viewDiffers_nil _
          · rfl
    | _ => rfl

/-! ## Verdicts -/

/-- **A universal argument goes together with a parameter if and only if the boxed parameter erases
to a reference type**, under both policies. -/
theorem decide_universal
    (top : ∀ d, t.classDef? t.known.object = some d → d.supertypes = []) (policy : Policy)
    {p e a : Ty} (h : t.IsUniversal a) (he : t.erasure (t.boxed p) = some e) :
    t.decide policy p a = if e.isReference then .compatible else .incompatible := by
  have erased := erased_of_erasure he
  obtain ⟨self, box⟩ := h.erased
  have ha : t.erasure a = some a := erasure_erased self
  have compatible : t.compatible policy (t.boxed p) a e a = e.isReference := by
    cases policy with
    | strict =>
      rw [← h.erasedSubtype_or erased]
      simp [ClassTable.compatible, isSubtype, ha, erasure_erased erased]
    | castable =>
      simp [ClassTable.compatible, isCastable, box, ha, he, h.erasedCastable erased,
        h.distinctArgs top]
  simp [ClassTable.decide, box, he, ha, compatible]

/-- An erased type that is no reference type is primitive. -/
lemma isReference_eq_false_iff {e : Ty} (h : e.Erased) :
    e.isReference = false ↔ ∃ q, e = .prim q := by
  cases h <;> simp [Ty.isReference]

/-- **The parameters that are compared as primitives are variables, wildcards with an upper bound
and intersections.** -/
theorem exists_bound_of_erasure_boxed {p : Ty} {q : Primitive}
    (h : t.erasure (t.boxed p) = some (.prim q)) :
    (∃ x, p = .var x) ∨ (∃ upper, p = .wildExtends upper) ∨ ∃ parts, p = .inter parts := by
  cases p with
  | var x => exact .inl ⟨x, rfl⟩
  | wildExtends upper => exact .inr (.inl ⟨upper, rfl⟩)
  | inter parts => exact .inr (.inr ⟨parts, rfl⟩)
  | array elem => simp [boxed, erasure, Ty.eraseWith] at h
  | named name => simp [boxed, erasure, Ty.eraseWith] at h
  | _ => cases h

end ClassTable

namespace ResolvedCatalog

variable {c : ResolvedCatalog} {t : ClassTable} {index : Option AncestorIndex} {policy : Policy}
  {call : CallSite}

/-- The two types of a mismatch are incompatible. -/
lemma decide_of_mismatch {m : Mismatch} (h : (c.analyze t index policy call).mismatch = some m) :
    t.decide policy m.parameter m.argument = .incompatible := by
  rw [analyze_eq] at h
  split at h
  · next receiver params hreceiver hparams =>
    cases hfind : (c.byMethod call.method).findSome?
        (judge t index policy call receiver params) with
    | none => simp [hfind] at h
    | some out =>
      rw [hfind, Option.getD_some] at h
      obtain ⟨e, -, hjudge⟩ := List.exists_of_findSome?_eq_some hfind
      obtain ⟨-, argument, -, -, rfl⟩ := exists_of_judge_eq_some hjudge
      obtain ⟨-, rfl, houtcome⟩ := eq_of_mismatch_analysis h
      obtain ⟨-, -, -, verdict⟩ := exists_of_tryEntry_eq_compared houtcome
      exact verdict
  · cases h

/-- **Passing `null` or an `Object` is reported only where a primitive is expected.** In every table
in which `Object` declares no supertypes, under both policies, and for an argument that is `null` or
of type `Object`:

* the argument is compatible with a parameter whose boxed form erases to anything but a primitive,
  and incompatible with the others;
* those others are variables, wildcards with an upper bound and intersections;
* whatever the catalog, the index and the call, a mismatch with such an argument is a mismatch with
  one of them.

**Proof sketch.** The verdict on a universal argument depends only on whether the erased parameter
is a reference type (`decide_universal`), and an erased type that is none is a primitive. Boxing
removes primitives, so a primitive can only appear by erasing a bound. A mismatch is one that
`decide` has found. -/
theorem analyze_universal_argument (t : ClassTable)
    (top : ∀ d, t.classDef? t.known.object = some d → d.supertypes = []) (policy : Policy) :
    (∀ p e a, t.erasure (t.boxed p) = some e → t.IsUniversal a →
      (t.decide policy p a = .compatible ↔ ∀ q, e ≠ .prim q) ∧
      (t.decide policy p a = .incompatible ↔ ∃ q, e = .prim q)) ∧
    (∀ p q, t.erasure (t.boxed p) = some (.prim q) →
      (∃ x, p = .var x) ∨ (∃ upper, p = .wildExtends upper) ∨ ∃ parts, p = .inter parts) ∧
    ∀ (c : ResolvedCatalog) (index : Option AncestorIndex) (call : CallSite) (m : Mismatch),
      (c.analyze t index policy call).mismatch = some m → t.IsUniversal m.argument →
        ∃ q, t.erasure (t.boxed m.parameter) = some (.prim q) := by
  refine ⟨fun p e a he ha => ?_, fun p q => ClassTable.exists_bound_of_erasure_boxed,
    fun c index call m hm ha => ?_⟩
  · have prim := ClassTable.isReference_eq_false_iff (ClassTable.erased_of_erasure he)
    rw [ClassTable.decide_universal top policy ha he]
    cases href : e.isReference with
    | false => simpa using prim.1 href
    | true =>
      have other : ¬ ∃ q, e = .prim q := by simp [← prim, href]
      simpa using other
  · have verdict := decide_of_mismatch hm
    cases he : t.erasure (t.boxed m.parameter) with
    | none =>
      have open' : ¬ (t.decide policy m.parameter m.argument).isConclusive = true := by
        simp [ClassTable.isConclusive_decide_iff, he]
      simp [verdict, Verdict.isConclusive] at open'
    | some e =>
      rw [ClassTable.decide_universal top policy ha he] at verdict
      cases href : e.isReference with
      | true => simp [href] at verdict
      | false =>
        obtain ⟨q, rfl⟩ :=
          (ClassTable.isReference_eq_false_iff (ClassTable.erased_of_erasure he)).1 href
        exact ⟨q, rfl⟩

/-! ## A receiver with a primitive bound -/

/-- A call of `get` on `Base<? extends int>` with `null`. -/
def boundedCall : CallSite where
  receiver := .cls ⟨13⟩ [.wildExtends (.prim .int)]
  method := "get"
  params := [.cls ⟨0⟩ []]
  args := [.null]

/-- In the table `skewed` the class `Object` declares no supertypes. -/
lemma supertypes_object_skewed (d : ClassDef)
    (h : skewed.classDef? skewed.known.object = some d) : d.supertypes = [] := by
  have object : skewed.classDef? skewed.known.object = some { name := "java.lang.Object" } := by
    rw [skewed_eq]
    rfl
  obtain rfl := Option.some.inj (object.symm.trans h)
  rfl

/-- Neither `null` nor an `Object` goes together with `? extends int`. -/
lemma decide_boundedCall (policy : Policy) {a : Ty} (h : skewed.IsUniversal a) :
    skewed.decide policy (.wildExtends (.prim .int)) a = .incompatible :=
  ClassTable.decide_universal supertypes_object_skewed policy h (e := .prim .int) rfl

/-- The call is reported.

**Proof sketch.** The receiver is a `Base` itself, so the one entry matches and compares `null` with
the upper bound `int` of the argument. -/
lemma analyze_boundedCall :
    (({ entries := [getEntry] } : Catalog).resolve skewed).analyze skewed none .strict boundedCall =
      { verdict := .incompatible,
        mismatch := some
          { entry := getEntry, parameter := .wildExtends (.prim .int), argument := .null } } := by
  have erasure : skewed.erasure boundedCall.receiver = some (.cls ⟨13⟩ []) := rfl
  have params : skewed.eraseAll boundedCall.params = some [.cls ⟨0⟩ []] := rfl
  have entries :
      (({ entries := [getEntry] } : Catalog).resolve skewed).byMethod boundedCall.method =
        [{ entry := getEntry, base := ⟨13⟩, erasedParams := [.cls ⟨0⟩ []] }] := byMethod_getEntry
  have below : skewed.isBelow none (.cls ⟨13⟩ []) ⟨13⟩ = true :=
    ClassTable.isBelow_none_cls_iff.2 (.inr .refl)
  have args : skewed.ancestorArgs boundedCall.receiver ⟨13⟩ = some [.wildExtends (.prim .int)] := by
    rw [ClassTable.ancestorArgs, boundedCall, ClassTable.viewAs_self rfl, skewed_eq]
    rfl
  have outcome : tryEntry skewed none .strict boundedCall.receiver
      { entry := getEntry, base := ⟨13⟩, erasedParams := [.cls ⟨0⟩ []] } .null =
        .compared (.wildExtends (.prim .int)) .incompatible := by
    simp [tryEntry, receiverArgs, args, getEntry, decide_boundedCall .strict (.inl rfl)]
  have argument : boundedCall.args[getEntry.argIndex]? = some .null := rfl
  rw [analyze_eq, erasure, params, entries]
  dsimp only
  rw [List.findSome?_cons, judge_of_incompatible rfl below argument outcome]
  rfl

/-- **The rule at work.** Both universal arguments go together with a `Base<String>` and with the
boxed form of `int`, and what the analysis of the call on `Base<? extends int>` reports is a
mismatch with a primitive. -/
theorem analyze_universal_boundedCall :
    (∀ d, skewed.classDef? skewed.known.object = some d → d.supertypes = []) ∧
    skewed.decide .castable (.cls ⟨13⟩ [.cls ⟨1⟩ []]) skewed.objectTy = .compatible ∧
    skewed.decide .castable (.prim .int) .null = .compatible ∧
    ∃ m, ((({ entries := [getEntry] } : Catalog).resolve skewed).analyze skewed none .strict
        boundedCall).mismatch = some m ∧ m.argument = .null ∧
      ∃ q, skewed.erasure (skewed.boxed m.parameter) = some (.prim q) := by
  obtain ⟨verdict, -, -⟩ :=
    analyze_universal_argument skewed supertypes_object_skewed .castable
  obtain ⟨-, -, mismatch⟩ :=
    analyze_universal_argument skewed supertypes_object_skewed .strict
  have reported := congrArg Analysis.mismatch analyze_boundedCall
  exact ⟨supertypes_object_skewed,
    (verdict (.cls ⟨13⟩ [.cls ⟨1⟩ []]) (.cls ⟨13⟩ []) _ rfl (.inr rfl)).1.2 (by simp),
    (verdict (.prim .int) (.cls (skewed.known.box .int) []) _ rfl (.inl rfl)).1.2 (by simp),
    _, reported, rfl, mismatch _ _ _ _ reported (.inl rfl)⟩

/-- **Passing `null` can be reported.** The type `? extends int` has an erasure, but under both
policies neither `null` nor an `Object` is compatible with it, and a call of `get` on
`Base<? extends int>` with `null` is found to be wrong. -/
theorem mismatch_null_boundedCall :
    (∀ d, skewed.classDef? skewed.known.object = some d → d.supertypes = []) ∧
    (skewed.erasure (skewed.boxed (.wildExtends (.prim .int)))).isSome ∧
    (∀ policy, skewed.decide policy (.wildExtends (.prim .int)) .null = .incompatible ∧
      skewed.decide policy (.wildExtends (.prim .int)) skewed.objectTy = .incompatible) ∧
    (({ entries := [getEntry] } : Catalog).resolve skewed).analyze skewed none .strict boundedCall =
      { verdict := .incompatible,
        mismatch := some
          { entry := getEntry, parameter := .wildExtends (.prim .int), argument := .null } } :=
  ⟨supertypes_object_skewed, rfl,
    fun policy => ⟨decide_boundedCall policy (.inl rfl), decide_boundedCall policy (.inr rfl)⟩,
    analyze_boundedCall⟩

end ResolvedCatalog

end ContainerLint
