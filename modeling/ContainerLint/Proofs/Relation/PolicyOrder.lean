import ContainerLint.Proofs.Relation.DecisionSymmetry

/-!
# On erased types the castable policy is the more lenient one

Two types that the strict policy accepts need not be castable to each other, since the castable
policy looks at type arguments as well. Erased types have none, and then there is nothing to object
to: not where a class without parameters declares a supertype with arguments, and not where a
supertype is declared with the wrong number of them. What is left of castability are the rules for
erased types, which accept what is above or below.

## Main results

* `ClassTable.distinctArgs_erased` — erased types have no arguments that could be different.
* `ClassTable.decide_strict_erased_iff`, `ClassTable.decide_castable_erased_iff` — what the two
  policies accept among erased types.
* `ClassTable.decide_castable_of_strict` — what the strict policy accepts, the castable one does.
-/

set_option autoImplicit false

namespace ContainerLint

namespace ClassTable

variable {t : ClassTable} {a b : Ty}

/-- A boxed erased type is an erased type. -/
lemma erased_boxed (t : ClassTable) (h : a.Erased) : (t.boxed a).Erased := by
  cases h with
  | prim p => exact .cls _
  | null => exact .null
  | cls id => exact .cls id
  | array h => exact .array h

/-- **Erased types have no arguments that are certainly different.**

**Proof sketch.** Only two classes are compared, one of them through its view as the other. The view
may have arguments, but the other type has none. -/
theorem distinctArgs_erased (ha : a.Erased) (hb : b.Erased) : t.distinctArgs a b = false := by
  cases ha with
  | cls c =>
    cases hb with
    | cls d =>
      simp only [distinctArgs, Ty.canonical, Ty.canonicalAll_eq_map, List.map_nil, viewDiffers_nil,
        ite_self]
    | _ => rfl
  | _ => cases hb <;> rfl

/-- What is above or below an erased type is castable to it. -/
lemma erasedCastable_of_erasedSubtype
    (h : t.erasedSubtype a b = true ∨ t.erasedSubtype b a = true) :
    t.erasedCastable a b = true := by
  have either : (t.erasedSubtype a b || t.erasedSubtype b a) = true := by
    rwa [Bool.or_eq_true]
  unfold erasedCastable
  split
  · rw [either, Bool.true_or]
  · rw [either, Bool.true_or]
  · exact either

/-- The strict policy accepts two erased types if one of their boxed forms is below the other. -/
lemma decide_strict_erased_iff (ha : a.Erased) (hb : b.Erased) :
    t.decide .strict a b = .compatible ↔
      t.erasedSubtype (t.boxed b) (t.boxed a) = true ∨
        t.erasedSubtype (t.boxed a) (t.boxed b) = true := by
  have erasedA := erasure_erased (t := t) (erased_boxed t ha)
  have erasedB := erasure_erased (t := t) (erased_boxed t hb)
  have related : t.compatible .strict (t.boxed a) (t.boxed b) (t.boxed a) (t.boxed b) =
      (t.erasedSubtype (t.boxed b) (t.boxed a) || t.erasedSubtype (t.boxed a) (t.boxed b)) := by
    simp [compatible, isSubtype, erasedA, erasedB]
  rw [← Bool.or_eq_true, ← related]
  simp [ClassTable.decide, erasedA, erasedB]

/-- The castable policy accepts two erased types if their boxed forms are castable as erased
types. -/
lemma decide_castable_erased_iff (ha : a.Erased) (hb : b.Erased) :
    t.decide .castable a b = .compatible ↔ t.erasedCastable (t.boxed b) (t.boxed a) = true := by
  have erasedA := erasure_erased (t := t) (erased_boxed t ha)
  have erasedB := erasure_erased (t := t) (erased_boxed t hb)
  have same := distinctArgs_erased (t := t) (erased_boxed t hb) (erased_boxed t ha)
  simp [ClassTable.decide, compatible, isCastable, erasedA, erasedB, same]

/-- **On erasures the castable policy is never stricter than the strict one**, whatever the table
says: with cycles of classes, undefined classes, or supertypes with the wrong number of
arguments. -/
theorem decide_castable_of_strict (t : ClassTable) {a b ea eb : Ty} (ha : t.erasure a = some ea)
    (hb : t.erasure b = some eb) (strict : t.decide .strict ea eb = .compatible) :
    t.decide .castable ea eb = .compatible := by
  have erasedA := erased_of_erasure ha
  have erasedB := erased_of_erasure hb
  rw [decide_castable_erased_iff erasedA erasedB]
  exact erasedCastable_of_erasedSubtype ((decide_strict_erased_iff erasedA erasedB).1 strict)

/-- A table in which `Left` extends `Mid<String>`, although `Mid` has no parameters. -/
def misapplied : ClassTable :=
  core.withRows
    [{ name := "com.example.Mid", superClass := some (.cls Core.object []) },
     { name := "com.example.Left", superClass := some (.cls ⟨13⟩ [.cls Core.string []]) }] []

/-- `Left` is below `Mid`. -/
lemma parent_misapplied : misapplied.Parent ⟨14⟩ ⟨13⟩ :=
  mem_parents_iff.1 (by decide)

/-- `Left` viewed as `Mid` is `Mid<String>`. -/
lemma viewAs_misapplied :
    misapplied.viewAs (.cls ⟨14⟩ []) ⟨13⟩ = some (.cls ⟨13⟩ [.cls Core.string []]) := by
  have coherent : misapplied.Coherent (.cls ⟨14⟩ []) :=
    coherent_of_closed [.cls ⟨14⟩ [], .cls ⟨13⟩ [.cls Core.string []]]
      (by decide) (by decide) (by decide)
  have above : misapplied.Above (.cls ⟨14⟩ []) (.cls ⟨13⟩ [.cls Core.string []]) :=
    .single ((mem_declaredSupertypes_iff rfl).1 (by decide))
  exact viewAs_of_above rfl coherent above rfl

/-- **The rule at work.** The erasures of `Mid<Integer>` and `Left` are accepted by both policies,
while the castable one rejects the types themselves.

**Proof sketch.** `Mid` is a parent of `Left`, which settles the erased types. `Left` is viewed as a
`Mid<String>`, and `String` and `Integer` are certainly different arguments. -/
theorem decide_misapplied :
    misapplied.erasure (.cls ⟨13⟩ [.cls (Core.box .int) []]) = some (.cls ⟨13⟩ []) ∧
    misapplied.erasure (.cls ⟨14⟩ []) = some (.cls ⟨14⟩ []) ∧
    misapplied.decide .strict (.cls ⟨13⟩ []) (.cls ⟨14⟩ []) = .compatible ∧
    misapplied.decide .castable (.cls ⟨13⟩ []) (.cls ⟨14⟩ []) = .compatible ∧
    misapplied.decide .castable (.cls ⟨13⟩ [.cls (Core.box .int) []]) (.cls ⟨14⟩ []) =
      .incompatible := by
  have erasedMid :
      misapplied.erasure (.cls ⟨13⟩ [.cls (Core.box .int) []]) = some (.cls ⟨13⟩ []) := rfl
  have erasedLeft : misapplied.erasure (.cls ⟨14⟩ []) = some (.cls ⟨14⟩ []) := rfl
  have strict : misapplied.decide .strict (.cls ⟨13⟩ []) (.cls ⟨14⟩ []) = .compatible :=
    (decide_strict_erased_iff (.cls _) (.cls _)).2
      (.inl (erasedSubtype_cls_iff.2 (.inr (.single parent_misapplied))))
  have distinct : misapplied.distinctArgs (.cls ⟨14⟩ [])
      (.cls ⟨13⟩ [.cls (Core.box .int) []]) = true := by
    have up : (⟨13⟩ : ClassId) ∈ misapplied.ancestors ⟨14⟩ :=
      mem_ancestors_iff.2 (.single parent_misapplied)
    simp only [distinctArgs, Ty.canonical, Ty.canonicalAll_eq_map, List.map_cons, List.map_nil,
      List.contains_iff_mem, if_pos up, viewAs_misapplied]
    decide
  refine ⟨erasedMid, erasedLeft, strict,
    decide_castable_of_strict misapplied erasedMid erasedLeft strict, ?_⟩
  simp [ClassTable.decide, boxed, erasedMid, erasedLeft, compatible, isCastable, distinct]

end ClassTable

end ContainerLint
