import ContainerLint.Hierarchy.View
import ContainerLint.Proofs.Relation.DecisionSymmetry

/-!
# Open names and the classes that they stand for

A name in a type may be looked up before a question is asked or left to whoever answers it. Erasure
looks up the names that it comes across, the comparison of type arguments and the walk to the
supertypes start by looking up all of them, and an index does so before anything else. The answers
are the same in all cases. Only the parts of an intersection are taken in the order of their
spelling, which changes when a name is looked up.

## Main results

* `ClassTable.erasure_canonical`, `ClassTable.decide_canonical` — names do not matter to erasures
  and verdicts.
* `ClassTable.viewAs_canonical` — nor to views, outside of intersections.
* `ClassTable.answers_canonical` — all questions, with and without an index.
-/

set_option autoImplicit false

namespace ContainerLint

variable {t : ClassTable}

/-- Whatever variables erase to, a type erases to the same before and after its names are looked
up. -/
lemma Ty.eraseWith_canonical (t : ClassTable) (follow : VarId → Option Ty) (ty : Ty) :
    (ty.canonical t).eraseWith t follow = ty.eraseWith t follow := by
  induction ty using recOnMembers with
  | named name => cases h : t.lookup name <;> simp [canonical, eraseWith, h]
  | array elem ih => rw [canonical, eraseWith, eraseWith, ih]
  | wildExtends upper ih => exact ih
  | inter parts ih =>
    rw [canonical, canonicalAll_eq_map]
    cases parts with
    | nil => rfl
    | cons part parts => exact ih part List.mem_cons_self
  | _ => rfl

/-- The same for views, if there is no intersection: a walk starts by looking up names. -/
lemma Ty.viewWith_canonical (t : ClassTable) (target : ClassId) (follow : VarId → Option Ty)
    (ty : Ty) (plain : ∀ parts, Ty.inter parts ∉ ty.subterms) :
    (ty.canonical t).viewWith t target follow = ty.viewWith t target follow := by
  have walked (ty : Ty) :
      ((t.supertypeClosure (ty.canonical t)).find? fun sup => sup.class? == some target) =
        (t.supertypeClosure ty).find? fun sup => sup.class? == some target := by
    rw [t.supertypeClosure_canonical]
  induction ty using recOnMembers with
  | cls | wildSuper => exact walked _
  | named name =>
    -- the walk from a name starts at its class, and a name that is not known stays a name
    have same := walked (.named name)
    rcases canonical_named t name with ⟨id, h⟩ | h
    · rw [h] at same ⊢
      exact same
    · rw [h]
  | wildExtends upper ih => exact ih fun parts mem => plain parts (List.mem_cons_of_mem _ mem)
  | inter parts => exact absurd (by simp [subterms]) (plain parts)
  | _ => rfl

namespace ClassTable

/-- **A type has the same erasure before and after its names are looked up.** -/
@[simp] theorem erasure_canonical (t : ClassTable) (ty : Ty) :
    t.erasure (ty.canonical t) = t.erasure ty :=
  ty.eraseWith_canonical t _

/-- Subtyping goes by erasures. -/
@[simp] lemma isSubtype_canonical (t : ClassTable) (a b : Ty) :
    t.isSubtype (a.canonical t) (b.canonical t) = t.isSubtype a b := by
  simp only [isSubtype, erasure_canonical]

/-- Boxing commutes with looking up names: a name does not stand for a primitive type. -/
lemma boxed_canonical (t : ClassTable) (ty : Ty) :
    t.boxed (ty.canonical t) = (t.boxed ty).canonical t := by
  cases ty with
  | named name =>
    rcases Ty.canonical_named t name with ⟨id, h⟩ | h
    · rw [h]
      exact h.symm
    · rw [h]
      exact h.symm
  | _ => rfl

/-- Type arguments are compared after their names have been looked up. -/
@[simp] lemma distinctArgs_canonical (t : ClassTable) (a b : Ty) :
    t.distinctArgs (a.canonical t) (b.canonical t) = t.distinctArgs a b := by
  simp only [distinctArgs, Ty.canonical_canonical]

/-- Castability is the same before and after names are looked up. -/
@[simp] lemma isCastable_canonical (t : ClassTable) (a b : Ty) :
    t.isCastable (a.canonical t) (b.canonical t) = t.isCastable a b := by
  simp only [isCastable, boxed_canonical, erasure_canonical, distinctArgs_canonical]

/-- **So are verdicts, under both policies.** -/
theorem decide_canonical (t : ClassTable) (policy : Policy) (p a : Ty) :
    t.decide policy (p.canonical t) (a.canonical t) = t.decide policy p a := by
  have compatible (ep ea : Ty) :
      t.compatible policy ((t.boxed p).canonical t) ((t.boxed a).canonical t) ep ea =
        t.compatible policy (t.boxed p) (t.boxed a) ep ea := by
    cases policy with
    | strict => rfl
    | castable => exact t.isCastable_canonical _ _
  simp only [ClassTable.decide, boxed_canonical, erasure_canonical, compatible]

/-- **A type is viewed as a class in the same way before and after its names are looked up**, if
there is no intersection in it. -/
theorem viewAs_canonical {ty : Ty} (plain : ∀ parts, Ty.inter parts ∉ ty.subterms)
    (target : ClassId) : t.viewAs (ty.canonical t) target = t.viewAs ty target :=
  ty.viewWith_canonical t target _ plain

end ClassTable

/-- An index looks up names before anything else. -/
lemma AncestorIndex.ancestorArgs_canonical (index : AncestorIndex) (t : ClassTable) (ty : Ty)
    (ancestor : ClassId) :
    index.ancestorArgs t (ty.canonical t) ancestor = index.ancestorArgs t ty ancestor := by
  simp only [AncestorIndex.ancestorArgs, Ty.canonical_canonical]

namespace ClassTable

/-- **Open names and the classes that they stand for are interchangeable.** In every table:

* there is nothing left to look up when the names of a type have been looked up;
* erasure, subtyping, castability and verdicts are the same before and after;
* so are the arguments of an ancestor, if there is no intersection in the receiver; what any index
  answers is the same for all receivers. -/
theorem answers_canonical (t : ClassTable) :
    (∀ ty : Ty, (ty.canonical t).canonical t = ty.canonical t) ∧
    (∀ ty : Ty, t.erasure (ty.canonical t) = t.erasure ty) ∧
    (∀ a b : Ty, t.isSubtype (a.canonical t) (b.canonical t) = t.isSubtype a b) ∧
    (∀ a b : Ty, t.isCastable (a.canonical t) (b.canonical t) = t.isCastable a b) ∧
    (∀ (policy : Policy) (p a : Ty),
      t.decide policy (p.canonical t) (a.canonical t) = t.decide policy p a) ∧
    (∀ ty : Ty, (∀ parts, Ty.inter parts ∉ ty.subterms) → ∀ ancestor : ClassId,
      t.ancestorArgs (ty.canonical t) ancestor = t.ancestorArgs ty ancestor) ∧
    ∀ (index : AncestorIndex) (ty : Ty) (ancestor : ClassId),
      index.ancestorArgs t (ty.canonical t) ancestor = index.ancestorArgs t ty ancestor := by
  refine ⟨Ty.canonical_canonical t, t.erasure_canonical, t.isSubtype_canonical,
    t.isCastable_canonical, t.decide_canonical, fun ty plain ancestor => ?_,
    fun index ty => index.ancestorArgs_canonical t ty⟩
  rw [ancestorArgs, ancestorArgs, viewAs_canonical plain]

/-- The type `? extends A<String>`, in which `String` is an open name. -/
def openBound : Ty := .wildExtends (.cls ⟨15⟩ [.named "String"])

/-- **Open names at work.** With `String` left open inside of an argument, `? extends A<String>` is
still seen as a `B<List<String>>`, and an `A<String>` is still no `B<List<Integer>>`.

**Proof sketch.** The answers are the same once names are looked up. Then `openBound` is a wildcard
bounded by `A<String>`, which is viewed as its declared step, and the cast is that of
`isCastable_nested`. -/
theorem answers_openBound :
    (∀ parts, Ty.inter parts ∉ openBound.subterms) ∧
    nested.ancestorArgs openBound ⟨14⟩ = some [.cls ⟨13⟩ [.cls ⟨1⟩ []]] ∧
    nested.isCastable (.cls ⟨15⟩ [.named "String"])
      (.cls ⟨14⟩ [.cls ⟨13⟩ [.named "java.lang.Integer"]]) = false := by
  obtain ⟨-, -, -, castable, -, args, -⟩ := answers_canonical nested
  have plain : ∀ parts, Ty.inter parts ∉ openBound.subterms := by
    simp [openBound, Ty.subterms, Ty.subtermsAll]
  have string : nested.lookup "String" = some ⟨1⟩ := by
    rw [nested_eq]
    decide
  have integer : nested.lookup "java.lang.Integer" = some ⟨9⟩ := by
    rw [nested_eq]
    decide
  have bound := viewAs_of_above rfl coherent_nested above_nested rfl
  have view : nested.viewAs (openBound.canonical nested) ⟨14⟩ =
      some (.cls ⟨14⟩ [.cls ⟨13⟩ [.cls ⟨1⟩ []]]) := by
    simp only [openBound, Ty.canonical, Ty.canonicalAll_eq_map, List.map_cons, List.map_nil, string]
    exact bound
  refine ⟨plain, ?_, ?_⟩
  · rw [← args openBound plain, ancestorArgs, view, nested_eq]
    rfl
  · rw [← castable]
    simp only [Ty.canonical, Ty.canonicalAll_eq_map, List.map_cons, List.map_nil, string, integer]
    exact isCastable_nested

end ClassTable

end ContainerLint
