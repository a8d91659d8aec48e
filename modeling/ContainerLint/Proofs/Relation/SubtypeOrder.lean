import ContainerLint.Proofs.Declaration.Edits
import ContainerLint.Proofs.Graph.Reachability
import ContainerLint.Relation.Subtype

/-!
# Erased subtyping is a preorder

The subtype test puts together several rules: equality, widening of primitives, the rule for `null`,
covariance of arrays, the three classes above all arrays, `Object`, and a search along declarations.
They are stated as a relation, which the test decides, and which is transitive as soon as the three
classes above all arrays have nothing above them that does not have to be there.

## Main definitions

* `ClassTable.Parent` — a class and the class of one of its declared supertypes.
* `ClassTable.ClassBelow` — subtyping of classes: `Object`, or what declarations lead to.
* `ClassTable.Below` — subtyping of erased types, rule by rule.
* `ClassTable.ArraySupersOnTop` — nothing but `Object` is above the classes above all arrays.

## Main results

* `ClassTable.mem_ancestors_iff` — the ancestors of a class are what declarations lead to.
* `ClassTable.erasedSubtype_iff_below` — the test decides the relation.
* `ClassTable.Below.trans` — the relation is transitive.
* `ClassTable.isSubtype_preorder` — subtyping is a preorder that follows the declarations.
-/

set_option autoImplicit false

namespace ContainerLint

/-- Widening of primitives is transitive. -/
lemma Primitive.widens_trans {p q r : Primitive} (hpq : p.widens q = true)
    (hqr : q.widens r = true) : p.widens r = true := by
  have listed : ∀ p ∈ all, ∀ q ∈ all, ∀ r ∈ all,
      p.widens q = true → q.widens r = true → p.widens r = true := by decide
  exact listed p p.mem_all q q.mem_all r r.mem_all hpq hqr

namespace ClassTable

variable {t : ClassTable}

/-- The class `d` is the class of the erasure of a supertype that the class `c` declares. -/
def Parent (t : ClassTable) (c d : ClassId) : Prop :=
  ∃ defn, t.classDef? c = some defn ∧
    ∃ sup ∈ defn.supertypes, ∃ erased, t.erasure sup = some erased ∧ erased.class? = some d

/-- Subtyping of classes. -/
def ClassBelow (t : ClassTable) (c d : ClassId) : Prop :=
  d = t.known.object ∨ Relation.ReflTransGen t.Parent c d

/-- Subtyping of erased types. -/
inductive Below (t : ClassTable) : Ty → Ty → Prop where
  | refl (a : Ty) : Below t a a
  /-- `null` is of every reference type. -/
  | null {b : Ty} : b.isReference = true → Below t .null b
  | widen {p q : Primitive} : p.widens q = true → Below t (.prim p) (.prim q)
  | cls {c d : ClassId} {as bs : List Ty} : t.ClassBelow c d → Below t (.cls c as) (.cls d bs)
  /-- Arrays of references are covariant. -/
  | array {a b : Ty} : a.isReference = true → b.isReference = true → Below t a b →
      Below t (.array a) (.array b)
  | arrayClass {a : Ty} {d : ClassId} {bs : List Ty} : t.isArraySuper d = true →
      Below t (.array a) (.cls d bs)

/-- The class `Object` declares no supertypes, and the other two classes above all arrays declare
none but `Object`. -/
structure ArraySupersOnTop (t : ClassTable) : Prop where
  object : ∀ d, ¬ t.Parent t.known.object d
  cloneable : ∀ d, t.Parent t.known.cloneable d → d = t.known.object
  serializable : ∀ d, t.Parent t.known.serializable d → d = t.known.object

/-! ## Ancestors -/

/-- The computed parents of a class. -/
lemma mem_parents_iff {c d : ClassId} : d ∈ t.parents c ↔ t.Parent c d := by
  unfold parents Parent
  cases t.classDef? c with
  | none => simp
  | some defn => simp [List.mem_filterMap, Option.bind_eq_some_iff]

/-- The ancestors of a class are the classes that declarations lead to.

**Proof sketch.** In this graph a node is its own key, so a walk visits what can be reached. -/
theorem mem_ancestors_iff {c d : ClassId} :
    d ∈ t.ancestors c ↔ Relation.ReflTransGen t.Parent c d := by
  have step : t.parentWalk.Step = t.Parent := by
    funext a b
    rw [Walk.Step, ← mem_parents_iff]
    simp [parentWalk, Walk.keyed]
  rw [ancestors, Walk.mem_visit_iff, Walk.Reach, step]
  · simp [parentWalk, Walk.keyed]
  · intro a b k _ _ ha hb
    exact Option.some.inj (ha.trans hb.symm)

/-! ## The test decides the relation -/

/-- The rule for classes. -/
lemma erasedSubtype_cls_iff {c d : ClassId} {as bs : List Ty} :
    t.erasedSubtype (.cls c as) (.cls d bs) = true ↔ t.ClassBelow c d := by
  simp only [erasedSubtype, Bool.or_eq_true, Bool.and_eq_true, beq_iff_eq, List.contains_iff_mem,
    mem_ancestors_iff, ClassBelow]
  constructor
  · rintro ((⟨rfl, -⟩ | h) | h)
    · exact .inr .refl
    · exact .inl h
    · exact .inr h
  · rintro (h | h)
    · exact .inl (.inr h)
    · exact .inr h

/-- The rule for arrays. -/
lemma erasedSubtype_array_iff {a b : Ty} :
    t.erasedSubtype (.array a) (.array b) = true ↔
      a = b ∨ a.isReference = true ∧ b.isReference = true ∧ t.erasedSubtype a b = true := by
  cases a with
  | prim p =>
    cases b with
    | prim q => simp [erasedSubtype, Ty.isReference]
    | _ => simp [erasedSubtype, Ty.isReference]
  | _ => simp [erasedSubtype, and_assoc]

/-- The test says yes to everything that is equal. -/
lemma erasedSubtype_self (a : Ty) : t.erasedSubtype a a = true := by
  cases a with
  | cls c as => exact erasedSubtype_cls_iff.2 (.inr .refl)
  | array a => exact erasedSubtype_array_iff.2 (.inl rfl)
  | prim p => simp [erasedSubtype, Primitive.widens]
  | null => rfl
  | _ => simp [erasedSubtype]

/-- **The subtype test decides the relation.**

**Proof sketch.** Induction on the smaller type: only arrays lead to smaller questions. -/
theorem erasedSubtype_iff_below {a b : Ty} : t.erasedSubtype a b = true ↔ t.Below a b := by
  constructor
  · intro h
    induction a using Ty.recOnMembers generalizing b with
    | null => exact .null (by simpa [erasedSubtype] using h)
    | prim p =>
      cases b with
      | prim q => exact .widen (by simpa [erasedSubtype] using h)
      | _ => simp [erasedSubtype] at h
    | cls c as =>
      cases b with
      | cls d bs => exact .cls (erasedSubtype_cls_iff.1 h)
      | _ => simp [erasedSubtype] at h
    | array a ih =>
      cases b with
      | array b =>
        rcases erasedSubtype_array_iff.1 h with rfl | ⟨ha, hb, hab⟩
        · exact .refl _
        · exact .array ha hb (ih hab)
      | cls d bs => exact .arrayClass (by simpa [erasedSubtype] using h)
      | _ => simp [erasedSubtype] at h
    | _ =>
      obtain rfl := (by simpa [erasedSubtype] using h : _ = b)
      exact .refl _
  · intro h
    induction h with
    | refl a => exact erasedSubtype_self a
    | null hb => simpa [erasedSubtype] using hb
    | widen h => simpa [erasedSubtype] using h
    | cls h => exact erasedSubtype_cls_iff.2 h
    | array ha hb _ ih => exact erasedSubtype_array_iff.2 (.inr ⟨ha, hb, ih⟩)
    | arrayClass h => simpa [erasedSubtype] using h

/-! ## Transitivity -/

/-- Nothing else is above `Object`. -/
lemma ArraySupersOnTop.eq_object {d : ClassId} (h : t.ArraySupersOnTop)
    (hd : Relation.ReflTransGen t.Parent t.known.object d) : d = t.known.object := by
  rcases Relation.ReflTransGen.cases_head hd with rfl | ⟨e, he, -⟩
  · rfl
  · exact absurd he (h.object e)

/-- Above a class with no parent but `Object` there is only `Object`. -/
lemma ArraySupersOnTop.eq_or_eq_object {c d : ClassId} (h : t.ArraySupersOnTop)
    (hc : ∀ e, t.Parent c e → e = t.known.object) (hd : Relation.ReflTransGen t.Parent c d) :
    d = c ∨ d = t.known.object := by
  rcases Relation.ReflTransGen.cases_head hd with rfl | ⟨e, he, hed⟩
  · exact .inl rfl
  · obtain rfl := hc e he
    exact .inr (h.eq_object hed)

/-- Subtyping of classes is transitive. -/
lemma ClassBelow.trans {c d e : ClassId} (h : t.ArraySupersOnTop) (hcd : t.ClassBelow c d)
    (hde : t.ClassBelow d e) : t.ClassBelow c e := by
  rcases hde with rfl | hde
  · exact .inl rfl
  · rcases hcd with rfl | hcd
    · exact .inl (h.eq_object hde)
    · exact .inr (hcd.trans hde)

/-- What is above a class above all arrays is one of these classes. -/
lemma isArraySuper_of_classBelow {d e : ClassId} (h : t.ArraySupersOnTop)
    (hd : t.isArraySuper d = true) (hde : t.ClassBelow d e) : t.isArraySuper e = true := by
  have object : t.isArraySuper t.known.object = true := by simp [isArraySuper]
  rcases hde with rfl | hde
  · exact object
  · have top : e = d ∨ e = t.known.object := by
      simp only [isArraySuper, Bool.or_eq_true, beq_iff_eq] at hd
      rcases hd with (rfl | rfl) | rfl
      · exact .inl (h.eq_object hde)
      · exact h.eq_or_eq_object h.cloneable hde
      · exact h.eq_or_eq_object h.serializable hde
    rcases top with rfl | rfl
    · exact hd
    · exact object

/-- What is above a reference type is a reference type. -/
lemma Below.isReference {a b : Ty} (h : t.Below a b) (ha : a.isReference = true) :
    b.isReference = true := by
  cases h with
  | refl => exact ha
  | null hb => exact hb
  | widen => cases ha
  | cls | array | arrayClass => rfl

/-- **The relation is transitive.**

**Proof sketch.** Induction on the first derivation. Each rule leaves few rules for the second:
above `null` are reference types, above a class are classes, and above an array are arrays and the
classes above all arrays, which stay among themselves. -/
theorem Below.trans {a b c : Ty} (h : t.ArraySupersOnTop) (hab : t.Below a b)
    (hbc : t.Below b c) : t.Below a c := by
  induction hab generalizing c with
  | refl => exact hbc
  | null hb => exact .null (hbc.isReference hb)
  | widen hpq =>
    cases hbc with
    | refl => exact .widen hpq
    | widen hqr => exact .widen (Primitive.widens_trans hpq hqr)
  | cls hcd =>
    cases hbc with
    | refl => exact .cls hcd
    | cls hde => exact .cls (hcd.trans h hde)
  | array ha hb hab ih =>
    cases hbc with
    | refl => exact .array ha hb hab
    | array _ hc hbc => exact .array ha hc (ih hbc)
    | arrayClass hd => exact .arrayClass hd
  | arrayClass hd =>
    cases hbc with
    | refl => exact .arrayClass hd
    | cls hde => exact .arrayClass (isArraySuper_of_classBelow h hd hde)

/-! ## Subtyping of types -/

/-- Subtyping compares erasures. -/
lemma isSubtype_iff_below {a b : Ty} :
    t.isSubtype a b = true ↔
      ∃ ea eb, t.erasure a = some ea ∧ t.erasure b = some eb ∧ t.Below ea eb := by
  unfold isSubtype
  cases t.erasure a <;> cases t.erasure b <;> simp [erasedSubtype_iff_below]

/-- Subtyping of class types. -/
lemma isSubtype_cls_iff {c d : ClassId} {as bs : List Ty} :
    t.isSubtype (.cls c as) (.cls d bs) = true ↔ t.ClassBelow c d := by
  simp [isSubtype, erasure, Ty.eraseWith, erasedSubtype_cls_iff]

/-- A class outside of a list that is closed under parents is not above its members. -/
lemma not_classBelow_of_closed (ids : List ClassId) {c d : ClassId} (start : c ∈ ids)
    (closed : ∀ a ∈ ids, ∀ b ∈ t.parents a, b ∈ ids) (hd : d ∉ ids) (hobject : d ≠ t.known.object) :
    ¬ t.ClassBelow c d := by
  rintro (object | path)
  · exact hobject object
  · refine hd ?_
    clear hd hobject
    induction path with
    | refl => exact start
    | tail _ parent ih => exact closed _ ih _ (mem_parents_iff.2 parent)

/-- **Erased subtyping is a preorder that follows the declarations.** Whatever else a table says, be
there cycles of classes or of bounds: a type that has an erasure is a subtype of itself, subtyping
is transitive, and a class type is below another one if and only if the other class is `Object` or
declared supertypes lead to it.

**Proof sketch.** The test decides `Below`, which is reflexive by a rule and transitive by
`Below.trans`. On class types it comes down to `ClassBelow`. -/
theorem isSubtype_preorder (t : ClassTable) (h : t.ArraySupersOnTop) :
    (∀ a : Ty, (t.erasure a).isSome → t.isSubtype a a = true) ∧
    (∀ a b c : Ty, t.isSubtype a b = true → t.isSubtype b c = true → t.isSubtype a c = true) ∧
    ∀ (c d : ClassId) (as bs : List Ty), t.isSubtype (.cls c as) (.cls d bs) = true ↔
      d = t.known.object ∨ Relation.ReflTransGen t.Parent c d := by
  refine ⟨fun a ha => ?_, fun a b c hab hbc => ?_, fun c d as bs => isSubtype_cls_iff⟩
  · obtain ⟨ea, hea⟩ := Option.isSome_iff_exists.1 ha
    exact isSubtype_iff_below.2 ⟨ea, ea, hea, hea, .refl ea⟩
  · obtain ⟨ea, eb, hea, heb, hab⟩ := isSubtype_iff_below.1 hab
    obtain ⟨eb', ec, heb', hec, hbc⟩ := isSubtype_iff_below.1 hbc
    obtain rfl : eb = eb' := Option.some.inj (heb.symm.trans heb')
    exact isSubtype_iff_below.2 ⟨ea, ec, hea, hec, hab.trans h hbc⟩

/-- In the core table nothing is above the classes above all arrays. -/
lemma arraySupersOnTop_core : core.ArraySupersOnTop where
  object d hd := by
    have none : core.parents core.known.object = [] := by decide
    simpa [none] using mem_parents_iff.2 hd
  cloneable d hd := by
    have none : core.parents core.known.cloneable = [] := by decide
    simpa [none] using mem_parents_iff.2 hd
  serializable d hd := by
    have none : core.parents core.known.serializable = [] := by decide
    simpa [none] using mem_parents_iff.2 hd

/-- `Integer` is below `Serializable`, by way of `Number`. -/
theorem isSubtype_core_integer_serializable : core.ArraySupersOnTop ∧
    core.isSubtype (.cls (Core.box .int) []) (.cls Core.serializable []) = true := by
  obtain ⟨-, trans, classes⟩ := isSubtype_preorder core arraySupersOnTop_core
  refine ⟨arraySupersOnTop_core, trans _ (.cls Core.number []) _ ?_ ?_⟩
  · exact (classes _ _ _ _).2 (.inr (.single (mem_parents_iff.1 (by decide +kernel))))
  · exact (classes _ _ _ _).2 (.inr (.single (mem_parents_iff.1 (by decide +kernel))))

end ClassTable

end ContainerLint
