import ContainerLint.Analysis.Analyze
import ContainerLint.Proofs.Hierarchy.IndexAgreement
import ContainerLint.Proofs.Relation.SubtypeOrder

/-!
# Which classes the index finds

The index finds a class above another one if the walk over supertypes with their arguments meets
it. Subtyping follows the declarations without looking at arguments. The two part where the walk
stops early, at a supertype with a wrong number of arguments, or where it goes on above the implicit
supertype of an interface. Where all declared supertypes are well applied and nothing is above
`Object`, they agree on every class but `Object`.

## Main definitions

* `ClassTable.isWellApplied` — a class type that is raw or has the right number of arguments.
* `ClassTable.ProperSupertypes` — all declared supertypes are well applied, and `Object` is on top.

## Main results

* `ClassTable.classBelow_of_above` — what the walk meets is above in the sense of subtyping.
* `ClassTable.exists_mem_supertypeClosure` — the walk meets all that declarations lead to.
* `ClassTable.isBelow_build` — the index answers as subtyping does.
-/

set_option autoImplicit false

namespace ContainerLint

namespace ClassTable

/-- A class type that is raw or has as many arguments as its class has parameters. -/
def isWellApplied (t : ClassTable) : Ty → Bool
  | .cls id args =>
    args.isEmpty || ((t.classDef? id).map fun d => args.length == d.arity).getD true
  | _ => false

/-- Declared supertypes are well applied class types, and `Object` declares neither parameters nor
supertypes. -/
structure ProperSupertypes (t : ClassTable) : Prop where
  wellApplied : ∀ {id : ClassId} {d : ClassDef} {sup : Ty},
    t.classDef? id = some d → sup ∈ d.supertypes → t.isWellApplied sup = true
  object : ∀ {d : ClassDef}, t.classDef? t.known.object = some d →
    d.typeParams = [] ∧ d.supertypes = []

variable {t : ClassTable}

/-- Whether supertypes are proper can be read off the rows of a table. -/
lemma properSupertypes_of_slots
    (rows : ∀ slot ∈ t.slots, ∀ d ∈ slot.defn, ∀ sup ∈ d.supertypes, t.isWellApplied sup = true)
    (object : ∀ d ∈ t.classDef? t.known.object, d.typeParams = [] ∧ d.supertypes = []) :
    t.ProperSupertypes := by
  refine ⟨fun hd hsup => ?_, fun hd => object _ hd⟩
  obtain ⟨slot, hslot, hd⟩ := Option.bind_eq_some_iff.1 hd
  exact rows slot (List.mem_of_getElem? hslot) _ hd _ hsup

/-- A well applied type is a class type. -/
lemma exists_eq_cls_of_isWellApplied {ty : Ty} (h : t.isWellApplied ty = true) :
    ∃ c as, ty = .cls c as := by
  cases ty with
  | cls c as => exact ⟨c, as, rfl⟩
  | _ => cases h

/-- A well applied use of a defined class is raw or has the right number of arguments. -/
lemma isWellApplied_cls_iff {c : ClassId} {as : List Ty} {d : ClassDef}
    (hd : t.classDef? c = some d) :
    t.isWellApplied (.cls c as) = true ↔ as = [] ∨ as.length = d.arity := by
  simp [isWellApplied, hd]

/-- Whether a class type is well applied depends on the number of its arguments. -/
lemma isWellApplied_congr {c : ClassId} {as bs : List Ty} (h : as.length = bs.length) :
    t.isWellApplied (.cls c as) = t.isWellApplied (.cls c bs) := by
  have isEmpty : as.isEmpty = bs.isEmpty := by
    cases as <;> cases bs <;> simp_all
  simp only [isWellApplied, isEmpty, h]

/-! ## Steps and parents -/

namespace ProperSupertypes

/-- A declared step leads to a well applied type, whose class is a parent or `Object`.

**Proof sketch.** One case for each kind of step. A declared supertype is well applied, and
substitution and looking up names keep its class and the number of its arguments. Raw types are
always well applied. -/
lemma declaredStep (proper : t.ProperSupertypes) {a b : Ty} (step : t.DeclaredStep a b) :
    t.isWellApplied b = true ∧ ∀ c d, a.class? = some c → b.class? = some d →
      t.Parent c d ∨ d = t.known.object := by
  cases step with
  | @applied id args e sup hd hlen hsup =>
    have happlied := proper.wellApplied hd hsup
    obtain ⟨c', as, rfl⟩ := exists_eq_cls_of_isWellApplied happlied
    constructor
    · rw [← happlied, Ty.subst, Ty.canonical]
      exact isWellApplied_congr (by simp)
    · intro c d hc hdc
      obtain rfl : id = c := Option.some.inj hc
      obtain rfl : c' = d := Option.some.inj hdc
      exact .inl ⟨e, hd, _, hsup, .cls c' [], rfl, rfl⟩
  | @raw id e sup c' as hd hg hsup hcanon =>
    obtain ⟨c'', as', rfl⟩ := exists_eq_cls_of_isWellApplied (proper.wellApplied hd hsup)
    obtain ⟨rfl, -⟩ : c'' = c' ∧ _ := Ty.cls.inj hcanon
    constructor
    · rfl
    · intro c d hc hdc
      obtain rfl : id = c := Option.some.inj hc
      obtain rfl : c'' = d := Option.some.inj hdc
      exact .inl ⟨e, hd, _, hsup, .cls c'' [], rfl, rfl⟩
  | object => exact ⟨rfl, fun c d _ hdc => .inr (Option.some.inj hdc).symm⟩

/-- `Object` has no parents. -/
lemma not_parent_object (proper : t.ProperSupertypes) (d : ClassId) :
    ¬ t.Parent t.known.object d := by
  rintro ⟨e, he, sup, hsup, -⟩
  rw [(proper.object he).2] at hsup
  exact absurd hsup (by simp)

/-- To each parent of the class of a well applied type there is a declared step. -/
lemma exists_declaredStep (proper : t.ProperSupertypes) {c d : ClassId} {as : List Ty}
    (happlied : t.isWellApplied (.cls c as) = true) (parent : t.Parent c d) :
    ∃ b, t.DeclaredStep (.cls c as) b ∧ b.class? = some d := by
  obtain ⟨e, he, sup, hsup, erased, herased, hd⟩ := parent
  obtain ⟨c', as', rfl⟩ := exists_eq_cls_of_isWellApplied (proper.wellApplied he hsup)
  obtain rfl : .cls c' [] = erased := Option.some.inj herased
  obtain rfl : c' = d := Option.some.inj hd
  rcases (isWellApplied_cls_iff he).1 happlied with rfl | hlen
  · by_cases hg : e.isGeneric = true
    · exact ⟨_, .raw he hg hsup rfl, rfl⟩
    · refine ⟨_, .applied he ?_ hsup, rfl⟩
      simp_all [ClassDef.isGeneric, ClassDef.arity]
  · exact ⟨_, .applied he hlen hsup, rfl⟩

end ProperSupertypes

/-! ## The walk and subtyping -/

/-- A class applied to its own parameters is well applied. -/
lemma isWellApplied_selfType {id : ClassId} {d : ClassDef} (hd : t.classDef? id = some d) :
    t.isWellApplied (AncestorIndex.selfType id d) = true :=
  (isWellApplied_cls_iff hd).2 (.inr (by simp [ClassDef.arity]))

/-- All types above a well applied class type are well applied, and their classes are above it in
the sense of subtyping.

**Proof sketch.** By induction on the steps, which lead from a class to a parent or to `Object`
(`declaredStep`). `Object` has no parents, so a path that has arrived there does not go on. -/
theorem classBelow_of_above (proper : t.ProperSupertypes) {id : ClassId} {args : List Ty}
    (hargs : t.isWellApplied (.cls id args) = true) {s : Ty} (h : t.Above (.cls id args) s) :
    t.isWellApplied s = true ∧ ∀ c, s.class? = some c → t.ClassBelow id c := by
  induction h with
  | refl =>
    refine ⟨?_, fun c hc => ?_⟩
    · rw [← hargs, Ty.canonical, Ty.canonicalAll_eq_map]
      exact isWellApplied_congr (by simp)
    · obtain rfl : id = c := Option.some.inj hc
      exact .inr .refl
  | @tail a b _ step ih =>
    obtain ⟨happlied, below⟩ := ih
    obtain ⟨happlied', parents⟩ := proper.declaredStep step
    refine ⟨happlied', fun c hc => ?_⟩
    obtain ⟨ca, as, rfl⟩ := exists_eq_cls_of_isWellApplied happlied
    rcases parents ca c rfl hc with parent | object
    · rcases below ca rfl with rfl | path
      · exact absurd parent (proper.not_parent_object c)
      · exact .inr (path.tail parent)
    · exact .inl object

/-- The walk meets every class that declarations lead to. -/
theorem exists_mem_supertypeClosure (proper : t.ProperSupertypes) {id c : ClassId}
    {args : List Ty} (hargs : t.isWellApplied (.cls id args) = true)
    (h : Relation.ReflTransGen t.Parent id c) :
    ∃ s ∈ t.supertypeClosure (.cls id args), s.class? = some c := by
  induction h with
  | refl => exact ⟨_, Walk.mem_visit_self _ rfl, rfl⟩
  | @tail b c _ parent ih =>
    obtain ⟨s, hs, hb⟩ := ih
    obtain ⟨above, -⟩ := above_of_mem_supertypeClosure hs
    obtain ⟨as, rfl⟩ := Ty.class?_eq_some_iff.1 hb
    obtain ⟨u, step, hu⟩ :=
      proper.exists_declaredStep (classBelow_of_above proper hargs above).1 parent
    exact Walk.exists_mem_visit_of_next _ hs ((mem_directSupertypes_iff above.canonical).2 step) hu

/-- The classes in the closure of a well applied class type are those above it, except that `Object`
may be missing. -/
lemma isSome_ofClass?_iff (proper : t.ProperSupertypes) {id base : ClassId} {args : List Ty}
    (hargs : t.isWellApplied (.cls id args) = true) (hbase : base ≠ t.known.object) :
    (AncestorIndex.ofClass? (t.supertypeClosure (.cls id args)) base).isSome ↔
      t.ClassBelow id base := by
  rw [AncestorIndex.ofClass?, List.find?_isSome]
  simp only [beq_iff_eq]
  constructor
  · rintro ⟨s, hs, hclass⟩
    exact (classBelow_of_above proper hargs (above_of_mem_supertypeClosure hs).1).2 base hclass
  · rintro (object | path)
    · exact absurd object hbase
    · exact exists_mem_supertypeClosure proper hargs path

/-- Without an index, class types are compared by subtyping. -/
lemma isBelow_none_cls_iff {id base : ClassId} {args : List Ty} :
    t.isBelow none (.cls id args) base = true ↔ t.ClassBelow id base := by
  change t.isSubtype (.cls id args) (.cls base []) = true ↔ _
  exact isSubtype_cls_iff

/-- The index answers for the classes that it holds. -/
lemma isBelow_of_find?_eq_some {index : AncestorIndex} {id : ClassId} {supers : List Ty}
    (h : index.find? id = some supers) (args : List Ty) (base : ClassId) :
    t.isBelow (some index) (.cls id args) base = (AncestorIndex.ofClass? supers base).isSome := by
  simp [isBelow, Ty.class?, AncestorIndex.hasAncestor?, h]

/-- All others are left to subtyping. -/
lemma isBelow_of_find?_eq_none {index : AncestorIndex} {id : ClassId}
    (h : index.find? id = none) (args : List Ty) (base : ClassId) :
    t.isBelow (some index) (.cls id args) base = t.isBelow none (.cls id args) base := by
  simp [isBelow, Ty.class?, AncestorIndex.hasAncestor?, h]

/-- **The index finds what is above a class in the sense of subtyping**, except that it may miss
`Object`. -/
theorem isBelow_build (proper : t.ProperSupertypes) (ids : List ClassId) (receiver : Ty)
    {base : ClassId} (hbase : base ≠ t.known.object) :
    t.isBelow (some (AncestorIndex.build t ids)) receiver base = t.isBelow none receiver base := by
  cases receiver with
  | cls id args =>
    cases hfind : (AncestorIndex.build t ids).find? id with
    | none => exact isBelow_of_find?_eq_none hfind args base
    | some supers =>
      obtain ⟨d, hd, rfl⟩ := AncestorIndex.find?_build_eq_some hfind
      rw [Bool.eq_iff_iff, isBelow_of_find?_eq_some hfind, isBelow_none_cls_iff]
      exact isSome_ofClass?_iff proper (isWellApplied_selfType hd) hbase
  | _ => rfl

end ClassTable

end ContainerLint
