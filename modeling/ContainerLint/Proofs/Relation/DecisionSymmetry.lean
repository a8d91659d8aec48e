import ContainerLint.Proofs.Hierarchy.DeclaredSteps
import ContainerLint.Proofs.Relation.ErasedForms
import ContainerLint.Proofs.Relation.SubtypeOrder
import ContainerLint.Verdict
import Mathlib.Data.List.Zip

/-!
# Comparing types is symmetric and reflexive

The verdict on a parameter and an argument does not depend on which is which. Under the strict
policy both directions of subtyping count. Under the castable policy the rules for erased types are
symmetric, and the comparison of type arguments views the lower of two classes as the upper one,
whichever comes first. It could only matter which one is viewed if two different classes were above
each other.

## Main definitions

* `ClassTable.Acyclic` — no two different classes are above each other.

## Main results

* `ClassTable.erasedCastable_comm` — castability of erased types is symmetric.
* `ClassTable.distinctArgs_comm` — so is the comparison of type arguments.
* `ClassTable.decide_comm_and_self` — verdicts are symmetric and reflexive.
-/

set_option autoImplicit false

namespace ContainerLint

namespace ClassTable

variable {t : ClassTable}

/-- No two different classes are above each other. -/
def Acyclic (t : ClassTable) : Prop :=
  ∀ c d : ClassId, Relation.ReflTransGen t.Parent c d → Relation.ReflTransGen t.Parent d c → c = d

/-- No two different classes are above each other if parents are of lower rank.

**Proof sketch.** Along a path of parents the rank decreases, unless the path is empty. If two
classes are above each other, one of the paths must be empty. -/
lemma acyclic_of_rank (rank : ClassId → Nat)
    (lower : ∀ c ∈ t.ids, ∀ d ∈ t.parents c, rank d < rank c) : t.Acyclic := by
  have le {c d : ClassId} (path : Relation.ReflTransGen t.Parent c d) :
      c = d ∨ rank d < rank c := by
    induction path with
    | refl => exact .inl rfl
    | @tail d e _ parent ih =>
      have hd : d ∈ t.ids := by
        by_contra unused
        rw [← mem_parents_iff, parents_eq_nil unused] at parent
        simp at parent
      have := lower d hd e (mem_parents_iff.2 parent)
      rcases ih with rfl | ih
      · exact .inr this
      · exact .inr (by omega)
  intro c d up down
  rcases le up with h | h
  · exact h
  · rcases le down with h' | h'
    · exact h'.symm
    · omega

/-- Boxing twice is boxing once. -/
@[simp] lemma boxed_boxed (t : ClassTable) (ty : Ty) : t.boxed (t.boxed ty) = t.boxed ty := by
  cases ty <;> rfl

/-! ## Erased types -/

/-- Whether values of two classes can coincide does not depend on their order. -/
lemma classesCastable_comm (t : ClassTable) (a b : ClassId) :
    t.classesCastable a b = t.classesCastable b a := by
  unfold classesCastable
  cases t.classDef? a with
  | none => cases t.classDef? b <;> rfl
  | some da =>
    cases t.classDef? b with
    | none => rfl
    | some db =>
      dsimp only
      cases da.kind <;> cases db.kind <;> rfl

/-- **Castability of erased types is symmetric.** -/
theorem erasedCastable_comm (t : ClassTable) (a b : Ty) :
    t.erasedCastable a b = t.erasedCastable b a := by
  induction a using Ty.recOnMembers generalizing b with
  | cls c as =>
    cases b with
    | cls d bs =>
      rw [erasedCastable, erasedCastable, classesCastable_comm,
        Bool.or_comm (t.erasedSubtype (.cls c as) _)]
    | _ => simp only [erasedCastable, Bool.or_comm]
  | array a ih =>
    cases b with
    | array b =>
      rw [erasedCastable, erasedCastable, ih b, Bool.and_comm a.isReference,
        Bool.or_comm (t.erasedSubtype (.array a) _)]
    | _ => simp only [erasedCastable, Bool.or_comm]
  | _ => cases b <;> simp only [erasedCastable, Bool.or_comm]

/-- An erased type is castable to itself. -/
lemma erasedCastable_self (t : ClassTable) (a : Ty) : t.erasedCastable a a = true := by
  cases a <;> simp [erasedCastable, erasedSubtype_self]

/-! ## Type arguments -/

/-- Whether two lists of arguments differ does not depend on their order. -/
lemma argsDiffer_comm (as bs : List Ty) : argsDiffer as bs = argsDiffer bs as := by
  have swapped : ((as.zip bs).any fun p => p.1.isConcrete && p.2.isConcrete && p.1 != p.2) =
      (bs.zip as).any fun p => p.1.isConcrete && p.2.isConcrete && p.1 != p.2 := by
    rw [← List.zip_swap bs as, List.any_map]
    congr 1
    funext p
    simp [Bool.and_comm p.1.isConcrete, bne_comm]
  unfold argsDiffer
  rw [swapped, Bool.beq_comm]

/-- A list of arguments does not differ from itself. -/
lemma argsDiffer_self (as : List Ty) : argsDiffer as as = false := by
  unfold argsDiffer
  induction as with
  | nil => rfl
  | cons a as ih => simpa using ih

/-- No list of arguments differs from the empty one. -/
lemma argsDiffer_nil (as : List Ty) : argsDiffer as [] = false := by
  simp [argsDiffer]

/-- No view differs from a class type without arguments, however many arguments it has. -/
lemma viewDiffers_nil (view : Option Ty) : viewDiffers view [] = false := by
  unfold viewDiffers
  split
  · exact argsDiffer_nil _
  · rfl

/-- A class type is viewed as its own class by itself. -/
lemma viewAs_self {c : ClassId} {as : List Ty} (h : (Ty.cls c as).canonical t = .cls c as) :
    t.viewAs (.cls c as) c = some (.cls c as) := by
  rw [viewAs_eq_find? rfl, supertypeClosure, h, Walk.visit,
    Walk.fromQueue_cons_of_not_mem (k := c) rfl (by simp)]
  exact List.find?_cons_of_pos (by simp [Ty.class?])

/-- A type does not have arguments that are certainly different from its own. -/
lemma distinctArgs_self (t : ClassTable) (a : Ty) : t.distinctArgs a a = false := by
  unfold distinctArgs
  cases ha : a.canonical t with
  | cls c as =>
    have fixed : (Ty.cls c as).canonical t = .cls c as := by rw [← ha, Ty.canonical_canonical]
    have self : c ∈ t.ancestors c := mem_ancestors_iff.2 .refl
    simp [self, viewAs_self fixed, viewDiffers, argsDiffer_self]
  | _ => rfl

/-- **The comparison of type arguments is symmetric** if no two different classes are above each
other.

**Proof sketch.** The lower one of two related classes is viewed, whichever comes first. If each is
above the other, they are the same class, neither type is changed by the view, and the comparison of
two lists of arguments is symmetric. -/
theorem distinctArgs_comm (acyclic : t.Acyclic) (a b : Ty) :
    t.distinctArgs a b = t.distinctArgs b a := by
  unfold distinctArgs
  cases ha : a.canonical t with
  | cls c as =>
    cases hb : b.canonical t with
    | cls d bs =>
      have fixed : (Ty.cls c as).canonical t = .cls c as := by rw [← ha, Ty.canonical_canonical]
      have fixed' : (Ty.cls d bs).canonical t = .cls d bs := by rw [← hb, Ty.canonical_canonical]
      simp only [List.contains_iff_mem]
      rw [Bool.or_comm (t.isRawUse c as)]
      split
      · rfl
      · by_cases up : d ∈ t.ancestors c
        · by_cases down : c ∈ t.ancestors d
          · obtain rfl := acyclic c d (mem_ancestors_iff.1 up) (mem_ancestors_iff.1 down)
            rw [if_pos up, if_pos up, viewAs_self fixed, viewAs_self fixed']
            exact argsDiffer_comm as bs
          · rw [if_pos up, if_neg down, if_pos up]
        · by_cases down : c ∈ t.ancestors d
          · rw [if_neg up, if_pos down, if_pos down]
          · rw [if_neg up, if_neg down, if_neg down, if_neg up]
    | _ => rfl
  | _ => cases b.canonical t <;> rfl

/-! ## Verdicts -/

/-- Castability is symmetric if no two different classes are above each other. -/
lemma isCastable_comm (acyclic : t.Acyclic) (a b : Ty) : t.isCastable a b = t.isCastable b a := by
  unfold isCastable
  dsimp only
  cases t.erasure (t.boxed a) with
  | none => cases t.erasure (t.boxed b) <;> rfl
  | some ea =>
    cases t.erasure (t.boxed b) with
    | none => rfl
    | some eb =>
      dsimp only
      rw [erasedCastable_comm, distinctArgs_comm acyclic]

/-- A type whose boxed form has an erasure is castable to itself. -/
lemma isCastable_self {a : Ty} (h : (t.erasure (t.boxed a)).isSome) : t.isCastable a a = true := by
  obtain ⟨ea, hea⟩ := Option.isSome_iff_exists.1 h
  simp [isCastable, hea, erasedCastable_self, distinctArgs_self]

/-- Verdicts are symmetric if no two different classes are above each other. -/
lemma decide_comm (acyclic : t.Acyclic) (policy : Policy) (p a : Ty) :
    t.decide policy p a = t.decide policy a p := by
  unfold ClassTable.decide
  dsimp only
  cases t.erasure (t.boxed p) with
  | none => cases t.erasure (t.boxed a) <;> rfl
  | some ep =>
    cases t.erasure (t.boxed a) with
    | none => rfl
    | some ea =>
      have same : t.compatible policy (t.boxed p) (t.boxed a) ep ea =
          t.compatible policy (t.boxed a) (t.boxed p) ea ep := by
        cases policy with
        | strict => exact Bool.or_comm _ _
        | castable => exact isCastable_comm acyclic _ _
      dsimp only
      rw [same]

/-- A type is compatible with itself if its boxed form has an erasure. -/
lemma decide_self (policy : Policy) {ty : Ty} (h : (t.erasure (t.boxed ty)).isSome) :
    t.decide policy ty ty = .compatible := by
  obtain ⟨e, he⟩ := Option.isSome_iff_exists.1 h
  have compatible : t.compatible policy (t.boxed ty) (t.boxed ty) e e = true := by
    cases policy with
    | strict =>
      have below : t.isSubtype e e = true := by
        simp [isSubtype, erasure_erased (erased_of_erasure he), erasedSubtype_self]
      simp [ClassTable.compatible, below]
    | castable => exact isCastable_self (by rw [boxed_boxed, he]; rfl)
  simp [ClassTable.decide, he, compatible]

/-- **Verdicts are symmetric and reflexive under both policies.** If no two different classes are
above each other, parameter and argument can change places. In every table a type is compatible with
itself if its boxed form has an erasure. -/
theorem decide_comm_and_self (t : ClassTable) (policy : Policy) :
    (t.Acyclic → ∀ p a : Ty, t.decide policy p a = t.decide policy a p) ∧
    ∀ ty : Ty, (t.erasure (t.boxed ty)).isSome → t.decide policy ty ty = .compatible :=
  ⟨fun acyclic => decide_comm acyclic policy, fun _ h => decide_self policy h⟩

/-- No two classes of the table `nested` are above each other. -/
lemma acyclic_nested : nested.Acyclic := by
  rw [nested_eq]
  exact acyclic_of_rank (fun id => if id = Core.serializable then 0 else id.index)
    (by decide)

/-- An `A<String>` is a `B<List<String>>`, so it cannot be a `B<List<Integer>>`. -/
lemma isCastable_nested : nested.isCastable (.cls ⟨15⟩ [.cls ⟨1⟩ []])
    (.cls ⟨14⟩ [.cls ⟨13⟩ [.cls ⟨9⟩ []]]) = false := by
  have up : (⟨14⟩ : ClassId) ∈ nested.ancestors ⟨15⟩ := by
    rw [nested_eq]
    exact mem_ancestors_iff.2 (.single (mem_parents_iff.1 (by decide)))
  have view := viewAs_of_above rfl coherent_nested above_nested rfl
  have distinct : nested.distinctArgs (.cls ⟨15⟩ [.cls ⟨1⟩ []])
      (.cls ⟨14⟩ [.cls ⟨13⟩ [.cls ⟨9⟩ []]]) = true := by
    simp only [distinctArgs, Ty.canonical, Ty.canonicalAll_eq_map, List.map_cons, List.map_nil,
      List.contains_iff_mem, if_pos up, view]
    decide
  simp [isCastable, boxed, erasure, Ty.eraseWith, distinct]

/-- The verdict on the two types is the same in either order, and each is compatible with itself. -/
theorem decide_nested : nested.Acyclic ∧
    nested.decide .castable (.cls ⟨14⟩ [.cls ⟨13⟩ [.cls ⟨9⟩ []]]) (.cls ⟨15⟩ [.cls ⟨1⟩ []]) =
      .incompatible ∧
    nested.decide .castable (.cls ⟨15⟩ [.cls ⟨1⟩ []]) (.cls ⟨14⟩ [.cls ⟨13⟩ [.cls ⟨9⟩ []]]) =
      .incompatible ∧
    nested.decide .castable (.cls ⟨15⟩ [.cls ⟨1⟩ []]) (.cls ⟨15⟩ [.cls ⟨1⟩ []]) =
      .compatible := by
  obtain ⟨comm, self⟩ := decide_comm_and_self nested .castable
  have verdict : nested.decide .castable (.cls ⟨14⟩ [.cls ⟨13⟩ [.cls ⟨9⟩ []]])
      (.cls ⟨15⟩ [.cls ⟨1⟩ []]) = .incompatible := by
    simp [ClassTable.decide, boxed, erasure, Ty.eraseWith, compatible, isCastable_nested]
  exact ⟨acyclic_nested, verdict, (comm acyclic_nested _ _).trans verdict, self _ rfl⟩

end ClassTable

end ContainerLint
