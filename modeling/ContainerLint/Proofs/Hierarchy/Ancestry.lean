import ContainerLint.Proofs.Declaration.Frame
import ContainerLint.Proofs.Hierarchy.IndexMembership

/-!
# Three ways to ask for an ancestor

Whether one class is above another can be asked of the subtype test, which follows declarations
without looking at arguments, of the view of a class type as the other class, which carries the
arguments along, and of the index, which holds what the view of the class applied to its own
parameters would find. Where declared supertypes are well applied and `Object` has been left as it
is, the three give the same answer for every class but `Object`.

## Main results

* `ClassTable.ReachableSparing.properSupertypes` — `Object` stays on top unless it is declared anew.
* `ClassTable.isSome_viewAs_iff` — the view exists exactly for the classes above.
* `AncestorIndex.hasAncestor?_build_eq_some_true_iff` — the index holds exactly the classes above.
* `ClassTable.isSubtype_iff_isSome_viewAs_iff_hasAncestor?` — the three agree.
-/

set_option autoImplicit false

namespace ContainerLint

namespace ClassTable

variable {t : ClassTable}

/-- Unless `Object` is declared anew, it declares neither parameters nor supertypes, so it is enough
that the declared supertypes are well applied. -/
lemma ReachableSparing.properSupertypes (h : t.ReachableSparing "java.lang.Object")
    (wellApplied : ∀ (id : ClassId) (d : ClassDef) (sup : Ty), t.classDef? id = some d →
      sup ∈ d.supertypes → t.isWellApplied sup = true) : t.ProperSupertypes := by
  refine ⟨fun hd hsup => wellApplied _ _ _ hd hsup, fun {d} hd => ?_⟩
  have object : ClassTable.core.classDef? ClassTable.core.known.object =
      some { name := "java.lang.Object" } := rfl
  rw [h.reachable.edits.known, h.classDef?_eq rfl, object, Option.some.injEq] at hd
  subst hd
  exact ⟨rfl, rfl⟩

/-- A well applied class type has a view as each class above it, except that it may have none as
`Object`, and as no other class. -/
lemma isSome_viewAs_iff (proper : t.ProperSupertypes) {c b : ClassId} {args : List Ty}
    (hargs : t.isWellApplied (.cls c args) = true) (hb : b ≠ t.known.object) :
    (t.viewAs (.cls c args) b).isSome ↔ t.ClassBelow c b := by
  rw [viewAs_eq_find? rfl]
  exact isSome_ofClass?_iff proper hargs hb

end ClassTable

namespace AncestorIndex

variable {t : ClassTable}

/-- The index finds the classes above the classes that it holds, except that it may miss
`Object`. -/
lemma hasAncestor?_build_eq_some_true_iff (proper : t.ProperSupertypes) {ids : List ClassId}
    {c b : ClassId} (hc : ((build t ids).find? c).isSome) (hb : b ≠ t.known.object) :
    (build t ids).hasAncestor? c b = some true ↔ t.ClassBelow c b := by
  obtain ⟨supers, hsupers⟩ := Option.isSome_iff_exists.1 hc
  obtain ⟨d, hd, rfl⟩ := find?_build_eq_some hsupers
  rw [hasAncestor?, hsupers, Option.map_some, Option.some.injEq]
  exact ClassTable.isSome_ofClass?_iff proper (ClassTable.isWellApplied_selfType hd) hb

end AncestorIndex

namespace ClassTable

/-- **Three ways to ask for an ancestor agree.** In every table that declarations lead to without
declaring `Object` anew, let every declared supertype be a class type that is raw or has the right
number of arguments. Then for every class type that is raw or has the right number of arguments, and
every class but `Object`, the following are equivalent: the type is a subtype of the class, it has a
view as the class, and an index that holds its class finds the other class above it. -/
theorem isSubtype_iff_isSome_viewAs_iff_hasAncestor? (t : ClassTable)
    (ht : t.ReachableSparing "java.lang.Object")
    (wellApplied : ∀ (id : ClassId) (d : ClassDef) (sup : Ty), t.classDef? id = some d →
      sup ∈ d.supertypes → t.isWellApplied sup = true)
    (c b : ClassId) (args : List Ty) (hargs : t.isWellApplied (.cls c args) = true)
    (hb : b ≠ t.known.object) :
    (t.isSubtype (.cls c args) (.cls b []) = true ↔ (t.viewAs (.cls c args) b).isSome) ∧
    ∀ ids : List ClassId, ((AncestorIndex.build t ids).find? c).isSome →
      (t.isSubtype (.cls c args) (.cls b []) = true ↔
        (AncestorIndex.build t ids).hasAncestor? c b = some true) := by
  have proper := ht.properSupertypes wellApplied
  refine ⟨?_, fun ids hc => ?_⟩
  · rw [isSubtype_cls_iff, isSome_viewAs_iff proper hargs hb]
  · rw [isSubtype_cls_iff, AncestorIndex.hasAncestor?_build_eq_some_true_iff proper hc hb]

/-- A table with a cycle: `Ping<T>` extends `Pong<T>`, which extends `Ping`, raw. The class `Both`
implements `Ping<String>`. -/
def pingPong : ClassTable :=
  (core.declare
    [{ name := "com.example.Ping", kind := .interface, typeParams := ["T"],
       extended := ["com.example.Pong<T>"] },
     { name := "com.example.Pong", kind := .interface, typeParams := ["T"],
       extended := ["com.example.Ping"] },
     { name := "com.example.Both", implemented := ["com.example.Ping<String>"] }]).1

/-- The rows of this table. -/
lemma pingPong_eq : pingPong = core.withRows
    [{ name := "com.example.Ping", kind := .interface, typeParams := [⟨0⟩],
       interfaces := [.cls ⟨14⟩ [.var ⟨0⟩]] },
     { name := "com.example.Pong", kind := .interface, typeParams := [⟨1⟩],
       interfaces := [.cls ⟨13⟩ []] },
     { name := "com.example.Both", superClass := some (.cls ⟨0⟩ []),
       interfaces := [.cls ⟨13⟩ [.cls ⟨1⟩ []]] }]
    [{ name := "T", upperBounds := [.cls ⟨0⟩ []] },
     { name := "T", upperBounds := [.cls ⟨0⟩ []] }] := by
  decide +kernel

/-- In spite of the cycle, `Pong` is found above `Both` in all three ways.

**Proof sketch.** That `Pong` is above `Both` is a path of two parents. The supertypes of the table
are proper, so the general theorem gives the other two answers. -/
theorem hasAncestor?_pingPong :
    pingPong.ReachableSparing "java.lang.Object" ∧
    pingPong.isSubtype (.cls ⟨15⟩ []) (.cls ⟨14⟩ []) = true ∧
    (pingPong.viewAs (.cls ⟨15⟩ []) ⟨14⟩).isSome ∧
    (AncestorIndex.build pingPong [⟨15⟩]).hasAncestor? ⟨15⟩ ⟨14⟩ = some true := by
  have reachable : pingPong.ReachableSparing "java.lang.Object" := .declare _ .core (by decide)
  have proper : pingPong.ProperSupertypes := by
    rw [pingPong_eq]
    exact properSupertypes_of_slots (by decide) (by decide)
  obtain ⟨d, hd⟩ : ∃ d, pingPong.classDef? ⟨15⟩ = some d := by
    rw [pingPong_eq]
    exact ⟨_, rfl⟩
  have ping : pingPong.Parent ⟨15⟩ ⟨13⟩ := mem_parents_iff.1 (by rw [pingPong_eq]; decide)
  have pong : pingPong.Parent ⟨13⟩ ⟨14⟩ := mem_parents_iff.1 (by rw [pingPong_eq]; decide)
  have subtype : pingPong.isSubtype (.cls ⟨15⟩ []) (.cls ⟨14⟩ []) = true :=
    isSubtype_cls_iff.2 (.inr (.tail (.single ping) pong))
  obtain ⟨views, indexed⟩ := isSubtype_iff_isSome_viewAs_iff_hasAncestor? pingPong reachable
    (fun _ _ _ hd hsup => proper.wellApplied hd hsup) ⟨15⟩ ⟨14⟩ [] rfl
    (by rw [pingPong_eq]; decide)
  refine ⟨reachable, subtype, views.1 subtype, (indexed [⟨15⟩] ?_).1 subtype⟩
  rw [AncestorIndex.find?_build (by simp) hd]
  rfl

end ClassTable

end ContainerLint
