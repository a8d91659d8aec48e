import ContainerLint.Proofs.Graph.Turns
import ContainerLint.Proofs.Hierarchy.DeclaredSteps

/-!
# The shape of a supertype closure

Nothing keeps a table from declaring that `A<X>` extends `A<List<X>>`, that two classes extend each
other, or that a class extends one that nobody has defined. The types above a type may then be
infinitely many, or their arguments wrong. The closure of a type is a finite list all the same: it
has one type for each class, starts at the type itself, goes on from type to supertype and misses no
class.

## Main results

* `ClassTable.exists_supertypeClosure_eq_cons` — the closure of a class type starts with it.
* `ClassTable.supertypeClosure_eq_nil_iff` — when a closure is empty.
* `ClassTable.supertypeClosure_closed` — how a closure is found, and what it looks like.
-/

set_option autoImplicit false

namespace ContainerLint

namespace ClassTable

/-- The closure of a class type starts with the type itself. -/
lemma exists_supertypeClosure_eq_cons (t : ClassTable) {ty : Ty}
    (h : (ty.canonical t).class?.isSome) :
    ∃ rest, t.supertypeClosure ty = ty.canonical t :: rest :=
  Walk.exists_visit_eq_cons t.supertypeWalk h

/-- A type that is not of a class has an empty closure. -/
lemma supertypeClosure_eq_nil_iff (t : ClassTable) (ty : Ty) :
    t.supertypeClosure ty = [] ↔ (ty.canonical t).class? = none := by
  constructor
  · intro empty
    by_contra some
    obtain ⟨rest, first⟩ := t.exists_supertypeClosure_eq_cons (Option.isSome_iff_ne_none.2 some)
    rw [first] at empty
    cases empty
  · intro none
    refine t.supertypeWalk.visit_eq_nil ?_
    change (ty.canonical t).class?.isSome = false
    rw [none]
    rfl

/-- **The closure of supertypes ends, and is closed and free of repetitions, on every table.**

* The loop over types that wait ends: it takes one turn for the start and one for each direct
  supertype of a visited type.
* The closure is empty only if the start is not of a class, and otherwise starts with it.
* Its members are class types of different classes.
* Each of them but the first is a direct supertype of an earlier one.
* The class of each direct supertype of a member is the class of a member.

**Proof sketch.** The closure is a breadth-first walk along direct supertypes, and all but the head
is said of such walks in general. The walk starts with the given type if that has a class, and is
empty if not. -/
theorem supertypeClosure_closed (t : ClassTable) (ty : Ty) :
    let closure := t.supertypeClosure ty
    (∃ seen, t.supertypeWalk.turn^[1 + (closure.flatMap t.directSupertypes).length]
      { queue := [ty.canonical t], seen := [], visited := [] } =
        { queue := [], seen, visited := closure }) ∧
    (closure = [] ↔ (ty.canonical t).class? = none) ∧
    (closure ≠ [] → closure.head? = some (ty.canonical t)) ∧
    (∀ s ∈ closure, s.class?.isSome) ∧ (closure.map Ty.class?).Nodup ∧
    (∀ i s, closure[i + 1]? = some s →
      ∃ j ≤ i, ∃ r, closure[j]? = some r ∧ s ∈ t.directSupertypes r) ∧
    ∀ s ∈ closure, ∀ u ∈ t.directSupertypes s, ∀ c, u.class? = some c →
      ∃ v ∈ closure, v.class? = some c := by
  intro closure
  refine ⟨t.supertypeWalk.iterate_turn [ty.canonical t] [] [], t.supertypeClosure_eq_nil_iff ty,
    fun nonempty => ?_, fun s hs => (above_of_mem_supertypeClosure hs).2,
    t.supertypeWalk.nodup_keys_visit _, fun i s hs => t.supertypeWalk.exists_earlier_of_visit hs,
    fun s hs u hu c hc => t.supertypeWalk.exists_mem_visit_of_next hs hu hc⟩
  have isClass : (ty.canonical t).class?.isSome := by
    rw [Option.isSome_iff_ne_none]
    exact fun none => nonempty ((t.supertypeClosure_eq_nil_iff ty).2 none)
  obtain ⟨rest, first⟩ := t.exists_supertypeClosure_eq_cons isClass
  exact congrArg List.head? first

end ClassTable

end ContainerLint
