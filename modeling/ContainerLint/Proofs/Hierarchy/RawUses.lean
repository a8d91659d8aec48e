import ContainerLint.Proofs.Hierarchy.IndexAgreement

/-!
# What a raw use is seen as

The supertypes of a raw use of a generic class are raw, and so are theirs, as long as they are of
generic classes. A class without parameters ends this: it is not raw, and its supertypes have the
arguments that it declares. So whatever a raw use is seen as with arguments, it is seen as through
such a class, and the arguments are the same for every use of the generic class.

## Main definitions

* `ClassTable.RawStep` — one step up from a raw use of a generic class.
* `ClassTable.BeyondRaw` — a type above a class without parameters that raw steps lead to.
* `ClassTable.RawSafe` — no generic class is seen with arguments through a raw use.

## Main results

* `ClassTable.above_raw_cases` — a type above a raw use is raw, or beyond the raw steps.
* `ClassTable.ancestorArgs_raw_iff` — the arguments that a raw use shows.
* `ClassTable.rawSafe_iff` — when a raw use shows none.
-/

set_option autoImplicit false

namespace ContainerLint

/-- A class is generic if it has parameters. -/
lemma ClassDef.isGeneric_iff {d : ClassDef} : d.isGeneric = true ↔ d.arity ≠ 0 := by
  simp [isGeneric, arity]

namespace ClassTable

/-- One step up from a raw use of a generic class, which leads to a class without arguments. -/
def RawStep (t : ClassTable) (c c' : ClassId) : Prop :=
  (∃ d, t.classDef? c = some d ∧ d.isGeneric = true) ∧ t.DeclaredStep (.cls c []) (.cls c' [])

/-- Raw steps lead from `c` to a class without parameters, and `s` is above that class. -/
def BeyondRaw (t : ClassTable) (c : ClassId) (s : Ty) : Prop :=
  ∃ b d, Relation.ReflTransGen t.RawStep c b ∧ t.classDef? b = some d ∧ d.isGeneric = false ∧
    t.Above (.cls b []) s

/-- No generic class with the right number of arguments is above a class without parameters that raw
steps lead to. -/
def RawSafe (t : ClassTable) (c : ClassId) : Prop :=
  ∀ a d args, t.classDef? a = some d → d.isGeneric = true → t.BeyondRaw c (.cls a args) →
    args.length ≠ d.arity

variable {t : ClassTable} {c : ClassId}

/-! ## Types above a raw use -/

/-- The supertypes of a raw use of a generic class have no arguments. -/
lemma DeclaredStep.eq_raw {d : ClassDef} {s : Ty} (hd : t.classDef? c = some d)
    (generic : d.isGeneric = true) (step : t.DeclaredStep (.cls c []) s) :
    ∃ c', s = .cls c' [] := by
  cases step with
  | applied hd' hlen =>
    obtain rfl : d = _ := Option.some.inj (hd.symm.trans hd')
    exact absurd hlen.symm (ClassDef.isGeneric_iff.1 generic)
  | raw => exact ⟨_, rfl⟩
  | object => exact ⟨_, rfl⟩

/-- Raw steps are declared steps. -/
lemma above_of_rawSteps {b : ClassId} (h : Relation.ReflTransGen t.RawStep c b) :
    t.Above (.cls c []) (.cls b []) := by
  induction h with
  | refl => exact .refl
  | tail _ step ih => exact ih.tail step.2

/-- What is beyond the raw steps is above the raw use. -/
lemma BeyondRaw.above {s : Ty} (h : t.BeyondRaw c s) : t.Above (.cls c []) s := by
  obtain ⟨b, d, steps, -, -, above⟩ := h
  exact (above_of_rawSteps steps).trans above

/-- **A type above a raw use is raw and raw steps lead to it, or it is beyond the raw steps.**

**Proof sketch.** By induction on the steps. From a raw use of a generic class the next step is raw;
from a class without parameters it is the first one beyond. Once beyond, every step stays there. -/
theorem above_raw_cases {s : Ty} (h : t.Above (.cls c []) s) :
    (∃ b, Relation.ReflTransGen t.RawStep c b ∧ s = .cls b []) ∨ t.BeyondRaw c s := by
  induction h with
  | refl => exact .inl ⟨c, .refl, rfl⟩
  | @tail u s _ step ih =>
    rcases ih with ⟨b, steps, rfl⟩ | ⟨b, d, steps, hd, plain, above⟩
    · obtain ⟨d, hd⟩ : ∃ d, t.classDef? b = some d := by
        cases step with
        | applied hd | raw hd | object hd => exact ⟨_, hd⟩
      cases generic : d.isGeneric with
      | true =>
        obtain ⟨c', rfl⟩ := step.eq_raw hd generic
        exact .inl ⟨c', steps.tail ⟨⟨d, hd, generic⟩, step⟩, rfl⟩
      | false => exact .inr ⟨b, d, steps, hd, generic, .single step⟩
    · exact .inr ⟨b, d, steps, hd, plain, above.tail step⟩

/-- A type that is above a raw use and has arguments is beyond the raw steps. -/
lemma beyondRaw_of_above {a : ClassId} {args : List Ty} (h : t.Above (.cls c []) (.cls a args))
    (hargs : args ≠ []) : t.BeyondRaw c (.cls a args) := by
  rcases above_raw_cases h with ⟨b, -, eq⟩ | beyond
  · exact absurd (Ty.cls.inj eq).2 hargs
  · exact beyond

/-- A raw use is safe if everything above it is raw. -/
lemma rawSafe_of_above (h : ∀ a args, t.Above (.cls c []) (.cls a args) → args = []) :
    t.RawSafe c := by
  rintro a d args - generic beyond hlen
  rw [h a args beyond.above] at hlen
  exact ClassDef.isGeneric_iff.1 generic hlen.symm

/-! ## The arguments that a raw use shows -/

/-- The arguments that a raw use shows for a generic class are beyond the raw steps. -/
lemma beyondRaw_of_ancestorArgs {a : ClassId} {d : ClassDef} {args : List Ty}
    (hd : t.classDef? a = some d) (generic : d.isGeneric = true)
    (h : t.ancestorArgs (.cls c []) a = some args) :
    t.BeyondRaw c (.cls a args) ∧ args.length = d.arity := by
  obtain ⟨s, hview, hargs⟩ := Option.bind_eq_some_iff.1 h
  obtain ⟨rfl, d', hd', hlen⟩ := checkedArgs_eq_some_iff.1 hargs
  obtain rfl : d = d' := Option.some.inj (hd.symm.trans hd')
  refine ⟨beyondRaw_of_above (above_of_viewAs rfl hview).1 ?_, hlen⟩
  rintro rfl
  exact ClassDef.isGeneric_iff.1 generic hlen.symm

/-- Under coherence they are all that is beyond the raw steps. -/
theorem ancestorArgs_raw_iff (coherent : t.Coherent (.cls c [])) {a : ClassId} {d : ClassDef}
    (hd : t.classDef? a = some d) (generic : d.isGeneric = true) {args : List Ty} :
    t.ancestorArgs (.cls c []) a = some args ↔
      t.BeyondRaw c (.cls a args) ∧ args.length = d.arity := by
  refine ⟨beyondRaw_of_ancestorArgs hd generic, fun ⟨beyond, hlen⟩ => ?_⟩
  rw [ancestorArgs, viewAs_of_above rfl coherent beyond.above rfl, Option.bind_some]
  exact checkedArgs_eq_some_iff.2 ⟨rfl, d, hd, hlen⟩

/-- A safe raw use shows no arguments of a generic class. -/
lemma RawSafe.ancestorArgs_eq_none (safe : t.RawSafe c) {a : ClassId} {d : ClassDef}
    (hd : t.classDef? a = some d) (generic : d.isGeneric = true) :
    t.ancestorArgs (.cls c []) a = none := by
  refine Option.eq_none_iff_forall_ne_some.2 fun args h => ?_
  obtain ⟨beyond, hlen⟩ := beyondRaw_of_ancestorArgs hd generic h
  exact safe a d args hd generic beyond hlen

/-- Under coherence a raw use that shows no arguments of a generic class is safe. -/
theorem rawSafe_iff (coherent : t.Coherent (.cls c [])) :
    t.RawSafe c ↔ ∀ a d, t.classDef? a = some d → d.isGeneric = true →
      t.ancestorArgs (.cls c []) a = none := by
  refine ⟨fun safe a d hd generic => safe.ancestorArgs_eq_none hd generic, ?_⟩
  intro none a d args hd generic beyond hlen
  have shown := (ancestorArgs_raw_iff coherent hd generic).2 ⟨beyond, hlen⟩
  rw [none a d hd generic] at shown
  cases shown

end ClassTable

/-- Every index leaves a raw use of a generic class to the walk. -/
lemma AncestorIndex.ancestorArgs_raw {t : ClassTable} {c : ClassId} {d : ClassDef}
    (index : AncestorIndex) (hd : t.classDef? c = some d) (generic : d.isGeneric = true)
    (a : ClassId) : index.ancestorArgs t (.cls c []) a = t.ancestorArgs (.cls c []) a := by
  have raw : (Ty.cls c []).canonical t = .cls c [] := rfl
  rw [ancestorArgs, raw]
  dsimp only
  cases index.find? c with
  | none => rfl
  | some supers => simp [hd, generic]

end ContainerLint
