import ContainerLint.Declaration.Declare
import ContainerLint.Hierarchy.View
import ContainerLint.Proofs.Declaration.Edits
import ContainerLint.Proofs.Graph.Reachability
import ContainerLint.Proofs.Ty.Substitution

/-!
# Views follow the declared steps

A declared step leads from a class type to one of the supertypes that its class declares. What a
class type can be viewed as is what any number of such steps lead to. The walk behind a view keeps
one type for each class, so this holds where the reachable types of one class agree.

## Main definitions

* `ClassTable.DeclaredStep` — one step up, as the declarations say.
* `ClassTable.Above` — any number of steps, after the names of the start have been looked up.
* `ClassTable.declaredSupertypes` — the ends of the steps in the order of the declarations.
* `ClassTable.Coherent` — the types above a type agree on the arguments of each class.

## Main results

* `ClassTable.mem_directSupertypes_iff` — the computed supertypes are the declared steps.
* `ClassTable.above_of_mem_supertypeClosure` — everything in a closure is above its start.
* `ClassTable.mem_supertypeClosure_iff` — under coherence the closure is all that is above.
* `ClassTable.viewAs_eq_some_iff_above` — views and their arguments against declared steps.
-/

set_option autoImplicit false

namespace ContainerLint

/-- Sorting keeps the members. -/
lemma mem_sortTypes {t : ClassTable} {ty : Ty} {tys : List Ty} :
    ty ∈ sortTypes t tys ↔ ty ∈ tys := by
  rw [sortTypes, sortByKey, List.mem_mergeSort]

namespace ClassTable

variable {t : ClassTable}

/-- One declared step up. An undefined class and a class type with the wrong number of arguments
have none. -/
inductive DeclaredStep (t : ClassTable) : Ty → Ty → Prop where
  /-- A class with as many arguments as parameters has the supertypes that it declares, with the
  arguments in place of the parameters and with names looked up. -/
  | applied {id : ClassId} {args : List Ty} {d : ClassDef} {sup : Ty} :
      t.classDef? id = some d → args.length = d.arity → sup ∈ d.supertypes →
      DeclaredStep t (.cls id args) ((sup.subst (Subst.ofFormals d.typeParams args)).canonical t)
  /-- A raw use of a generic class has the classes of its declared supertypes, without arguments. -/
  | raw {id : ClassId} {d : ClassDef} {sup : Ty} {c : ClassId} {as : List Ty} :
      t.classDef? id = some d → d.isGeneric = true → sup ∈ d.supertypes →
      sup.canonical t = .cls c as → DeclaredStep t (.cls id []) (.cls c [])
  /-- An interface has `Object`, raw or with its arguments. -/
  | object {id : ClassId} {args : List Ty} {d : ClassDef} :
      t.classDef? id = some d → args.length = d.arity ∨ args = [] → d.kind = .interface →
      DeclaredStep t (.cls id args) t.objectTy

/-- The type `s` is any number of declared steps above `ty`, whose names are looked up first. -/
def Above (t : ClassTable) (ty s : Ty) : Prop :=
  Relation.ReflTransGen t.DeclaredStep (ty.canonical t) s

/-- Any two types above `ty` that are of the same class are equal. -/
def Coherent (t : ClassTable) (ty : Ty) : Prop :=
  ∀ a b : Ty, ∀ c : ClassId, t.Above ty a → t.Above ty b →
    a.class? = some c → b.class? = some c → a = b

/-! ## The computed supertypes are the declared steps -/

/-- The implicit supertype of an interface. -/
lemma mem_implicitSupertypes {d : ClassDef} {s : Ty} :
    s ∈ t.implicitSupertypes d ↔ d.kind = .interface ∧ s = t.objectTy := by
  unfold implicitSupertypes
  cases d.kind <;> simp

/-- The supertypes of an applied class. -/
lemma mem_appliedSupertypes {d : ClassDef} {args : List Ty} {s : Ty} :
    s ∈ t.appliedSupertypes d args ↔
      (∃ sup ∈ d.supertypes,
        (sup.subst (Subst.ofFormals d.typeParams args)).canonical t = s) ∨
      (d.kind = .interface ∧ s = t.objectTy) := by
  simp only [appliedSupertypes, List.mem_append, mem_sortTypes, mem_implicitSupertypes,
    List.mem_map, ClassDef.supertypes]
  grind

/-- A declared supertype without its arguments. -/
lemma rawClass?_eq_some_iff {sup s : Ty} :
    t.rawClass? sup = some s ↔ ∃ c as, sup.canonical t = .cls c as ∧ .cls c [] = s := by
  unfold rawClass?
  cases h : sup.canonical t <;> simp

/-- The supertypes of a raw use. -/
lemma mem_rawSupertypes {d : ClassDef} {s : Ty} :
    s ∈ t.rawSupertypes d ↔
      (∃ sup ∈ d.supertypes, ∃ c as, sup.canonical t = .cls c as ∧ .cls c [] = s) ∨
      (d.kind = .interface ∧ s = t.objectTy) := by
  simp only [rawSupertypes, List.mem_append, mem_sortTypes, mem_implicitSupertypes,
    List.mem_filterMap, rawClass?_eq_some_iff, ClassDef.supertypes]
  grind

/-- The supertypes computed for a type without open names are the declared steps from it.

**Proof sketch.** Both sides distinguish the same cases: a raw use of a generic class, which goes on
to raw types; a use with as many arguments as parameters, which goes on to instances; and the step
from an interface to `Object`, which is possible in both. Any other use has no supertypes, and no
step. -/
theorem mem_directSupertypes_iff {ty s : Ty} (h : ty.canonical t = ty) :
    s ∈ t.directSupertypes ty ↔ t.DeclaredStep ty s := by
  constructor
  · intro hs
    unfold directSupertypes at hs
    rw [h] at hs
    split at hs
    · next id args =>
      split at hs
      · simp at hs
      · next d hd =>
        split at hs
        · next hraw =>
          simp only [Bool.and_eq_true, List.isEmpty_iff] at hraw
          obtain ⟨rfl, hg⟩ := hraw
          rcases mem_rawSupertypes.1 hs with ⟨sup, hsup, c, as, hc, rfl⟩ | ⟨hk, rfl⟩
          · exact .raw hd hg hsup hc
          · exact .object hd (.inr rfl) hk
        · split at hs
          · next hlen =>
            rcases mem_appliedSupertypes.1 hs with ⟨sup, hsup, rfl⟩ | ⟨hk, rfl⟩
            · exact .applied hd hlen hsup
            · exact .object hd (.inl hlen) hk
          · simp at hs
    · simp at hs
  · intro hs
    cases hs with
    | @applied id args d sup hd hlen hsup =>
      have hraw : (args.isEmpty && d.isGeneric) = false := by
        cases args <;> cases hp : d.typeParams <;> simp_all [ClassDef.isGeneric, ClassDef.arity]
      simp only [directSupertypes, h, hd, hraw, hlen, Bool.false_eq_true, if_false, if_true]
      exact mem_appliedSupertypes.2 (.inl ⟨sup, hsup, rfl⟩)
    | @raw id d sup c as hd hg hsup hc =>
      simp only [directSupertypes, h, hd, hg, List.isEmpty_nil, Bool.and_self, if_true]
      exact mem_rawSupertypes.2 (.inl ⟨sup, hsup, c, as, hc, rfl⟩)
    | @object id args d hd hargs hk =>
      simp only [directSupertypes, h, hd]
      split
      · exact mem_rawSupertypes.2 (.inr ⟨hk, rfl⟩)
      · next hraw =>
        have hlen : args.length = d.arity := by
          rcases hargs with hlen | rfl
          · exact hlen
          · cases hp : d.typeParams <;> simp_all [ClassDef.isGeneric, ClassDef.arity]
        rw [if_pos hlen]
        exact mem_appliedSupertypes.2 (.inr ⟨hk, rfl⟩)

/-- The supertypes of a type without open names in the order of the declarations. -/
def declaredSupertypes (t : ClassTable) : Ty → List Ty
  | .cls id args =>
    match t.classDef? id with
    | none => []
    | some d =>
      if args.isEmpty && d.isGeneric then
        d.supertypes.filterMap t.rawClass? ++ t.implicitSupertypes d
      else if args.length = d.arity then
        (d.supertypes.map fun sup => (sup.subst (Subst.ofFormals d.typeParams args)).canonical t)
          ++ t.implicitSupertypes d
      else []
  | _ => []

/-- They are the declared steps. -/
lemma mem_declaredSupertypes_iff {ty s : Ty} (h : ty.canonical t = ty) :
    s ∈ t.declaredSupertypes ty ↔ t.DeclaredStep ty s := by
  rw [← mem_directSupertypes_iff h]
  unfold declaredSupertypes directSupertypes
  rw [h]
  cases ty with
  | cls id args =>
    dsimp only
    cases t.classDef? id with
    | none => rfl
    | some d =>
      dsimp only
      split_ifs
      · simp [mem_rawSupertypes, mem_implicitSupertypes, rawClass?_eq_some_iff]
      · simp [mem_appliedSupertypes, mem_implicitSupertypes]
      · rfl
  | _ => rfl

/-- A declared step starts at a class type. -/
lemma DeclaredStep.keyed {a b : Ty} (h : t.DeclaredStep a b) : t.supertypeWalk.keyed a = true := by
  cases h <;> rfl

/-- A declared step ends at a type without names that could be looked up. -/
lemma DeclaredStep.canonical {a b : Ty} (h : t.DeclaredStep a b) : b.canonical t = b := by
  cases h with
  | applied => exact Ty.canonical_canonical t _
  | raw | object => rfl

/-- So does any number of them. -/
lemma Above.canonical {ty s : Ty} (h : t.Above ty s) : s.canonical t = s := by
  rcases Relation.ReflTransGen.cases_tail h with rfl | ⟨a, -, step⟩
  · exact Ty.canonical_canonical t ty
  · exact step.canonical

/-- To walk the graph of supertypes is to follow declared steps. -/
lemma reach_supertypeWalk_iff {ty s : Ty} :
    t.supertypeWalk.Reach (ty.canonical t) s ↔ t.Above ty s := by
  constructor
  · intro h
    induction h with
    | refl => exact .refl
    | tail _ step ih => exact ih.tail ((mem_directSupertypes_iff ih.canonical).1 step.2)
  · intro h
    induction h with
    | refl => exact .refl
    | @tail b c hb step ih =>
      have hb : t.Above ty b := hb
      exact ih.tail ⟨step.keyed, (mem_directSupertypes_iff hb.canonical).2 step⟩

/-! ## The closure of supertypes -/

/-- The names of the start are looked up before the walk. -/
lemma supertypeClosure_canonical (t : ClassTable) (ty : Ty) :
    t.supertypeClosure (ty.canonical t) = t.supertypeClosure ty := by
  rw [supertypeClosure, supertypeClosure, Ty.canonical_canonical]

/-- A walk among types visits class types. -/
lemma keyed_supertypeWalk_iff {s : Ty} : t.supertypeWalk.keyed s = true ↔ s.class?.isSome := Iff.rfl

/-- Everything in the closure of a type is a class type above it. -/
lemma above_of_mem_supertypeClosure {ty s : Ty} (h : s ∈ t.supertypeClosure ty) :
    t.Above ty s ∧ s.class?.isSome := by
  obtain ⟨hr, hk⟩ := Walk.reach_of_mem_visit _ h
  exact ⟨reach_supertypeWalk_iff.1 hr, hk⟩

/-- Under coherence the closure of a type holds all class types above it. -/
theorem mem_supertypeClosure_iff {ty s : Ty} (hc : t.Coherent ty) :
    s ∈ t.supertypeClosure ty ↔ t.Above ty s ∧ s.class?.isSome := by
  rw [supertypeClosure, Walk.mem_visit_iff, reach_supertypeWalk_iff, keyed_supertypeWalk_iff]
  intro a b c ha hb hka hkb
  exact hc a b c (reach_supertypeWalk_iff.1 ha) (reach_supertypeWalk_iff.1 hb) hka hkb

/-! ## Views -/

/-- A class type, or a name, is viewed through its closure. -/
lemma viewAs_eq_find? {ty : Ty} (h : (ty.canonical t).class?.isSome) (target : ClassId) :
    t.viewAs ty target =
      (t.supertypeClosure ty).find? fun sup => sup.class? == some target := by
  cases ty with
  | cls | named => rfl
  | _ => simp [Ty.canonical, Ty.class?] at h

/-- The view of a class type is a type above it, of the class that is asked for. -/
lemma above_of_viewAs {ty s : Ty} {target : ClassId} (h : (ty.canonical t).class?.isSome)
    (hs : t.viewAs ty target = some s) : t.Above ty s ∧ s.class? = some target := by
  rw [viewAs_eq_find? h] at hs
  exact ⟨(above_of_mem_supertypeClosure (List.mem_of_find?_eq_some hs)).1,
    by simpa using List.find?_some hs⟩

/-- Under coherence a class type is viewed as each class type above it. -/
lemma viewAs_of_above {ty s : Ty} {target : ClassId} (h : (ty.canonical t).class?.isSome)
    (hc : t.Coherent ty) (hs : t.Above ty s) (htarget : s.class? = some target) :
    t.viewAs ty target = some s := by
  have hmem : s ∈ t.supertypeClosure ty := (mem_supertypeClosure_iff hc).2 ⟨hs, by simp [htarget]⟩
  obtain ⟨u, hu⟩ : ∃ u, t.viewAs ty target = some u := by
    rw [viewAs_eq_find? h, ← Option.isSome_iff_exists, List.find?_isSome]
    exact ⟨s, hmem, by simp [htarget]⟩
  obtain ⟨hu', hclass⟩ := above_of_viewAs h hu
  rw [hu, hc u s target hu' hs hclass htarget]

/-- The checked arguments of a class type. -/
lemma checkedArgs_eq_some_iff {target : ClassId} {s : Ty} {args : List Ty} :
    t.checkedArgs target s = some args ↔
      s = .cls target args ∧ ∃ d, t.classDef? target = some d ∧ args.length = d.arity := by
  unfold checkedArgs
  split
  · next id as =>
    split
    · next hd => grind
    · next d hd => grind
  · next hs =>
    simp only [reduceCtorEq, false_iff, not_and]
    rintro rfl
    exact absurd rfl (hs target args)

/-- **A class type is viewed as what declared steps lead to.** If the types above it agree on the
arguments of each class, its view as a class is the type of that class above it, and the arguments
as which an ancestor is seen are those of that type, provided that the ancestor is defined and that
their number is right.

**Proof sketch.** The closure holds the class types above `ty` (`mem_supertypeClosure_iff`), so the
first of class `target` in it is above `ty`, and by coherence it is the only one. -/
theorem viewAs_eq_some_iff_above (t : ClassTable) (ty : Ty) (hty : (ty.canonical t).class?.isSome)
    (hc : t.Coherent ty) (target : ClassId) :
    (∀ s, t.viewAs ty target = some s ↔ t.Above ty s ∧ s.class? = some target) ∧
    ∀ args, t.ancestorArgs ty target = some args ↔
      ∃ s d, t.Above ty s ∧ s.class? = some target ∧ t.classDef? target = some d ∧
        s = .cls target args ∧ args.length = d.arity := by
  have view : ∀ s, t.viewAs ty target = some s ↔ t.Above ty s ∧ s.class? = some target :=
    fun s => ⟨above_of_viewAs hty, fun h => viewAs_of_above hty hc h.1 h.2⟩
  refine ⟨view, fun args => ?_⟩
  rw [ancestorArgs, Option.bind_eq_some_iff]
  constructor
  · rintro ⟨s, hs, hargs⟩
    obtain ⟨habove, hclass⟩ := (view s).1 hs
    obtain ⟨rfl, d, hd, hlen⟩ := checkedArgs_eq_some_iff.1 hargs
    exact ⟨_, d, habove, hclass, hd, rfl, hlen⟩
  · rintro ⟨s, d, habove, hclass, hd, rfl, hlen⟩
    exact ⟨_, (view _).2 ⟨habove, hclass⟩, checkedArgs_eq_some_iff.2 ⟨rfl, d, hd, hlen⟩⟩

/-- A list of types that is closed under supertypes holds everything above its members. -/
lemma mem_of_above {tys : List Ty} {ty s : Ty} (start : ty.canonical t ∈ tys)
    (closed : ∀ a ∈ tys, ∀ b ∈ t.declaredSupertypes a, b ∈ tys) (hs : t.Above ty s) :
    s ∈ tys := by
  induction hs with
  | refl => exact start
  | @tail a b ha step ih =>
    have ha : t.Above ty a := ha
    exact closed a ih b ((mem_declaredSupertypes_iff ha.canonical).2 step)

/-- Coherence can be read off such a list. -/
lemma coherent_of_closed (tys : List Ty) {ty : Ty} (start : ty.canonical t ∈ tys)
    (closed : ∀ a ∈ tys, ∀ b ∈ t.declaredSupertypes a, b ∈ tys)
    (distinct : ∀ a ∈ tys, ∀ b ∈ tys, a.class? = b.class? → a = b) : t.Coherent ty :=
  fun a b _ ha hb hac hbc => distinct a (mem_of_above start closed ha) b
    (mem_of_above start closed hb) (hac.trans hbc.symm)

/-- A table in which `A<X>` extends `B<List<X>>`. -/
def nested : ClassTable :=
  (core.declare
    [{ name := "java.util.List", kind := .interface, typeParams := ["E"] },
     { name := "com.example.B", typeParams := ["Y"] },
     { name := "com.example.A", typeParams := ["X"],
       extended := ["com.example.B<java.util.List<X>>"] }]).1

/-- The rows of this table. -/
lemma nested_eq : nested = core.withRows
    [{ name := "java.util.List", kind := .interface, typeParams := [⟨0⟩] },
     { name := "com.example.B", typeParams := [⟨1⟩], superClass := some (.cls ⟨0⟩ []) },
     { name := "com.example.A", typeParams := [⟨2⟩],
       superClass := some (.cls ⟨14⟩ [.cls ⟨13⟩ [.var ⟨2⟩]]) }]
    [{ name := "E", upperBounds := [.cls ⟨0⟩ []] }, { name := "Y", upperBounds := [.cls ⟨0⟩ []] },
     { name := "X", upperBounds := [.cls ⟨0⟩ []] }] := by
  decide +kernel

/-- Above `A<String>` there are `B<List<String>>` and `Object`. -/
lemma coherent_nested : nested.Coherent (.cls ⟨15⟩ [.cls ⟨1⟩ []]) := by
  rw [nested_eq]
  exact coherent_of_closed
    [.cls ⟨15⟩ [.cls ⟨1⟩ []], .cls ⟨14⟩ [.cls ⟨13⟩ [.cls ⟨1⟩ []]], .cls ⟨0⟩ []]
    (by decide) (by decide) (by decide)

/-- The step from `A<String>` to `B<List<String>>`. -/
lemma above_nested :
    nested.Above (.cls ⟨15⟩ [.cls ⟨1⟩ []]) (.cls ⟨14⟩ [.cls ⟨13⟩ [.cls ⟨1⟩ []]]) := by
  rw [nested_eq]
  exact .single ((mem_declaredSupertypes_iff rfl).1 (by decide))

/-- `A<String>` viewed as `B` is `B<List<String>>`. -/
theorem ancestorArgs_nested : nested.Coherent (.cls ⟨15⟩ [.cls ⟨1⟩ []]) ∧
    nested.viewAs (.cls ⟨15⟩ [.cls ⟨1⟩ []]) ⟨14⟩ = some (.cls ⟨14⟩ [.cls ⟨13⟩ [.cls ⟨1⟩ []]]) ∧
    nested.ancestorArgs (.cls ⟨15⟩ [.cls ⟨1⟩ []]) ⟨14⟩ = some [.cls ⟨13⟩ [.cls ⟨1⟩ []]] := by
  obtain ⟨views, args⟩ := viewAs_eq_some_iff_above nested (.cls ⟨15⟩ [.cls ⟨1⟩ []]) rfl
    coherent_nested ⟨14⟩
  obtain ⟨d, hd⟩ : ∃ d, nested.classDef? ⟨14⟩ = some d :=
    Option.isSome_iff_exists.1 (by decide +kernel)
  have arity : (nested.classDef? ⟨14⟩).map (·.arity) = some 1 := by decide +kernel
  rw [hd, Option.map_some, Option.some.injEq] at arity
  exact ⟨coherent_nested, (views _).2 ⟨above_nested, rfl⟩,
    (args _).2 ⟨_, d, above_nested, rfl, hd, rfl, arity.symm⟩⟩

end ClassTable

end ContainerLint
