import ContainerLint.Proofs.Agreement.Region
import ContainerLint.Proofs.Hierarchy.IndexAgreement

/-!
# Supertypes and views in tables that agree

Everything above a type is computed by repeating one step, so two tables in which the types of a
region have the same direct supertypes also have the same closures, views and indices there. The
walk keeps the first type that it finds of each class, which is why the direct supertypes have to be
the same lists, in the same order.

## Main definitions

* `ClassTable.AgreesAbove` — two tables agree on a region and on the direct supertypes of its types.
* `ClassTable.SortsAlike` — two definitions whose interfaces are sorted alike.
* `AncestorIndex.AgreesOn` — two indices hold the same for the classes of a region.

## Main results

* `ClassTable.AgreesOn.agreesAbove` — tables whose definitions are sorted alike agree above.
* `ClassTable.AgreesAbove.supertypeClosure` — types of the region have the same closures.
* `ClassTable.AgreesAbove.shared_viewAs` — they have the same views.
* `ClassTable.AgreesAbove.shared_ancestorArgs` — they show the same arguments of each ancestor.
* `ClassTable.AgreesAbove.shared_index_ancestorArgs` — so they do with an index.
* `ClassTable.AgreesAbove.build` — indices that are built for the same classes agree.
-/

set_option autoImplicit false

namespace ContainerLint

namespace ClassTable

variable {R : Region} {t t' : ClassTable}

/-! ## One step up -/

/-- The names of a type are looked up before its supertypes are computed. -/
lemma directSupertypes_canonical (t : ClassTable) (ty : Ty) :
    t.directSupertypes (ty.canonical t) = t.directSupertypes ty := by
  unfold directSupertypes
  rw [Ty.canonical_canonical]

/-- A declared step does not leave a closed region. -/
lemma ClosedOn.declaredStep (closed : t.ClosedOn R) {ty s : Ty} (hty : ty.In R)
    (step : t.DeclaredStep ty s) : s.In R := by
  cases step with
  | @applied id args d sup hd hlen hsup =>
    cases hty with
    | cls hid hargs =>
      have instantiated := (closed.supertypes id d hid hd sup hsup).subst
        (σ := Subst.ofFormals d.typeParams args) fun x a hx => hargs a (Subst.mem_of_ofFormals hx)
      exact closed.canonical instantiated
  | @raw id d sup c as hd hgeneric hsup hc =>
    cases hty with
    | cls hid _ =>
      have inside := closed.canonical (closed.supertypes id d hid hd sup hsup)
      rw [hc] at inside
      cases inside with
      | cls hcid _ => exact .cls hcid (by simp)
  | object => exact closed.objectTy

/-- One step up does not leave a closed region. -/
lemma ClosedOn.directSupertypes (closed : t.ClosedOn R) {ty : Ty} (hty : ty.In R) :
    Ty.AllIn R (t.directSupertypes ty) := by
  intro s hs
  rw [← directSupertypes_canonical, mem_directSupertypes_iff (Ty.canonical_canonical t ty)] at hs
  exact closed.declaredStep (closed.canonical hty) hs

/-- Nor does any number of steps. -/
lemma ClosedOn.supertypeClosure (closed : t.ClosedOn R) {ty : Ty} (hty : ty.In R) :
    Ty.AllIn R (t.supertypeClosure ty) := by
  intro s hs
  obtain ⟨above, -⟩ := above_of_mem_supertypeClosure hs
  clear hs
  induction above with
  | refl => exact closed.canonical hty
  | tail _ step ih => exact closed.declaredStep ih step

/-- Two tables agree on a region, and in both of them its types have the same direct supertypes in
the same order. -/
structure AgreesAbove (t : ClassTable) (R : Region) (t' : ClassTable) : Prop
    extends t.AgreesOn R t' where
  direct : ∀ ty, ty.In R → t'.directSupertypes ty = t.directSupertypes ty

/-- In a table, two lists of interfaces are sorted to the same supertypes, whatever is put in for
the type parameters. -/
structure SortsAlike (t : ClassTable) (d d' : ClassDef) : Prop where
  raw : sortTypes t (d'.interfaces.filterMap t.rawClass?) =
    sortTypes t (d.interfaces.filterMap t.rawClass?)
  applied : ∀ args, sortTypes t (d'.interfaces.map (t.supertypeInstance d args)) =
    sortTypes t (d.interfaces.map (t.supertypeInstance d args))

namespace AgreesOn

/-- Definitions that are sorted alike have the same raw supertypes.

**Proof sketch.** The raw forms of the declared supertypes are found by looking up names of the
region, so they are the same in both tables. The superclass and the kind are not reordered. The raw
interfaces are in the region, so sorting them gives the same list in both tables, and by assumption
also for both definitions. -/
lemma rawSupertypes (h : t.AgreesOn R t') {d d' : ClassDef} (reordered : d.Reordered d')
    (supers : Ty.AllIn R d.supertypes) (sorted : t.SortsAlike d d') :
    t'.rawSupertypes d' = t.rawSupertypes d := by
  have same {sups : List Ty} (hsups : sups ⊆ d.supertypes) :
      sups.filterMap t'.rawClass? = sups.filterMap t.rawClass? := by
    refine List.filterMap_congr fun sup hsup => ?_
    unfold rawClass?
    rw [h.canonical (supers sup (hsups hsup))]
  have inside : Ty.AllIn R (d'.interfaces.filterMap t.rawClass?) := by
    intro s hs
    obtain ⟨sup, hsup, hs⟩ := List.mem_filterMap.1 hs
    obtain ⟨c, as, hc, rfl⟩ := rawClass?_eq_some_iff.1 hs
    have looked := h.closed.canonical
      (supers sup (List.mem_append_right _ (reordered.interfaces.mem_iff.1 hsup)))
    rw [hc] at looked
    cases looked with
    | cls hcid _ => exact .cls hcid (by simp)
  unfold ClassTable.rawSupertypes implicitSupertypes
  rw [reordered.superClass, reordered.kind, h.objectTy, same (List.subset_append_left _ _),
    same fun sup hsup => List.mem_append_right _ (reordered.interfaces.mem_iff.1 hsup),
    h.sortTypes inside, sorted.raw]

/-- They have the same supertypes when they are applied to arguments of the region.

**Proof sketch.** As for raw supertypes, with instances in the place of raw forms: an instance of a
declared supertype is a substitution by arguments of the region, and stays inside of it. -/
lemma appliedSupertypes (h : t.AgreesOn R t') {d d' : ClassDef} (reordered : d.Reordered d')
    (supers : Ty.AllIn R d.supertypes) (sorted : t.SortsAlike d d') {args : List Ty}
    (hargs : Ty.AllIn R args) : t'.appliedSupertypes d' args = t.appliedSupertypes d args := by
  have instance_in {sup : Ty} (hsup : sup ∈ d.supertypes) :
      (sup.subst (Subst.ofFormals d.typeParams args)).In R :=
    (supers sup hsup).subst fun x a hx => hargs a (Subst.mem_of_ofFormals hx)
  have same {sups : List Ty} (hsups : sups ⊆ d.supertypes) :
      sups.map (t'.supertypeInstance d' args) = sups.map (t.supertypeInstance d args) := by
    refine List.map_congr_left fun sup hsup => ?_
    rw [supertypeInstance, supertypeInstance, reordered.typeParams,
      h.canonical (instance_in (hsups hsup))]
  have inside : Ty.AllIn R (d'.interfaces.map (t.supertypeInstance d args)) := by
    intro s hs
    obtain ⟨sup, hsup, rfl⟩ := List.mem_map.1 hs
    exact h.closed.canonical
      (instance_in (List.mem_append_right _ (reordered.interfaces.mem_iff.1 hsup)))
  rw [appliedSupertypes_eq, appliedSupertypes_eq, implicitSupertypes, implicitSupertypes,
    reordered.superClass, reordered.kind, h.objectTy, same (List.subset_append_left _ _),
    same fun sup hsup => List.mem_append_right _ (reordered.interfaces.mem_iff.1 hsup),
    h.sortTypes inside, sorted.applied]

/-- **Two tables that agree on a region also agree above it** if the definitions of its classes are
sorted alike.

**Proof sketch.** What a type has as direct supertypes is decided after its names are looked up,
which both tables do alike. For a class the two definitions are reordered forms of each other, so
they have the same arity, and their raw and their applied supertypes are the same by the two lemmas
before. -/
theorem agreesAbove (h : t.AgreesOn R t')
    (sorted : ∀ id d d', R.classes id → t.classDef? id = some d → t'.classDef? id = some d' →
      t.SortsAlike d d') : t.AgreesAbove R t' := by
  refine ⟨h, fun ty hty => ?_⟩
  have looked := h.closed.canonical hty
  unfold directSupertypes
  rw [h.canonical hty]
  generalize ty.canonical t = a at looked
  cases looked with
  | @cls id args hid hargs =>
    dsimp only
    cases hd : t.classDef? id with
    | none => rw [h.classDef?_eq_none hid hd]
    | some d =>
      obtain ⟨d', hd', reordered⟩ := h.exists_classDef? hid hd
      have supers := h.closed.supertypes id d hid hd
      have alike := sorted id d d' hid hd hd'
      rw [hd']
      dsimp only
      rw [reordered.isGeneric, reordered.arity, h.rawSupertypes reordered supers alike,
        h.appliedSupertypes reordered supers alike hargs]
  | _ => rfl

end AgreesOn

namespace AgreesAbove

/-- **Types of the region have the same closures.**

**Proof sketch.** The two walks meet the same types, since neither leaves the region. -/
theorem supertypeClosure (h : t.AgreesAbove R t') {ty : Ty} (hty : ty.In R) :
    t'.supertypeClosure ty = t.supertypeClosure ty := by
  have walk : t'.supertypeWalk.fromQueue [] [ty.canonical t] =
      (t.supertypeWalk.fromQueue [] [ty.canonical t]).map id := by
    refine Walk.fromQueue_map id (Ty.In R) ?_ ?_ ?_ _ _ _ ?_ ?_
    · exact fun _ _ => rfl
    · intro a ha b hb _
      exact h.closed.directSupertypes ha b hb
    · intro a ha _
      rw [List.map_id]
      exact congrArg (List.filter _) (h.direct a ha)
    · intro a ha _
      rw [List.mem_singleton.1 ha]
      exact h.closed.canonical hty
    · rw [List.map_id]
      rfl
  rw [List.map_id] at walk
  rw [ClassTable.supertypeClosure, ClassTable.supertypeClosure, h.canonical hty]
  exact walk

end AgreesAbove

end ClassTable

/-! ## Views -/

/-- The parts of an intersection are viewed one by one. -/
lemma Ty.viewEach_eq_map (t : ClassTable) (target : ClassId) (follow : VarId → Option Ty)
    (parts : List Ty) :
    viewEach t target follow parts =
      parts.map fun part => (part.sortKey t, fun _ => viewWith t target follow part) := by
  induction parts with
  | nil => rfl
  | cons part parts ih => rw [viewEach, ih, List.map_cons]

/-- What two views merge to is one of them. -/
lemma eq_or_eq_of_mergeTwo {a b c : Ty} (h : mergeTwo a b = some c) : c = a ∨ c = b := by
  unfold mergeTwo at h
  split_ifs at h
  · exact .inl (Option.some.inj h).symm
  · exact .inl (Option.some.inj h).symm
  · exact .inr (Option.some.inj h).symm

/-- Candidates that are viewed alike are merged alike.

**Proof sketch.** By induction on the candidates, with the view that was found so far generalized.
The result of merging two views is one of them, so it is in the set if both are. -/
lemma Shared.mergeViews {α : Type} {P : Ty → Prop} {view view' : α → Option Ty} {as : List α}
    (h : ∀ a ∈ as, Shared P (view a) (view' a)) {found found' : Option Ty}
    (hfound : Shared P found found') :
    Shared P (mergeViews view found as) (mergeViews view' found' as) := by
  induction as generalizing found found' with
  | nil => exact hfound
  | cons a as ih =>
    obtain ⟨rfl, old⟩ := hfound
    obtain ⟨same, new⟩ := h a List.mem_cons_self
    have rest := @ih fun b hb => h b (List.mem_cons_of_mem _ hb)
    unfold ContainerLint.mergeViews
    rw [same]
    cases hview : view a with
    | none => exact rest ⟨rfl, old⟩
    | some v =>
      cases hfound : found' with
      | none => exact rest (.some (new v hview))
      | some u =>
        dsimp only
        cases hmerge : mergeTwo u v with
        | none => exact .none
        | some w =>
          refine rest (.some ?_)
          rcases eq_or_eq_of_mergeTwo hmerge with rfl | rfl
          · exact old w hfound
          · exact new w hview

namespace ClassTable

variable {R : Region} {t t' : ClassTable}

namespace AgreesAbove

/-- Types of the region are viewed alike if its variables are.

**Proof sketch.** By induction on the type. An array is viewed as a class that all arrays have, and
these classes are known to be in the region. The parts of an intersection have the same spellings,
so they are sorted alike, and their views are merged alike. A variable is followed by assumption.
All other types are viewed through their closures, which are the same. -/
lemma viewWith (h : t.AgreesAbove R t') (target : ClassId) {follow follow' : VarId → Option Ty}
    (hfollow : ∀ x, R.vars x → Shared (Ty.In R) (follow x) (follow' x)) {ty : Ty} (hty : ty.In R) :
    Shared (Ty.In R) (ty.viewWith t target follow) (ty.viewWith t' target follow') := by
  have closure {ty : Ty} (hty : ty.In R) : Shared (Ty.In R)
      ((t.supertypeClosure ty).find? fun sup => sup.class? == some target)
      ((t'.supertypeClosure ty).find? fun sup => sup.class? == some target) := by
    rw [h.supertypeClosure hty]
    exact .find? (h.closed.supertypeClosure hty) _
  induction ty using Ty.recOnMembers with
  | array elem =>
    rw [Ty.viewWith, Ty.viewWith, h.isArraySuper]
    split
    · next super => exact .some (.cls (h.closed.arraySuper target super) (by simp))
    · exact .none
  | inter parts ih =>
    cases hty with
    | inter hparts =>
      have each : Ty.viewEach t' target follow' parts = Ty.viewEach t target follow parts := by
        rw [Ty.viewEach_eq_map, Ty.viewEach_eq_map]
        refine List.map_congr_left fun part hpart => ?_
        rw [Ty.sortKey, h.render .full (hparts part hpart), (ih part hpart (hparts part hpart)).1]
        rfl
      rw [Ty.viewWith, Ty.viewWith, each]
      refine Shared.mergeViews (fun candidate hcandidate => ⟨rfl, ?_⟩) .none
      rw [(perm_sortByKey _ _).mem_iff, Ty.viewEach_eq_map] at hcandidate
      obtain ⟨part, hpart, rfl⟩ := List.mem_map.1 hcandidate
      exact (ih part hpart (hparts part hpart)).2
  | var x =>
    cases hty with
    | var hx => exact hfollow x hx
  | wildExtends upper ih =>
    cases hty with
    | wildExtends hupper => exact ih hupper
  | _ => exact closure hty

/-- Variables of the region are viewed alike. -/
lemma viewVar (h : t.AgreesAbove R t') (target : ClassId) {avail avail' : List VarId}
    (same : R.SameVars avail avail') :
    ∀ x, R.vars x → Shared (Ty.In R) (t.viewVar target avail x) (t'.viewVar target avail' x) := by
  refine same.erase_induction (P := fun as bs => ∀ x, R.vars x →
    Shared (Ty.In R) (t.viewVar target as x) (t'.viewVar target bs x)) ?_
  intro avail avail' same ih x hx
  rw [ClassTable.viewVar, ClassTable.viewVar, h.typeParam? x hx]
  by_cases mem : x ∈ avail
  · rw [dif_pos mem, dif_pos ((same.mem_iff x hx).2 mem)]
    cases hp : t.typeParam? x with
    | none => exact .none
    | some p =>
      have bounds := h.closed.bounds x p hx hp
      dsimp only
      rw [h.sortTypes bounds]
      exact Shared.mergeViews
        (fun b hb => h.viewWith target (ih x mem) (bounds b (mem_sortTypes.1 hb))) .none
  · rw [dif_neg mem, dif_neg fun mem' => mem ((same.mem_iff x hx).1 mem')]
    exact .none

/-- **Types of the region have the same views.** -/
theorem shared_viewAs (h : t.AgreesAbove R t') {ty : Ty} (hty : ty.In R) (target : ClassId) :
    Shared (Ty.In R) (t.viewAs ty target) (t'.viewAs ty target) :=
  h.viewWith target (h.viewVar target h.sameVars) hty

end AgreesAbove

/-- The arguments of a type of the region are checked alike. -/
lemma AgreesOn.shared_checkedArgs (h : t.AgreesOn R t') {ty : Ty} (hty : ty.In R)
    (ancestor : ClassId) :
    Shared (Ty.AllIn R) (t.checkedArgs ancestor ty) (t'.checkedArgs ancestor ty) := by
  cases hty with
  | @cls id args hid hargs =>
    simp only [checkedArgs]
    cases hd : t.classDef? id with
    | none =>
      rw [h.classDef?_eq_none hid hd]
      exact .none
    | some d =>
      obtain ⟨d', hd', reordered⟩ := h.exists_classDef? hid hd
      rw [hd']
      dsimp only
      rw [reordered.arity]
      split
      · exact .some hargs
      · exact .none
  | _ => exact .none

/-- **Types of the region show the same arguments of each ancestor.** -/
theorem AgreesAbove.shared_ancestorArgs (h : t.AgreesAbove R t') {ty : Ty} (hty : ty.In R)
    (ancestor : ClassId) :
    Shared (Ty.AllIn R) (t.ancestorArgs ty ancestor) (t'.ancestorArgs ty ancestor) :=
  (h.shared_viewAs hty ancestor).bind fun _ hv => h.shared_checkedArgs hv ancestor

end ClassTable

/-! ## Indices -/

/-- Two indices hold the same supertypes for the classes of a region, all of them in the region. -/
def AncestorIndex.AgreesOn (index : AncestorIndex) (R : Region) (index' : AncestorIndex) : Prop :=
  ∀ id, R.classes id → Shared (Ty.AllIn R) (index.find? id) (index'.find? id)

/-- A class that is not asked for gets no entry. -/
lemma AncestorIndex.find?_build_of_not_mem {t : ClassTable} {ids : List ClassId} {id : ClassId}
    (h : id ∉ ids) : (build t ids).find? id = none := by
  rw [find?, Option.map_eq_none_iff, List.find?_eq_none]
  intro entry hentry
  obtain ⟨id', hid', hentry⟩ := List.mem_filterMap.1 hentry
  obtain ⟨d, -, rfl⟩ := Option.map_eq_some_iff.1 hentry
  rw [List.mem_eraseDups] at hid'
  simp only [beq_iff_eq]
  rintro rfl
  exact h hid'

/-- An undefined class gets no entry either. -/
lemma AncestorIndex.find?_build_of_classDef? {t : ClassTable} {ids : List ClassId} {id : ClassId}
    (h : t.classDef? id = none) : (build t ids).find? id = none := by
  rw [Option.eq_none_iff_forall_ne_some]
  intro supers hsupers
  obtain ⟨d, hd, -⟩ := find?_build_eq_some hsupers
  rw [h] at hd
  cases hd

namespace ClassTable

variable {R : Region} {t t' : ClassTable}

/-- A class of a closed region, applied to its own parameters, is in the region. -/
lemma ClosedOn.selfType (closed : t.ClosedOn R) {id : ClassId} (hid : R.classes id) {d : ClassDef}
    (hd : t.classDef? id = some d) : (AncestorIndex.selfType id d).In R := by
  refine .cls hid fun a ha => ?_
  obtain ⟨x, hx, rfl⟩ := List.mem_map.1 ha
  exact .var (closed.typeParams id d hid hd x hx)

/-- An index agrees with itself on a closed region. -/
lemma ClosedOn.build (closed : t.ClosedOn R) (ids : List ClassId) :
    (AncestorIndex.build t ids).AgreesOn R (AncestorIndex.build t ids) := by
  refine fun id hid => ⟨rfl, fun supers hsupers => ?_⟩
  obtain ⟨d, hd, rfl⟩ := AncestorIndex.find?_build_eq_some hsupers
  exact closed.supertypeClosure (closed.selfType hid hd)

/-- A class of the region, applied to its own parameters, has the same closure. -/
lemma AgreesAbove.supertypeClosure_selfType (h : t.AgreesAbove R t') {id : ClassId}
    (hid : R.classes id) {d d' : ClassDef} (hd : t.classDef? id = some d)
    (reordered : d.Reordered d') :
    t'.supertypeClosure (AncestorIndex.selfType id d') =
      t.supertypeClosure (AncestorIndex.selfType id d) := by
  rw [← h.supertypeClosure (h.closed.selfType hid hd), AncestorIndex.selfType,
    AncestorIndex.selfType, reordered.typeParams]

/-- **Indices that are built for the same classes of the region agree on it.** -/
theorem AgreesAbove.build (h : t.AgreesAbove R t') {ids ids' : List ClassId}
    (same : ∀ id, R.classes id → (id ∈ ids' ↔ id ∈ ids)) :
    (AncestorIndex.build t ids).AgreesOn R (AncestorIndex.build t' ids') := by
  intro id hid
  refine ⟨?_, (h.closed.build ids id hid).2⟩
  cases hd : t.classDef? id with
  | none =>
    rw [AncestorIndex.find?_build_of_classDef? hd,
      AncestorIndex.find?_build_of_classDef? (h.classDef?_eq_none hid hd)]
  | some d =>
    obtain ⟨d', hd', reordered⟩ := h.exists_classDef? hid hd
    by_cases mem : id ∈ ids
    · rw [AncestorIndex.find?_build mem hd, AncestorIndex.find?_build ((same id hid).2 mem) hd',
        h.supertypeClosure_selfType hid hd reordered]
    · rw [AncestorIndex.find?_build_of_not_mem mem,
        AncestorIndex.find?_build_of_not_mem fun mem' => mem ((same id hid).1 mem')]

/-- Indices that are built for classes of the region are the same. -/
lemma AgreesAbove.build_eq (h : t.AgreesAbove R t') {ids : List ClassId}
    (hids : ∀ id ∈ ids, R.classes id) : AncestorIndex.build t' ids = AncestorIndex.build t ids := by
  unfold AncestorIndex.build
  congr 1
  refine List.filterMap_congr fun id hid => ?_
  have hid := hids id (List.mem_eraseDups.1 hid)
  cases hd : t.classDef? id with
  | none => rw [h.classDef?_eq_none hid hd, Option.map_none, Option.map_none]
  | some d =>
    obtain ⟨d', hd', reordered⟩ := h.exists_classDef? hid hd
    rw [hd', Option.map_some, Option.map_some, h.supertypeClosure_selfType hid hd reordered]

/-- **With indices that agree, types of the region show the same arguments of each ancestor.**

**Proof sketch.** After names are looked up, only a class type can use the index. If the index has
no entry for its class, or if its use is raw, the walk decides, and walks agree. Otherwise the
supertype that the index holds is in the region, and so is its instance by the arguments of the
type. -/
theorem AgreesAbove.shared_index_ancestorArgs (h : t.AgreesAbove R t')
    {index index' : AncestorIndex} (hindex : index.AgreesOn R index') {ty : Ty} (hty : ty.In R)
    (ancestor : ClassId) :
    Shared (Ty.AllIn R) (index.ancestorArgs t ty ancestor)
      (index'.ancestorArgs t' ty ancestor) := by
  have hcanonical := h.closed.canonical hty
  unfold AncestorIndex.ancestorArgs
  rw [h.canonical hty]
  generalize ty.canonical t = looked at hcanonical
  have walked := h.shared_ancestorArgs hcanonical ancestor
  cases hcanonical with
  | @cls id args hid hargs =>
    obtain ⟨same, inside⟩ := hindex id hid
    dsimp only
    rw [same]
    cases hfind : index.find? id with
    | none => exact walked
    | some supers =>
      cases hd : t.classDef? id with
      | none =>
        rw [h.classDef?_eq_none hid hd]
        exact .none
      | some d =>
        obtain ⟨d', hd', reordered⟩ := h.exists_classDef? hid hd
        rw [hd']
        dsimp only
        rw [reordered.isGeneric, reordered.arity, reordered.typeParams]
        split_ifs
        · exact walked
        · refine Shared.bind (Shared.find? (inside supers hfind) _) fun generic hgeneric => ?_
          refine h.shared_checkedArgs (hgeneric.subst ?_) ancestor
          exact fun x a hx => hargs a (Subst.mem_of_ofFormals hx)
        · exact .none
  | _ => exact walked

end ClassTable

end ContainerLint
