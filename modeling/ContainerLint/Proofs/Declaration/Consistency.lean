import ContainerLint.Proofs.Declaration.Stages
import Mathlib.Data.List.Pairwise

/-!
# Consistency of class tables

Names are interned and batches are entered in any order, and a batch may be refused halfway. Still
every later query can rely on the table: its numbers refer to something, its definitions carry
their own names, and no two classes share a type variable.

## Main definitions

* `TableCall` — interning a name or entering a batch.
* `ClassTable.Consistent` — what every query relies on.
* `ClassTable.Regular` — the part of it that each elementary edit keeps.
* `ClassTable.Separate` — the part of it that depends on which numbers a batch gives out.

## Main results

* `ClassTable.Regular.edit` — an edit keeps a table regular.
* `ClassTable.Separate.declare` — a batch keeps the type variables of its classes separate.
* `ClassTable.consistent_foldl_perform` — every table that calls lead to is consistent.

## Design

An elementary edit does not know where its numbers come from, so it may well give two classes one
type variable. That this does not happen is a property of batches: the numbers that a batch gives
out were not in use before it.
-/

set_option autoImplicit false

namespace ContainerLint

/-- A call that changes a class table. -/
inductive TableCall where
  /-- Intern a name. -/
  | intern (name : String)
  /-- Enter a batch of declarations. -/
  | declare (decls : List ClassDecl)

/-- The table after a call, which may have failed. -/
def TableCall.perform (t : ClassTable) : TableCall → ClassTable
  | .intern name => (t.intern name).1
  | .declare decls => (t.declare decls).1

/-- The forms of types that no signature denotes. -/
def Ty.IsUnwritten : Ty → Prop
  | .named _ | .unknown | .error | .null | .void | .inter _ => True
  | _ => False

/-- The well-known classes with their names. -/
def WellKnown.entries (w : WellKnown) : List (ClassId × String) :=
  [(w.object, "java.lang.Object"), (w.string, "java.lang.String"),
    (w.integer, "java.lang.Integer"), (w.cloneable, "java.lang.Cloneable"),
    (w.serializable, "java.io.Serializable")] ++ Primitive.all.map fun p => (w.box p, p.boxName)

namespace ClassTable

/-- A type that a table holds: a declared supertype of a class, or a bound of a type parameter. -/
def Holds (t : ClassTable) (ty : Ty) : Prop :=
  (∃ id d, t.classDef? id = some d ∧ ty ∈ d.supertypes) ∨
    ∃ x p, t.typeParam? x = some p ∧ ty ∈ p.upperBounds ++ p.lowerBound.toList

/-- What every query relies on. -/
structure Consistent (t : ClassTable) : Prop where
  /-- An interned name has a number that is in use. -/
  mem_ids : ∀ name id, t.find? name = some id → id ∈ t.ids
  /-- A number that is in use belongs to exactly one name. -/
  name_unique : ∀ id ∈ t.ids, ∃! name, t.find? name = some id
  /-- A definition carries the name under which its class is interned. -/
  defName : ∀ id d, t.classDef? id = some d → t.find? d.name = some id
  /-- The type parameters of a class are different. -/
  typeParams_nodup : ∀ id d, t.classDef? id = some d → d.typeParams.Nodup
  /-- The type parameters of a class are allocated. -/
  typeParams_mem : ∀ id d, t.classDef? id = some d → ∀ x ∈ d.typeParams, x ∈ t.varIds
  /-- Two classes share no type parameter. -/
  typeParams_apart : ∀ id id' d d' x, t.classDef? id = some d → t.classDef? id' = some d' →
    x ∈ d.typeParams → x ∈ d'.typeParams → id = id'
  /-- A declared supertype mentions only the type parameters of its class. -/
  supertype_vars : ∀ id d, t.classDef? id = some d →
    ∀ sup ∈ d.supertypes, ∀ x, Ty.var x ∈ sup.subterms → x ∈ d.typeParams
  /-- The classes and variables in a supertype or bound are allocated. -/
  mentions : ∀ ty, t.Holds ty → ty.MentionsOnly (· ∈ t.ids) (· ∈ t.varIds)
  /-- A supertype or bound is made of forms that signatures denote. -/
  written : ∀ ty, t.Holds ty → ∀ s ∈ ty.subterms, ¬ s.IsUnwritten
  /-- A class other than `Object` has a superclass. -/
  superClass : ∀ id d, t.classDef? id = some d → d.kind = .cls → id ≠ t.known.object →
    d.superClass.isSome
  /-- An interface has no superclass. -/
  interface : ∀ id d, t.classDef? id = some d → d.kind = .interface → d.superClass = none
  /-- The well-known classes are defined and have their names. -/
  known : ∀ p ∈ t.known.entries, (t.classDef? p.1).isSome ∧ t.find? p.2 = some p.1

variable {t t' : ClassTable}

/-! ## What each edit keeps -/

/-- What each elementary edit keeps. -/
structure Regular (t : ClassTable) : Prop where
  lawful : t.Lawful
  /-- Which definitions have a superclass. -/
  superClass : ∀ {id : ClassId} {d : ClassDef}, t.classDef? id = some d →
    (d.kind = .cls → id ≠ t.known.object → d.superClass.isSome) ∧
      (d.kind = .interface → d.superClass = none)
  /-- The bounds of a type parameter can be written. -/
  bounds : ∀ {x : VarId} {p : TypeParam}, t.typeParam? x = some p →
    ∀ b ∈ p.upperBounds ++ p.lowerBound.toList, ∃ formals, b.Written t formals
  /-- The well-known classes are defined and have their names. -/
  known : ∀ p ∈ t.known.entries, (t.classDef? p.1).isSome ∧ t.nameOf? p.1 = some p.2

/-- A definition has the kind, the type parameters and the superclass that its declaration
demands.

**Proof sketch.** A definition is made in two cases. An interface gets no superclass. A class gets
the one that it extends, or `Object` unless it is `Object` itself, and is refused if it extends more
than one. -/
lemma shape_of_definition {a : Allocated} {d : ClassDef} (h : t.definition a = .ok d) :
    d.typeParams = a.formals.map (·.1) ∧
      (d.kind = .cls → a.id ≠ t.known.object → d.superClass.isSome) ∧
      (d.kind = .interface → d.superClass = none) := by
  unfold definition at h
  obtain ⟨extended, -, h⟩ := exists_of_bind_eq_ok h
  obtain ⟨implemented, -, h⟩ := exists_of_bind_eq_ok h
  dsimp only at h
  cases hkind : a.decl.kind with
  | interface =>
    rw [hkind] at h
    cases h
    exact ⟨rfl, (fun eq => nomatch eq), fun _ => rfl⟩
  | cls =>
    rw [hkind] at h
    rcases extended with _ | ⟨superClass, _ | _⟩
    · cases h
      exact ⟨rfl, fun _ ne => by simp [ne], fun eq => nomatch eq⟩
    · cases h
      exact ⟨rfl, fun _ _ => rfl, fun eq => nomatch eq⟩
    · cases h

/-- A defined class stays defined. -/
lemma Edit.isSome_classDef? (edit : Edit t t') {id : ClassId} (h : (t.classDef? id).isSome) :
    (t'.classDef? id).isSome := by
  cases edit with
  | intern name => rwa [classDef?_intern]
  | addParam | bound => exact h
  | @define a d fits hd =>
    by_cases eq : id = a.id
    · have inUse : a.id ∈ t.ids := by
        rw [mem_ids_iff, fits.name]
        rfl
      rw [eq, classDef?_define_self inUse]
      rfl
    · rwa [classDef?_define_of_ne eq]

/-- After a type parameter is set, each type parameter is that one or was there. -/
lemma typeParam?_defineParam_eq_some {x y : VarId} {p q : TypeParam}
    (h : (t.defineParam x p).typeParam? y = some q) : q = p ∨ t.typeParam? y = some q := by
  unfold typeParam? defineParam at h
  rw [List.getElem?_set] at h
  split at h
  · split at h
    · exact .inl (Option.some.inj h).symm
    · cases h
  · exact .inr h

/-- After a type parameter is added, each type parameter is that one or was there. -/
lemma typeParam?_addParam_eq_some {y : VarId} {p q : TypeParam}
    (h : (t.addParam p).1.typeParam? y = some q) : q = p ∨ t.typeParam? y = some q := by
  unfold typeParam? addParam at h
  rw [List.getElem?_append] at h
  split at h
  · exact .inr h
  · left
    have mem := List.mem_of_getElem? h
    exact List.mem_singleton.1 mem

/-- **An edit keeps a table regular.**

**Proof sketch.** One case for each kind of edit. Only a definition adds a class, and its shape is
that of `shape_of_definition`. Only adding a type parameter or setting its bounds adds bounds, and
these are `Object` or resolved from texts. What was there before stays written, because names are
kept. -/
theorem Regular.edit (h : t.Regular) (edit : Edit t t') : t'.Regular := by
  refine ⟨h.lawful.edit edit, ?_, ?_, fun p hp => ?_⟩
  · intro id d hd
    rw [edit.known]
    cases edit with
    | intern name => exact h.superClass (by rwa [classDef?_intern] at hd)
    | addParam | bound => exact h.superClass hd
    | define fits hdef =>
      rcases classDef?_define_eq_some hd with ⟨rfl, rfl⟩ | hd
      · exact (shape_of_definition hdef).2
      · exact h.superClass hd
  · intro x p hp b hb
    have kept {b : Ty} : (∃ formals, b.Written t formals) → ∃ formals, b.Written t' formals :=
      fun ⟨formals, hw⟩ => ⟨formals, hw.mono fun _ _ hn => edit.nameOf? hn⟩
    cases edit with
    | intern name =>
      rw [typeParam?, params_intern] at hp
      exact kept (h.bounds hp b hb)
    | addParam name =>
      rcases typeParam?_addParam_eq_some hp with rfl | hp
      · obtain rfl : b = t.objectTy := by simpa using hb
        exact kept ⟨[], h.lawful.written_object []⟩
      · exact kept (h.bounds hp b hb)
    | bound fits hx hbounds =>
      rcases typeParam?_defineParam_eq_some hp with rfl | hp
      · refine kept ⟨_, written_of_allocated_resolveAll hbounds b ?_⟩
        simpa using hb
      · exact kept (h.bounds hp b hb)
    | define fits hdef => exact kept (h.bounds hp b hb)
  · rw [edit.known] at hp
    exact ⟨edit.isSome_classDef? (h.known p hp).1, edit.nameOf? (h.known p hp).2⟩

/-- Edits keep a table regular. -/
lemma Regular.edits (h : t.Regular) (edits : Edits t t') : t'.Regular := by
  induction edits with
  | refl => exact h
  | tail _ edit ih => exact ih.edit edit

/-- Which core classes have a superclass. -/
lemma superClass_core : ∀ id ∈ core.ids, ∀ d ∈ core.classDef? id,
    (d.kind = .cls → id ≠ core.known.object → d.superClass.isSome) ∧
      (d.kind = .interface → d.superClass = none) := by
  decide

/-- The core table is regular. -/
lemma regular_core : core.Regular := by
  refine ⟨lawful_core, ?_, ?_, by decide⟩
  · intro id d hd
    refine superClass_core id ?_ d hd
    by_contra unused
    rw [classDef?_eq_none unused] at hd
    cases hd
  · intro x p hp
    simp [typeParam?, core] at hp

/-! ## Type variables -/

/-- The variables in the bounds of a table are allocated. -/
def BoundsClosed (t : ClassTable) : Prop :=
  ∀ x p, t.typeParam? x = some p →
    ∀ b ∈ p.upperBounds ++ p.lowerBound.toList, ∀ y, Ty.var y ∈ b.subterms → y ∈ t.varIds

/-- The type variables of different classes are different, and all of them are allocated. -/
structure Separate (t : ClassTable) : Prop where
  /-- The type parameters of a class are allocated. -/
  mem : ∀ {id : ClassId} {d : ClassDef}, t.classDef? id = some d →
    ∀ x ∈ d.typeParams, x ∈ t.varIds
  /-- Two classes share no type parameter. -/
  apart : ∀ {id id' : ClassId} {d d' : ClassDef} {x : VarId}, t.classDef? id = some d →
    t.classDef? id' = some d' → x ∈ d.typeParams → x ∈ d'.typeParams → id = id'
  /-- The variables in a bound are allocated. -/
  bounds : t.BoundsClosed

/-- Which variables are allocated depends on the number of type parameters. -/
lemma varIds_congr (h : t'.params.length = t.params.length) : t'.varIds = t.varIds := by
  rw [varIds, varIds, h]

/-- An edit keeps the variables that are allocated. -/
lemma Edit.mem_varIds (edit : Edit t t') {x : VarId} (h : x ∈ t.varIds) : x ∈ t'.varIds := by
  cases edit with
  | intern name => rwa [varIds_congr (congrArg List.length (params_intern t name))]
  | addParam name =>
    simp only [varIds, List.mem_map, List.mem_range] at h ⊢
    obtain ⟨i, hi, rfl⟩ := h
    refine ⟨i, ?_, rfl⟩
    rw [ClassTable.addParam, List.length_append]
    exact Nat.lt_add_right _ hi
  | bound => rwa [varIds_congr (t := t) (by simp [defineParam])]
  | define => exact h

/-- Edits keep the variables that are allocated. -/
lemma Edits.mem_varIds (edits : Edits t t') {x : VarId} (h : x ∈ t.varIds) : x ∈ t'.varIds := by
  induction edits with
  | refl => exact h
  | tail _ edit ih => exact edit.mem_varIds ih

section Batch

variable {decls : List ClassDecl} {batch : List Allocated}

/-- A batch that is not allocated defines nothing. -/
lemma classDef?_declare_of_not_allocates (h : ¬ ∃ batch, t.Allocates decls batch) (id : ClassId) :
    (t.declare decls).1.classDef? id = t.classDef? id := by
  rcases declare_of_not_allocates h with eq | eq
  · rw [eq]
  · rw [eq, classDef?, slots_each_allocate]
    exact classDef?_internAll t (decls.map (·.name)) id

/-- The type parameters of an allocated batch are allocated. -/
lemma Allocates.mem_varIds (h : t.Allocates decls batch) {a : Allocated} (ha : a ∈ batch) :
    ∀ x ∈ a.formals.map (·.1), x ∈ (Allocates.table t decls batch).varIds := by
  intro x hx
  obtain ⟨f, hf, rfl⟩ := List.mem_map.1 hx
  rw [mem_varIds_iff, h.typeParam?_table ha hf]
  rfl

/-- Resolving bounds allocates no variables. -/
lemma varIds_bound (t : ClassTable) (a : Allocated) : (bound t a).1.varIds = t.varIds := by
  rw [fst_bound]
  refine TableStep.each_keeps (P := fun s => s.varIds = t.varIds) (fun f _ s hs => ?_) rfl
  unfold boundParam
  dsimp only
  split
  · exact hs
  · split
    · exact hs
    · rwa [varIds_congr (t := s) (by simp [defineParam])]

/-- Defining a class changes no type parameter. -/
lemma params_complete (t : ClassTable) (a : Allocated) : (complete t a).1.params = t.params := by
  unfold complete
  dsimp only
  split <;> rfl

/-- An allocated batch allocates no further variables, whether it succeeds or fails. -/
lemma Allocates.varIds_declare (h : t.Allocates decls batch) :
    (t.declare decls).1.varIds = (Allocates.table t decls batch).varIds := by
  have bounded : (TableStep.each bound (Allocates.table t decls batch) batch).1.varIds =
      (Allocates.table t decls batch).varIds :=
    TableStep.each_keeps (P := fun s => s.varIds = (Allocates.table t decls batch).varIds)
      (fun a _ s hs => (varIds_bound s a).trans hs) rfl
  rcases h.declare_fst with eq | eq
  · rw [eq, bounded]
  · rw [eq]
    refine TableStep.each_keeps (P := fun s => s.varIds = (Allocates.table t decls batch).varIds)
      (fun a _ s hs => ?_) bounded
    rw [varIds_congr (congrArg List.length (params_complete s a)), hs]

/-- **Each definition after a batch was there before**, or is that of a member of the batch, whether
the batch succeeds or fails.

**Proof sketch.** The stages before the last define nothing. In the last stage the property is kept
by each step, which defines the class of one member or fails. -/
lemma Allocates.classDef?_eq_some (h : t.Allocates decls batch) {id : ClassId} {d : ClassDef}
    (hd : (t.declare decls).1.classDef? id = some d) :
    t.classDef? id = some d ∨ ∃ a ∈ batch, a.id = id ∧ d.typeParams = a.formals.map (·.1) := by
  let P := fun s : ClassTable => ∀ id d, s.classDef? id = some d →
    t.classDef? id = some d ∨ ∃ a ∈ batch, a.id = id ∧ d.typeParams = a.formals.map (·.1)
  suffices P (t.declare decls).1 from this id d hd
  have bounded : P (TableStep.each bound (Allocates.table t decls batch) batch).1 :=
    fun id d hd => .inl ((classDef?_bounds t decls batch id).symm.trans hd)
  rcases h.declare_fst with eq | eq
  · rw [eq]
    exact bounded
  · rw [eq]
    refine TableStep.each_keeps (P := P) (fun a ha s hs id d hd => ?_) bounded
    unfold complete at hd
    dsimp only at hd
    split at hd
    · exact hs id d hd
    · next d' hdef =>
      rcases classDef?_define_eq_some hd with ⟨rfl, rfl⟩ | hd
      · exact .inr ⟨a, ha, rfl, (shape_of_definition hdef).1⟩
      · exact hs id d hd

namespace BoundsClosed

/-- Whether the bounds are closed depends on the type parameters only. -/
lemma congr (h : t.BoundsClosed) (params : t'.params = t.params) : t'.BoundsClosed := by
  intro x p hp b hb y hy
  rw [varIds_congr (congrArg List.length params)]
  rw [typeParam?, params] at hp
  exact h x p hp b hb y hy

/-- Adding a type parameter keeps the bounds closed. -/
lemma addParam (h : t.BoundsClosed) (name : String) :
    (t.addParam { name, upperBounds := [t.objectTy] }).1.BoundsClosed := by
  intro x p hp b hb y hy
  rcases typeParam?_addParam_eq_some hp with rfl | hp
  · obtain rfl : b = t.objectTy := by simpa using hb
    simp [objectTy, Ty.subterms, Ty.subtermsAll] at hy
  · exact (Edit.addParam t name).mem_varIds (h x p hp b hb y hy)

/-- Allocating type parameters keeps the bounds closed. -/
lemma allocateParams (h : t.BoundsClosed) (className : String) (taken texts : List String) :
    (allocateParams className taken t texts).1.BoundsClosed := by
  induction texts generalizing t taken with
  | nil => exact h
  | cons text texts ih =>
    unfold ClassTable.allocateParams
    cases ParamHeader.parse? text with
    | none => exact h
    | some header =>
      dsimp only
      split
      · exact h.addParam header.name
      · have rest := ih (h.addParam header.name) (header.name :: taken)
        split <;> next hrun =>
          rw [hrun] at rest
          exact rest

/-- Allocating a declaration keeps the bounds closed. -/
lemma allocate (h : t.BoundsClosed) (p : ClassDecl × ClassId) :
    (allocate t p).1.BoundsClosed := by
  have params := h.allocateParams p.1.name [] p.1.typeParams
  unfold ClassTable.allocate
  dsimp only
  split <;> next hrun =>
    rw [hrun] at params
    exact params

/-- Resolving bounds in terms of allocated variables keeps the bounds closed.

**Proof sketch.** The steps keep two things together: the bounds are closed, and the variables are
those of the table at the start. Bounds that are set anew are resolved in terms of the formals of
the declaration, which are allocated. -/
lemma bound (h : t.BoundsClosed) {a : Allocated}
    (allocated : ∀ x ∈ a.formals.map (·.1), x ∈ t.varIds) : (bound t a).1.BoundsClosed := by
  rw [fst_bound]
  refine (TableStep.each_keeps (P := fun s => s.BoundsClosed ∧ s.varIds = t.varIds)
    (fun f hf s hs => ?_) ⟨h, rfl⟩).1
  unfold boundParam
  dsimp only
  split
  · exact hs
  · cases hbounds : a.resolveAll s f.2.bounds with
    | error e => exact hs
    | ok upperBounds =>
      have same (p : TypeParam) : (s.defineParam f.1 p).varIds = s.varIds :=
        varIds_congr (by simp [defineParam])
      refine ⟨fun x p hp b hb y hy => ?_, (same _).trans hs.2⟩
      rw [same]
      rcases typeParam?_defineParam_eq_some hp with rfl | hp
      · have written := written_of_allocated_resolveAll hbounds b (by simpa using hb)
        rw [hs.2]
        exact allocated y (written.mem_formals hy)
      · exact hs.1 x p hp b hb y hy

/-- A batch keeps the bounds closed, whether it succeeds or fails.

**Proof sketch.** New type parameters are bounded by `Object`. When their bounds are resolved, all
variables that these may mention are allocated. Defining classes changes no type parameter. -/
lemma declare (h : t.BoundsClosed) (decls : List ClassDecl) :
    (t.declare decls).1.BoundsClosed := by
  have names : (t.withNames decls).BoundsClosed := h.congr (params_internAll t _)
  have allocated : (TableStep.each ClassTable.allocate (t.withNames decls)
      (decls.zip (t.numbersOf decls))).1.BoundsClosed :=
    TableStep.each_keeps (P := BoundsClosed) (fun p _ s hs => hs.allocate p) names
  by_cases halloc : ∃ batch, t.Allocates decls batch
  · obtain ⟨batch, halloc⟩ := halloc
    have table : (Allocates.table t decls batch).BoundsClosed := by
      rw [(formals_of_each_allocate halloc.run).2.2] at allocated
      exact allocated
    have bounded : (TableStep.each ClassTable.bound (Allocates.table t decls batch)
        batch).1.BoundsClosed := by
      refine (TableStep.each_keeps (P := fun s => s.BoundsClosed ∧
        s.varIds = (Allocates.table t decls batch).varIds) (fun a ha s hs => ?_) ⟨table, rfl⟩).1
      refine ⟨hs.1.bound fun x hx => ?_, (varIds_bound s a).trans hs.2⟩
      rw [hs.2]
      exact halloc.mem_varIds ha x hx
    rcases halloc.declare_fst with eq | eq
    · rw [eq]
      exact bounded
    · rw [eq]
      exact TableStep.each_keeps (P := BoundsClosed)
        (fun a _ s hs => hs.congr (params_complete s a)) bounded
  · rcases declare_of_not_allocates halloc with eq | eq
    · rw [eq]
      exact h
    · rw [eq]
      exact allocated

end BoundsClosed

/-- The type parameters of an allocated batch were not in use before it. -/
lemma Allocates.not_mem_varIds (h : t.Allocates decls batch) {a : Allocated} (ha : a ∈ batch)
    {x : VarId} (hx : x ∈ a.formals.map (·.1)) : x ∉ t.varIds := by
  have mem : x ∈ batch.flatMap fun a => a.formals.map (·.1) := List.mem_flatMap.2 ⟨a, ha, hx⟩
  rw [h.vars_eq] at mem
  obtain ⟨i, hi, rfl⟩ := List.mem_map.1 mem
  rw [List.mem_range'_1] at hi
  simp only [varIds, List.mem_map, List.mem_range, VarId.mk.injEq, exists_eq_right]
  omega

/-- Two members of an allocated batch share no type parameter. -/
lemma Allocates.id_eq_of_mem (h : t.Allocates decls batch) {a b : Allocated} (ha : a ∈ batch)
    (hb : b ∈ batch) {x : VarId} (hxa : x ∈ a.formals.map (·.1)) (hxb : x ∈ b.formals.map (·.1)) :
    a.id = b.id := by
  by_contra ne
  have disjoint := (List.nodup_flatMap.1 h.nodup_vars).2
  have : Std.Symm (Function.onFun List.Disjoint fun a : Allocated => a.formals.map (·.1)) :=
    ⟨fun _ _ apart _ hx hx' => apart hx' hx⟩
  exact disjoint.forall ha hb (fun eq => ne (congrArg (·.id) eq)) hxa hxb

/-- **A batch keeps the type variables of its classes separate**, whether it succeeds or fails.

**Proof sketch.** A definition that was there has its type variables from before, and one that the
batch has made has those that the batch has allocated to it. -/
theorem Separate.declare (h : t.Separate) (decls : List ClassDecl) :
    (t.declare decls).1.Separate := by
  have kept : ∀ x ∈ t.varIds, x ∈ (t.declare decls).1.varIds := fun x hx =>
    (edits_declare t decls).mem_varIds hx
  by_cases halloc : ∃ batch, t.Allocates decls batch
  · obtain ⟨batch, halloc⟩ := halloc
    refine ⟨fun {id d} hd x hx => ?_, fun {id id' d d' x} hd hd' hx hx' => ?_,
      h.bounds.declare decls⟩
    · rcases halloc.classDef?_eq_some hd with old | ⟨a, ha, -, params⟩
      · exact kept x (h.mem old x hx)
      · rw [halloc.varIds_declare]
        exact halloc.mem_varIds ha x (params ▸ hx)
    · rcases halloc.classDef?_eq_some hd with old | ⟨a, ha, rfl, params⟩ <;>
        rcases halloc.classDef?_eq_some hd' with old' | ⟨a', ha', rfl, params'⟩
      · exact h.apart old old' hx hx'
      · exact absurd (h.mem old x hx) (halloc.not_mem_varIds ha' (params' ▸ hx'))
      · exact absurd (h.mem old' x hx') (halloc.not_mem_varIds ha (params ▸ hx))
      · exact halloc.id_eq_of_mem ha ha' (params ▸ hx) (params' ▸ hx')
  · have same := classDef?_declare_of_not_allocates halloc
    refine ⟨fun hd x hx => ?_, fun hd hd' => ?_, h.bounds.declare decls⟩
    · exact kept x (h.mem ((same _).symm.trans hd) x hx)
    · exact h.apart ((same _).symm.trans hd) ((same _).symm.trans hd')

end Batch

/-- Interning a name keeps the type variables separate. -/
lemma Separate.intern (h : t.Separate) (name : String) : (t.intern name).1.Separate := by
  have same := classDef?_intern t name
  refine ⟨fun hd x hx => ?_, fun hd hd' => ?_, h.bounds.congr (params_intern t name)⟩
  · exact (Edit.intern t name).mem_varIds (h.mem ((same _).symm.trans hd) x hx)
  · exact h.apart ((same _).symm.trans hd) ((same _).symm.trans hd')

/-- The core classes have no type parameters. -/
lemma separate_core : core.Separate := by
  have none {id : ClassId} {d : ClassDef} (hd : core.classDef? id = some d) :
      d.typeParams = [] := by
    obtain ⟨slot, hslot, hd⟩ := Option.bind_eq_some_iff.1 hd
    exact (core_slots slot (List.mem_of_getElem? hslot) d hd).2.1
  refine ⟨fun hd x hx => ?_, fun hd _ hx => ?_, fun x p hp => ?_⟩
  · rw [none hd] at hx
    cases hx
  · rw [none hd] at hx
    cases hx
  · simp [typeParam?, core] at hp

/-! ## Every run of calls -/

/-- A written type has no form that no signature denotes. -/
lemma not_isUnwritten_of_written {formals : List VarId} {ty : Ty} (h : ty.Written t formals) :
    ∀ s ∈ ty.subterms, ¬ s.IsUnwritten := by
  intro s hs
  cases h.of_mem_subterms hs <;> exact not_false

/-- The classes in a written type are in use. -/
lemma mem_ids_of_written {formals : List VarId} {ty : Ty} (h : ty.Written t formals) {id : ClassId}
    {args : List Ty} (hid : Ty.cls id args ∈ ty.subterms) : id ∈ t.ids := by
  cases h.of_mem_subterms hid with
  | cls hname =>
    rw [mem_ids_iff, hname]
    rfl

/-- **A regular table whose type variables are separate is consistent.**

**Proof sketch.** Names and numbers correspond because the table is lawful. What types mention is in
use because they are written in terms of interned names and of the formals of their class, and these
are allocated and separate. The conditions on superclasses and well-known classes are part of being
regular. -/
theorem Regular.consistent (h : t.Regular) (separate : t.Separate) : t.Consistent where
  mem_ids name id hfind := by
    rw [mem_ids_iff, nameOf?_of_find? hfind]
    rfl
  name_unique id hid := by
    obtain ⟨name, hname⟩ := Option.isSome_iff_exists.1 (mem_ids_iff.1 hid)
    refine ⟨name, h.lawful.find?_of_nameOf? hname, fun other hother => ?_⟩
    exact Option.some.inj ((nameOf?_of_find? hother).symm.trans hname)
  defName id d hd := h.lawful.find?_of_nameOf? (h.lawful.defName hd)
  typeParams_nodup id d hd := h.lawful.formals_nodup hd
  typeParams_mem id d hd := separate.mem hd
  typeParams_apart id id' d d' x := separate.apart
  supertype_vars id d hd sup hsup x hx := (h.lawful.written hd hsup).mem_formals hx
  mentions ty hty := by
    rcases hty with ⟨id, d, hd, hsup⟩ | ⟨x, p, hp, hb⟩
    · have written := h.lawful.written hd hsup
      exact ⟨fun c args hc => mem_ids_of_written written hc,
        fun y hy => separate.mem hd y (written.mem_formals hy)⟩
    · obtain ⟨formals, written⟩ := h.bounds hp ty hb
      exact ⟨fun c args hc => mem_ids_of_written written hc, separate.bounds x p hp ty hb⟩
  written ty hty := by
    rcases hty with ⟨id, d, hd, hsup⟩ | ⟨x, p, hp, hb⟩
    · exact not_isUnwritten_of_written (h.lawful.written hd hsup)
    · obtain ⟨formals, written⟩ := h.bounds hp ty hb
      exact not_isUnwritten_of_written written
  superClass id d hd := (h.superClass hd).1
  interface id d hd := (h.superClass hd).2
  known p hp := ⟨(h.known p hp).1, h.lawful.find?_of_nameOf? (h.known p hp).2⟩

/-- A call keeps a table regular and its type variables separate, whether it succeeds or fails. -/
lemma regular_and_separate_perform (h : t.Regular ∧ t.Separate) (call : TableCall) :
    (call.perform t).Regular ∧ (call.perform t).Separate := by
  cases call with
  | intern name => exact ⟨h.1.edit (.intern t name), h.2.intern name⟩
  | declare decls => exact ⟨h.1.edits (edits_declare t decls), h.2.declare decls⟩

/-- Calls lead to regular tables whose type variables are separate. -/
lemma regular_and_separate_foldl_perform (h : t.Regular ∧ t.Separate) (calls : List TableCall) :
    (calls.foldl TableCall.perform t).Regular ∧ (calls.foldl TableCall.perform t).Separate := by
  induction calls generalizing t with
  | nil => exact h
  | cons call calls ih => exact ih (regular_and_separate_perform h call)

/-- **Every table that calls lead to is consistent**, whichever of them succeed or fail. -/
theorem consistent_foldl_perform (calls : List TableCall) :
    (calls.foldl TableCall.perform core).Consistent :=
  have h := regular_and_separate_foldl_perform ⟨regular_core, separate_core⟩ calls
  h.1.consistent h.2

end ClassTable

end ContainerLint
