import ContainerLint.Proofs.Agreement.FreshClasses
import ContainerLint.Proofs.Declaration.BatchOrder

/-!
# The footprint of a batch

A batch may be refused in any of its stages, and what it has done up to then stays: names are
interned, type parameters allocated, bounds set, some of its classes defined or redefined. All this
concerns the names of the batch only. An accepted batch has defined each of its classes as it is
declared.

## Main definitions

* `ClassTable.DefinedAs` — a class is defined as it is declared.

## Main results

* `ClassTable.agrees_declare` — after a batch without repetitions its names are interned, and no
  others.
* `ClassTable.find?_declare_of_find?`, `ClassTable.find?_declare_of_not_mem` — which names a batch
  interns.
* `ClassTable.classDef?_declare_of_not_named` — which classes it leaves alone.
* `ClassTable.fst_declare_of_duplicateClass` — a batch refused for a repetition does nothing.
* `ClassTable.forall₂_definedAs_of_declare` — what an accepted batch has defined.
* `ClassTable.declare_footprint` — all of this together.
-/

set_option autoImplicit false

namespace ContainerLint

/-- From a computation that fails, the part that fails. -/
lemma eq_error_or_exists_of_bind_eq_error {ε α β : Type} {x : Except ε α} {f : α → Except ε β}
    {e : ε} (h : x >>= f = .error e) : x = .error e ∨ ∃ a, x = .ok a ∧ f a = .error e := by
  cases x with
  | error e' =>
    cases h
    exact .inl rfl
  | ok a => exact .inr ⟨a, rfl, h⟩

/-- An error that ends a run is the error of a step.

**Proof sketch.** By induction on the list. The run fails with the first step that does, or else
with the rest. -/
lemma TableStep.exists_of_each_error {α β : Type} {step : TableStep α β} {as : List α}
    {t : ClassTable} {e : DeclareError} (h : (each step t as).2 = .error e) :
    ∃ a ∈ as, ∃ s, (step s a).2 = .error e := by
  induction as generalizing t with
  | nil => cases h
  | cons a as ih =>
    cases first : (step t a).2 with
    | error e' =>
      rw [each_cons_of_error first] at h
      cases h
      exact ⟨a, List.mem_cons_self, t, first⟩
    | ok b =>
      rw [each_cons_of_ok first] at h
      cases rest : (each step (step t a).1 as).2 with
      | ok bs =>
        rw [rest] at h
        cases h
      | error e' =>
        rw [rest] at h
        cases h
        obtain ⟨c, hc, s, hs⟩ := ih rest
        exact ⟨c, List.mem_cons_of_mem _ hc, s, hs⟩

/-- Type parameters that have been read correspond to the texts that declare them.

**Proof sketch.** By induction on the texts. Reading fails at a text that cannot be read and at a
repeated name, so each text has been read to its header. -/
lemma ParamHeader.forall₂_of_readAll? {taken texts : List String} {headers : List ParamHeader}
    (h : readAll? taken texts = some headers) :
    List.Forall₂ (fun text header => parse? text = some header) texts headers := by
  induction texts generalizing taken headers with
  | nil =>
    cases h
    exact .nil
  | cons text texts ih =>
    rw [readAll?] at h
    cases hparse : parse? text with
    | none =>
      rw [hparse] at h
      cases h
    | some header =>
      rw [hparse] at h
      dsimp only at h
      split at h
      · cases h
      · obtain ⟨rest, hrest, rfl⟩ := Option.map_eq_some_iff.1 h
        exact .cons hparse (ih hrest)

namespace ClassTable

variable {t : ClassTable} {decls : List ClassDecl}

/-! ## Refused for a repetition -/

/-- A batch in which a name is repeated does nothing. -/
lemma fst_declare_of_not_nodup (repeated : ¬ (decls.map (·.name)).Nodup) :
    (t.declare decls).1 = t := by
  unfold declare
  cases hnames : firstRepeated? [] (decls.map (·.name)) with
  | some name => rfl
  | none => exact absurd (firstRepeated?_eq_none_iff.1 hnames).1 repeated

/-- Type parameters are not refused for the repetition of a class.

**Proof sketch.** By induction on the texts. The two errors that a text can cause are about type
parameters. -/
lemma allocateParams_ne_duplicateClass (className : String) (taken texts : List String)
    (t : ClassTable) (name : String) :
    (allocateParams className taken t texts).2 ≠ .error (.duplicateClass name) := by
  induction texts generalizing t taken with
  | nil => simp [allocateParams]
  | cons text texts ih =>
    unfold allocateParams
    cases ParamHeader.parse? text with
    | none => simp
    | some header =>
      dsimp only
      split
      · simp
      · have rest := ih (header.name :: taken)
          (t.addParam { name := header.name, upperBounds := [t.objectTy] }).1
        split
        · next hrun =>
          rw [hrun] at rest
          exact rest
        · simp

/-- Signatures are not refused for the repetition of a class. -/
lemma resolveAll_ne_duplicateClass (a : Allocated) (t : ClassTable) (texts : List String)
    (name : String) : a.resolveAll t texts ≠ .error (.duplicateClass name) := by
  induction texts with
  | nil => simp [Allocated.resolveAll]
  | cons text texts ih =>
    unfold Allocated.resolveAll
    cases Ty.parse t a.scope text with
    | error e => simp
    | ok ty =>
      dsimp only
      cases hrest : a.resolveAll t texts with
      | error e =>
        rw [hrest] at ih
        exact fun h => ih (congrArg Except.error (Except.error.inj h))
      | ok tys => simp [Except.map]

/-- A definition is not refused for the repetition of a class. -/
lemma definition_ne_duplicateClass (t : ClassTable) (a : Allocated) (name : String) :
    t.definition a ≠ .error (.duplicateClass name) := by
  intro h
  unfold definition at h
  rcases eq_error_or_exists_of_bind_eq_error h with hext | ⟨extended, -, h⟩
  · exact resolveAll_ne_duplicateClass a t _ name hext
  · rcases eq_error_or_exists_of_bind_eq_error h with himpl | ⟨implemented, -, h⟩
    · exact resolveAll_ne_duplicateClass a t _ name himpl
    · dsimp only at h
      split at h <;> cases h

/-- A declaration is not refused for the repetition of a class when its type parameters are
allocated. -/
lemma allocate_ne_duplicateClass (t : ClassTable) (p : ClassDecl × ClassId) (name : String) :
    (allocate t p).2 ≠ .error (.duplicateClass name) := by
  have params := allocateParams_ne_duplicateClass p.1.name [] p.1.typeParams t name
  unfold allocate
  dsimp only
  split
  · next hrun =>
    rw [hrun] at params
    exact fun h => params (congrArg Except.error (Except.error.inj h))
  · simp

/-- Nor when their bounds are resolved. -/
lemma bound_ne_duplicateClass (t : ClassTable) (a : Allocated) (name : String) :
    (bound t a).2 ≠ .error (.duplicateClass name) := by
  rw [snd_bound]
  cases hrun : (TableStep.each (boundParam a) t a.formals).2 with
  | ok rs => simp [Except.map]
  | error e =>
    obtain ⟨f, -, s, failed⟩ := TableStep.exists_of_each_error hrun
    unfold boundParam at failed
    dsimp only at failed
    split at failed
    · cases failed
    · split at failed
      · next hresolve =>
        cases failed
        intro h
        cases h
        exact resolveAll_ne_duplicateClass a s _ name hresolve
      · cases failed

/-- Nor when its class is defined. -/
lemma complete_ne_duplicateClass (t : ClassTable) (a : Allocated) (name : String) :
    (complete t a).2 ≠ .error (.duplicateClass name) := by
  unfold complete
  dsimp only
  split
  · next hdef =>
    intro h
    cases h
    exact definition_ne_duplicateClass t a name hdef
  · simp

/-- **A batch that is refused for a repetition does nothing.**

**Proof sketch.** Repetitions are looked for first, and no later stage reports one. -/
theorem fst_declare_of_duplicateClass {name : String}
    (h : (t.declare decls).2 = .error (.duplicateClass name)) : (t.declare decls).1 = t := by
  by_contra changed
  have distinct : (decls.map (·.name)).Nodup := by
    by_contra repeated
    exact changed (fst_declare_of_not_nodup repeated)
  have names : firstRepeated? [] (decls.map (·.name)) = none :=
    firstRepeated?_eq_none_iff.2 ⟨distinct, by simp⟩
  unfold declare at h
  rw [names] at h
  dsimp only at h
  split at h
  · next hrun =>
    cases h
    obtain ⟨p, -, s, failed⟩ := TableStep.exists_of_each_error (congrArg (·.2) hrun)
    exact allocate_ne_duplicateClass s p name failed
  · split at h
    · next hrun =>
      cases h
      obtain ⟨a, -, s, failed⟩ := TableStep.exists_of_each_error (congrArg (·.2) hrun)
      exact bound_ne_duplicateClass s a name failed
    · obtain ⟨a, -, s, failed⟩ := TableStep.exists_of_each_error h
      exact complete_ne_duplicateClass s a name failed

/-! ## Names, classes and type parameters -/

/-- A batch without repetitions that is not allocated ends with its names interned. -/
lemma slots_declare_of_not_allocates (distinct : (decls.map (·.name)).Nodup)
    (h : ¬ ∃ batch, t.Allocates decls batch) :
    (t.declare decls).1.slots = (t.withNames decls).slots := by
  have names : firstRepeated? [] (decls.map (·.name)) = none :=
    firstRepeated?_eq_none_iff.2 ⟨distinct, by simp⟩
  have slots : (TableStep.each allocate (t.withNames decls)
      (decls.zip (t.numbersOf decls))).1.slots = (t.withNames decls).slots :=
    slots_each_allocate ..
  unfold declare
  rw [names]
  dsimp only
  split
  · next hrun => exact (congrArg (·.1.slots) hrun).symm.trans slots
  · next batch hrun => exact absurd ⟨batch, distinct, congrArg (·.2) hrun⟩ h

/-- **After a batch without repetitions its names are interned, and no others**, whether it succeeds
or fails. -/
theorem agrees_declare (distinct : (decls.map (·.name)).Nodup) :
    (t.withNames decls).Agrees (t.declare decls).1 := by
  by_cases halloc : ∃ batch, t.Allocates decls batch
  · obtain ⟨batch, halloc⟩ := halloc
    obtain ⟨bounded, -⟩ := halloc.bounds
    obtain ⟨⟨completed, -⟩, -⟩ := halloc.definitions bounded
    rcases halloc.declare_fst with eq | eq
    · rw [eq]
      exact bounded
    · rw [eq]
      exact completed
  · refine ⟨fun id => ?_, ?_⟩
    · rw [nameOf?, nameOf?, slots_declare_of_not_allocates distinct halloc]
    · rw [(edits_declare t decls).known, known_withNames]

/-- A name that is interned keeps its number. -/
lemma find?_declare_of_find? {name : String} {id : ClassId} (h : t.find? name = some id) :
    (t.declare decls).1.find? name = some id := by
  by_cases distinct : (decls.map (·.name)).Nodup
  · rw [find?_congr (agrees_declare distinct).nameOf?]
    exact find?_internAll_of_find? h
  · rwa [fst_declare_of_not_nodup distinct]

/-- A batch interns no other names than its own. -/
lemma find?_declare_of_not_mem {name : String} (h : name ∉ decls.map (·.name)) :
    (t.declare decls).1.find? name = t.find? name := by
  by_cases distinct : (decls.map (·.name)).Nodup
  · rw [find?_congr (agrees_declare distinct).nameOf?]
    exact find?_internAll_of_not_mem h
  · rw [fst_declare_of_not_nodup distinct]

/-- **A class that no name of a batch refers to keeps its definition**, or stays undefined, whether
the batch succeeds or fails. -/
theorem classDef?_declare_of_not_named {id : ClassId}
    (h : ∀ decl ∈ decls, (t.declare decls).1.find? decl.name ≠ some id) :
    (t.declare decls).1.classDef? id = t.classDef? id := by
  by_cases distinct : (decls.map (·.name)).Nodup
  · refine classDef?_declare_of_not_mem fun mem => ?_
    obtain ⟨name, hname⟩ := exists_mem_zip_of_mem_numbersOf mem
    obtain ⟨decl, hdecl, rfl⟩ := List.mem_map.1 (List.of_mem_zip hname).1
    refine h decl hdecl ?_
    rw [find?_congr (agrees_declare distinct).nameOf?]
    exact find?_internAll distinct (decl.name, id) hname
  · rw [fst_declare_of_not_nodup distinct]

/-! ## What an accepted batch has defined -/

/-- A definition has the name, the kind and the finality of its declaration. -/
lemma heading_of_definition {a : Allocated} {d : ClassDef} (h : t.definition a = .ok d) :
    d.name = a.decl.name ∧ d.kind = a.decl.kind ∧ d.isFinal = a.decl.isFinal := by
  unfold definition at h
  obtain ⟨extended, -, h⟩ := exists_of_bind_eq_ok h
  obtain ⟨implemented, -, h⟩ := exists_of_bind_eq_ok h
  dsimp only at h
  split at h <;> cases h <;> exact ⟨rfl, rfl, rfl⟩

/-- A type parameter has the name of its header. -/
lemma name_of_param {a : Allocated} {header : ParamHeader} {p : TypeParam}
    (h : a.param t header = .ok p) : p.name = header.name := by
  unfold Allocated.param at h
  split at h
  · cases h
    rfl
  · obtain ⟨bounds, -, rfl⟩ := exists_of_map_eq_ok h
    rfl

/-- A class is defined as it is declared: with its name, its kind and its finality, and with one new
type parameter for each declared one, which has the declared name. -/
structure DefinedAs (t : ClassTable) (decl : ClassDecl) (t' : ClassTable) (d : ClassDef) :
    Prop where
  name : d.name = decl.name
  kind : d.kind = decl.kind
  isFinal : d.isFinal = decl.isFinal
  typeParams : List.Forall₂ (fun text x => x ∉ t.varIds ∧ ∃ header p,
    ParamHeader.parse? text = some header ∧ t'.typeParam? x = some p ∧ p.name = header.name)
    decl.typeParams d.typeParams
  nodup : d.typeParams.Nodup

/-- In an accepted batch each type parameter is a new one and has the name that it is declared
with. -/
lemma Declares.forall₂_typeParams {batch : List Allocated} {t' : ClassTable}
    (h : t.Declares decls batch t') (halloc : t.Allocates decls batch) {a : Allocated}
    (ha : a ∈ batch) :
    List.Forall₂ (fun text x => x ∉ t.varIds ∧ ∃ header p,
      ParamHeader.parse? text = some header ∧ t'.typeParam? x = some p ∧ p.name = header.name)
      a.decl.typeParams (a.formals.map (·.1)) := by
  have read := ParamHeader.forall₂_of_readAll? ((formals_of_each_allocate halloc.run).1 a ha)
  rw [List.forall₂_map_right_iff] at read ⊢
  have members := (List.forall₂_and_left (p := (· ∈ a.formals)) _ _).2 ⟨fun _ hf => hf, read.flip⟩
  refine (members.imp fun f text hf => ?_).flip
  obtain ⟨hf, hparse⟩ := hf
  obtain ⟨p, hparam, found⟩ := h.bounded a ha f hf
  exact ⟨halloc.not_mem_varIds ha (List.mem_map_of_mem hf), f.2, p, hparse, found,
    name_of_param hparam⟩

/-- **What an accepted batch has defined.** Its numbers are those of its names, in order, and each
of them has the definition that its declaration demands.

**Proof sketch.** An accepted batch has defined each of its members as its declaration demands
(`declares`). The heading and the type parameters of a definition are those of the declaration, and
the members of the batch are the declarations with their numbers. -/
theorem forall₂_definedAs_of_declare {ids : List ClassId} (h : (t.declare decls).2 = .ok ids) :
    List.Forall₂ (fun decl id => (t.declare decls).1.find? decl.name = some id ∧
      ∃ d, (t.declare decls).1.classDef? id = some d ∧ t.DefinedAs decl (t.declare decls).1 d)
      decls ids := by
  obtain ⟨batch, halloc⟩ := exists_allocates_of_declare h
  obtain ⟨rfl, declares⟩ := halloc.declares h
  generalize (t.declare decls).1 = t' at declares
  have members : List.Forall₂ (fun decl id => t'.find? decl.name = some id ∧
      ∃ d, t'.classDef? id = some d ∧ t.DefinedAs decl t' d)
      (batch.map (·.decl)) (batch.map (·.id)) := by
    rw [List.forall₂_map_left_iff, List.forall₂_map_right_iff, List.forall₂_same]
    intro a ha
    obtain ⟨d, hdef, hd⟩ := declares.defined a ha
    obtain ⟨name, kind, isFinal⟩ := heading_of_definition hdef
    have params := (shape_of_definition hdef).1
    refine ⟨?_, d, hd, name, kind, isFinal, ?_, ?_⟩
    · rw [find?_congr declares.agrees.nameOf?]
      exact halloc.find?_name ha
    · rw [params]
      exact declares.forall₂_typeParams halloc ha
    · rw [params]
      exact (List.nodup_flatMap.1 halloc.nodup_vars).1 a ha
  rwa [halloc.map_decl, halloc.map_id] at members

/-- **The footprint of a batch.** Whether it succeeds or fails, and wherever it fails:

* names that are interned keep their numbers, and the names that are new are names of the batch;
* the classes that no name of the batch refers to keep their definitions, or stay undefined;
* the type parameters that were there stay as they are, and so do the well-known classes;
* a batch that is refused for a repetition changes nothing.

An accepted batch returns the numbers of its names, in order, and has defined each of its classes as
it is declared. -/
theorem declare_footprint (t : ClassTable) (decls : List ClassDecl) :
    let t' := (t.declare decls).1
    (∀ name id, t.find? name = some id → t'.find? name = some id) ∧
    (∀ name, t.find? name = none → (t'.find? name).isSome → name ∈ decls.map (·.name)) ∧
    (∀ id, (∀ decl ∈ decls, t'.find? decl.name ≠ some id) → t'.classDef? id = t.classDef? id) ∧
    (∀ x ∈ t.varIds, t'.typeParam? x = t.typeParam? x) ∧
    t'.known = t.known ∧
    (∀ name, (t.declare decls).2 = .error (.duplicateClass name) → t' = t) ∧
    ∀ ids, (t.declare decls).2 = .ok ids →
      List.Forall₂ (fun decl id => t'.find? decl.name = some id ∧
        ∃ d, t'.classDef? id = some d ∧ t.DefinedAs decl t' d) decls ids := by
  intro t'
  refine ⟨fun name id => find?_declare_of_find?, fun name absent found => ?_,
    fun id => classDef?_declare_of_not_named, fun x hx => typeParam?_declare hx decls,
    (edits_declare t decls).known, fun name => fst_declare_of_duplicateClass,
    fun ids => forall₂_definedAs_of_declare⟩
  by_contra other
  rw [find?_declare_of_not_mem other, absent] at found
  cases found

end ClassTable

end ContainerLint
