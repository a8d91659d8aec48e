import ContainerLint.Proofs.Declaration.Interning

/-!
# What a batch of declarations leaves alone

A batch defines the classes that it names and no others. So a class that no batch names keeps the
definition that it had in the core table, whether the batches succeed or fail.

## Main definitions

* `ClassTable.ReachableSparing` — the tables that declarations lead to without naming a given class.

## Main results

* `TableStep.each_keeps` — what every step keeps, a run of steps keeps.
* `ClassTable.classDef?_declare_of_not_mem` — a class that a batch does not name keeps its
  definition.
* `ClassTable.ReachableSparing.classDef?_eq` — so does one that no batch names.
-/

set_option autoImplicit false

namespace ContainerLint

namespace TableStep

variable {α β : Type} {step : TableStep α β} {as : List α} {t : ClassTable}

/-- What every step keeps, a run of steps keeps, however far it gets. -/
lemma each_keeps {P : ClassTable → Prop} (hstep : ∀ a ∈ as, ∀ t, P t → P (step t a).1)
    (ht : P t) : P (each step t as).1 := by
  induction as generalizing t with
  | nil => exact ht
  | cons a as ih =>
    have first := hstep a List.mem_cons_self t ht
    unfold each
    cases h : step t a with
    | mk t₁ result =>
      rw [h] at first
      cases result with
      | error e => exact first
      | ok b =>
        have rest := ih (fun c hc => hstep c (List.mem_cons_of_mem _ hc)) first
        dsimp only
        cases h' : each step t₁ as with
        | mk t₂ result' =>
          rw [h'] at rest
          cases result' <;> exact rest

/-- Each result of a run is the result of a step.

**Proof sketch.** By induction on the list. If the run succeeds, then the first step does, and the
results are its result and those of the rest. -/
lemma exists_of_mem_each {bs : List β} {b : β} (h : (each step t as).2 = .ok bs) (hb : b ∈ bs) :
    ∃ a ∈ as, ∃ s, (step s a).2 = .ok b := by
  induction as generalizing t bs with
  | nil =>
    cases h
    simp at hb
  | cons a as ih =>
    unfold each at h
    cases hfirst : step t a with
    | mk t₁ result =>
      rw [hfirst] at h
      cases result with
      | error e => cases h
      | ok b₁ =>
        dsimp only at h
        cases hrest : each step t₁ as with
        | mk t₂ result' =>
          rw [hrest] at h
          cases result' with
          | error e => cases h
          | ok bs₁ =>
            cases h
            rcases List.mem_cons.1 hb with rfl | hb
            · exact ⟨a, List.mem_cons_self, t, by rw [hfirst]⟩
            · obtain ⟨c, hc, s, hs⟩ := ih (t := t₁) (by rw [hrest]) hb
              exact ⟨c, List.mem_cons_of_mem _ hc, s, hs⟩

end TableStep

namespace ClassTable

variable {t : ClassTable}

/-! ## The stages of a batch -/

/-- Interning names defines nothing. -/
lemma classDef?_internAll (t : ClassTable) (names : List String) (id : ClassId) :
    (t.internAll names).1.classDef? id = t.classDef? id := by
  induction names generalizing t with
  | nil => rfl
  | cons name names ih => exact (ih (t.intern name).1).trans (classDef?_intern t name id)

/-- Allocating type parameters changes no class. -/
lemma slots_allocateParams (className : String) (taken : List String) (t : ClassTable)
    (texts : List String) : (allocateParams className taken t texts).1.slots = t.slots := by
  induction texts generalizing t taken with
  | nil => rfl
  | cons text texts ih =>
    unfold allocateParams
    cases ParamHeader.parse? text with
    | none => rfl
    | some header =>
      dsimp only
      split
      · rfl
      · have rest := ih (header.name :: taken)
          (t.addParam { name := header.name, upperBounds := [t.objectTy] }).1
        split
        · next h => exact (congrArg (·.1.slots) h).symm.trans rest
        · next h => exact (congrArg (·.1.slots) h).symm.trans rest

/-- Allocating a declaration changes no class. -/
lemma slots_allocate (t : ClassTable) (p : ClassDecl × ClassId) :
    (allocate t p).1.slots = t.slots := by
  have params := slots_allocateParams p.1.name [] t p.1.typeParams
  unfold allocate
  dsimp only
  split
  · next h => exact (congrArg (·.1.slots) h).symm.trans params
  · next h => exact (congrArg (·.1.slots) h).symm.trans params

/-- An allocated declaration has the number that its name was given. -/
lemma eq_of_allocate {p : ClassDecl × ClassId} {a : Allocated}
    (h : (allocate t p).2 = .ok a) : a.decl = p.1 ∧ a.id = p.2 := by
  unfold allocate at h
  dsimp only at h
  split at h
  · cases h
  · cases h
    exact ⟨rfl, rfl⟩

/-- Resolving the bounds of a declaration changes no class. -/
lemma slots_bound (t : ClassTable) (a : Allocated) : (bound t a).1.slots = t.slots := by
  have params : (TableStep.each (boundParam a) t a.formals).1.slots = t.slots := by
    refine TableStep.each_keeps (P := fun s => s.slots = t.slots) (fun f _ s hs => ?_) rfl
    unfold boundParam
    dsimp only
    split
    · exact hs
    · split <;> exact hs
  unfold bound
  dsimp only
  split
  · next h => exact (congrArg (·.1.slots) h).symm.trans params
  · next h => exact (congrArg (·.1.slots) h).symm.trans params

/-- After a class is defined, another class has the definition that it had. -/
lemma classDef?_define_of_ne {id id' : ClassId} (hne : id' ≠ id) (d : ClassDef) :
    (t.define id d).classDef? id' = t.classDef? id' := by
  have hindex : id.index ≠ id'.index := fun h => hne (by cases id; cases id'; simp_all)
  simp [classDef?, define, hindex]

/-- Completing a declaration leaves the other classes alone. -/
lemma classDef?_complete {id : ClassId} {a : Allocated} (hne : id ≠ a.id) (t : ClassTable) :
    (complete t a).1.classDef? id = t.classDef? id := by
  unfold complete
  dsimp only
  split
  · rfl
  · exact classDef?_define_of_ne hne _

/-! ## A whole batch -/

/-- Allocating a batch changes no class, however far it gets. -/
lemma slots_each_allocate (t : ClassTable) (ps : List (ClassDecl × ClassId)) :
    (TableStep.each allocate t ps).1.slots = t.slots :=
  TableStep.each_keeps (P := fun s => s.slots = t.slots)
    (fun p _ s hs => (slots_allocate s p).trans hs) rfl

/-- Nor does resolving its bounds. -/
lemma slots_each_bound (t : ClassTable) (batch : List Allocated) :
    (TableStep.each bound t batch).1.slots = t.slots :=
  TableStep.each_keeps (P := fun s => s.slots = t.slots)
    (fun a _ s hs => (slots_bound s a).trans hs) rfl

/-- **A batch of declarations defines only classes with the numbers of its names**, whether it
succeeds or fails.

**Proof sketch.** Only the last stage defines classes, and it does so for the numbers that the names
were given. -/
theorem classDef?_declare_of_not_mem {decls : List ClassDecl} {id : ClassId}
    (h : id ∉ (t.internAll (decls.map (·.name))).2) :
    (t.declare decls).1.classDef? id = t.classDef? id := by
  unfold declare
  cases firstRepeated? [] (decls.map (·.name)) with
  | some => rfl
  | none =>
    have kept := classDef?_internAll t (decls.map (·.name)) id
    dsimp only
    generalize (t.internAll (decls.map (·.name))).1 = t₁ at kept
    generalize (t.internAll (decls.map (·.name))).2 = ids at h
    have allocated : (TableStep.each allocate t₁ (decls.zip ids)).1.classDef? id =
        t.classDef? id := by
      rw [← kept, classDef?, classDef?, slots_each_allocate]
    cases h₂ : TableStep.each allocate t₁ (decls.zip ids) with
    | mk t₂ result =>
      rw [h₂] at allocated
      cases result with
      | error e => exact allocated
      | ok batch =>
        have other : ∀ a ∈ batch, id ≠ a.id := by
          rintro a ha rfl
          obtain ⟨p, hp, s, hs⟩ := TableStep.exists_of_mem_each (by rw [h₂]) ha
          obtain ⟨-, hid⟩ := eq_of_allocate hs
          exact h (hid ▸ (List.of_mem_zip hp).2)
        have bounded : (TableStep.each bound t₂ batch).1.classDef? id = t.classDef? id := by
          rw [← allocated, classDef?, classDef?, slots_each_bound]
        dsimp only
        cases h₃ : TableStep.each bound t₂ batch with
        | mk t₃ result' =>
          rw [h₃] at bounded
          cases result' with
          | error e => exact bounded
          | ok units =>
            refine TableStep.each_keeps (P := fun s => s.classDef? id = t.classDef? id) ?_ bounded
            intro a ha s hs
            rw [classDef?_complete (other a ha), hs]

/-- So a class keeps its definition if the batch does not have its name. -/
lemma classDef?_declare {decls : List ClassDecl} {id : ClassId} {name : String}
    (hname : t.nameOf? id = some name) (hnot : ∀ decl ∈ decls, decl.name ≠ name) :
    (t.declare decls).1.classDef? id = t.classDef? id := by
  refine classDef?_declare_of_not_mem fun mem => ?_
  -- interned names keep their numbers, so the number would be that of a name in the batch
  have named := List.mem_map_of_mem (f := (t.internAll (decls.map (·.name))).1.nameOf?) mem
  rw [map_nameOf?_internAll, (edits_internAll t _).1.nameOf? hname, List.mem_map] at named
  obtain ⟨other, hother, eq⟩ := named
  obtain ⟨decl, hdecl, rfl⟩ := List.mem_map.1 hother
  exact hnot decl hdecl (Option.some.inj eq)

/-! ## Many batches -/

/-- The tables that can be reached from the core table by entering batches of declarations, none of
which declares a class of the given name. -/
inductive ReachableSparing (name : String) : ClassTable → Prop where
  | core : ReachableSparing name core
  | declare {t : ClassTable} (decls : List ClassDecl) : ReachableSparing name t →
      (∀ decl ∈ decls, decl.name ≠ name) → ReachableSparing name (t.declare decls).1

namespace ReachableSparing

variable {name : String}

/-- Such a table is reachable. -/
lemma reachable (h : t.ReachableSparing name) : t.Reachable := by
  induction h with
  | core => exact .core
  | declare decls _ _ ih => exact .declare decls ih

/-- **A class that no batch names keeps the definition that it has in the core table.** -/
theorem classDef?_eq (h : t.ReachableSparing name) {id : ClassId}
    (hname : ClassTable.core.nameOf? id = some name) :
    t.classDef? id = ClassTable.core.classDef? id := by
  induction h with
  | core => rfl
  | declare decls h hnot ih =>
    rw [classDef?_declare (h.reachable.edits.nameOf? hname) hnot, ih]

end ReachableSparing

end ClassTable

end ContainerLint
