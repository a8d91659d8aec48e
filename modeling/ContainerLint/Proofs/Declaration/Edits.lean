import ContainerLint.ClassTable.Core
import ContainerLint.Declaration.Declare
import ContainerLint.Proofs.Signature.Spelling
import Mathlib.Data.List.Basic
import Mathlib.Logic.Relation

/-!
# How declarations change a class table

Entering a batch of declarations, whether it succeeds or fails, is a sequence of elementary edits: a
name is interned, a type parameter is added, its bounds are set, a class is defined. What every edit
keeps is therefore true of all tables that can be reached by declarations.

## Main definitions

* `Allocated.Fits` — the numbers in an allocated declaration belong to it.
* `ClassTable.Edit`, `ClassTable.Edits` — an elementary edit, and any number of them.
* `ClassTable.Reachable` — the tables that declarations lead to from the core table.
* `ClassTable.withRows` — a table with further classes and type parameters.

## Main results

* `ClassTable.edits_declare` — entering a batch is a sequence of edits.
* `ClassTable.Reachable.edits` — so is everything that leads to a reachable table.
-/

set_option autoImplicit false

namespace ContainerLint

/-- The numbers in an allocated declaration belong to it: its class is interned under its name, and
its type parameters have different numbers. -/
structure Allocated.Fits (a : Allocated) (t : ClassTable) : Prop where
  name : t.nameOf? a.id = some a.decl.name
  formals_nodup : (a.formals.map (·.1)).Nodup

namespace ClassTable

/-- An elementary edit. -/
inductive Edit : ClassTable → ClassTable → Prop where
  /-- Intern a name. -/
  | intern (t : ClassTable) (name : String) : Edit t (t.intern name).1
  /-- Add a type parameter, bounded by `Object`. -/
  | addParam (t : ClassTable) (name : String) :
      Edit t (t.addParam { name, upperBounds := [t.objectTy] }).1
  /-- Set the bounds of a type parameter. -/
  | bound {t : ClassTable} {a : Allocated} {x : VarId} {header : ParamHeader} {bounds : List Ty} :
      a.Fits t → (x, header) ∈ a.formals → a.resolveAll t header.bounds = .ok bounds →
      Edit t (t.defineParam x { name := header.name, upperBounds := bounds })
  /-- Define a class. -/
  | define {t : ClassTable} {a : Allocated} {d : ClassDef} :
      a.Fits t → t.definition a = .ok d → Edit t (t.define a.id d)

/-- Any number of edits. -/
def Edits : ClassTable → ClassTable → Prop :=
  Relation.ReflTransGen Edit

/-- The tables that can be reached from the core table by entering batches of declarations, each of
which may succeed or fail. -/
inductive Reachable : ClassTable → Prop where
  | core : Reachable core
  | declare {t : ClassTable} (decls : List ClassDecl) : Reachable t → Reachable (t.declare decls).1

variable {t t' : ClassTable}

/-! ## What an edit leaves alone -/

/-- Interning a name keeps the names that are there. -/
lemma nameOf?_intern {name full : String} {id : ClassId} (h : t.nameOf? id = some full) :
    (t.intern name).1.nameOf? id = some full := by
  unfold intern
  cases t.find? name with
  | some => exact h
  | none =>
    obtain ⟨slot, hslot, rfl⟩ := Option.map_eq_some_iff.1 h
    have lt := (List.getElem?_eq_some_iff.1 hslot).1
    simp [nameOf?, List.getElem?_append_left lt, hslot]

/-- An interned name is the name of its number. -/
lemma nameOf?_intern_self (t : ClassTable) (name : String) :
    (t.intern name).1.nameOf? (t.intern name).2 = some name := by
  unfold intern
  cases h : t.find? name with
  | some id => exact nameOf?_of_find? h
  | none => simp [nameOf?]

/-- Defining a class keeps all names. -/
lemma nameOf?_define (t : ClassTable) (id id' : ClassId) (d : ClassDef) :
    (t.define id d).nameOf? id' = t.nameOf? id' := by
  simp only [define, nameOf?, List.getElem?_modify]
  split <;> cases t.slots[id'.index]? <;> rfl

/-- An edit keeps the names of the classes that are there. -/
lemma Edit.nameOf? (h : Edit t t') {id : ClassId} {name : String} (hn : t.nameOf? id = some name) :
    t'.nameOf? id = some name := by
  cases h with
  | intern => exact nameOf?_intern hn
  | addParam | bound => exact hn
  | define => rw [nameOf?_define, hn]

/-- An edit does not change which classes the typing rules refer to. -/
lemma Edit.known (h : Edit t t') : t'.known = t.known := by
  cases h with
  | intern name =>
    unfold ClassTable.intern
    cases t.find? name <;> rfl
  | addParam | bound | define => rfl

/-- Edits keep the names of the classes that are there. -/
lemma Edits.nameOf? (h : Edits t t') {id : ClassId} {name : String}
    (hn : t.nameOf? id = some name) : t'.nameOf? id = some name := by
  induction h with
  | refl => exact hn
  | tail _ edit ih => exact edit.nameOf? ih

/-- Edits do not change which classes the typing rules refer to. -/
lemma Edits.known (h : Edits t t') : t'.known = t.known := by
  induction h with
  | refl => rfl
  | tail _ edit ih => rw [edit.known, ih]

/-- An allocated declaration goes on to fit. -/
lemma Edits.fits (h : Edits t t') {a : Allocated} (ha : a.Fits t) : a.Fits t' :=
  ⟨h.nameOf? ha.name, ha.formals_nodup⟩

/-! ## Entering a batch -/

/-- Interning names is a sequence of edits, and each number gets its name. -/
lemma edits_internAll (t : ClassTable) (names : List String) :
    Edits t (t.internAll names).1 ∧
      ∀ p ∈ names.zip (t.internAll names).2, (t.internAll names).1.nameOf? p.2 = some p.1 := by
  induction names generalizing t with
  | nil => exact ⟨.refl, by simp⟩
  | cons name names ih =>
    obtain ⟨edits, named⟩ := ih (t.intern name).1
    refine ⟨.head (.intern t name) edits, ?_⟩
    intro p hp
    rcases List.mem_cons.1 hp with rfl | hp
    · exact edits.nameOf? (nameOf?_intern_self t name)
    · exact named p hp

/-- A step for every member of a list is a sequence of edits if the step is one. What the step needs
(`P`) and what it achieves (`Q`) must withstand the edits of the other members.

**Proof sketch.** By induction on the list. The edits of the first step come before those of the
rest, which withstand them (`hP`), and what the first step has achieved withstands the rest (`hQ`).
A step that fails ends the run. -/
lemma edits_each {α β : Type} (step : TableStep α β) {P : ClassTable → α → Prop}
    {Q : ClassTable → β → Prop}
    (hP : ∀ {t t' a}, Edits t t' → P t a → P t' a) (hQ : ∀ {t t' b}, Edits t t' → Q t b → Q t' b)
    (hstep : ∀ t a, P t a → Edits t (step t a).1 ∧
      ∀ b, (step t a).2 = .ok b → Q (step t a).1 b)
    (t : ClassTable) (as : List α) (has : ∀ a ∈ as, P t a) :
    Edits t (TableStep.each step t as).1 ∧
      ∀ bs, (TableStep.each step t as).2 = .ok bs →
        ∀ b ∈ bs, Q (TableStep.each step t as).1 b := by
  induction as generalizing t with
  | nil =>
    refine ⟨.refl, fun bs h => ?_⟩
    cases h
    simp
  | cons a as ih =>
    obtain ⟨first, achieved⟩ := hstep t a (has a List.mem_cons_self)
    unfold TableStep.each
    cases h : step t a with
    | mk t₁ result =>
      rw [h] at first achieved
      cases result with
      | error e => exact ⟨first, fun bs h => nomatch h⟩
      | ok b =>
        obtain ⟨rest, all⟩ := ih t₁ fun c hc => hP first (has c (List.mem_cons_of_mem _ hc))
        dsimp only
        cases h' : TableStep.each step t₁ as with
        | mk t₂ result' =>
          rw [h'] at rest all
          cases result' with
          | error e => exact ⟨first.trans rest, fun bs h => nomatch h⟩
          | ok bs =>
            refine ⟨first.trans rest, fun bs' eq c hc => ?_⟩
            cases eq
            rcases List.mem_cons.1 hc with rfl | hc
            · exact hQ rest (achieved c rfl)
            · exact all bs rfl c hc

/-- Allocating type parameters is a sequence of edits. They get new numbers, all different.

**Proof sketch.** Induction on the parameters. The first one gets the next free number, and the
others get numbers that are free after that. -/
lemma edits_allocateParams (className : String) (taken : List String) (t : ClassTable)
    (texts : List String) :
    Edits t (allocateParams className taken t texts).1 ∧
      ∀ formals, (allocateParams className taken t texts).2 = .ok formals →
        (formals.map (·.1)).Nodup ∧ ∀ x ∈ formals.map (·.1), t.params.length ≤ x.index := by
  induction texts generalizing t taken with
  | nil =>
    refine ⟨.refl, fun formals h => ?_⟩
    cases h
    simp
  | cons text texts ih =>
    unfold allocateParams
    cases ParamHeader.parse? text with
    | none => exact ⟨.refl, fun formals h => nomatch h⟩
    | some header =>
      have first := Edit.addParam t header.name
      dsimp only
      split
      · exact ⟨.single first, fun formals h => nomatch h⟩
      · obtain ⟨rest, fresh⟩ := ih (header.name :: taken)
          (t.addParam { name := header.name, upperBounds := [t.objectTy] }).1
        cases h : allocateParams className (header.name :: taken)
            (t.addParam { name := header.name, upperBounds := [t.objectTy] }).1 texts with
        | mk t₁ result =>
          rw [h] at rest fresh
          cases result with
          | error e => exact ⟨.head first rest, fun formals h => nomatch h⟩
          | ok formals =>
            refine ⟨.head first rest, fun formals' eq => ?_⟩
            cases eq
            obtain ⟨hnd, hge⟩ := fresh formals rfl
            have hlen (p : TypeParam) : (t.addParam p).1.params.length = t.params.length + 1 := by
              simp [addParam]
            rw [hlen] at hge
            simp only [List.map_cons, List.nodup_cons, List.mem_cons]
            refine ⟨⟨fun mem => ?_, hnd⟩, ?_⟩
            · have : t.params.length + 1 ≤ t.params.length := hge _ mem
              omega
            · rintro x (rfl | hx)
              · exact Nat.le_refl _
              · have := hge x hx
                omega

/-- Allocating a declaration is a sequence of edits, after which it fits. -/
lemma edits_allocate (t : ClassTable) (decl : ClassDecl) (id : ClassId)
    (h : t.nameOf? id = some decl.name) :
    Edits t (allocate t (decl, id)).1 ∧
      ∀ a, (allocate t (decl, id)).2 = .ok a → a.Fits (allocate t (decl, id)).1 := by
  obtain ⟨edits, fresh⟩ := edits_allocateParams decl.name [] t decl.typeParams
  unfold allocate
  dsimp only
  cases h' : allocateParams decl.name [] t decl.typeParams with
  | mk t₁ result =>
    rw [h'] at edits fresh
    cases result with
    | error e => exact ⟨edits, fun a h => nomatch h⟩
    | ok formals =>
      refine ⟨edits, fun a eq => ?_⟩
      cases eq
      exact ⟨edits.nameOf? h, (fresh formals rfl).1⟩

/-- Resolving the bounds of a declaration is a sequence of edits.

**Proof sketch.** Each step sets the bounds of one parameter of the declaration, or does nothing,
and the numbers of the declaration still belong to it after the other steps. -/
lemma edits_bound (t : ClassTable) (a : Allocated) (ha : a.Fits t) : Edits t (bound t a).1 := by
  have each := edits_each (boundParam a)
    (P := fun t f => a.Fits t ∧ f ∈ a.formals) (Q := fun _ _ => True)
    (fun edits h => ⟨edits.fits h.1, h.2⟩) (fun _ _ => trivial)
    (fun t f hf => ?_) t a.formals (fun f hf => ⟨ha, hf⟩)
  · unfold bound
    dsimp only
    cases h : TableStep.each (boundParam a) t a.formals with
    | mk t₁ result =>
      rw [h] at each
      cases result <;> exact each.1
  · obtain ⟨x, header⟩ := f
    refine ⟨?_, fun _ _ => trivial⟩
    unfold boundParam
    dsimp only
    split
    · exact .refl
    · cases h : a.resolveAll t header.bounds with
      | error e => exact .refl
      | ok bounds => exact .single (.bound hf.1 hf.2 h)

/-- Defining the class of a declaration is an edit, or nothing. -/
lemma edits_complete (t : ClassTable) (a : Allocated) (ha : a.Fits t) :
    Edits t (complete t a).1 := by
  unfold complete
  dsimp only
  cases h : t.definition a with
  | error e => exact .refl
  | ok d => exact .single (.define ha h)

/-- **Entering a batch of declarations is a sequence of edits**, whether it succeeds or fails.

**Proof sketch.** The stages are: interning gives each class its name, with which allocating makes
each declaration fit, and the declarations go on to fit while their bounds are resolved and their
classes are defined. -/
theorem edits_declare (t : ClassTable) (decls : List ClassDecl) :
    Edits t (t.declare decls).1 := by
  unfold declare
  cases firstRepeated? [] (decls.map (·.name)) with
  | some name => exact .refl
  | none =>
    obtain ⟨interned, named⟩ := edits_internAll t (decls.map (·.name))
    dsimp only
    generalize ht₁ : (t.internAll (decls.map (·.name))).1 = t₁ at interned named
    generalize hids : (t.internAll (decls.map (·.name))).2 = ids at named
    have hnamed : ∀ p ∈ decls.zip ids, t₁.nameOf? p.2 = some p.1.name := by
      intro p hp
      refine named (p.1.name, p.2) ?_
      rw [List.zip_map_left]
      exact List.mem_map_of_mem hp
    have allocated := edits_each allocate
      (P := fun t p => t.nameOf? p.2 = some p.1.name) (Q := fun t a => a.Fits t)
      (fun edits h => edits.nameOf? h) (fun edits h => edits.fits h)
      (fun t p hp => edits_allocate t p.1 p.2 hp) t₁ (decls.zip ids) hnamed
    cases h₂ : TableStep.each allocate t₁ (decls.zip ids) with
    | mk t₂ result =>
      rw [h₂] at allocated
      cases result with
      | error e => exact interned.trans allocated.1
      | ok batch =>
        have bounded := edits_each bound (P := fun t a => a.Fits t)
          (Q := fun _ _ => True) (fun edits h => edits.fits h) (fun _ _ => trivial)
          (fun t a ha => ⟨edits_bound t a ha, fun _ _ => trivial⟩) t₂ batch
          (allocated.2 batch rfl)
        dsimp only
        cases h₃ : TableStep.each bound t₂ batch with
        | mk t₃ result' =>
          rw [h₃] at bounded
          cases result' with
          | error e => exact (interned.trans allocated.1).trans bounded.1
          | ok units =>
            have completed := edits_each complete (P := fun t a => a.Fits t)
              (Q := fun _ _ => True) (fun edits h => edits.fits h) (fun _ _ => trivial)
              (fun t a ha => ⟨edits_complete t a ha, fun _ _ => trivial⟩) t₃ batch
              (fun a ha => bounded.1.fits (allocated.2 batch rfl a ha))
            exact ((interned.trans allocated.1).trans bounded.1).trans completed.1

/-- A reachable table is reached by edits. -/
lemma Reachable.edits (h : t.Reachable) : Edits ClassTable.core t := by
  induction h with
  | core => exact .refl
  | declare decls _ ih => exact ih.trans (edits_declare _ decls)

end ClassTable

/-! ## Tables row by row

What declarations lead to is computed from texts. To reason about one particular table it is better
to have its rows written out. Whether the rows are those that the declarations lead to can be
decided, since two tables are equal if their rows, their parameters and their well-known classes
are. -/

/-- The list of primitive types is complete. -/
lemma Primitive.mem_all (p : Primitive) : p ∈ Primitive.all := by
  cases p <;> decide

/-- The well-known classes are compared one by one, and the wrapper classes along the list of
primitive types. -/
instance : DecidableEq WellKnown := fun a b =>
  decidable_of_iff
    (a.object = b.object ∧ a.string = b.string ∧ a.integer = b.integer ∧
      a.cloneable = b.cloneable ∧ a.serializable = b.serializable ∧
      ∀ p ∈ Primitive.all, a.box p = b.box p) <| by
    cases a
    cases b
    simp [Primitive.mem_all, funext_iff]

deriving instance DecidableEq for ClassTable

/-- A table with further classes, all of them defined, and further type parameters. -/
def ClassTable.withRows (t : ClassTable) (defs : List ClassDef) (params : List TypeParam) :
    ClassTable where
  slots := t.slots ++ defs.map Core.slot
  params := t.params ++ params
  known := t.known

end ContainerLint
