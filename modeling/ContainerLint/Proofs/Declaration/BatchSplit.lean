import ContainerLint.Proofs.Declaration.Footprint

/-!
# A batch in two parts

A batch is entered stage by stage, so to enter it in two parts means to do the same work in another
order: the classes of the first part are defined before the names of the second part are interned.
The numbers come out the same, because each stage gives them out in the order of the declarations.
The definitions come out the same unless a name in the first part is understood differently once
the names of the second part are there, as it happens to `String` when a class of just this name is
declared.

## Main definitions

* `ClassDecl.writtenNames` — the names that the bounds and supertypes of a declaration mention.
* `Allocated.AlikeIn` — a declaration amounts to the same in two tables.

## Main results

* `Signature.resolve_congr` — what a signature denotes depends only on the names in it.
* `ClassTable.Allocates.of_append` — the two parts get the numbers that the whole batch gets.
* `ClassTable.Declares.append` — two accepted parts do what the whole batch does.
* `ClassTable.Declares.unique` — what a batch does determines the table.
* `ClassTable.declare_append` — a batch may be entered in two parts.
-/

set_option autoImplicit false

namespace ContainerLint

/-! ## The names in a declaration -/

namespace Signature

mutual

/-- The names in a signature. -/
def names : Signature → List String
  | .prim _ => []
  | .named name args => name :: namesAll args
  | .array elem => names elem
  | .wild => []
  | .wildExtends upper => names upper
  | .wildSuper lower => names lower

/-- The names in a list of signatures. -/
def namesAll : List Signature → List String
  | [] => []
  | sig :: sigs => names sig ++ namesAll sigs

end

/-- The names in a list are those in its members. -/
@[simp] lemma namesAll_eq_flatMap (sigs : List Signature) : namesAll sigs = sigs.flatMap names := by
  induction sigs with
  | nil => rfl
  | cons sig sigs ih => simp [namesAll, ih]

/-- The names in a text, if it can be read. -/
def namesIn (text : String) : List String :=
  match Signature.parse text with
  | .ok sig => sig.names
  | .error _ => []

end Signature

/-- The types that a declaration mentions, as they are written. -/
def ClassDecl.texts (decl : ClassDecl) : List String :=
  decl.headers.flatMap (·.bounds) ++ decl.extended ++ decl.implemented

/-- The names that the bounds and supertypes of a declaration mention. -/
def ClassDecl.writtenNames (decl : ClassDecl) : List String :=
  decl.texts.flatMap Signature.namesIn

/-! ## What a declaration amounts to depends on the names in it -/

section Names

variable {t t' : ClassTable}

/-- Arguments denote the same if each of them does. -/
lemma Signature.resolveAll_congr {scope : TypeScope} {sigs : List Signature}
    (members : ∀ sig ∈ sigs, sig.resolve t' scope = sig.resolve t scope) :
    resolveAll t' scope sigs = resolveAll t scope sigs := by
  induction sigs with
  | nil => rfl
  | cons sig sigs ih =>
    have rest := ih fun s hs => members s (List.mem_cons_of_mem _ hs)
    rw [resolveAll, resolveAll, members sig List.mem_cons_self, rest]

/-- **What a signature denotes depends only on the names in it.** -/
theorem Signature.resolve_congr (scope : TypeScope) {sig : Signature}
    (h : ∀ name ∈ sig.names, t'.lookup name = t.lookup name) :
    sig.resolve t' scope = sig.resolve t scope := by
  induction sig using Signature.recOnMembers with
  | prim p => rfl
  | wild => rfl
  | named name args ih =>
    rw [names, namesAll_eq_flatMap, List.forall_mem_cons] at h
    have members : resolveAll t' scope args = resolveAll t scope args :=
      resolveAll_congr fun a ha => ih a ha fun n hn => h.2 n (List.mem_flatMap.2 ⟨a, ha, hn⟩)
    rw [resolve, resolve, h.1, members]
  | array elem ih | wildExtends elem ih | wildSuper elem ih => rw [resolve, resolve, ih h]

/-- What a text denotes depends only on the names in it. -/
lemma Ty.parse_congr (scope : TypeScope) {text : String}
    (h : ∀ name ∈ Signature.namesIn text, t'.lookup name = t.lookup name) :
    Ty.parse t' scope text = Ty.parse t scope text := by
  unfold Signature.namesIn at h
  unfold Ty.parse
  cases hparse : Signature.parse text with
  | error e => rfl
  | ok sig =>
    rw [hparse] at h
    exact Signature.resolve_congr scope h

/-- So does what the signatures of a declaration denote. -/
lemma Allocated.resolveAll_congr_of_names (a : Allocated) {texts : List String}
    (h : ∀ text ∈ texts, ∀ name ∈ Signature.namesIn text, t'.lookup name = t.lookup name) :
    a.resolveAll t' texts = a.resolveAll t texts := by
  induction texts with
  | nil => rfl
  | cons text texts ih =>
    rw [List.forall_mem_cons] at h
    rw [resolveAll, resolveAll, Ty.parse_congr a.scope h.1, ih h.2]

/-- A declaration amounts to the same in two tables. -/
structure Allocated.AlikeIn (a : Allocated) (t t' : ClassTable) : Prop where
  param : ∀ f ∈ a.formals, a.param t' f.2 = a.param t f.2
  definition : t'.definition a = t.definition a

/-- **What a declaration amounts to depends only on the names in it**, and on `Object`. -/
theorem Allocated.alikeIn_of_names {a : Allocated} (headers : a.formals.map (·.2) = a.decl.headers)
    (hobject : t'.known.object = t.known.object)
    (h : ∀ name ∈ a.decl.writtenNames, t'.lookup name = t.lookup name) : a.AlikeIn t t' := by
  have texts : ∀ text ∈ a.decl.texts, ∀ name ∈ Signature.namesIn text,
      t'.lookup name = t.lookup name :=
    fun text htext name hname => h name (List.mem_flatMap.2 ⟨text, htext, hname⟩)
  rw [ClassDecl.texts, List.forall_mem_append, List.forall_mem_append, ← headers] at texts
  obtain ⟨⟨bounds, extended⟩, implemented⟩ := texts
  refine ⟨fun f hf => ?_, ?_⟩
  · have same : a.resolveAll t' f.2.bounds = a.resolveAll t f.2.bounds :=
      a.resolveAll_congr_of_names fun text htext =>
        bounds text (List.mem_flatMap.2 ⟨f.2, List.mem_map_of_mem hf, htext⟩)
    rw [Allocated.param, Allocated.param, same, ClassTable.unbounded, ClassTable.unbounded,
      ClassTable.objectTy, ClassTable.objectTy, hobject]
  · rw [ClassTable.definition, ClassTable.definition, a.resolveAll_congr_of_names extended,
      a.resolveAll_congr_of_names implemented, ClassTable.objectTy, ClassTable.objectTy, hobject]

end Names

/-! ## Runs and names in two parts -/

/-- A run in two parts. -/
lemma TableStep.exists_of_each_append {α β : Type} {step : TableStep α β} {as as' : List α}
    {t : ClassTable} {bs : List β} (h : (each step t (as ++ as')).2 = .ok bs) :
    ∃ bs₁ bs₂, bs = bs₁ ++ bs₂ ∧ (each step t as).2 = .ok bs₁ ∧
      (each step (each step t as).1 as').2 = .ok bs₂ := by
  induction as generalizing t bs with
  | nil => exact ⟨[], bs, rfl, rfl, h⟩
  | cons a as ih =>
    rw [List.cons_append] at h
    cases first : (step t a).2 with
    | error e =>
      rw [each_cons_of_error first] at h
      cases h
    | ok b =>
      rw [each_cons_of_ok first] at h ⊢
      obtain ⟨bs', hbs', rfl⟩ := exists_of_map_eq_ok h
      obtain ⟨bs₁, bs₂, rfl, run₁, run₂⟩ := ih hbs'
      exact ⟨b :: bs₁, bs₂, rfl, by rw [run₁]; rfl, run₂⟩

namespace ClassTable

variable {t u t₁ t₂ : ClassTable} {d₁ d₂ decls : List ClassDecl} {b₁ b₂ batch : List Allocated}

/-- Names are interned one after the other. -/
lemma internAll_append (t : ClassTable) (names names' : List String) :
    t.internAll (names ++ names') = (((t.internAll names).1.internAll names').1,
      (t.internAll names).2 ++ ((t.internAll names).1.internAll names').2) := by
  induction names generalizing t with
  | nil => rfl
  | cons name names ih => simp only [List.cons_append, internAll, ih]

/-- The names of a batch in two parts. -/
lemma withNames_append (t : ClassTable) (d₁ d₂ : List ClassDecl) :
    t.withNames (d₁ ++ d₂) = (t.withNames d₁).withNames d₂ := by
  rw [withNames, List.map_append, internAll_append]
  rfl

/-- The numbers of a batch in two parts. -/
lemma numbersOf_append (t : ClassTable) (d₁ d₂ : List ClassDecl) :
    t.numbersOf (d₁ ++ d₂) = t.numbersOf d₁ ++ (t.withNames d₁).numbersOf d₂ := by
  rw [numbersOf, List.map_append, internAll_append]
  rfl

namespace Agrees

/-- Tables that agree have the same names. -/
lemma map_name (h : u.Agrees t) : t.slots.map (·.name) = u.slots.map (·.name) := by
  refine List.ext_getElem? fun i => ?_
  simpa [ClassTable.nameOf?] using h.nameOf? ⟨i⟩

/-- A name refers to the same class in tables that agree. -/
lemma lookup (h : u.Agrees t) (name : String) : t.lookup name = u.lookup name := by
  simp only [ClassTable.lookup, find?_congr h.nameOf?]

/-- Agreement is transitive. -/
lemma trans (h : u.Agrees t₁) (h' : t₁.Agrees t₂) : u.Agrees t₂ :=
  ⟨fun id => (h'.nameOf? id).trans (h.nameOf? id), h'.known.trans h.known⟩

/-- A name gets the same number in tables that agree, and they agree after that. -/
lemma intern (h : u.Agrees t) (name : String) :
    (u.intern name).1.Agrees (t.intern name).1 ∧ (t.intern name).2 = (u.intern name).2 := by
  have names := h.map_name
  have len : t.slots.length = u.slots.length := by simpa using congrArg List.length names
  unfold ClassTable.intern
  rw [find?_congr h.nameOf?]
  cases u.find? name with
  | some id => exact ⟨h, rfl⟩
  | none =>
    refine ⟨⟨fun id => ?_, h.known⟩, congrArg ClassId.mk len⟩
    rw [ClassTable.nameOf?, ClassTable.nameOf?, ← List.getElem?_map, ← List.getElem?_map,
      List.map_append, List.map_append, names]

/-- Names get the same numbers in tables that agree, and they agree after that. -/
lemma internAll (h : u.Agrees t) (names : List String) :
    (u.internAll names).1.Agrees (t.internAll names).1 ∧
      (t.internAll names).2 = (u.internAll names).2 := by
  induction names generalizing u t with
  | nil => exact ⟨h, rfl⟩
  | cons name names ih =>
    obtain ⟨agrees, number⟩ := h.intern name
    obtain ⟨agrees', numbers⟩ := ih agrees
    exact ⟨agrees', congrArg₂ List.cons number numbers⟩

/-- Tables that agree still do so after the names of a batch are interned. -/
lemma withNames (h : u.Agrees t) (decls : List ClassDecl) :
    (u.withNames decls).Agrees (t.withNames decls) :=
  (h.internAll _).1

/-- The names of a batch get the same numbers in tables that agree. -/
lemma numbersOf (h : u.Agrees t) (decls : List ClassDecl) :
    t.numbersOf decls = u.numbersOf decls :=
  (h.internAll _).2

end Agrees

/-! ## The numbers of both parts -/

/-- What a run of allocations gives out depends only on how many type parameters there are.

**Proof sketch.** By induction on the declarations. A declaration whose headers can be read gets the
next numbers, and both tables grow by the same number of parameters. -/
lemma each_allocate_of_length {s s' : ClassTable} (len : s'.params.length = s.params.length)
    {ps : List (ClassDecl × ClassId)} (h : (TableStep.each allocate s ps).2 = .ok batch) :
    (TableStep.each allocate s' ps).2 = .ok batch := by
  induction ps generalizing s s' batch with
  | nil => exact h
  | cons p ps ih =>
    cases first : (allocate s p).2 with
    | error e =>
      rw [TableStep.each_cons_of_error first] at h
      cases h
    | ok a =>
      rw [TableStep.each_cons_of_ok first] at h
      obtain ⟨rest, hrest, rfl⟩ := exists_of_map_eq_ok h
      obtain ⟨headers, read⟩ := Option.isSome_iff_exists.1 (exists_ok_allocate_iff.1 ⟨a, first⟩)
      have step := allocate_of_readAll? (t := s) read
      have step' := allocate_of_readAll? (t := s') read
      rw [len] at step'
      rw [step] at first hrest
      have first' : (allocate s' p).2 = .ok a := by rw [step', ← first]
      have len' : (s'.addHeaders headers).params.length = (s.addHeaders headers).params.length := by
        simp [addHeaders, len]
      rw [TableStep.each_cons_of_ok first', step', ih len' hrest]
      rfl

/-- An allocated batch allocates no further variables, whether it succeeds or fails. -/
lemma Allocates.length_params_declare (h : t.Allocates decls batch) :
    (t.declare decls).1.params.length = (Allocates.table t decls batch).params.length := by
  simpa [varIds] using congrArg List.length h.varIds_declare

/-- **Both parts of a batch get the numbers that the whole batch gets.**

**Proof sketch.** Classes are numbered in the order of the declarations, whatever the table says of
them otherwise. The first part adds as many type parameters as it does within the whole batch. -/
theorem Allocates.of_append (h : t.Allocates (d₁ ++ d₂) batch) :
    ∃ b₁ b₂, batch = b₁ ++ b₂ ∧ t.Allocates d₁ b₁ ∧ (t.declare d₁).1.Allocates d₂ b₂ := by
  obtain ⟨distinct, run⟩ := h
  rw [List.map_append, List.nodup_append] at distinct
  obtain ⟨distinct₁, distinct₂, -⟩ := distinct
  rw [withNames_append, numbersOf_append,
    List.zip_append (length_numbersOf t d₁).symm] at run
  obtain ⟨b₁, b₂, rfl, run₁, run₂⟩ := TableStep.exists_of_each_append run
  have params : ((t.withNames d₁).withNames d₂).params = (t.withNames d₁).params :=
    params_internAll _ _
  have alloc₁ : t.Allocates d₁ b₁ :=
    ⟨distinct₁, each_allocate_of_length (congrArg List.length params.symm) run₁⟩
  refine ⟨b₁, b₂, rfl, alloc₁, distinct₂, ?_⟩
  rw [(agrees_declare distinct₁).numbersOf]
  refine each_allocate_of_length ?_ run₂
  have params₂ : ((t.declare d₁).1.withNames d₂).params = (t.declare d₁).1.params :=
    params_internAll _ _
  rw [params₂, alloc₁.length_params_declare, (formals_of_each_allocate run₁).2.2]
  simp [Allocates.table, addHeaders, params]

/-! ## The tables after both parts -/

/-- A table is determined by what its queries answer.

**Proof sketch.** A slot is determined by its name and its definition, which are the answers to two
of the queries, and the type parameters are the answers to the third. -/
lemma eq_of_queries {t t' : ClassTable} (names : ∀ id, t'.nameOf? id = t.nameOf? id)
    (defs : ∀ id, t'.classDef? id = t.classDef? id)
    (params : ∀ x, t'.typeParam? x = t.typeParam? x) (known : t'.known = t.known) : t' = t := by
  have slots : t'.slots = t.slots := by
    refine List.ext_getElem? fun i => ?_
    have name := names ⟨i⟩
    have defn := defs ⟨i⟩
    simp only [nameOf?, classDef?] at name defn
    cases h' : t'.slots[i]? with
    | none =>
      rw [h'] at name
      exact (Option.map_eq_none_iff.1 name.symm).symm
    | some s' =>
      rw [h'] at name defn
      obtain ⟨s, h, eq⟩ := Option.map_eq_some_iff.1 name.symm
      rw [h] at defn
      cases s
      cases s'
      simp_all
  have typeParams : t'.params = t.params := List.ext_getElem? fun i => params ⟨i⟩
  cases t
  cases t'
  simp_all

/-- **What a batch does determines the table.** -/
theorem Declares.unique (done : t.Declares decls batch t₁) (done' : t.Declares decls batch t₂)
    (halloc : t.Allocates decls batch) : t₂ = t₁ := by
  refine eq_of_queries (fun id => ?_) (fun id => ?_) (fun x => ?_) ?_
  · rw [done.agrees.nameOf?, done'.agrees.nameOf?]
  · by_cases mem : id ∈ t.numbersOf decls
    · rw [← halloc.map_id] at mem
      obtain ⟨a, ha, rfl⟩ := List.mem_map.1 mem
      obtain ⟨d, hdef, hd⟩ := done.defined a ha
      obtain ⟨d', hdef', hd'⟩ := done'.defined a ha
      rw [hd, hd', Except.ok.inj (hdef'.symm.trans hdef)]
    · rw [done.classDef? id mem, done'.classDef? id mem]
  · by_cases mem : x ∈ batch.flatMap fun a => a.formals.map (·.1)
    · obtain ⟨a, ha, hx⟩ := List.mem_flatMap.1 mem
      obtain ⟨f, hf, rfl⟩ := List.mem_map.1 hx
      obtain ⟨p, hparam, hp⟩ := done.bounded a ha f hf
      obtain ⟨p', hparam', hp'⟩ := done'.bounded a ha f hf
      rw [hp, hp', Except.ok.inj (hparam'.symm.trans hparam)]
    · rw [done.typeParam? x mem, done'.typeParam? x mem]
  · rw [done.agrees.known, done'.agrees.known]

/-- **Two accepted parts do what the whole batch does**, if their declarations amount to the same in
the table with all names.

**Proof sketch.** The second part leaves the classes and type parameters of the first alone, because
all numbers of the batch are different. -/
theorem Declares.append (done₁ : t.Declares d₁ b₁ t₁) (done₂ : t₁.Declares d₂ b₂ t₂)
    (halloc : t.Allocates (d₁ ++ d₂) (b₁ ++ b₂)) (alloc₂ : t₁.Allocates d₂ b₂)
    (alike₁ : ∀ a ∈ b₁, a.AlikeIn (t.withNames d₁) (t.withNames (d₁ ++ d₂)))
    (alike₂ : ∀ a ∈ b₂, a.AlikeIn (t₁.withNames d₂) (t.withNames (d₁ ++ d₂))) :
    t.Declares (d₁ ++ d₂) (b₁ ++ b₂) t₂ := by
  have numbers : t₁.numbersOf d₂ = (t.withNames d₁).numbersOf d₂ := done₁.agrees.numbersOf d₂
  have ids := halloc.nodup_ids
  rw [List.map_append, alloc₂.map_id, List.nodup_append] at ids
  have vars := halloc.nodup_vars
  rw [List.flatMap_append, List.nodup_append] at vars
  constructor
  case agrees =>
    rw [withNames_append]
    exact (done₁.agrees.withNames d₂).trans done₂.agrees
  case defined =>
    intro a ha
    rcases List.mem_append.1 ha with ha | ha
    · obtain ⟨d, hdef, hd⟩ := done₁.defined a ha
      have other : a.id ∉ t₁.numbersOf d₂ := fun mem =>
        ids.2.2 a.id (List.mem_map_of_mem ha) a.id mem rfl
      exact ⟨d, (alike₁ a ha).definition.trans hdef, (done₂.classDef? a.id other).trans hd⟩
    · obtain ⟨d, hdef, hd⟩ := done₂.defined a ha
      exact ⟨d, (alike₂ a ha).definition.trans hdef, hd⟩
  case classDef? =>
    intro id hid
    rw [numbersOf_append, List.mem_append, not_or, ← numbers] at hid
    rw [done₂.classDef? id hid.2, done₁.classDef? id hid.1]
  case bounded =>
    intro a ha f hf
    rcases List.mem_append.1 ha with ha | ha
    · obtain ⟨p, hparam, hp⟩ := done₁.bounded a ha f hf
      have mine : f.1 ∈ b₁.flatMap fun a => a.formals.map (·.1) :=
        List.mem_flatMap.2 ⟨a, ha, List.mem_map_of_mem hf⟩
      have other : f.1 ∉ b₂.flatMap fun a => a.formals.map (·.1) := fun mem =>
        vars.2.2 f.1 mine f.1 mem rfl
      exact ⟨p, ((alike₁ a ha).param f hf).trans hparam, (done₂.typeParam? f.1 other).trans hp⟩
    · obtain ⟨p, hparam, hp⟩ := done₂.bounded a ha f hf
      exact ⟨p, ((alike₂ a ha).param f hf).trans hparam, hp⟩
  case typeParam? =>
    intro x hx
    rw [List.flatMap_append, List.mem_append, not_or] at hx
    rw [done₂.typeParam? x hx.2, done₁.typeParam? x hx.1]

/-- A batch is accepted if it amounts to the same in another table, and makes sense there. -/
lemma Allocates.exists_ok_declare (halloc : t.Allocates decls batch)
    (alike : ∀ a ∈ batch, a.AlikeIn (t.withNames decls) u)
    (sense : ∀ a ∈ batch, (∀ f ∈ a.formals, ∃ p, a.param u f.2 = .ok p) ∧
      ∃ d, u.definition a = .ok d) : ∃ ids, (t.declare decls).2 = .ok ids := by
  refine halloc.exists_ok_declare_iff.2 fun a ha => ?_
  obtain ⟨bounded, defined⟩ := sense a ha
  rw [(alike a ha).definition] at defined
  refine ⟨fun f hf => ?_, defined⟩
  rw [← (alike a ha).param f hf]
  exact bounded f hf

/-- **A batch may be entered in two parts.** If it is accepted as a whole, and the names that its
first part mentions refer to the same classes before and after those of the second part are
interned, then both parts are accepted one after the other, with the same numbers, and lead to the
same table.

**Proof sketch.** The allocated batch is split into the allocated batches of both parts. The first
part is resolved in a table with fewer names, but by assumption its own names mean the same there;
the second part is resolved in a table that agrees with the one of the whole batch. So both are
accepted. What the two steps have written is what the whole batch has to write, and a table is
determined by that (`Declares.unique`). -/
theorem declare_append {ids : List ClassId} (accepted : (t.declare (d₁ ++ d₂)).2 = .ok ids)
    (same : ∀ decl ∈ d₁, ∀ name ∈ decl.writtenNames,
      ((t.withNames d₁).withNames d₂).lookup name = (t.withNames d₁).lookup name) :
    ∃ ids₁ ids₂, (t.declare d₁).2 = .ok ids₁ ∧
      (t.declare d₁).1.declare d₂ = ((t.declare (d₁ ++ d₂)).1, .ok ids₂) ∧
      ids = ids₁ ++ ids₂ := by
  obtain ⟨batch, halloc⟩ := exists_allocates_of_declare accepted
  obtain ⟨b₁, b₂, rfl, alloc₁, alloc₂⟩ := halloc.of_append
  have sense := halloc.exists_ok_declare_iff.1 ⟨ids, accepted⟩
  obtain ⟨rfl, done⟩ := halloc.declares accepted
  have known : ((t.withNames d₁).withNames d₂).known = (t.withNames d₁).known := known_withNames _ _
  have agrees := agrees_declare (t := t) alloc₁.distinct
  -- the first part sees fewer names, but understands its own in the same way
  have alike₁ : ∀ a ∈ b₁, a.AlikeIn (t.withNames d₁) (t.withNames (d₁ ++ d₂)) := by
    intro a ha
    rw [withNames_append]
    have mem : a.decl ∈ d₁ := alloc₁.map_decl ▸ List.mem_map_of_mem ha
    exact Allocated.alikeIn_of_names (alloc₁.headers_eq a ha) (congrArg (·.object) known)
      (same a.decl mem)
  have alike₂ : ∀ a ∈ b₂,
      a.AlikeIn ((t.declare d₁).1.withNames d₂) (t.withNames (d₁ ++ d₂)) := by
    intro a ha
    rw [withNames_append]
    have agrees₂ := agrees.withNames d₂
    exact Allocated.alikeIn_of_names (alloc₂.headers_eq a ha)
      (congrArg (·.object) agrees₂.known.symm) fun name _ => (agrees₂.lookup name).symm
  obtain ⟨ids₁, ok₁⟩ := alloc₁.exists_ok_declare alike₁ fun a ha =>
    sense a (List.mem_append_left _ ha)
  obtain ⟨ids₂, ok₂⟩ := alloc₂.exists_ok_declare alike₂ fun a ha =>
    sense a (List.mem_append_right _ ha)
  obtain ⟨rfl, done₁⟩ := alloc₁.declares ok₁
  obtain ⟨rfl, done₂⟩ := alloc₂.declares ok₂
  have table := done.unique (done₁.append done₂ halloc alloc₂ alike₁ alike₂) halloc
  refine ⟨_, _, ok₁, Prod.ext table ok₂, ?_⟩
  rw [numbersOf_append, agrees.numbersOf]

/-- Two declarations that mention classes of `java.lang` by their simple names. -/
def measures : List ClassDecl :=
  [{ name := "com.example.Scale", kind := .interface,
     typeParams := ["N extends Number & Cloneable"] },
    { name := "com.example.Fine", implemented := ["com.example.Scale<Integer>"] }]

/-- Two declarations that refer to them, one of them of a class without a package. -/
def gauges : List ClassDecl :=
  [{ name := "Gauge", typeParams := ["S extends com.example.Scale<?>"] },
    { name := "com.example.Dial", extended := ["Gauge<com.example.Fine>"], isFinal := true }]

/-- All four are accepted, and the last two do not change what the first two mean. -/
lemma declare_measures_gauges :
    (core.declare (measures ++ gauges)).2 = .ok [⟨13⟩, ⟨14⟩, ⟨15⟩, ⟨16⟩] ∧
      ∀ decl ∈ measures, ∀ name ∈ decl.writtenNames,
        ((core.withNames measures).withNames gauges).lookup name =
          (core.withNames measures).lookup name := by
  decide +kernel

/-- The four declarations may be entered in two parts. -/
theorem declare_measures_then_gauges :
    (core.declare (measures ++ gauges)).2 = .ok [⟨13⟩, ⟨14⟩, ⟨15⟩, ⟨16⟩] ∧
      (∀ decl ∈ measures, ∀ name ∈ decl.writtenNames,
        ((core.withNames measures).withNames gauges).lookup name =
          (core.withNames measures).lookup name) ∧
      ∃ ids₁ ids₂, (core.declare measures).2 = .ok ids₁ ∧
        (core.declare measures).1.declare gauges =
          ((core.declare (measures ++ gauges)).1, .ok ids₂) ∧
        [⟨13⟩, ⟨14⟩, ⟨15⟩, ⟨16⟩] = ids₁ ++ ids₂ := by
  obtain ⟨accepted, same⟩ := declare_measures_gauges
  exact ⟨accepted, same, declare_append accepted same⟩

-- a class `Number` in the second part captures the bound of the first
example : (core.declare (measures ++ [{ name := "Number" }])).1.typeParam? ⟨0⟩ ≠
    ((core.declare measures).1.declare [{ name := "Number" }]).1.typeParam? ⟨0⟩ := by
  decide +kernel

end ClassTable

end ContainerLint
