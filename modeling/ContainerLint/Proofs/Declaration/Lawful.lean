import ContainerLint.Proofs.Declaration.Edits

/-!
# What is true of every reachable table

Different classes have different names, a definition carries the name of its class, the formal
parameters of a class are different, and its supertypes are types that its declaration can write:
they mention no variables but the formal parameters. Each edit keeps this, so it holds of every
table that declarations lead to, also after batches that failed.

## Main definitions

* `ClassTable.Lawful` — these facts together.

## Main results

* `ClassTable.Lawful.edit` — an edit keeps them.
* `ClassTable.Reachable.lawful` — they hold of every reachable table.
-/

set_option autoImplicit false

namespace ContainerLint

namespace ClassTable

variable {t t' : ClassTable}

/-- What declarations guarantee of a class table. -/
structure Lawful (t : ClassTable) : Prop where
  /-- Different classes have different names. -/
  name_inj : ∀ {id id' : ClassId} {name : String},
    t.nameOf? id = some name → t.nameOf? id' = some name → id = id'
  /-- `Object` is interned under its name. -/
  object : t.nameOf? t.known.object = some "java.lang.Object"
  /-- A definition carries the name of its class. -/
  defName : ∀ {id : ClassId} {d : ClassDef},
    t.classDef? id = some d → t.nameOf? id = some d.name
  /-- The formal parameters of a class are different. -/
  formals_nodup : ∀ {id : ClassId} {d : ClassDef}, t.classDef? id = some d → d.typeParams.Nodup
  /-- A declared supertype can be written in terms of the formal parameters. -/
  written : ∀ {id : ClassId} {d : ClassDef} {sup : Ty},
    t.classDef? id = some d → sup ∈ d.supertypes → sup.Written t d.typeParams

/-! ## Definitions after an edit -/

/-- Interning a name defines nothing. -/
lemma classDef?_intern (t : ClassTable) (name : String) (id : ClassId) :
    (t.intern name).1.classDef? id = t.classDef? id := by
  unfold intern
  cases t.find? name with
  | some => rfl
  | none =>
    simp only [classDef?]
    rcases Nat.lt_trichotomy id.index t.slots.length with lt | eq | gt
    · rw [List.getElem?_append_left lt]
    · simp [eq]
    · rw [List.getElem?_eq_none (by simp; omega), List.getElem?_eq_none (by omega)]

/-- After a class is defined, the other definitions are as before. -/
lemma classDef?_define_eq_some {id id' : ClassId} {d e : ClassDef}
    (h : (t.define id d).classDef? id' = some e) :
    id' = id ∧ e = d ∨ t.classDef? id' = some e := by
  simp only [classDef?, define, List.getElem?_modify] at h ⊢
  split at h
  · next eq =>
    left
    cases hs : t.slots[id'.index]? with
    | none => simp [hs] at h
    | some slot =>
      simp only [hs, Option.map_eq_map, Option.map_some, Option.bind_some,
        Option.some.injEq] at h
      cases id
      cases id'
      exact ⟨by simp_all, h.symm⟩
  · right
    simpa using h

/-- A name that is interned is new, or was there. -/
lemma nameOf?_intern_eq_some {name full : String} {id : ClassId}
    (h : (t.intern name).1.nameOf? id = some full) :
    t.nameOf? id = some full ∨ id = ⟨t.slots.length⟩ ∧ full = name ∧ t.find? name = none := by
  unfold intern at h
  cases hf : t.find? name with
  | some => exact .inl (by simpa [hf] using h)
  | none =>
    simp only [hf, nameOf?] at h ⊢
    rcases Nat.lt_trichotomy id.index t.slots.length with lt | eq | gt
    · rw [List.getElem?_append_left lt] at h
      exact .inl h
    · right
      simp only [eq, List.getElem?_concat_length, Option.map_some, Option.some.injEq] at h
      cases id
      exact ⟨congrArg ClassId.mk eq, h.symm, trivial⟩
    · rw [List.getElem?_eq_none (by simp; omega)] at h
      cases h

/-- A name that is not found is no one's name. -/
lemma nameOf?_ne_of_find?_eq_none {name : String} (h : t.find? name = none) (id : ClassId) :
    t.nameOf? id ≠ some name := by
  intro hn
  obtain ⟨slot, hslot, rfl⟩ := Option.map_eq_some_iff.1 hn
  rw [find?, Option.map_eq_none_iff, List.findIdx?_eq_none_iff] at h
  simpa using h slot (List.mem_of_getElem? hslot)

/-- A class is found by its name. -/
lemma Lawful.find?_of_nameOf? (h : t.Lawful) {id : ClassId} {name : String}
    (hn : t.nameOf? id = some name) : t.find? name = some id := by
  cases hf : t.find? name with
  | none => exact absurd hn (nameOf?_ne_of_find?_eq_none hf id)
  | some id' => rw [h.name_inj hn (nameOf?_of_find? hf)]

/-! ## What a declaration defines -/

/-- The variables in the scope of a declaration are its formal parameters. -/
lemma map_snd_scope (a : Allocated) : a.scope.map (·.2) = a.formals.map (·.1) := by
  rw [Allocated.scope, List.map_map]
  rfl

/-- The types that a declaration resolves can be written in terms of its formal parameters. -/
lemma written_of_allocated_resolveAll {a : Allocated} {texts : List String} {tys : List Ty}
    (h : a.resolveAll t texts = .ok tys) : ∀ ty ∈ tys, ty.Written t (a.formals.map (·.1)) := by
  induction texts generalizing tys with
  | nil =>
    cases h
    simp
  | cons text texts ih =>
    unfold Allocated.resolveAll at h
    split at h
    · cases h
    · next first hfirst =>
      obtain ⟨rest, hrest, rfl⟩ := exists_of_map_eq_ok h
      intro ty hty
      rcases List.mem_cons.1 hty with rfl | hty
      · rw [← map_snd_scope]
        exact Ty.written_of_parse hfirst
      · exact ih hrest ty hty

/-- The type `Object` can be written. -/
lemma Lawful.written_object (h : t.Lawful) (formals : List VarId) :
    t.objectTy.Written t formals :=
  .cls h.object (by decide) (by simp)

/-- A definition carries the name and the formal parameters of its declaration, and its supertypes
can be written in terms of these.

**Proof sketch.** The supertypes are resolved from texts in terms of the formal parameters, except
for `Object`, which a class gets if it extends nothing. The cases are those of the definition: an
interface, a class that extends nothing, and a class that extends one class. -/
lemma Lawful.definition (h : t.Lawful) {a : Allocated} {d : ClassDef}
    (hd : t.definition a = .ok d) :
    d.name = a.decl.name ∧ d.typeParams = a.formals.map (·.1) ∧
      ∀ sup ∈ d.supertypes, sup.Written t (a.formals.map (·.1)) := by
  unfold ClassTable.definition at hd
  obtain ⟨extended, hext, hd⟩ := exists_of_bind_eq_ok hd
  obtain ⟨implemented, himpl, hd⟩ := exists_of_bind_eq_ok hd
  have wext := written_of_allocated_resolveAll hext
  have wimpl := written_of_allocated_resolveAll himpl
  dsimp only at hd
  split at hd
  · cases hd
    refine ⟨rfl, rfl, fun sup hsup => ?_⟩
    simp only [ClassDef.supertypes, Option.toList_none, List.nil_append, List.mem_append] at hsup
    rcases hsup with hsup | hsup
    · exact wext sup hsup
    · exact wimpl sup hsup
  · cases hd
    refine ⟨rfl, rfl, fun sup hsup => ?_⟩
    rcases List.mem_append.1 hsup with hsup | hsup
    · dsimp only at hsup
      split at hsup
      · simp at hsup
      · obtain rfl : sup = t.objectTy := by simpa using hsup
        exact h.written_object _
    · exact wimpl sup hsup
  · cases hd
    refine ⟨rfl, rfl, fun sup hsup => ?_⟩
    rcases List.mem_append.1 hsup with hsup | hsup
    · exact wext sup (by simpa using hsup)
    · exact wimpl sup hsup
  · cases hd

/-! ## Edits keep the laws -/

/-- A table whose classes and names are those of a lawful one is lawful. -/
lemma Lawful.of_slots_eq (h : t.Lawful) (slots : t'.slots = t.slots) (known : t'.known = t.known) :
    t'.Lawful := by
  obtain ⟨slots', params', known'⟩ := t'
  obtain rfl : slots' = t.slots := slots
  obtain rfl : known' = t.known := known
  exact ⟨h.name_inj, h.object, h.defName, h.formals_nodup,
    fun hd hs => (h.written hd hs).mono fun _ _ hn => hn⟩

/-- Interning a name keeps the laws. -/
lemma Lawful.intern (h : t.Lawful) (name : String) : (t.intern name).1.Lawful where
  name_inj := by
    intro id id' full hid hid'
    rcases nameOf?_intern_eq_some hid with old | ⟨new, rfl, fresh⟩
    · rcases nameOf?_intern_eq_some hid' with old' | ⟨-, rfl, fresh⟩
      · exact h.name_inj old old'
      · exact absurd old (nameOf?_ne_of_find?_eq_none fresh id)
    · rcases nameOf?_intern_eq_some hid' with old' | ⟨new', -, -⟩
      · exact absurd old' (nameOf?_ne_of_find?_eq_none fresh id')
      · rw [new, new']
  object := by
    rw [(Edit.intern t name).known]
    exact nameOf?_intern h.object
  defName hd := nameOf?_intern (h.defName (by rwa [classDef?_intern] at hd))
  formals_nodup hd := h.formals_nodup (by rwa [classDef?_intern] at hd)
  written hd hs := by
    rw [classDef?_intern] at hd
    exact (h.written hd hs).mono fun _ _ hn => nameOf?_intern hn

/-- Defining a class as its declaration says keeps the laws.

**Proof sketch.** Names are not changed. The new definition has the name and the formals of its
declaration, which fit, and its supertypes are written in terms of these; the other definitions are
those of before. -/
lemma Lawful.define (h : t.Lawful) {a : Allocated} {d : ClassDef} (ha : a.Fits t)
    (hd : t.definition a = .ok d) : (t.define a.id d).Lawful := by
  obtain ⟨name, formals, written⟩ := h.definition hd
  refine ⟨?_, ?_, ?_, ?_, ?_⟩
  · intro id id' full hid hid'
    rw [nameOf?_define] at hid hid'
    exact h.name_inj hid hid'
  · rw [nameOf?_define]
    exact h.object
  · intro id e he
    rw [nameOf?_define]
    rcases classDef?_define_eq_some he with ⟨rfl, rfl⟩ | he
    · rw [ha.name, name]
    · exact h.defName he
  · intro id e he
    rcases classDef?_define_eq_some he with ⟨rfl, rfl⟩ | he
    · rw [formals]
      exact ha.formals_nodup
    · exact h.formals_nodup he
  · intro id e sup he hsup
    have kept : sup.Written t e.typeParams := by
      rcases classDef?_define_eq_some he with ⟨rfl, rfl⟩ | he
      · rw [formals]
        exact written sup hsup
      · exact h.written he hsup
    exact kept.mono fun id' full hn => by rw [nameOf?_define, hn]

/-- **An edit keeps the laws.** -/
theorem Lawful.edit (h : t.Lawful) (edit : Edit t t') : t'.Lawful := by
  cases edit with
  | intern name => exact h.intern name
  | addParam | bound => exact h.of_slots_eq rfl rfl
  | define ha hd => exact h.define ha hd

/-- A core class has no parameters, and is below `Object`, `Serializable` and `Number` only. -/
lemma core_slots : ∀ slot ∈ core.slots, ∀ d ∈ slot.defn, d.name = slot.name ∧ d.typeParams = [] ∧
    ∀ sup ∈ d.supertypes,
      sup ∈ [Ty.cls Core.object [], .cls Core.serializable [], .cls Core.number []] := by
  decide

/-- The core table is lawful.

**Proof sketch.** The names of the core classes are distinct. Each definition stands in a slot of
its own name, has no type parameters, and has at most three supertypes, which are classes of the
table. -/
lemma lawful_core : core.Lawful := by
  have slot_of {id : ClassId} {d : ClassDef} (hd : core.classDef? id = some d) :
      ∃ slot, core.slots[id.index]? = some slot ∧ slot ∈ core.slots ∧ d ∈ slot.defn := by
    obtain ⟨slot, hslot, hd⟩ := Option.bind_eq_some_iff.1 hd
    exact ⟨slot, hslot, List.mem_of_getElem? hslot, hd⟩
  refine ⟨?_, by decide, ?_, ?_, ?_⟩
  · intro id id' name hid hid'
    have nodup : (core.slots.map (·.name)).Nodup := by decide
    rw [nameOf?, ← List.getElem?_map] at hid hid'
    have lt := (List.getElem?_eq_some_iff.1 hid).1
    cases id
    cases id'
    exact congrArg ClassId.mk ((List.getElem?_inj lt nodup).1 (hid.trans hid'.symm))
  · intro id d hd
    obtain ⟨slot, hslot, hmem, hd⟩ := slot_of hd
    rw [nameOf?, hslot, (core_slots slot hmem d hd).1]
    rfl
  · intro id d hd
    obtain ⟨slot, -, hmem, hd⟩ := slot_of hd
    rw [(core_slots slot hmem d hd).2.1]
    exact List.nodup_nil
  · intro id d sup hd hsup
    obtain ⟨slot, -, hmem, hd⟩ := slot_of hd
    have hsup := (core_slots slot hmem d hd).2.2 sup hsup
    simp only [List.mem_cons, List.not_mem_nil, or_false] at hsup
    rcases hsup with rfl | rfl | rfl
    all_goals exact .cls (by rfl) (by decide) (by simp)

/-- **Every reachable table is lawful.** -/
theorem Reachable.lawful (h : t.Reachable) : t.Lawful := by
  obtain edits := h.edits
  clear h
  induction edits with
  | refl => exact lawful_core
  | tail _ edit ih => exact ih.edit edit

end ClassTable

end ContainerLint
