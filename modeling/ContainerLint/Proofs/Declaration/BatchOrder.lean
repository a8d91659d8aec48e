import ContainerLint.Proofs.Declaration.Consistency
import ContainerLint.Proofs.Declaration.Edits
import Mathlib.Logic.Equiv.Basic

/-!
# The order of a batch

Classes and type parameters are numbered in the order in which a batch declares them, and these
numbers stand in every definition and bound that the batch adds. So two orders of one batch do not
lead to the same table. They lead to tables that differ by a renaming of the new numbers, and a
batch is accepted in one order if it is in another.

## Main definitions

* `ClassTable.MentionsOnly` — all numbers that the entries of a table mention have a property.
* `ClassTable.Reorders` — a renaming that takes one order of an allocated batch to another.

## Main results

* `exists_perm_map_eq` — a rearranged list is the image under a permutation of its members.
* `ClassTable.exists_reorders` — two orders of a batch differ by a renaming of the new numbers.
* `ClassTable.exists_ok_declare_of_perm` — whether a batch is accepted does not depend on its order.
* `ClassTable.declare_perm` — neither does the table, up to a renaming.

## Design

The renaming must keep everything that the table held before. This fails for a table that mentions
a number which it has not given out yet: the number then comes to mean whichever class the batch
declares first. `ClassTable.declare_perm` therefore asks that the batch gives out no number that the
table mentions already. The tables that calls lead to mention no such numbers at all.
-/

set_option autoImplicit false

namespace ContainerLint

/-! ## Rearranged lists -/

/-- **A rearranged list is the image under a permutation** that moves only its members.

**Proof sketch.** By induction on the rearrangement. Two neighbours are exchanged by a
transposition, which moves no other member since there are no repetitions, and a sequence of
rearrangements is followed by composing. -/
theorem exists_perm_map_eq {α : Type} [DecidableEq α] {as bs : List α} (h : as.Perm bs)
    (nodup : as.Nodup) : ∃ σ : Equiv.Perm α, as.map σ = bs ∧ ∀ a ∉ as, σ a = a := by
  induction h with
  | nil => exact ⟨Equiv.refl α, rfl, fun _ _ => rfl⟩
  | @cons a as bs _ ih =>
    rw [List.nodup_cons] at nodup
    obtain ⟨σ, image, fixed⟩ := ih nodup.2
    refine ⟨σ, ?_, fun b hb => fixed b fun mem => hb (List.mem_cons_of_mem _ mem)⟩
    rw [List.map_cons, fixed a nodup.1, image]
  | swap a b as =>
    simp only [List.nodup_cons, List.mem_cons, not_or] at nodup
    obtain ⟨⟨-, hb⟩, ha, -⟩ := nodup
    refine ⟨Equiv.swap a b, ?_, fun c hc => ?_⟩
    · have others : as.map (Equiv.swap a b) = as := by
        refine (List.map_congr_left fun c hc => ?_).trans (List.map_id as)
        exact Equiv.swap_apply_of_ne_of_ne (fun eq => ha (eq ▸ hc)) fun eq => hb (eq ▸ hc)
      rw [List.map_cons, List.map_cons, Equiv.swap_apply_right, Equiv.swap_apply_left, others]
    · simp only [List.mem_cons, not_or] at hc
      exact Equiv.swap_apply_of_ne_of_ne hc.2.1 hc.1
  | @trans as bs cs hab hbc ih ih' =>
    obtain ⟨σ, image, fixed⟩ := ih nodup
    obtain ⟨σ', image', fixed'⟩ := ih' (hab.nodup_iff.1 nodup)
    refine ⟨σ.trans σ', ?_, fun a ha => ?_⟩
    · rw [← image', ← image, List.map_map]
      rfl
    · rw [Equiv.trans_apply, fixed a ha, fixed' a fun mem => ha (hab.mem_iff.2 mem)]

/-- A list can be rearranged along with its image. -/
lemma exists_perm_of_map_perm {α β : Type} {f : α → β} {as : List α} {bs : List β}
    (h : (as.map f).Perm bs) : ∃ as' : List α, as'.Perm as ∧ as'.map f = bs := by
  generalize hcs : as.map f = cs at h
  induction h generalizing as with
  | nil => exact ⟨as, .refl as, hcs⟩
  | cons c _ ih =>
    obtain ⟨a, rest, rfl, rfl, hrest⟩ := List.map_eq_cons_iff.1 hcs
    obtain ⟨rest', perm, image⟩ := ih hrest
    exact ⟨a :: rest', perm.cons a, by rw [List.map_cons, image]⟩
  | swap c d cs =>
    obtain ⟨a, rest, rfl, rfl, hrest⟩ := List.map_eq_cons_iff.1 hcs
    obtain ⟨b, rest, rfl, rfl, rfl⟩ := List.map_eq_cons_iff.1 hrest
    exact ⟨b :: a :: rest, .swap a b rest, rfl⟩
  | trans _ _ ih ih' =>
    obtain ⟨as', perm, image⟩ := ih hcs
    obtain ⟨as'', perm', image'⟩ := ih' image
    exact ⟨as'', perm'.trans perm, image'⟩

/-! ## Two orders of an allocated batch -/

/-- The type parameters that a declaration writes. -/
def ClassDecl.headers (decl : ClassDecl) : List ParamHeader :=
  (ParamHeader.readAll? [] decl.typeParams).getD []

/-- The numbers of the type parameters in a batch. -/
def Allocated.vars (batch : List Allocated) : List VarId :=
  batch.flatMap fun a => a.formals.map (·.1)

/-- Two batches of the same declarations differ by a renaming if their numbers do.

**Proof sketch.** By induction on the batch. The headers of a member are determined by its
declaration, so both members have the same number of formals. This says where to split the lists of
variables, and the rest follows from the equations for the first parts. -/
lemma Allocated.eq_map_rename {batch batch' : List Allocated} {σ : ClassId → ClassId}
    {τ : VarId → VarId} (decls : batch'.map (·.decl) = batch.map (·.decl))
    (ids : (batch.map (·.id)).map σ = batch'.map (·.id))
    (headers : ∀ a ∈ batch, a.formals.map (·.2) = a.decl.headers)
    (headers' : ∀ a ∈ batch', a.formals.map (·.2) = a.decl.headers)
    (numbers : (vars batch).map τ = vars batch') : batch' = batch.map (Allocated.rename σ τ) := by
  induction batch generalizing batch' with
  | nil => exact List.map_eq_nil_iff.1 decls
  | cons a batch ih =>
    cases batch' with
    | nil => cases decls
    | cons a' batch' =>
      simp only [List.map_cons, List.cons.injEq] at decls ids
      have texts : a'.formals.map (·.2) = a.formals.map (·.2) := by
        rw [headers' a' List.mem_cons_self, headers a List.mem_cons_self, decls.1]
      have length : a.formals.length = a'.formals.length := by
        simpa using (congrArg List.length texts).symm
      simp only [vars, List.flatMap_cons, List.map_append] at numbers
      obtain ⟨first, rest⟩ := List.append_inj numbers (by simpa using length)
      have formals : a'.formals = a.formals.map fun f => (τ f.1, f.2) := by
        rw [List.zip_of_prod first.symm texts]
        exact (List.zip_of_prod (by simp) (by simp)).symm
      have head : a' = a.rename σ τ := by
        obtain ⟨decl', id', formals'⟩ := a'
        simp only [Allocated.rename, Allocated.mk.injEq]
        exact ⟨decls.1, ids.1.symm, formals⟩
      rw [List.map_cons, ← head, ← ih decls.2 ids.2
        (fun b hb => headers b (List.mem_cons_of_mem _ hb))
        (fun b hb => headers' b (List.mem_cons_of_mem _ hb)) rest]

namespace ClassTable

variable {t : ClassTable} {decls decls' : List ClassDecl} {batch batch' : List Allocated}

namespace Allocates

/-- The type parameters of an allocated batch are those that its declarations write. -/
lemma headers_eq (h : t.Allocates decls batch) :
    ∀ a ∈ batch, a.formals.map (·.2) = a.decl.headers := by
  intro a ha
  rw [ClassDecl.headers, (formals_of_each_allocate h.run).1 a ha]
  rfl

/-- The numbers of the type parameters of a batch do not depend on its order. -/
lemma vars_eq_vars (h : t.Allocates decls batch) (h' : t.Allocates decls' batch')
    (perm : decls.Perm decls') : Allocated.vars batch = Allocated.vars batch' := by
  have headers {decls : List ClassDecl} {batch : List Allocated} (h : t.Allocates decls batch) :
      (batch.flatMap fun a => a.formals.map (·.2)) = decls.flatMap ClassDecl.headers := by
    rw [← h.map_decl, List.flatMap_map]
    exact List.flatMap_congr h.headers_eq
  rw [Allocated.vars, Allocated.vars, h.vars_eq, h'.vars_eq, headers h, headers h',
    (perm.flatMap_right _).length_eq]

end Allocates

/-- Each number of a batch is that of a name. -/
lemma exists_mem_zip_of_mem_numbersOf {id : ClassId} (h : id ∈ t.numbersOf decls) :
    ∃ name, (name, id) ∈ (decls.map (·.name)).zip (t.numbersOf decls) := by
  have numbers : ((decls.map (·.name)).zip (t.numbersOf decls)).map (·.2) = t.numbersOf decls := by
    refine List.map_snd_zip (Nat.le_of_eq ?_)
    rw [length_numbersOf, List.length_map]
  rw [← numbers] at h
  obtain ⟨p, hp, rfl⟩ := List.mem_map.1 h
  exact ⟨p.1, hp⟩

/-- Each name of a batch has a number. -/
lemma exists_mem_zip_of_mem_names {name : String} (h : name ∈ decls.map (·.name)) :
    ∃ id, (name, id) ∈ (decls.map (·.name)).zip (t.numbersOf decls) := by
  have names : ((decls.map (·.name)).zip (t.numbersOf decls)).map (·.1) = decls.map (·.name) := by
    refine List.map_fst_zip (Nat.le_of_eq ?_)
    rw [length_numbersOf, List.length_map]
  rw [← names] at h
  obtain ⟨p, hp, rfl⟩ := List.mem_map.1 h
  exact ⟨p.2, hp⟩

/-- The numbers of a batch do not depend on its order.

**Proof sketch.** A name that was there has its old number in any order. The new names get the next
numbers, and there are as many of them in any order. -/
lemma mem_numbersOf_of_perm (perm : decls.Perm decls') (distinct : (decls.map (·.name)).Nodup)
    {id : ClassId} (h : id ∈ t.numbersOf decls) : id ∈ t.numbersOf decls' := by
  have names := perm.map (·.name)
  have distinct' := names.nodup_iff.1 distinct
  obtain ⟨name, hname⟩ := exists_mem_zip_of_mem_numbersOf h
  rcases find?_or_length_le_internAll distinct _ hname with old | fresh
  · obtain ⟨id', hid'⟩ := exists_mem_zip_of_mem_names (t := t)
      (names.mem_iff.1 (List.of_mem_zip hname).1)
    have found := find?_internAll distinct' _ hid'
    rw [find?_internAll_of_find? old, Option.some.injEq] at found
    rw [show id = id' from found]
    exact (List.of_mem_zip hid').2
  · have length : (t.internAll (decls.map (·.name))).1.slots.length =
        (t.internAll (decls'.map (·.name))).1.slots.length := by
      rw [length_slots_internAll distinct, length_slots_internAll distinct', names.countP_eq]
    have named := (edits_internAll t (decls.map (·.name))).2 _ hname
    have inUse : id ∈ (t.withNames decls).ids := mem_ids_iff.2 (Option.isSome_of_eq_some named)
    have inUse' : id ∈ (t.withNames decls').ids := by
      rwa [ids, withNames, ← length]
    rcases mem_internAll_of_mem_ids inUse' with old | mem
    · obtain ⟨i, hi, rfl⟩ := List.mem_map.1 old
      have lt : i < t.slots.length := List.mem_range.1 hi
      exact absurd lt (Nat.not_lt.2 fresh)
    · exact mem

/-- A renaming that takes one order of an allocated batch to another, and keeps all numbers that
the batch does not use. -/
structure Reorders (σ : Equiv.Perm ClassId) (τ : Equiv.Perm VarId)
    (batch batch' : List Allocated) : Prop where
  perm : batch'.Perm (batch.map (Allocated.rename σ τ))
  ids : ∀ id ∉ batch.map (·.id), σ id = id
  vars : ∀ x ∉ Allocated.vars batch, τ x = x

/-- **Two orders of an allocated batch differ by a renaming.**

**Proof sketch.** Align the second batch with the first, declaration by declaration. Both orders
give out the same class numbers, because a name is either interned already or gets one of the next
numbers; and the same variables, which are numbered without gaps. So there are permutations of both
that take the one list to the other, and they rename the batch. -/
theorem exists_reorders (h : t.Allocates decls batch) (h' : t.Allocates decls' batch')
    (perm : decls.Perm decls') : ∃ σ τ, Reorders σ τ batch batch' := by
  have aligned : (batch'.map (·.decl)).Perm decls := by
    rw [h'.map_decl]
    exact perm.symm
  obtain ⟨batch'', perm', decls_eq⟩ := exists_perm_of_map_perm aligned
  have idsPerm : (batch.map (·.id)).Perm (batch''.map (·.id)) := by
    have numbers : (t.numbersOf decls).Perm (t.numbersOf decls') :=
      (List.perm_ext_iff_of_nodup (nodup_internAll h.distinct) (nodup_internAll h'.distinct)).2
        fun id => ⟨mem_numbersOf_of_perm perm h.distinct,
          mem_numbersOf_of_perm perm.symm h'.distinct⟩
    rw [h.map_id]
    refine numbers.trans ?_
    rw [← h'.map_id]
    exact (perm'.map _).symm
  have varsPerm : (Allocated.vars batch).Perm (Allocated.vars batch'') := by
    rw [h.vars_eq_vars h' perm]
    exact (perm'.flatMap_right _).symm
  obtain ⟨σ, ids, fixedIds⟩ := exists_perm_map_eq idsPerm h.nodup_ids
  obtain ⟨τ, vars, fixedVars⟩ := exists_perm_map_eq varsPerm h.nodup_vars
  have renamed : batch'' = batch.map (Allocated.rename σ τ) :=
    Allocated.eq_map_rename (by rw [decls_eq, h.map_decl]) ids h.headers_eq
      (fun a ha => h'.headers_eq a (perm'.mem_iff.1 ha)) vars
  exact ⟨σ, τ, renamed ▸ perm'.symm, fixedIds, fixedVars⟩

namespace Reorders

variable {σ : Equiv.Perm ClassId} {τ : Equiv.Perm VarId}

/-- A renamed member is a member. -/
lemma rename_mem (r : Reorders σ τ batch batch') {a : Allocated} (ha : a ∈ batch) :
    a.rename σ τ ∈ batch' :=
  r.perm.mem_iff.2 (List.mem_map_of_mem ha)

/-- A member is a renamed member. -/
lemma exists_of_mem (r : Reorders σ τ batch batch') {a' : Allocated} (ha' : a' ∈ batch') :
    ∃ a ∈ batch, a.rename σ τ = a' :=
  List.mem_map.1 (r.perm.mem_iff.1 ha')

/-- A class that one order does not use is not used by the other. -/
lemma not_mem_ids (r : Reorders σ τ batch batch') {id : ClassId} (h : id ∉ batch.map (·.id)) :
    id ∉ batch'.map (·.id) := by
  intro mem
  obtain ⟨a', ha', rfl⟩ := List.mem_map.1 mem
  obtain ⟨a, ha, rfl⟩ := r.exists_of_mem ha'
  refine h (List.mem_map.2 ⟨a, ha, ?_⟩)
  exact σ.injective (r.ids _ h).symm

/-- A variable that one order does not use is not used by the other. -/
lemma not_mem_vars (r : Reorders σ τ batch batch') {x : VarId} (h : x ∉ Allocated.vars batch) :
    x ∉ Allocated.vars batch' := by
  intro mem
  obtain ⟨a', ha', hx⟩ := List.mem_flatMap.1 mem
  obtain ⟨a, ha, rfl⟩ := r.exists_of_mem ha'
  obtain ⟨f', hf', rfl⟩ := List.mem_map.1 hx
  obtain ⟨f, hf, rfl⟩ := List.mem_map.1 hf'
  refine h (List.mem_flatMap.2 ⟨a, ha, List.mem_map.2 ⟨f, hf, ?_⟩⟩)
  exact τ.injective (r.vars _ h).symm

/-- The classes that were there keep their numbers. -/
lemma apply_id (r : Reorders σ τ batch batch') (h : t.Allocates decls batch)
    (h' : t.Allocates decls' batch') {id : ClassId} (hid : id ∈ t.ids) : σ id = id := by
  by_cases mem : id ∈ batch.map (·.id)
  · obtain ⟨a, ha, rfl⟩ := List.mem_map.1 mem
    -- the name of the class was there, so it has the same number in both orders
    have old : t.find? a.decl.name = some a.id := by
      rcases find?_or_length_le_internAll h.distinct _ (h.mem_zip ha) with old | fresh
      · exact old
      · obtain ⟨i, hi, eq⟩ := List.mem_map.1 hid
        have lt : a.id.index < t.slots.length := eq ▸ List.mem_range.1 hi
        exact absurd lt (Nat.not_lt.2 fresh)
    have found := h'.find?_name (r.rename_mem ha)
    have kept : (t.withNames decls').find? a.decl.name = some a.id := find?_internAll_of_find? old
    exact Option.some.inj (found.symm.trans kept)
  · exact r.ids id mem

/-- The variables that were there keep their numbers. -/
lemma apply_var (r : Reorders σ τ batch batch') (h : t.Allocates decls batch) {x : VarId}
    (hx : x ∈ t.varIds) : τ x = x := by
  refine r.vars x fun mem => ?_
  obtain ⟨a, ha, hx'⟩ := List.mem_flatMap.1 mem
  exact h.not_mem_varIds ha hx' hx

/-- The names are renamed with their classes. -/
lemma nameOf?_withNames (r : Reorders σ τ batch batch') (h : t.Allocates decls batch)
    (h' : t.Allocates decls' batch') (id : ClassId) :
    (t.withNames decls').nameOf? (σ id) = (t.withNames decls).nameOf? id := by
  by_cases mem : id ∈ batch.map (·.id)
  · obtain ⟨a, ha, rfl⟩ := List.mem_map.1 mem
    rw [h.nameOf?_id ha]
    exact h'.nameOf?_id (r.rename_mem ha)
  · have mem' := r.not_mem_ids mem
    rw [h.map_id] at mem
    rw [h'.map_id] at mem'
    rw [r.ids id (by rwa [h.map_id])]
    exact (nameOf?_internAll_of_not_mem mem').trans (nameOf?_internAll_of_not_mem mem).symm

/-- The name index is renamed.

**Proof sketch.** A name of the batch is found under the number of its declaration, which is
renamed. Another name is found where it was before, and its number is in use, so the renaming leaves
it alone. -/
lemma find?_withNames (r : Reorders σ τ batch batch') (h : t.Allocates decls batch)
    (h' : t.Allocates decls' batch') (name : String) :
    (t.withNames decls').find? name = ((t.withNames decls).find? name).map σ := by
  by_cases mem : ∃ a ∈ batch, a.decl.name = name
  · obtain ⟨a, ha, rfl⟩ := mem
    rw [h.find?_name ha]
    exact h'.find?_name (r.rename_mem ha)
  · have notIn : name ∉ decls.map (·.name) := by
      rw [← h.map_decl, List.map_map]
      exact fun hname => mem (List.mem_map.1 hname)
    have notIn' : name ∉ decls'.map (·.name) := by
      rw [← h'.map_decl, List.map_map]
      intro hname
      obtain ⟨a', ha', hname⟩ := List.mem_map.1 hname
      obtain ⟨a, ha, rfl⟩ := r.exists_of_mem ha'
      exact mem ⟨a, ha, hname⟩
    rw [withNames, withNames, find?_internAll_of_not_mem notIn, find?_internAll_of_not_mem notIn']
    cases hfind : t.find? name with
    | none => rfl
    | some id =>
      have inUse : id ∈ t.ids := by
        rw [mem_ids_iff, nameOf?_of_find? hfind]
        rfl
      rw [Option.map_some, r.apply_id h h' inUse]

end Reorders

/-! ## Acceptance -/

/-- Each signature of a declaration denotes one type. -/
lemma length_of_resolveAll {a : Allocated} {texts : List String} {tys : List Ty}
    (h : a.resolveAll t texts = .ok tys) : tys.length = texts.length := by
  induction texts generalizing tys with
  | nil =>
    cases h
    rfl
  | cons text texts ih =>
    unfold Allocated.resolveAll at h
    split at h
    · cases h
    · obtain ⟨rest, hrest, rfl⟩ := exists_of_map_eq_ok h
      rw [List.length_cons, List.length_cons, ih hrest]

/-- A definition is accepted if its signatures are, and a class extends at most one other. -/
lemma exists_ok_definition_iff {a : Allocated} :
    (∃ d, t.definition a = .ok d) ↔
      (∃ tys, a.resolveAll t a.decl.extended = .ok tys) ∧
        (∃ tys, a.resolveAll t a.decl.implemented = .ok tys) ∧
        (a.decl.kind = .cls → a.decl.extended.length ≤ 1) := by
  unfold definition
  cases hext : a.resolveAll t a.decl.extended with
  | error e => simp [bind, Except.bind]
  | ok extended =>
    have length := length_of_resolveAll hext
    cases a.resolveAll t a.decl.implemented with
    | error e => simp [bind, Except.bind]
    | ok implemented =>
      rw [← length]
      cases a.decl.kind with
      | interface => simp [bind, Except.bind, pure, Except.pure]
      | cls =>
        rcases extended with _ | ⟨superClass, _ | _⟩ <;>
          simp [bind, Except.bind, pure, Except.pure]

/-- Whether the signatures of a declaration are accepted does not depend on the numbers. -/
lemma exists_ok_resolveAll_rename {t' : ClassTable} {σ : ClassId → ClassId} {τ : VarId → VarId}
    (hfind : ∀ name, t'.find? name = (t.find? name).map σ) (a : Allocated) (texts : List String) :
    (∃ tys, (a.rename σ τ).resolveAll t' texts = .ok tys) ↔
      ∃ tys, a.resolveAll t texts = .ok tys := by
  rw [a.resolveAll_rename hfind]
  cases a.resolveAll t texts <;> simp [Except.map]

/-- A type parameter is accepted if its bounds are. -/
lemma exists_ok_param_iff {a : Allocated} {header : ParamHeader} :
    (∃ p, a.param t header = .ok p) ↔ ∃ tys, a.resolveAll t header.bounds = .ok tys := by
  unfold Allocated.param
  split
  · next h =>
    rw [List.isEmpty_iff] at h
    simp [h, Allocated.resolveAll]
  · cases a.resolveAll t header.bounds <;> simp [Except.map]

/-- **Whether a batch is accepted does not depend on its order.**

**Proof sketch.** Numbers are given out in any order or in none. The signatures are resolved where
all names are interned, and whether they resolve is the same after a renaming. -/
theorem exists_ok_declare_of_perm (perm : decls.Perm decls')
    (h : ∃ ids, (t.declare decls).2 = .ok ids) : ∃ ids, (t.declare decls').2 = .ok ids := by
  obtain ⟨ids, hids⟩ := h
  obtain ⟨batch, halloc⟩ := exists_allocates_of_declare hids
  obtain ⟨batch', halloc'⟩ : ∃ batch', t.Allocates decls' batch' := by
    obtain ⟨distinct, readable⟩ := exists_allocates_iff.1 ⟨batch, halloc⟩
    exact exists_allocates_iff.2 ⟨(perm.map (·.name)).nodup_iff.1 distinct,
      fun decl hdecl => readable decl (perm.mem_iff.2 hdecl)⟩
  obtain ⟨σ, τ, r⟩ := exists_reorders halloc halloc' perm
  have accepted := halloc.exists_ok_declare_iff.1 ⟨ids, hids⟩
  have same := fun a texts =>
    exists_ok_resolveAll_rename (τ := τ) (r.find?_withNames halloc halloc') a texts
  refine halloc'.exists_ok_declare_iff.2 fun a' ha' => ?_
  obtain ⟨a, ha, rfl⟩ := r.exists_of_mem ha'
  obtain ⟨params, definition⟩ := accepted a ha
  refine ⟨fun f' hf' => ?_, ?_⟩
  · obtain ⟨f, hf, rfl⟩ := List.mem_map.1 hf'
    rw [exists_ok_param_iff, same, ← exists_ok_param_iff]
    exact params f hf
  · rw [exists_ok_definition_iff] at definition ⊢
    rw [same, same]
    exact definition

/-! ## Renamed tables -/

/-- All classes and variables that the entries of a table mention have a property. -/
structure MentionsOnly (C : ClassId → Prop) (V : VarId → Prop) (t : ClassTable) : Prop where
  typeParams : ∀ id d, t.classDef? id = some d → ∀ x ∈ d.typeParams, V x
  types : ∀ ty, t.Holds ty → ty.MentionsOnly C V
  known : ∀ p ∈ t.known.entries, C p.1

/-- Properties may be weakened. -/
lemma MentionsOnly.mono {C C' : ClassId → Prop} {V V' : VarId → Prop} (h : t.MentionsOnly C V)
    (classes : ∀ id, C id → C' id) (vars : ∀ x, V x → V' x) : t.MentionsOnly C' V' where
  typeParams id d hd x hx := vars x (h.typeParams id d hd x hx)
  types ty hty := ⟨fun id args hid => classes id ((h.types ty hty).1 id args hid),
    fun x hx => vars x ((h.types ty hty).2 x hx)⟩
  known p hp := classes p.1 (h.known p hp)

/-- A consistent table mentions only numbers that it has given out. -/
lemma Consistent.mentionsOnly (h : t.Consistent) :
    t.MentionsOnly (· ∈ t.ids) (· ∈ t.varIds) where
  typeParams := h.typeParams_mem
  types := h.mentions
  known p hp := h.mem_ids p.2 p.1 (h.known p hp).2

end ClassTable

/-- Well-known classes whose numbers stay are not changed. -/
lemma WellKnown.rename_eq_self {σ : ClassId → ClassId} {w : WellKnown}
    (h : ∀ p ∈ w.entries, σ p.1 = p.1) : w.rename σ = w := by
  have box (p : Primitive) : σ (w.box p) = w.box p :=
    h (w.box p, p.boxName) (List.mem_append_right _ (List.mem_map_of_mem p.mem_all))
  simp only [WellKnown.entries, List.cons_append, List.nil_append, List.forall_mem_cons] at h
  obtain ⟨object, string, integer, cloneable, serializable, -⟩ := h
  simp only [WellKnown.rename, object, string, integer, cloneable, serializable, box]

/-- A declared type parameter is renamed with its declaration. -/
lemma Allocated.param_rename {t t' : ClassTable} {σ : ClassId → ClassId} {τ : VarId → VarId}
    (hfind : ∀ name, t'.find? name = (t.find? name).map σ)
    (hobject : t'.known.object = σ t.known.object) (a : Allocated) (header : ParamHeader) :
    (a.rename σ τ).param t' header = (a.param t header).map (TypeParam.rename σ τ) := by
  unfold Allocated.param
  rw [a.resolveAll_rename hfind]
  split
  · simp [Except.map, ClassTable.unbounded, ClassTable.objectTy, TypeParam.rename, Ty.rename,
      hobject]
  · cases a.resolveAll t header.bounds <;> simp [Except.map, TypeParam.rename]

namespace ClassTable

variable {t t₁ t₂ : ClassTable} {decls decls' : List ClassDecl} {batch batch' : List Allocated}

/-- The names of a batch do not change which classes are well known. -/
lemma known_withNames (t : ClassTable) (decls : List ClassDecl) :
    (t.withNames decls).known = t.known := by
  have edits := (edits_internAll t (decls.map (·.name))).1
  exact edits.known

/-- **Two orders of a batch lead to tables that differ by a renaming**, provided that it keeps
everything that the table mentions.

**Proof sketch.** What is written to a number of the batch is resolved from the same text in both
orders, in tables whose name indices differ by the renaming, so the results differ by it too
(`definition_rename`, `Allocated.param_rename`). What stands at another number is not written, and
mentions only what the renaming keeps. -/
theorem Reorders.renames {σ : Equiv.Perm ClassId} {τ : Equiv.Perm VarId}
    (r : Reorders σ τ batch batch') (h : t.Allocates decls batch) (h' : t.Allocates decls' batch')
    (done : t.Declares decls batch t₁) (done' : t.Declares decls' batch' t₂)
    (kept : t.MentionsOnly (fun id => σ id = id) (fun x => τ x = x)) : Renames σ τ t₁ t₂ := by
  have hfind := r.find?_withNames h h'
  have hknown : t.known.rename σ = t.known := WellKnown.rename_eq_self kept.known
  have hobject : (t.withNames decls').known.object = σ (t.withNames decls).known.object := by
    rw [known_withNames, known_withNames]
    exact (congrArg (·.object) hknown).symm
  -- an entry at a number of the batch is resolved anew, any other one stays as it was
  refine ⟨fun id => ?_, fun id => ?_, fun name => ?_, fun x => ?_, ?_⟩
  · rw [done'.agrees.nameOf?, done.agrees.nameOf?, r.nameOf?_withNames h h']
  · by_cases mem : id ∈ batch.map (·.id)
    · obtain ⟨a, ha, rfl⟩ := List.mem_map.1 mem
      obtain ⟨d, hd, found⟩ := done.defined a ha
      obtain ⟨d', hd', found'⟩ := done'.defined _ (r.rename_mem ha)
      rw [definition_rename hfind σ.injective hobject, hd] at hd'
      cases hd'
      rw [found]
      exact found'
    · have mem' := r.not_mem_ids mem
      rw [r.ids id mem, done.classDef? id (h.map_id ▸ mem), done'.classDef? id (h'.map_id ▸ mem')]
      cases hd : t.classDef? id with
      | none => rfl
      | some d =>
        rw [Option.map_some, ClassDef.rename_eq_self (kept.typeParams id d hd)
          fun sup hsup => kept.types sup (.inl ⟨id, d, hd, hsup⟩)]
  · rw [find?_congr done'.agrees.nameOf?, find?_congr done.agrees.nameOf?, hfind]
  · by_cases mem : x ∈ Allocated.vars batch
    · obtain ⟨a, ha, hx⟩ := List.mem_flatMap.1 mem
      obtain ⟨f, hf, rfl⟩ := List.mem_map.1 hx
      obtain ⟨p, hp, found⟩ := done.bounded a ha f hf
      obtain ⟨p', hp', found'⟩ := done'.bounded _ (r.rename_mem ha) (τ f.1, f.2)
        (List.mem_map_of_mem (f := fun f : VarId × ParamHeader => (τ f.1, f.2)) hf)
      rw [Allocated.param_rename hfind hobject, hp] at hp'
      cases hp'
      rw [found]
      exact found'
    · rw [r.vars x mem, done.typeParam? x mem, done'.typeParam? x (r.not_mem_vars mem)]
      cases hp : t.typeParam? x with
      | none => rfl
      | some p =>
        rw [Option.map_some, TypeParam.rename_eq_self
          fun b hb => kept.types b (.inr ⟨x, p, hp, hb⟩)]
  · rw [done'.agrees.known, done.agrees.known, known_withNames, known_withNames, hknown]

/-- **The order of a batch does not matter.** It is accepted in one order if it is in another. The
two tables then differ by a renaming of the numbers that the batch has given out, which matches
classes by their names and type parameters by their positions, and takes the number returned for
each declaration in one order to the one returned for it in the other. This holds of every table
that does not already mention a number that the batch gives out.

**Proof sketch.** Acceptance is symmetric in the two orders (`exists_ok_declare_of_perm`). If both
are accepted, their allocated batches differ by a renaming (`exists_reorders`), which keeps what was
in use before and what the batch does not give out. So `Reorders.renames` applies, and the numbers
returned for the declarations are those of the allocated batches. -/
theorem declare_perm (t : ClassTable) {decls decls' : List ClassDecl} (perm : decls.Perm decls') :
    ((∃ ids, (t.declare decls).2 = .ok ids) ↔ ∃ ids, (t.declare decls').2 = .ok ids) ∧
      ∀ ids ids', (t.declare decls).2 = .ok ids → (t.declare decls').2 = .ok ids' →
        t.MentionsOnly (fun id => id ∈ t.ids ∨ id ∉ (t.declare decls).1.ids)
          (fun x => x ∈ t.varIds ∨ x ∉ (t.declare decls).1.varIds) →
        ∃ σ τ, (∀ id ∈ t.ids, σ id = id) ∧ (∀ x ∈ t.varIds, τ x = x) ∧
          Renames σ τ (t.declare decls).1 (t.declare decls').1 ∧
          ((decls.zip ids).map fun p => (p.1, σ p.2)).Perm (decls'.zip ids') := by
  refine ⟨⟨exists_ok_declare_of_perm perm, exists_ok_declare_of_perm perm.symm⟩, ?_⟩
  intro ids ids' hids hids' mentions
  obtain ⟨batch, h⟩ := exists_allocates_of_declare hids
  obtain ⟨batch', h'⟩ := exists_allocates_of_declare hids'
  obtain ⟨rfl, done⟩ := h.declares hids
  obtain ⟨rfl, done'⟩ := h'.declares hids'
  obtain ⟨σ, τ, r⟩ := exists_reorders h h' perm
  have keptIds : ∀ id ∈ t.ids, σ id = id := fun id hid => r.apply_id h h' hid
  have keptVars : ∀ x ∈ t.varIds, τ x = x := fun x hx => r.apply_var h hx
  refine ⟨σ, τ, keptIds, keptVars, r.renames h h' done done' (mentions.mono ?_ ?_), ?_⟩
  · rintro id (old | unused)
    · exact keptIds id old
    · refine r.ids id fun mem => unused ?_
      obtain ⟨a, ha, rfl⟩ := List.mem_map.1 mem
      rw [mem_ids_iff, done.agrees.nameOf?, ← mem_ids_iff]
      exact h.mem_ids a ha
  · rintro x (old | unused)
    · exact keptVars x old
    · refine r.vars x fun mem => unused ?_
      obtain ⟨a, ha, hx⟩ := List.mem_flatMap.1 mem
      rw [h.varIds_declare]
      exact h.mem_varIds ha x hx
  · rw [← h.map_eq, ← h'.map_eq, List.map_map]
    refine .trans ?_ (r.perm.map _).symm
    rw [List.map_map]
    exact .refl _

/-- Declarations that refer to each other, one of them with a bound that mentions itself. -/
def linked : List ClassDecl :=
  [{ name := "com.example.Node", typeParams := ["T extends com.example.Key<T>", "V"],
     extended := ["com.example.Base<V>"] },
    { name := "com.example.Base", typeParams := ["E"] },
    { name := "com.example.Key", kind := .interface, typeParams := ["K"] }]

/-- They are accepted in both orders. -/
lemma declare_linked : (core.declare linked).2 = .ok [⟨13⟩, ⟨14⟩, ⟨15⟩] ∧
    (core.declare linked.reverse).2 = .ok [⟨13⟩, ⟨14⟩, ⟨15⟩] := by
  decide +kernel

/-- The two orders of `linked` lead to tables that differ by a renaming. -/
theorem declare_linked_reverse :
    (core.declare linked).2 = .ok [⟨13⟩, ⟨14⟩, ⟨15⟩] ∧
      (core.declare linked.reverse).2 = .ok [⟨13⟩, ⟨14⟩, ⟨15⟩] ∧
      ∃ σ τ, (∀ id ∈ core.ids, σ id = id) ∧ (∀ x ∈ core.varIds, τ x = x) ∧
        Renames σ τ (core.declare linked).1 (core.declare linked.reverse).1 ∧
        ((linked.zip [⟨13⟩, ⟨14⟩, ⟨15⟩]).map fun p => (p.1, σ p.2)).Perm
          (linked.reverse.zip [⟨13⟩, ⟨14⟩, ⟨15⟩]) := by
  obtain ⟨accepted, accepted'⟩ := declare_linked
  have mentions := (regular_core.consistent separate_core).mentionsOnly
  exact ⟨accepted, accepted', (declare_perm core linked.reverse_perm.symm).2 _ _ accepted accepted'
    (mentions.mono (fun _ => .inl) fun _ => .inl)⟩

/-- A definition of `Number` that implements the class of the number 13, which the core table has
not given out. -/
def anticipatingNumber : ClassDef :=
  { name := "java.lang.Number", superClass := some (.cls Core.object []),
    interfaces := [.cls ⟨13⟩ []] }

/-- The core table with that definition. -/
def anticipating : ClassTable :=
  core.define Core.number anticipatingNumber

/-- Two interfaces that do not refer to each other. -/
def unrelated : List ClassDecl :=
  [{ name := "com.example.A", kind := .interface }, { name := "com.example.B", kind := .interface }]

/-- **A number that a table mentions before it is given out makes the order of a batch matter**: it
becomes that of whichever class comes first, and no renaming can undo this.

**Proof sketch.** A renaming would take the number of the first interface from 13 to 14, and with it
the interface of `Number`. But the interface of `Number` is 13 in both tables. -/
theorem not_renames_anticipating :
    (anticipating.declare unrelated).2 = .ok [⟨13⟩, ⟨14⟩] ∧
      (anticipating.declare unrelated.reverse).2 = .ok [⟨13⟩, ⟨14⟩] ∧
      ¬ ∃ σ τ, (∀ id ∈ anticipating.ids, σ id = id) ∧ (∀ x ∈ anticipating.varIds, τ x = x) ∧
        Renames σ τ (anticipating.declare unrelated).1
          (anticipating.declare unrelated.reverse).1 := by
  refine ⟨by decide, by decide, ?_⟩
  rintro ⟨σ, τ, kept, -, renames⟩
  have first : (anticipating.declare unrelated).1.find? "com.example.A" = some ⟨13⟩ := by decide
  have second : (anticipating.declare unrelated.reverse).1.find? "com.example.A" = some ⟨14⟩ := by
    decide
  have moved : σ ⟨13⟩ = ⟨14⟩ := by
    have found := renames.find? "com.example.A"
    rw [first, second] at found
    exact (Option.some.inj found).symm
  have before : (anticipating.declare unrelated).1.classDef? Core.number =
      some anticipatingNumber := by decide
  have after : (anticipating.declare unrelated.reverse).1.classDef? Core.number =
      some anticipatingNumber := by decide
  have number := renames.classDef? Core.number
  rw [kept Core.number (by decide), before, after, Option.map_some, Option.some.injEq] at number
  have interfaces := congrArg (·.interfaces) number
  simp [anticipatingNumber, ClassDef.rename, Ty.rename, moved] at interfaces

end ClassTable

end ContainerLint
