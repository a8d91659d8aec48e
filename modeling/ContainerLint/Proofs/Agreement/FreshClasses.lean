import ContainerLint.Proofs.Agreement.Analysis
import ContainerLint.Proofs.Analysis.FirstConclusive
import ContainerLint.Proofs.Declaration.Consistency

/-!
# Fresh classes change no answer

A batch that declares only new names leaves every entry of a table as it is. The entries of a
consistent table lead to each other and never to a number that is not in use yet. So whatever was
asked about the classes and variables of the table before the batch has the same answer after it,
also with an index that was built before.

## Main definitions

* `ClassTable.region` — the classes and variables of a table, without open names.

## Main results

* `ClassTable.typeParam?_declare` — a batch leaves the type parameters of a table alone.
* `ClassTable.Consistent.closedOn_region` — the entries of a reachable table lead to each other.
* `ClassTable.Reachable.agreesAbove_declare` — a batch of new names agrees with the table before it.
* `ClassTable.declare_fresh_keeps_answers` — queries and analyses have the answers that they had.
-/

set_option autoImplicit false

namespace ContainerLint

namespace ClassTable

variable {t : ClassTable} {decls : List ClassDecl}

/-- The classes and variables that are in use in a table. Open names are left out, since a new class
may be what they refer to. -/
def region (t : ClassTable) : Region where
  classes id := id ∈ t.ids
  vars x := x ∈ t.varIds
  names _ := False

/-! ## What a batch leaves alone -/

/-- Allocating type parameters adds to those that are there.

**Proof sketch.** By induction on the texts. A text that cannot be read ends the run, and any other
appends one parameter before the rest is allocated. -/
lemma params_prefix_allocateParams (className : String) (taken : List String) (t : ClassTable)
    (texts : List String) : t.params <+: (allocateParams className taken t texts).1.params := by
  induction texts generalizing t taken with
  | nil => exact List.prefix_rfl
  | cons text texts ih =>
    unfold allocateParams
    cases ParamHeader.parse? text with
    | none => exact List.prefix_rfl
    | some header =>
      have first : t.params <+:
          (t.addParam { name := header.name, upperBounds := [t.objectTy] }).1.params :=
        List.prefix_append _ _
      dsimp only
      split
      · exact first
      · have rest := ih (header.name :: taken)
          (t.addParam { name := header.name, upperBounds := [t.objectTy] }).1
        split <;> next hrun =>
          rw [hrun] at rest
          exact first.trans rest

/-- Allocating a declaration adds to the type parameters that are there. -/
lemma params_prefix_allocate (t : ClassTable) (p : ClassDecl × ClassId) :
    t.params <+: (allocate t p).1.params := by
  have params := params_prefix_allocateParams p.1.name [] t p.1.typeParams
  unfold allocate
  dsimp only
  split <;> next hrun =>
    rw [hrun] at params
    exact params

/-- **A batch leaves the type parameters of a table alone**, whether it succeeds or fails.

**Proof sketch.** New type parameters are added behind the old ones, and bounds are set for new ones
only. -/
theorem typeParam?_declare {x : VarId} (hx : x ∈ t.varIds) (decls : List ClassDecl) :
    (t.declare decls).1.typeParam? x = t.typeParam? x := by
  by_cases halloc : ∃ batch, t.Allocates decls batch
  · obtain ⟨batch, halloc⟩ := halloc
    have old : x ∉ batch.flatMap fun a => a.formals.map (·.1) := by
      intro mem
      obtain ⟨a, ha, hxa⟩ := List.mem_flatMap.1 mem
      exact halloc.not_mem_varIds ha hxa hx
    obtain ⟨agrees, kept, -⟩ := halloc.bounds
    obtain ⟨⟨-, params⟩, -⟩ := halloc.definitions agrees
    rcases halloc.declare_fst with eq | eq
    · rw [eq]
      exact kept x old
    · rw [eq, typeParam?, params]
      exact kept x old
  · have grown : t.params <+: (TableStep.each allocate (t.withNames decls)
        (decls.zip (t.numbersOf decls))).1.params := by
      refine TableStep.each_keeps (P := fun s => t.params <+: s.params)
        (fun p _ s hs => hs.trans (params_prefix_allocate s p)) ?_
      exact ⟨[], by rw [List.append_nil, withNames, params_internAll]⟩
    rcases declare_of_not_allocates halloc with eq | eq
    · rw [eq]
    · obtain ⟨p, hp⟩ := Option.isSome_iff_exists.1 (mem_varIds_iff.1 hx)
      obtain ⟨added, hadded⟩ := grown
      have lt := (List.getElem?_eq_some_iff.1 hp).1
      rw [eq, typeParam?, ← hadded, List.getElem?_append_left lt]
      rfl

/-- A batch keeps the numbers that are in use. -/
lemma mem_ids_declare {id : ClassId} (h : id ∈ t.ids) (decls : List ClassDecl) :
    id ∈ (t.declare decls).1.ids := by
  obtain ⟨name, hname⟩ := Option.isSome_iff_exists.1 (mem_ids_iff.1 h)
  rw [mem_ids_iff, (edits_declare t decls).nameOf? hname]
  rfl

/-- A batch of new names leaves the definitions of a table alone. -/
lemma classDef?_declare_of_fresh (fresh : ∀ decl ∈ decls, t.find? decl.name = none) {id : ClassId}
    (hid : id ∈ t.ids) : (t.declare decls).1.classDef? id = t.classDef? id := by
  obtain ⟨name, hname⟩ := Option.isSome_iff_exists.1 (mem_ids_iff.1 hid)
  refine classDef?_declare hname fun decl hdecl eq => ?_
  exact nameOf?_ne_of_find?_eq_none (eq ▸ fresh decl hdecl) id hname

/-! ## A closed region -/

/-- What a consistent table holds is in its region. -/
lemma Consistent.in_region (consistent : t.Consistent) {ty : Ty} (h : t.Holds ty) :
    ty.In t.region := by
  obtain ⟨classes, vars⟩ := consistent.mentions ty h
  refine Ty.in_of_subterms fun s hs => ?_
  cases s with
  | cls id args => exact classes id args hs
  | var x => exact vars x hs
  | named name => exact absurd trivial (consistent.written ty h _ hs)
  | _ => trivial

/-- The well-known classes of a consistent table are in use. -/
lemma Consistent.known_mem_ids (consistent : t.Consistent) {p : ClassId × String}
    (hp : p ∈ t.known.entries) : p.1 ∈ t.ids := by
  by_contra unused
  have defined := (consistent.known p hp).1
  rw [classDef?_eq_none unused] at defined
  cases defined

/-- **The entries of a consistent table lead to each other.** -/
theorem Consistent.closedOn_region (consistent : t.Consistent) : t.ClosedOn t.region where
  arraySuper id hid := by
    have known {p : ClassId × String} := consistent.known_mem_ids (p := p)
    simp only [isArraySuper, Bool.or_eq_true, beq_iff_eq] at hid
    rcases hid with (rfl | rfl) | rfl
    · exact known (p := (_, "java.lang.Object")) (by simp [WellKnown.entries])
    · exact known (p := (_, "java.lang.Cloneable")) (by simp [WellKnown.entries])
    · exact known (p := (_, "java.io.Serializable")) (by simp [WellKnown.entries])
  box p := by
    refine consistent.known_mem_ids (p := (_, p.boxName)) (List.mem_append_right _ ?_)
    exact List.mem_map_of_mem p.mem_all
  lookup _ _ hname := hname.elim
  bounds x p _ hp b hb := consistent.in_region (.inr ⟨x, p, hp, List.mem_append_left _ hb⟩)
  typeParams id d _ hd := consistent.typeParams_mem id d hd
  supertypes id d _ hd sup hsup := consistent.in_region (.inl ⟨id, d, hd, hsup⟩)

/-- A reachable table is consistent. -/
lemma Reachable.consistent (h : t.Reachable) : t.Consistent := by
  have both : t.Regular ∧ t.Separate := by
    induction h with
    | core => exact ⟨regular_core, separate_core⟩
    | declare decls _ ih => exact regular_and_separate_perform ih (.declare decls)
  exact both.1.consistent both.2

/-! ## Answers -/

/-- **A batch of new names agrees with the table before it** on everything in use there. -/
theorem Reachable.agreesAbove_declare (h : t.Reachable)
    (fresh : ∀ decl ∈ decls, t.find? decl.name = none) :
    t.AgreesAbove t.region (t.declare decls).1 := by
  have agrees : t.AgreesOn t.region (t.declare decls).1 :=
    { closed := h.consistent.closedOn_region
      known := (edits_declare t decls).known
      lookup := fun _ hname => hname.elim
      typeParam? := fun x hx => typeParam?_declare hx decls
      classDef? := fun id hid => by
        rw [classDef?_declare_of_fresh fresh hid]
        cases t.classDef? id with
        | none => exact .none
        | some d => exact .some (.refl d) }
  refine agrees.agreesAbove fun id d d' hid hd hd' => ?_
  rw [classDef?_declare_of_fresh fresh hid, hd] at hd'
  obtain rfl := Option.some.inj hd'
  exact ⟨rfl, fun _ => rfl⟩

/-- **Fresh classes change no answer, and an old index stays valid.** Let a batch declare only names
that are new in a reachable table, whether it succeeds or fails. Then for types over the classes and
variables of the table:

* erasures, direct supertypes, closures and the arguments of ancestors are the same after the batch;
* so are subtyping, castability and the verdicts under both policies;
* the analysis of a call against any catalog is the same after the batch, without an index, with an
  index that was built before it, and with an index that is built after it for the same classes of
  the table and any new ones.

**Proof sketch.** The classes and variables of a reachable table form a region in which it agrees
with the table after the batch (`Reachable.agreesAbove_declare`). Each answer is a question about
types of this region. An index from before the batch agrees with itself, and one from after it
agrees on the region. -/
theorem declare_fresh_keeps_answers (reachable : t.Reachable) (decls : List ClassDecl)
    (fresh : ∀ decl ∈ decls, t.find? decl.name = none) :
    let t' := (t.declare decls).1
    (∀ ty, ty.In t.region →
      t'.erasure ty = t.erasure ty ∧ t'.directSupertypes ty = t.directSupertypes ty ∧
      t'.supertypeClosure ty = t.supertypeClosure ty ∧
      ∀ ancestor, t'.ancestorArgs ty ancestor = t.ancestorArgs ty ancestor) ∧
    (∀ a b, a.In t.region → b.In t.region →
      t'.isSubtype a b = t.isSubtype a b ∧ t'.isCastable a b = t.isCastable a b ∧
      ∀ policy, t'.decide policy a b = t.decide policy a b) ∧
    ∀ (c : ResolvedCatalog) (policy : Policy) (call : CallSite), call.In t.region →
      c.analyze t' none policy call = c.analyze t none policy call ∧
      ∀ ids ids' : List ClassId, (∀ id ∈ t.ids, id ∈ ids' ↔ id ∈ ids) →
        c.analyze t' (some (.build t ids)) policy call =
          c.analyze t (some (.build t ids)) policy call ∧
        c.analyze t' (some (.build t' ids')) policy call =
          c.analyze t (some (.build t ids)) policy call := by
  intro t'
  have agrees : t.AgreesAbove t.region t' := reachable.agreesAbove_declare fresh
  refine ⟨fun ty hty => ?_, fun a b ha hb => ?_, fun c policy call hcall => ?_⟩
  · exact ⟨agrees.erasure hty, agrees.direct ty hty, agrees.supertypeClosure hty,
      fun ancestor => (agrees.shared_ancestorArgs hty ancestor).1⟩
  · exact ⟨agrees.isSubtype ha (agrees.erasure hb), agrees.isCastable ha hb,
      fun policy => agrees.decide policy ha hb⟩
  · refine ⟨agrees.analyze .none policy hcall c, fun ids ids' same => ⟨?_, ?_⟩⟩
    · exact agrees.analyze (.some (agrees.closed.build ids)) policy hcall c
    · exact agrees.analyze (.some (agrees.build same)) policy hcall c

/-! ## A class below an old one -/

open ResolvedCatalog

/-- A generic class below `Right`, with a bound of its own. -/
def leafDecl : ClassDecl where
  name := "com.example.Leaf"
  typeParams := ["U extends com.example.Left"]
  extended := ["com.example.Right"]

/-- The call of `put` on `Right` is over classes of the table `skewed`. -/
lemma in_region_putCall : putCall.In skewed.region := by
  have mem : ∀ id ∈ [⟨0⟩, ⟨9⟩, ⟨16⟩], id ∈ skewed.ids := by
    rw [skewed_eq]
    decide
  have raw {id : ClassId} (hid : id ∈ [(⟨0⟩ : ClassId), ⟨9⟩, ⟨16⟩]) :
      (Ty.cls id []).In skewed.region := .cls (mem id hid) (by simp)
  refine ⟨raw (by decide), fun ty hty => ?_, fun ty hty => ?_⟩
  · simp only [putCall, List.mem_cons, List.not_mem_nil, or_false, or_self] at hty
    rw [hty]
    exact raw (by decide)
  · simp only [putCall, List.mem_cons, List.not_mem_nil, or_false] at hty
    rcases hty with rfl | rfl
    · exact raw (by decide)
    · exact .unknown

/-- **The rule at work.** After a class below `Right` has been declared, the call of `put` on
`Right` is found to be wrong as before, with the index from before the declaration and with one that
holds the new class too.

**Proof sketch.** The class is new, and the call is over classes of the table, so both analyses are
the one from before the declaration, which is `analyze_putCall`. -/
theorem declare_leaf_keeps_answers :
    skewed.Reachable ∧
    (∀ decl ∈ [leafDecl], skewed.find? decl.name = none) ∧
    putCall.In skewed.region ∧
    let t' := (skewed.declare [leafDecl]).1
    ∀ index ∈ [putChecker.index, AncestorIndex.build t' t'.ids],
      putCheck.catalog.analyze t' (some index) .strict putCall =
        { verdict := .incompatible,
          mismatch := some
            { entry := putEntry 0, parameter := .cls ⟨1⟩ [], argument := .cls ⟨9⟩ [] } } := by
  have reachable : skewed.Reachable := .declare _ .core
  have fresh : ∀ decl ∈ [leafDecl], skewed.find? decl.name = none := by
    rw [skewed_eq]
    decide
  obtain ⟨-, -, analyses⟩ := declare_fresh_keeps_answers reachable [leafDecl] fresh
  obtain ⟨-, indexed⟩ := analyses putCheck.catalog .strict putCall in_region_putCall
  obtain ⟨old, new⟩ := indexed skewed.ids (skewed.declare [leafDecl]).1.ids
    fun id hid => iff_of_true (mem_ids_declare hid [leafDecl]) hid
  refine ⟨reachable, fresh, in_region_putCall, fun index hindex => ?_⟩
  rw [List.mem_cons, List.mem_singleton] at hindex
  rcases hindex with rfl | rfl
  · exact old.trans analyze_putCall
  · exact new.trans analyze_putCall

end ClassTable

end ContainerLint
