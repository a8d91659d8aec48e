import ContainerLint.Proofs.Declaration.Interning
import ContainerLint.Proofs.Relation.ErasedForms
import ContainerLint.Proofs.Relation.SubtypeOrder
import ContainerLint.Proofs.Ty.Substitution
import ContainerLint.Ty.Printer

/-!
# Tables that agree on a region

A query starts from a type and follows what the table says about the classes, variables and open
names in it. If what it meets never leaves a region of numbers and names, then only the entries of
that region matter, and two tables that agree there give the same answer. Agreement is meant up to
the order in which a class lists its interfaces: neither erasures nor spellings nor the question
which classes are above a class depend on it.

## Main definitions

* `Region`, `Ty.In` — some classes, variables and names, and the types that are made of them.
* `ClassTable.ClosedOn` — what a table says about a region stays inside of it.
* `ClassDef.Reordered` — two definitions that differ in the order of their interfaces.
* `ClassTable.AgreesOn` — two tables say the same about a region that is closed.

## Main results

* `ClassTable.AgreesOn.erasure` — types of the region have the same erasures.
* `ClassTable.AgreesOn.render` — they are spelled alike.
* `ClassTable.AgreesOn.mem_ancestors_iff` — the same classes are above a class.
* `ClassTable.AgreesOn.isSubtype` — the same types are subtypes of each other.
-/

set_option autoImplicit false

namespace ContainerLint

/-- Some of the classes, variables and open names that types are made of. -/
structure Region where
  classes : ClassId → Prop
  vars : VarId → Prop
  names : String → Prop

/-! ## Types in a region -/

/-- The types that are made of what is in a region. -/
inductive Ty.In (R : Region) : Ty → Prop where
  | void : In R .void
  | prim (p : Primitive) : In R (.prim p)
  | cls {id : ClassId} {args : List Ty} : R.classes id → (∀ a ∈ args, In R a) → In R (.cls id args)
  | array {elem : Ty} : In R elem → In R (.array elem)
  | var {x : VarId} : R.vars x → In R (.var x)
  | wild : In R .wild
  | wildExtends {upper : Ty} : In R upper → In R (.wildExtends upper)
  | wildSuper {lower : Ty} : In R lower → In R (.wildSuper lower)
  | inter {parts : List Ty} : (∀ p ∈ parts, In R p) → In R (.inter parts)
  | null : In R .null
  | named {name : String} : R.names name → In R (.named name)
  | unknown : In R .unknown
  | error : In R .error

/-- What a type says by itself, its parts apart, is in a region. -/
def Region.Admits (R : Region) : Ty → Prop
  | .cls id _ => R.classes id
  | .var x => R.vars x
  | .named name => R.names name
  | _ => True

/-- A type is in a region if everything inside of it is. -/
lemma Ty.in_of_subterms {R : Region} {ty : Ty} (h : ∀ s ∈ ty.subterms, R.Admits s) : ty.In R := by
  induction ty using recOnMembers with
  | cls id args ih =>
    refine .cls (h (.cls id args) (by simp [subterms])) fun a ha => ih a ha fun s hs => ?_
    exact h s (mem_subterms_cls ha hs)
  | inter parts ih =>
    refine .inter fun p hp => ih p hp fun s hs => ?_
    exact h s (mem_subterms_inter hp hs)
  | array elem ih => exact .array (ih fun s hs => h s (by simp [subterms, hs]))
  | wildExtends upper ih => exact .wildExtends (ih fun s hs => h s (by simp [subterms, hs]))
  | wildSuper lower ih => exact .wildSuper (ih fun s hs => h s (by simp [subterms, hs]))
  | var x => exact .var (h (.var x) (by simp [subterms]))
  | named name => exact .named (h (.named name) (by simp [subterms]))
  | prim p => exact .prim p
  | void => exact .void
  | wild => exact .wild
  | null => exact .null
  | unknown => exact .unknown
  | error => exact .error

/-- An argument that is put in for a formal parameter is one of the arguments. -/
lemma Subst.mem_of_ofFormals {formals : List VarId} {args : List Ty} {x : VarId} {a : Ty}
    (h : Subst.ofFormals formals args x = some a) : a ∈ args := by
  induction formals generalizing args with
  | nil => cases h
  | cons y formals ih =>
    cases args with
    | nil => cases h
    | cons b args =>
      simp only [Subst.ofFormals, List.zip_cons_cons, Subst.ofPairs, Option.or_eq_some_iff] at h
      rcases h with h | ⟨-, h⟩
      · exact List.mem_cons_of_mem _ (ih h)
      · split at h
        · cases h
          exact List.mem_cons_self
        · cases h

/-- A substitution by types of a region stays inside of it.

**Proof sketch.** By induction on the type. A variable becomes a type of the region or stays, and
the other types are made of their members as before. -/
lemma Ty.In.subst {R : Region} {σ : Subst} (hσ : ∀ x a, σ x = some a → a.In R) {ty : Ty}
    (h : ty.In R) : (ty.subst σ).In R := by
  induction ty using recOnMembers with
  | var x =>
    rw [Ty.subst]
    cases hs : σ x with
    | none => exact h
    | some a => exact hσ x a hs
  | cls id args ih =>
    cases h with
    | cls hid hargs =>
      rw [Ty.subst, substAll_eq_map]
      refine .cls hid fun a ha => ?_
      obtain ⟨b, hb, rfl⟩ := List.mem_map.1 ha
      exact ih b hb (hargs b hb)
  | inter parts ih =>
    cases h with
    | inter hparts =>
      rw [Ty.subst, substAll_eq_map]
      refine .inter fun a ha => ?_
      obtain ⟨b, hb, rfl⟩ := List.mem_map.1 ha
      exact ih b hb (hparts b hb)
  | array elem ih =>
    cases h with
    | array h => exact .array (ih h)
  | wildExtends upper ih =>
    cases h with
    | wildExtends h => exact .wildExtends (ih h)
  | wildSuper lower ih =>
    cases h with
    | wildSuper h => exact .wildSuper (ih h)
  | _ => exact h

/-- A list of types of a region. -/
def Ty.AllIn (R : Region) (tys : List Ty) : Prop :=
  ∀ ty ∈ tys, ty.In R

/-- Two results are the same, and what they hold has a property. -/
def Shared {α : Type} (P : α → Prop) (o o' : Option α) : Prop :=
  o' = o ∧ ∀ a, o = some a → P a

namespace Shared

variable {α β : Type} {P : α → Prop} {Q : β → Prop}

/-- Two results may both be missing. -/
lemma none : Shared P none none :=
  ⟨rfl, fun _ h => nomatch h⟩

/-- What has the property can be shared. -/
lemma some {a : α} (h : P a) : Shared P (some a) (some a) :=
  ⟨rfl, fun _ eq => Option.some.inj eq ▸ h⟩

/-- Two computations that share what they make of a shared result share their results. -/
lemma bind {o o' : Option α} (h : Shared P o o') {f f' : α → Option β}
    (hf : ∀ a, P a → Shared Q (f a) (f' a)) : Shared Q (o.bind f) (o'.bind f') := by
  obtain ⟨rfl, holds⟩ := h
  cases o' with
  | none => exact .none
  | some a => exact hf a (holds a rfl)

/-- A member that is found in a list whose members have the property is shared. -/
lemma find? {as : List α} (h : ∀ a ∈ as, P a) (p : α → Bool) :
    Shared P (as.find? p) (as.find? p) :=
  ⟨rfl, fun a ha => h a (List.mem_of_find?_eq_some ha)⟩

end Shared

/-! ## Agreement -/

/-- What a table says about a region stays inside of it. -/
structure ClassTable.ClosedOn (t : ClassTable) (R : Region) : Prop where
  /-- The classes above all arrays are in the region. -/
  arraySuper : ∀ id, t.isArraySuper id = true → R.classes id
  /-- So are the wrapper classes. -/
  box : ∀ p, R.classes (t.known.box p)
  /-- So are the classes that its names refer to. -/
  lookup : ∀ name id, R.names name → t.lookup name = some id → R.classes id
  /-- So are the bounds of its variables. -/
  bounds : ∀ x p, R.vars x → t.typeParam? x = some p → ∀ b ∈ p.upperBounds, b.In R
  /-- So are the type parameters of its classes. -/
  typeParams : ∀ id d, R.classes id → t.classDef? id = some d → ∀ x ∈ d.typeParams, R.vars x
  /-- So are their supertypes. -/
  supertypes : ∀ id d, R.classes id → t.classDef? id = some d → ∀ sup ∈ d.supertypes, sup.In R

/-- Two definitions differ in the order of their interfaces and in nothing else. -/
structure ClassDef.Reordered (d d' : ClassDef) : Prop where
  name : d'.name = d.name
  kind : d'.kind = d.kind
  isFinal : d'.isFinal = d.isFinal
  typeParams : d'.typeParams = d.typeParams
  superClass : d'.superClass = d.superClass
  interfaces : d'.interfaces.Perm d.interfaces

namespace ClassDef.Reordered

variable {d d' : ClassDef}

/-- A definition need not be reordered. -/
lemma refl (d : ClassDef) : d.Reordered d :=
  ⟨rfl, rfl, rfl, rfl, rfl, .refl _⟩

/-- The order can be changed back. -/
lemma symm (h : d.Reordered d') : d'.Reordered d :=
  ⟨h.name.symm, h.kind.symm, h.isFinal.symm, h.typeParams.symm, h.superClass.symm,
    h.interfaces.symm⟩

/-- Both have the same supertypes. -/
lemma mem_supertypes_iff (h : d.Reordered d') {sup : Ty} :
    sup ∈ d'.supertypes ↔ sup ∈ d.supertypes := by
  rw [supertypes, supertypes, List.mem_append, List.mem_append, h.superClass, h.interfaces.mem_iff]

/-- Both have as many type parameters. -/
lemma arity (h : d.Reordered d') : d'.arity = d.arity :=
  congrArg List.length h.typeParams

/-- Both are generic or neither is. -/
lemma isGeneric (h : d.Reordered d') : d'.isGeneric = d.isGeneric := by
  rw [ClassDef.isGeneric, ClassDef.isGeneric, h.typeParams]

end ClassDef.Reordered

namespace ClassTable

variable {R : Region} {t t' : ClassTable}

/-- Two tables say the same about a region that is closed, up to the order of interfaces. -/
structure AgreesOn (t : ClassTable) (R : Region) (t' : ClassTable) : Prop where
  closed : t.ClosedOn R
  known : t'.known = t.known
  lookup : ∀ name, R.names name → t'.lookup name = t.lookup name
  typeParam? : ∀ x, R.vars x → t'.typeParam? x = t.typeParam? x
  classDef? : ∀ id, R.classes id →
    Option.Rel ClassDef.Reordered (t.classDef? id) (t'.classDef? id)

/-- The class `Object` is in a closed region. -/
lemma ClosedOn.object (closed : t.ClosedOn R) : R.classes t.known.object :=
  closed.arraySuper _ (by simp [isArraySuper])

/-- The type `Object` is in a closed region. -/
lemma ClosedOn.objectTy (closed : t.ClosedOn R) : t.objectTy.In R :=
  .cls closed.object (by simp)

/-- The wrapper class of a primitive is in a closed region. -/
lemma ClosedOn.boxed (closed : t.ClosedOn R) {ty : Ty} (h : ty.In R) : (t.boxed ty).In R := by
  cases ty with
  | prim p => exact .cls (closed.box p) (by simp)
  | _ => exact h

/-- Looking up names does not leave a closed region.

**Proof sketch.** By induction on the type. A name of the region becomes a class of the region,
because the region is closed under looking up names, and the other types are made of their members
as before. -/
lemma ClosedOn.canonical (closed : t.ClosedOn R) {ty : Ty} (h : ty.In R) :
    (ty.canonical t).In R := by
  induction ty using Ty.recOnMembers with
  | named name =>
    cases h with
    | named hname =>
      rw [Ty.canonical]
      cases hlookup : t.lookup name with
      | none => exact .named hname
      | some id => exact .cls (closed.lookup name id hname hlookup) (by simp)
  | cls id args ih =>
    cases h with
    | cls hid hargs =>
      rw [Ty.canonical, Ty.canonicalAll_eq_map]
      refine .cls hid fun a ha => ?_
      obtain ⟨b, hb, rfl⟩ := List.mem_map.1 ha
      exact ih b hb (hargs b hb)
  | inter parts ih =>
    cases h with
    | inter hparts =>
      rw [Ty.canonical, Ty.canonicalAll_eq_map]
      refine .inter fun a ha => ?_
      obtain ⟨b, hb, rfl⟩ := List.mem_map.1 ha
      exact ih b hb (hparts b hb)
  | array elem ih =>
    cases h with
    | array h => exact .array (ih h)
  | wildExtends upper ih =>
    cases h with
    | wildExtends h => exact .wildExtends (ih h)
  | wildSuper lower ih =>
    cases h with
    | wildSuper h => exact .wildSuper (ih h)
  | _ => exact h

namespace AgreesOn

/-- A class of the region that is defined in one table has a reordered definition in the other. -/
lemma exists_classDef? (h : t.AgreesOn R t') {id : ClassId} (hid : R.classes id) {d : ClassDef}
    (hd : t.classDef? id = some d) : ∃ d', t'.classDef? id = some d' ∧ d.Reordered d' := by
  have rel := h.classDef? id hid
  rw [hd] at rel
  generalize t'.classDef? id = found at rel
  cases rel with
  | some reordered => exact ⟨_, rfl, reordered⟩

/-- The definitions that a class of the region has in the two tables are reordered. -/
lemma reordered (h : t.AgreesOn R t') {id : ClassId} (hid : R.classes id) {d d' : ClassDef}
    (hd : t.classDef? id = some d) (hd' : t'.classDef? id = some d') : d.Reordered d' := by
  obtain ⟨d₁, hd₁, reordered⟩ := h.exists_classDef? hid hd
  obtain rfl := Option.some.inj (hd₁.symm.trans hd')
  exact reordered

/-- A class of the region that is not defined in one table is not defined in the other. -/
lemma classDef?_eq_none (h : t.AgreesOn R t') {id : ClassId} (hid : R.classes id)
    (hd : t.classDef? id = none) : t'.classDef? id = none := by
  have rel := h.classDef? id hid
  rw [hd] at rel
  generalize t'.classDef? id = found at rel
  cases rel
  rfl

/-- What can be read off a definition whatever the order of its interfaces is the same in both
tables. -/
lemma map_classDef? (h : t.AgreesOn R t') {α : Type} {f : ClassDef → α}
    (hf : ∀ d d', ClassDef.Reordered d d' → f d' = f d) {id : ClassId} (hid : R.classes id) :
    (t'.classDef? id).map f = (t.classDef? id).map f := by
  cases hd : t.classDef? id with
  | none => rw [h.classDef?_eq_none hid hd]
  | some d =>
    obtain ⟨d', hd', reordered⟩ := h.exists_classDef? hid hd
    rw [hd', Option.map_some, Option.map_some, hf d d' reordered]

/-- Arrays are below the same classes in both tables. -/
lemma isArraySuper (h : t.AgreesOn R t') (id : ClassId) :
    t'.isArraySuper id = t.isArraySuper id := by
  rw [ClassTable.isArraySuper, ClassTable.isArraySuper, h.known]

/-- Both tables have the same `Object`. -/
lemma objectTy (h : t.AgreesOn R t') : t'.objectTy = t.objectTy := by
  rw [ClassTable.objectTy, ClassTable.objectTy, h.known]

/-- Both tables box alike. -/
lemma boxed (h : t.AgreesOn R t') (ty : Ty) : t'.boxed ty = t.boxed ty := by
  unfold ClassTable.boxed
  rw [h.known]

/-- What holds of everything that definitions list, whatever the order of their interfaces, holds in
the other table too. -/
lemma forall_mem_of_reordered (h : t.AgreesOn R t') {α : Type} {P : α → Prop}
    {f : ClassDef → List α} (hf : ∀ d d', ClassDef.Reordered d d' → f d' ⊆ f d)
    (holds : ∀ id d, R.classes id → t.classDef? id = some d → ∀ a ∈ f d, P a) :
    ∀ id d', R.classes id → t'.classDef? id = some d' → ∀ a ∈ f d', P a := by
  intro id d' hid hd' a ha
  cases hd : t.classDef? id with
  | none => simp [h.classDef?_eq_none hid hd] at hd'
  | some d => exact holds id d hid hd a (hf d d' (h.reordered hid hd hd') ha)

/-- **Agreement is symmetric.**

**Proof sketch.** Each condition on the one table is carried over along an equation or along the
reordering of a definition, and reorderings are symmetric. -/
theorem symm (h : t.AgreesOn R t') : t'.AgreesOn R t where
  closed :=
    { arraySuper := fun id hid => h.closed.arraySuper id (h.isArraySuper id ▸ hid)
      box := fun p => h.known ▸ h.closed.box p
      lookup := fun name id hname hid => h.closed.lookup name id hname (h.lookup name hname ▸ hid)
      bounds := fun x p hx hp => h.closed.bounds x p hx (h.typeParam? x hx ▸ hp)
      typeParams := h.forall_mem_of_reordered
        (fun _ _ reordered _ hx => reordered.typeParams ▸ hx) h.closed.typeParams
      supertypes := h.forall_mem_of_reordered
        (fun _ _ reordered _ hsup => reordered.mem_supertypes_iff.1 hsup) h.closed.supertypes }
  known := h.known.symm
  lookup name hname := (h.lookup name hname).symm
  typeParam? x hx := (h.typeParam? x hx).symm
  classDef? id hid := by
    have rel := h.classDef? id hid
    generalize t.classDef? id = found at rel ⊢
    generalize t'.classDef? id = found' at rel ⊢
    cases rel with
    | none => exact .none
    | some reordered => exact .some reordered.symm

/-- Names of the region are looked up alike. -/
lemma canonical (h : t.AgreesOn R t') {ty : Ty} (hty : ty.In R) :
    ty.canonical t' = ty.canonical t := by
  induction hty with
  | named hname => rw [Ty.canonical, Ty.canonical, h.lookup _ hname]
  | cls _ _ ih | inter _ ih =>
    simp only [Ty.canonical, Ty.canonicalAll_eq_map]
    rw [List.map_congr_left ih]
  | array _ ih | wildExtends _ ih | wildSuper _ ih => rw [Ty.canonical, Ty.canonical, ih]
  | _ => rfl

end AgreesOn

end ClassTable

/-! ## Variables that may be followed -/

/-- Two lists hold the same variables of a region, each once. -/
structure Region.SameVars (R : Region) (as bs : List VarId) : Prop where
  nodup : as.Nodup
  nodup' : bs.Nodup
  mem_iff : ∀ x, R.vars x → (x ∈ bs ↔ x ∈ as)

namespace Region.SameVars

variable {R : Region} {as bs : List VarId}

/-- A variable can be taken out of both lists. -/
lemma erase (h : R.SameVars as bs) (x : VarId) : R.SameVars (as.erase x) (bs.erase x) where
  nodup := h.nodup.erase x
  nodup' := h.nodup'.erase x
  mem_iff y hy := by rw [h.nodup'.mem_erase_iff, h.nodup.mem_erase_iff, h.mem_iff y hy]

/-- Induction on two such lists: what holds of them may be assumed after a variable of the first has
been taken out of both. -/
lemma erase_induction {P : List VarId → List VarId → Prop} (h : R.SameVars as bs)
    (step : ∀ as bs, R.SameVars as bs → (∀ x ∈ as, P (as.erase x) (bs.erase x)) → P as bs) :
    P as bs := by
  induction as using (measure List.length).wf.induction generalizing bs with
  | h as ih =>
    refine step as bs h fun x hx => ih _ ?_ (h.erase x)
    change (as.erase x).length < as.length
    have := List.length_pos_of_mem hx
    rw [List.length_erase_of_mem hx]
    omega

end Region.SameVars

namespace ClassTable

variable {R : Region} {t t' : ClassTable}

/-- The variables of a table are listed once each. -/
lemma nodup_varIds (t : ClassTable) : t.varIds.Nodup :=
  List.Nodup.map (fun _ _ => VarId.mk.inj) List.nodup_range

namespace AgreesOn

/-- Both tables have the same variables of the region. -/
lemma sameVars (h : t.AgreesOn R t') : R.SameVars t.varIds t'.varIds where
  nodup := t.nodup_varIds
  nodup' := t'.nodup_varIds
  mem_iff x hx := by rw [mem_varIds_iff, mem_varIds_iff, h.typeParam? x hx]

/-! ## Erasure -/

/-- Types of the region erase alike if its variables do.

**Proof sketch.** By induction on the type, following the clauses of the erasure. Only a variable
and a name ask the tables: variables agree by assumption, and names of the region are looked up
alike. The erasures of arrays and intersections are those of their first member. -/
lemma eraseWith (h : t.AgreesOn R t') {follow follow' : VarId → Option Ty}
    (hfollow : ∀ x, R.vars x → Shared (Ty.In R) (follow x) (follow' x)) {ty : Ty} (hty : ty.In R) :
    Shared (Ty.In R) (ty.eraseWith t follow) (ty.eraseWith t' follow') := by
  have object : Shared (Ty.In R) (some t.objectTy) (some t'.objectTy) := by
    rw [h.objectTy]
    exact .some h.closed.objectTy
  induction hty with
  | cls hid _ => exact .some (.cls hid (by simp))
  | array _ ih =>
    rw [Ty.eraseWith, Ty.eraseWith, Option.map_eq_bind, Option.map_eq_bind]
    exact ih.bind fun _ herased => .some (.array herased)
  | var hx => exact hfollow _ hx
  | wild | wildSuper => exact object
  | wildExtends _ ih => exact ih
  | @inter parts _ ih =>
    cases parts with
    | nil => exact .none
    | cons part parts => exact ih part List.mem_cons_self
  | @named name hname =>
    rw [Ty.eraseWith, Ty.eraseWith, h.lookup name hname]
    cases hlookup : t.lookup name with
    | none => exact .none
    | some id => exact .some (.cls (h.closed.lookup name id hname hlookup) (by simp))
  | prim p => exact .some (.prim p)
  | null => exact .some .null
  | void | unknown | error => exact .none

/-- Variables of the region erase alike.

**Proof sketch.** Induction on the variables that may be followed: a bound is erased with one of
them less. -/
lemma eraseVar (h : t.AgreesOn R t') {avail avail' : List VarId}
    (same : R.SameVars avail avail') :
    ∀ x, R.vars x → Shared (Ty.In R) (t.eraseVar avail x) (t'.eraseVar avail' x) := by
  refine same.erase_induction
    (P := fun as bs => ∀ x, R.vars x → Shared (Ty.In R) (t.eraseVar as x) (t'.eraseVar bs x)) ?_
  intro avail avail' same ih x hx
  rw [ClassTable.eraseVar, ClassTable.eraseVar, h.typeParam? x hx]
  by_cases mem : x ∈ avail
  · rw [dif_pos mem, dif_pos ((same.mem_iff x hx).2 mem)]
    cases hp : t.typeParam? x with
    | none => exact .none
    | some p =>
      dsimp only
      have bounds := h.closed.bounds x p hx hp
      cases hbounds : p.upperBounds with
      | nil =>
        dsimp only
        rw [h.objectTy]
        exact .some h.closed.objectTy
      | cons bound rest => exact h.eraseWith (ih x mem) (bounds bound (by simp [hbounds]))
  · rw [dif_neg mem, dif_neg fun mem' => mem ((same.mem_iff x hx).1 mem')]
    exact .none

/-- **Types of the region have the same erasures**, which are in the region. -/
theorem shared_erasure (h : t.AgreesOn R t') {ty : Ty} (hty : ty.In R) :
    Shared (Ty.In R) (t.erasure ty) (t'.erasure ty) :=
  h.eraseWith (h.eraseVar h.sameVars) hty

/-- Types of the region have the same erasures. -/
lemma erasure (h : t.AgreesOn R t') {ty : Ty} (hty : ty.In R) : t'.erasure ty = t.erasure ty :=
  (h.shared_erasure hty).1

/-! ## Spelling -/

/-- **Types of the region are spelled alike.** -/
theorem render (h : t.AgreesOn R t') (style : NameStyle) {ty : Ty} (hty : ty.In R) :
    ty.render t' style = ty.render t style := by
  induction hty with
  | @cls id args hid _ ih =>
    have spelled : Ty.renderClass t' style id = Ty.renderClass t style id := by
      unfold Ty.renderClass
      cases hd : t.classDef? id with
      | none => rw [h.classDef?_eq_none hid hd]
      | some d =>
        obtain ⟨d', hd', reordered⟩ := h.exists_classDef? hid hd
        simp only [hd', reordered.name]
    simp only [Ty.render, Ty.renderEach_eq_map]
    rw [spelled, List.map_congr_left ih]
  | inter _ ih =>
    simp only [Ty.render, Ty.renderEach_eq_map]
    rw [List.map_congr_left ih]
  | var hx => simp only [Ty.render, Ty.renderVar, h.typeParam? _ hx]
  | array _ ih | wildExtends _ ih | wildSuper _ ih => rw [Ty.render, Ty.render, ih]
  | _ => rfl

/-- Types of the region are sorted alike. -/
lemma sortTypes (h : t.AgreesOn R t') {tys : List Ty} (htys : ∀ ty ∈ tys, ty.In R) :
    sortTypes t' tys = sortTypes t tys := by
  have sorted := List.map_mergeSort (l := tys) (f := id)
    (r := fun a b => decide (a.sortKey t' ≤ b.sortKey t'))
    (s := fun a b => decide (a.sortKey t ≤ b.sortKey t)) fun a ha b hb => by
      rw [Ty.sortKey, Ty.sortKey, h.render .full (htys a ha), h.render .full (htys b hb)]
      rfl
  rwa [List.map_id, List.map_id] at sorted

/-! ## Subtyping -/

/-- The parents of a class of the region are the same, and they are in the region. -/
lemma parent (h : t.AgreesOn R t') {c d : ClassId} (hc : R.classes c) (hp : t.Parent c d) :
    t'.Parent c d ∧ R.classes d := by
  obtain ⟨defn, hdefn, sup, hsup, erased, herased, hd⟩ := hp
  obtain ⟨defn', hdefn', reordered⟩ := h.exists_classDef? hc hdefn
  obtain ⟨same, inside⟩ := h.shared_erasure (h.closed.supertypes c defn hc hdefn sup hsup)
  refine ⟨⟨defn', hdefn', sup, reordered.mem_supertypes_iff.2 hsup, erased,
    same.trans herased, hd⟩, ?_⟩
  cases inside erased herased with
  | cls hid _ => exact Option.some.inj hd ▸ hid
  | _ => cases hd

/-- So are the classes that can be reached from it.

**Proof sketch.** Induction along the path, which does not leave the region. -/
lemma reach (h : t.AgreesOn R t') {c d : ClassId} (hc : R.classes c)
    (path : Relation.ReflTransGen t.Parent c d) :
    Relation.ReflTransGen t'.Parent c d ∧ R.classes d := by
  induction path with
  | refl => exact ⟨.refl, hc⟩
  | tail _ step ih =>
    obtain ⟨step', hd⟩ := h.parent ih.2 step
    exact ⟨ih.1.tail step', hd⟩

/-- **The same classes are above a class of the region.** -/
theorem mem_ancestors_iff (h : t.AgreesOn R t') {c d : ClassId} (hc : R.classes c) :
    d ∈ t'.ancestors c ↔ d ∈ t.ancestors c := by
  rw [ClassTable.mem_ancestors_iff, ClassTable.mem_ancestors_iff]
  exact ⟨fun path => (h.symm.reach hc path).1, fun path => (h.reach hc path).1⟩

/-- A type of the region stays below whatever it is below. -/
lemma below (h : t.AgreesOn R t') {a b : Ty} (ha : a.In R) (hb : t.Below a b) : t'.Below a b := by
  induction hb with
  | refl a => exact .refl a
  | null href => exact .null href
  | widen hw => exact .widen hw
  | @cls c d as bs hcd =>
    refine .cls ?_
    rcases hcd with object | path
    · exact .inl (by rw [object, h.known])
    · cases ha with
      | cls hc _ => exact .inr (h.reach hc path).1
  | array hra hrb _ ih =>
    cases ha with
    | array ha => exact .array hra hrb (ih ha)
  | arrayClass hd => exact .arrayClass (by rwa [h.isArraySuper])

/-- The subtype test for erased types says the same of a type of the region. -/
lemma erasedSubtype (h : t.AgreesOn R t') {a : Ty} (ha : a.In R) (b : Ty) :
    t'.erasedSubtype a b = t.erasedSubtype a b := by
  rw [Bool.eq_iff_iff, erasedSubtype_iff_below, erasedSubtype_iff_below]
  exact ⟨h.symm.below ha, h.below ha⟩

/-- **A type of the region has the same supertypes** among those that erase alike. -/
theorem isSubtype (h : t.AgreesOn R t') {a b : Ty} (ha : a.In R)
    (hb : t'.erasure b = t.erasure b) : t'.isSubtype a b = t.isSubtype a b := by
  obtain ⟨same, inside⟩ := h.shared_erasure ha
  unfold ClassTable.isSubtype
  rw [same, hb]
  cases hea : t.erasure a with
  | none => rfl
  | some ea =>
    cases t.erasure b with
    | none => rfl
    | some eb => exact h.erasedSubtype (inside ea hea) eb

end AgreesOn

end ClassTable

end ContainerLint
