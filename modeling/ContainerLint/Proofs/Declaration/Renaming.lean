import ContainerLint.Declaration.Declare
import ContainerLint.Proofs.Signature.Spelling
import Mathlib.Logic.Equiv.Defs

/-!
# Renaming classes and type variables

The numbers of classes and type variables depend on the order in which they were given out. To
compare two tables up to this order, the numbers in one of them are renamed. Looking up names in a
signature commutes with a renaming that the name index follows, so what a declaration amounts to
is renamed along with the numbers that it refers to.

## Main definitions

* `Ty.rename`, `ClassDef.rename`, `TypeParam.rename`, `WellKnown.rename`, `Allocated.rename` —
  renamed numbers.
* `ClassTable.Renames` — one table is another one with renamed numbers.

## Main results

* `Signature.resolve_rename` — resolving a signature commutes with renaming.
* `ClassTable.definition_rename` — so does the definition that a declaration amounts to.
* `Ty.rename_eq_self` — a type that mentions only numbers that stay is not changed.
-/

set_option autoImplicit false

namespace ContainerLint

/-! ## Renamed types -/

namespace Ty

mutual

/-- A type with renamed classes and variables. -/
def rename (σ : ClassId → ClassId) (τ : VarId → VarId) : Ty → Ty
  | .cls id args => .cls (σ id) (renameAll σ τ args)
  | .var x => .var (τ x)
  | .array elem => .array (rename σ τ elem)
  | .wildExtends upper => .wildExtends (rename σ τ upper)
  | .wildSuper lower => .wildSuper (rename σ τ lower)
  | .inter parts => .inter (renameAll σ τ parts)
  | .void => .void
  | .prim p => .prim p
  | .wild => .wild
  | .null => .null
  | .named name => .named name
  | .unknown => .unknown
  | .error => .error

/-- A list of types with renamed classes and variables. -/
def renameAll (σ : ClassId → ClassId) (τ : VarId → VarId) : List Ty → List Ty
  | [] => []
  | ty :: tys => rename σ τ ty :: renameAll σ τ tys

end

variable {σ : ClassId → ClassId} {τ : VarId → VarId}

/-- A list is renamed member by member. -/
@[simp] lemma renameAll_eq_map (tys : List Ty) : renameAll σ τ tys = tys.map (rename σ τ) := by
  induction tys with
  | nil => rfl
  | cons ty tys ih => simp [renameAll, ih]

/-- All classes and all variables that a type mentions have a property. -/
def MentionsOnly (C : ClassId → Prop) (V : VarId → Prop) (ty : Ty) : Prop :=
  (∀ id args, Ty.cls id args ∈ ty.subterms → C id) ∧ ∀ x, Ty.var x ∈ ty.subterms → V x

/-- A list whose members are not changed is not changed. -/
lemma map_rename_eq_self {tys : List Ty} (h : ∀ ty ∈ tys, ty.rename σ τ = ty) :
    tys.map (rename σ τ) = tys :=
  (List.map_congr_left h).trans (List.map_id tys)

/-- A type that mentions only numbers that stay is not changed.

**Proof sketch.** By induction on the type. The members of a type mention only what the type
mentions, so they are not changed, and neither are its own class or variable. -/
theorem rename_eq_self {ty : Ty} (h : ty.MentionsOnly (fun id => σ id = id) (fun x => τ x = x)) :
    ty.rename σ τ = ty := by
  obtain ⟨classes, vars⟩ := h
  induction ty using recOnMembers with
  | cls id args ih =>
    have members : args.map (rename σ τ) = args := by
      refine map_rename_eq_self fun a ha => ih a ha ?_ ?_
      · exact fun c as hc => classes c as (mem_subterms_cls ha hc)
      · exact fun x hx => vars x (mem_subterms_cls ha hx)
    simp only [rename, renameAll_eq_map, members, classes id args (by simp [subterms])]
  | inter parts ih =>
    have members : parts.map (rename σ τ) = parts := by
      refine map_rename_eq_self fun a ha => ih a ha ?_ ?_
      · exact fun c as hc => classes c as (mem_subterms_inter ha hc)
      · exact fun x hx => vars x (mem_subterms_inter ha hx)
    simp only [rename, renameAll_eq_map, members]
  | var x => simp only [rename, vars x (by simp [subterms])]
  | array elem ih | wildExtends elem ih | wildSuper elem ih =>
    simp only [rename]
    rw [ih (fun id args h => classes id args (List.mem_cons_of_mem _ h))
      (fun x h => vars x (List.mem_cons_of_mem _ h))]
  | _ => rfl

end Ty

/-! ## Renamed definitions -/

/-- A definition with renamed classes and variables. -/
def ClassDef.rename (σ : ClassId → ClassId) (τ : VarId → VarId) (d : ClassDef) : ClassDef :=
  { d with
    typeParams := d.typeParams.map τ
    superClass := d.superClass.map (Ty.rename σ τ)
    interfaces := d.interfaces.map (Ty.rename σ τ) }

/-- A type parameter with renamed classes and variables. -/
def TypeParam.rename (σ : ClassId → ClassId) (τ : VarId → VarId) (p : TypeParam) : TypeParam :=
  { p with
    upperBounds := p.upperBounds.map (Ty.rename σ τ)
    lowerBound := p.lowerBound.map (Ty.rename σ τ) }

/-- Renamed well-known classes. -/
def WellKnown.rename (σ : ClassId → ClassId) (w : WellKnown) : WellKnown where
  object := σ w.object
  string := σ w.string
  integer := σ w.integer
  cloneable := σ w.cloneable
  serializable := σ w.serializable
  box p := σ (w.box p)

/-- A declaration whose numbers are renamed. -/
def Allocated.rename (σ : ClassId → ClassId) (τ : VarId → VarId) (a : Allocated) : Allocated where
  decl := a.decl
  id := σ a.id
  formals := a.formals.map fun f => (τ f.1, f.2)

/-- One table is another one with renamed numbers: the classes and their names, the name index, the
type parameters and the well-known classes correspond. -/
structure ClassTable.Renames (σ : Equiv.Perm ClassId) (τ : Equiv.Perm VarId) (t t' : ClassTable) :
    Prop where
  nameOf? : ∀ id, t'.nameOf? (σ id) = t.nameOf? id
  classDef? : ∀ id, t'.classDef? (σ id) = (t.classDef? id).map (ClassDef.rename σ τ)
  find? : ∀ name, t'.find? name = (t.find? name).map σ
  typeParam? : ∀ x, t'.typeParam? (τ x) = (t.typeParam? x).map (TypeParam.rename σ τ)
  known : t'.known = t.known.rename σ

section Fixed

variable {σ : ClassId → ClassId} {τ : VarId → VarId}

/-- A definition that mentions only numbers that stay is not changed. -/
lemma ClassDef.rename_eq_self {d : ClassDef} (params : ∀ x ∈ d.typeParams, τ x = x)
    (supers : ∀ sup ∈ d.supertypes, sup.MentionsOnly (fun id => σ id = id) (fun x => τ x = x)) :
    d.rename σ τ = d := by
  have hparams : d.typeParams.map τ = d.typeParams :=
    (List.map_congr_left params).trans (List.map_id _)
  have hsuper : d.superClass.map (Ty.rename σ τ) = d.superClass := by
    cases h : d.superClass with
    | none => rfl
    | some sup =>
      have mem : sup ∈ d.supertypes := by simp [ClassDef.supertypes, h]
      rw [Option.map_some, Ty.rename_eq_self (supers sup mem)]
  have hinterfaces : d.interfaces.map (Ty.rename σ τ) = d.interfaces :=
    Ty.map_rename_eq_self fun sup hsup =>
      Ty.rename_eq_self (supers sup (List.mem_append_right _ hsup))
  simp only [ClassDef.rename, hparams, hsuper, hinterfaces]

/-- A type parameter that mentions only numbers that stay is not changed. -/
lemma TypeParam.rename_eq_self {p : TypeParam}
    (bounds : ∀ b ∈ p.upperBounds ++ p.lowerBound.toList,
      b.MentionsOnly (fun id => σ id = id) (fun x => τ x = x)) : p.rename σ τ = p := by
  have hupper : p.upperBounds.map (Ty.rename σ τ) = p.upperBounds :=
    Ty.map_rename_eq_self fun b hb => Ty.rename_eq_self (bounds b (List.mem_append_left _ hb))
  have hlower : p.lowerBound.map (Ty.rename σ τ) = p.lowerBound := by
    cases h : p.lowerBound with
    | none => rfl
    | some b => rw [Option.map_some, Ty.rename_eq_self (bounds b (by simp [h]))]
  simp only [TypeParam.rename, hupper, hlower]

end Fixed

/-! ## Resolving in a renamed table -/

/-- Induction on signatures in which the hypothesis holds of every argument. -/
theorem Signature.recOnMembers {motive : Signature → Prop}
    (prim : ∀ p, motive (.prim p))
    (named : ∀ name args, (∀ a ∈ args, motive a) → motive (.named name args))
    (array : ∀ elem, motive elem → motive (.array elem))
    (wild : motive .wild)
    (wildExtends : ∀ upper, motive upper → motive (.wildExtends upper))
    (wildSuper : ∀ lower, motive lower → motive (.wildSuper lower)) (sig : Signature) :
    motive sig :=
  @Signature.rec motive (fun sigs => ∀ sig ∈ sigs, motive sig)
    prim named array wild wildExtends wildSuper
    (fun _ h => nomatch h)
    (fun _ _ head tail _ mem =>
      match mem with
      | .head _ => head
      | .tail _ mem => tail _ mem)
    sig

section Resolving

variable {t t' : ClassTable} {σ : ClassId → ClassId} {τ : VarId → VarId}

/-- A name refers to the renamed class if the name index is renamed. -/
lemma ClassTable.lookup_rename (hfind : ∀ name, t'.find? name = (t.find? name).map σ)
    (name : String) : t'.lookup name = (t.lookup name).map σ := by
  simp only [ClassTable.lookup, hfind]
  cases t.find? name with
  | some id => rfl
  | none =>
    simp only [Option.map_none]
    split <;> rfl

/-- A name denotes the renamed variable of a renamed scope. -/
lemma TypeScope.find?_rename (scope : TypeScope) (name : String) :
    TypeScope.find? (scope.map fun b => (b.1, τ b.2)) name = (scope.find? name).map τ := by
  simp only [TypeScope.find?, ← List.map_reverse, List.find?_map]
  split
  · rfl
  · simp [Function.comp_def, Option.map_map]

/-- Resolving arguments commutes with renaming if resolving each of them does. -/
lemma Signature.resolveAll_rename {scope scope' : TypeScope} {sigs : List Signature}
    (members : ∀ sig ∈ sigs, sig.resolve t' scope' = (sig.resolve t scope).map (Ty.rename σ τ)) :
    resolveAll t' scope' sigs = (resolveAll t scope sigs).map (List.map (Ty.rename σ τ)) := by
  induction sigs with
  | nil => rfl
  | cons sig sigs ih =>
    have rest := ih fun s hs => members s (List.mem_cons_of_mem _ hs)
    rw [resolveAll, resolveAll, members sig List.mem_cons_self, rest]
    cases sig.resolve t scope with
    | error e => rfl
    | ok ty => cases resolveAll t scope sigs <;> rfl

/-- **Resolving a signature commutes with renaming.**

**Proof sketch.** By induction on the signature. A name is looked up among the type variables first,
and in the table then; both are renamed. The arguments are resolved by induction. -/
theorem Signature.resolve_rename (hfind : ∀ name, t'.find? name = (t.find? name).map σ)
    (scope : TypeScope) (sig : Signature) :
    sig.resolve t' (scope.map fun b => (b.1, τ b.2)) =
      (sig.resolve t scope).map (Ty.rename σ τ) := by
  induction sig using Signature.recOnMembers with
  | prim p => rfl
  | wild => rfl
  | named name args ih =>
    rw [resolve, resolve, TypeScope.find?_rename, ClassTable.lookup_rename hfind]
    cases scope.find? name with
    | some x =>
      simp only [Option.map_some]
      split <;> rfl
    | none =>
      cases t.lookup name with
      | none => rfl
      | some id =>
        simp only [Option.map_some, Option.map_none, resolveAll_rename ih]
        cases resolveAll t scope args with
        | error e => rfl
        | ok tys => simp [Except.map, Ty.rename]
  | array elem ih | wildExtends elem ih | wildSuper elem ih =>
    rw [resolve, resolve, ih]
    cases elem.resolve t scope <;> rfl

/-- Reading and resolving a text commutes with renaming. -/
lemma Ty.parse_rename (hfind : ∀ name, t'.find? name = (t.find? name).map σ) (scope : TypeScope)
    (input : String) :
    Ty.parse t' (scope.map fun b => (b.1, τ b.2)) input =
      (Ty.parse t scope input).map (Ty.rename σ τ) := by
  rw [Ty.parse, Ty.parse]
  cases Signature.parse input with
  | error e => rfl
  | ok sig => exact Signature.resolve_rename hfind scope sig

/-- The scope of a renamed declaration. -/
lemma Allocated.scope_rename (a : Allocated) :
    (a.rename σ τ).scope = a.scope.map fun b => (b.1, τ b.2) := by
  simp [Allocated.scope, Allocated.rename, Function.comp_def]

/-- Resolving the signatures of a declaration commutes with renaming. -/
lemma Allocated.resolveAll_rename (hfind : ∀ name, t'.find? name = (t.find? name).map σ)
    (a : Allocated) (texts : List String) :
    (a.rename σ τ).resolveAll t' texts =
      (a.resolveAll t texts).map (List.map (Ty.rename σ τ)) := by
  induction texts with
  | nil => rfl
  | cons text texts ih =>
    rw [resolveAll, resolveAll, scope_rename, Ty.parse_rename hfind, ih]
    cases Ty.parse t a.scope text with
    | error e => rfl
    | ok ty => cases a.resolveAll t texts <;> rfl

/-- **The definition that a declaration amounts to is renamed with its numbers.**

**Proof sketch.** The texts of a declaration are resolved to renamed types. Whether the class is
`Object` is not affected, since the renaming is injective. What remains are the cases of the
definition. -/
theorem ClassTable.definition_rename (hfind : ∀ name, t'.find? name = (t.find? name).map σ)
    (hσ : Function.Injective σ) (hobject : t'.known.object = σ t.known.object) (a : Allocated) :
    t'.definition (a.rename σ τ) = (t.definition a).map (ClassDef.rename σ τ) := by
  have formals : (a.rename σ τ).formals.map (·.1) = (a.formals.map (·.1)).map τ := by
    simp [Allocated.rename, Function.comp_def]
  have isObject : (a.rename σ τ).id = t'.known.object ↔ a.id = t.known.object := by
    rw [hobject]
    exact hσ.eq_iff
  have object : t'.objectTy = t.objectTy.rename σ τ := by
    simp [ClassTable.objectTy, Ty.rename, hobject]
  unfold ClassTable.definition
  rw [Allocated.resolveAll_rename hfind, Allocated.resolveAll_rename hfind, formals, object]
  simp only [isObject]
  change Except.bind ((a.resolveAll t a.decl.extended).map _) _ = _
  cases a.resolveAll t a.decl.extended with
  | error e => rfl
  | ok extended =>
    change Except.bind ((a.resolveAll t a.decl.implemented).map _) _ = _
    cases a.resolveAll t a.decl.implemented with
    | error e => rfl
    | ok implemented =>
      have decl : (a.rename σ τ).decl = a.decl := rfl
      simp only [decl]
      rcases hkind : a.decl.kind with _ | _
      · rcases extended with _ | ⟨superClass, _ | _⟩
        · by_cases h : a.id = t.known.object <;>
            simp [Except.map, Except.bind, bind, pure, Except.pure, ClassDef.rename, h]
        · simp [Except.map, Except.bind, bind, pure, Except.pure, ClassDef.rename]
        · simp [Except.map, Except.bind, bind]
      · simp [Except.map, Except.bind, bind, pure, Except.pure, ClassDef.rename]

end Resolving

/-! ## Resolving in a table with the same name index -/

section SameNames

variable {t t' : ClassTable}

/-- A type in which nothing is renamed. -/
lemma Ty.rename_refl (ty : Ty) : (ty.rename (fun c => c) fun x => x) = ty :=
  Ty.rename_eq_self ⟨fun _ _ _ => rfl, fun _ _ => rfl⟩

/-- A declaration in which nothing is renamed. -/
lemma Allocated.rename_refl (a : Allocated) : (a.rename (fun c => c) fun x => x) = a := by
  simp [Allocated.rename]

/-- Resolving the signatures of a declaration depends on the name index only. -/
lemma Allocated.resolveAll_congr (hfind : ∀ name, t'.find? name = t.find? name) (a : Allocated)
    (texts : List String) : a.resolveAll t' texts = a.resolveAll t texts := by
  have renamed : (a.rename (fun c => c) fun x => x).resolveAll t' texts =
      (a.resolveAll t texts).map (List.map (Ty.rename (fun c => c) fun x => x)) :=
    a.resolveAll_rename (by simpa using hfind) texts
  rw [a.rename_refl] at renamed
  rw [renamed]
  cases a.resolveAll t texts with
  | error e => rfl
  | ok tys => rw [Except.map, Ty.map_rename_eq_self fun ty _ => ty.rename_refl]

/-- The definition that a declaration amounts to depends on the name index and on `Object` only. -/
lemma ClassTable.definition_congr (hfind : ∀ name, t'.find? name = t.find? name)
    (hobject : t'.known.object = t.known.object) (a : Allocated) :
    t'.definition a = t.definition a := by
  have renamed : t'.definition (a.rename (fun c => c) fun x => x) =
      (t.definition a).map (ClassDef.rename (fun c => c) fun x => x) :=
    ClassTable.definition_rename (by simpa using hfind) (fun _ _ h => h) hobject a
  rw [a.rename_refl] at renamed
  rw [renamed]
  cases t.definition a with
  | error e => rfl
  | ok d =>
    rw [Except.map, ClassDef.rename_eq_self (fun _ _ => rfl)
      fun _ _ => ⟨fun _ _ _ => rfl, fun _ _ => rfl⟩]

end SameNames

end ContainerLint
