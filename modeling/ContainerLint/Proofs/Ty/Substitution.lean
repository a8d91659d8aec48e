import ContainerLint.ClassTable.Basic
import Mathlib.Data.List.Basic

/-!
# Laws of substitution and of looking up names

A substitution matters only through the variables that occur, two substitutions in a row are one,
and names can be looked up before or after. To put arguments in for formal parameters and then to
substitute is to put in the substituted arguments, provided that a type mentions no other variables.

## Main definitions

* `Ty.subterms` — a type and everything inside of it.

## Main results

* `Ty.subst_subst` — one substitution after another is one substitution.
* `Ty.subst_formals_subst` — the same for the formal parameters of a class.
* `Ty.canonical_canonical` — looking up names twice is looking them up once.
* `Ty.canonical_subst` — looking up names commutes with substitution.
-/

set_option autoImplicit false

namespace ContainerLint

namespace Ty

/-! ## Subterms -/

mutual

/-- A type and everything inside of it. -/
def subterms : Ty → List Ty
  | .cls id args => .cls id args :: subtermsAll args
  | .array elem => .array elem :: subterms elem
  | .wildExtends upper => .wildExtends upper :: subterms upper
  | .wildSuper lower => .wildSuper lower :: subterms lower
  | .inter parts => .inter parts :: subtermsAll parts
  | ty => [ty]

/-- Everything inside of a list of types. -/
def subtermsAll : List Ty → List Ty
  | [] => []
  | ty :: tys => subterms ty ++ subtermsAll tys

end

/-- The subterms of a list are those of its members. -/
lemma mem_subtermsAll {s : Ty} {tys : List Ty} :
    s ∈ subtermsAll tys ↔ ∃ ty ∈ tys, s ∈ ty.subterms := by
  induction tys with
  | nil => simp [subtermsAll]
  | cons ty tys ih => simp [subtermsAll, ih]

/-- The subterms of an argument are subterms of the class type. -/
lemma mem_subterms_cls {s a : Ty} {id : ClassId} {args : List Ty} (ha : a ∈ args)
    (hs : s ∈ a.subterms) : s ∈ (Ty.cls id args).subterms := by
  rw [subterms]
  exact List.mem_cons_of_mem _ (mem_subtermsAll.2 ⟨a, ha, hs⟩)

/-- The subterms of a part are subterms of the intersection. -/
lemma mem_subterms_inter {s p : Ty} {parts : List Ty} (hp : p ∈ parts) (hs : s ∈ p.subterms) :
    s ∈ (Ty.inter parts).subterms := by
  rw [subterms]
  exact List.mem_cons_of_mem _ (mem_subtermsAll.2 ⟨p, hp, hs⟩)

/-! ## Substitution -/

/-- A substitution matters only through the variables that occur. -/
lemma subst_congr {σ ρ : Subst} (ty : Ty)
    (h : ∀ x, Ty.var x ∈ ty.subterms → (σ x).getD (.var x) = (ρ x).getD (.var x)) :
    ty.subst σ = ty.subst ρ := by
  induction ty using recOnMembers with
  | var x => exact h x (by simp [subterms])
  | cls id args ih =>
    simp only [subst, substAll_eq_map]
    congr 1
    exact List.map_congr_left fun a ha => ih a ha fun x hx => h x (mem_subterms_cls ha hx)
  | inter parts ih =>
    simp only [subst, substAll_eq_map]
    congr 1
    exact List.map_congr_left fun p hp => ih p hp fun x hx => h x (mem_subterms_inter hp hx)
  | array elem ih | wildExtends elem ih | wildSuper elem ih =>
    simp only [subst]
    rw [ih fun x hx => h x (by simp [subterms, hx])]
  | _ => rfl

/-- One substitution after another is one substitution. -/
theorem subst_subst (σ ρ : Subst) (ty : Ty) : (ty.subst σ).subst ρ = ty.subst (σ.andThen ρ) := by
  induction ty using recOnMembers with
  | var x => cases h : σ x <;> simp [subst, Subst.andThen, h]
  | cls id args ih | inter args ih =>
    simp only [subst, substAll_eq_map, List.map_map]
    congr 1
    exact List.map_congr_left ih
  | array elem ih | wildExtends elem ih | wildSuper elem ih => simp [subst, ih]
  | _ => rfl

end Ty

/-! ## Formal parameters -/

/-- The assignment of a list of pairs whose second members are changed by `f`. -/
lemma Subst.ofPairs_map (f : Ty → Ty) (pairs : List (VarId × Ty)) (x : VarId) :
    Subst.ofPairs (pairs.map fun p => (p.1, f p.2)) x = (Subst.ofPairs pairs x).map f := by
  induction pairs with
  | nil => rfl
  | cons p pairs ih =>
    obtain ⟨y, a⟩ := p
    simp only [List.map_cons, Subst.ofPairs, ih]
    by_cases eq : y = x
    · cases Subst.ofPairs pairs x <;> simp [eq]
    · cases Subst.ofPairs pairs x <;> simp [eq]

/-- Formal parameters bound to changed arguments. -/
lemma Subst.ofFormals_map (formals : List VarId) (f : Ty → Ty) (args : List Ty) (x : VarId) :
    Subst.ofFormals formals (args.map f) x = (Subst.ofFormals formals args x).map f := by
  rw [Subst.ofFormals, Subst.ofFormals, ← Subst.ofPairs_map, List.zip_map_right]
  rfl

/-- A formal parameter is bound if there are as many arguments as parameters. -/
lemma Subst.ofFormals_isSome {formals : List VarId} {args : List Ty} {x : VarId}
    (hx : x ∈ formals) (hlen : args.length = formals.length) :
    (Subst.ofFormals formals args x).isSome = true := by
  induction formals generalizing args with
  | nil => simp at hx
  | cons y formals ih =>
    obtain ⟨a, args, rfl⟩ := List.exists_cons_of_length_eq_add_one hlen
    simp only [Subst.ofFormals, List.zip_cons_cons, Subst.ofPairs]
    rcases List.mem_cons.1 hx with rfl | hx
    · simp
    · have := ih hx (Nat.succ.inj hlen)
      simp only [Subst.ofFormals] at this
      simp [this]

/-- Only formal parameters are bound. -/
lemma Subst.ofFormals_eq_none {formals : List VarId} {x : VarId} (hx : x ∉ formals)
    (args : List Ty) : Subst.ofFormals formals args x = none := by
  induction formals generalizing args with
  | nil => rfl
  | cons y formals ih =>
    cases args with
    | nil => rfl
    | cons a args =>
      have hne : y ≠ x := fun eq => hx (eq ▸ List.mem_cons_self)
      have := ih (fun mem => hx (List.mem_cons_of_mem _ mem)) args
      simp only [Subst.ofFormals] at this
      simp [Subst.ofFormals, Subst.ofPairs, hne, this]

/-- Distinct formal parameters are replaced by the arguments, position by position. -/
lemma Subst.map_var_ofFormals {formals : List VarId} {args : List Ty} (hnd : formals.Nodup)
    (hlen : args.length = formals.length) :
    (formals.map Ty.var).map (Ty.subst (Subst.ofFormals formals args)) = args := by
  induction formals generalizing args with
  | nil => exact (List.eq_nil_of_length_eq_zero hlen).symm
  | cons y formals ih =>
    obtain ⟨a, args, rfl⟩ := List.exists_cons_of_length_eq_add_one hlen
    obtain ⟨hy, hnd⟩ := List.nodup_cons.1 hnd
    have tail := ih hnd (Nat.succ.inj hlen)
    have unbound : Subst.ofPairs (formals.zip args) y = none := Subst.ofFormals_eq_none hy args
    rw [List.map_map] at tail
    simp only [List.map_cons, List.map_map]
    congr 1
    · simp [Ty.subst, Subst.ofFormals, Subst.ofPairs, unbound]
    · refine (List.map_congr_left fun z hz => ?_).trans tail
      have hne : y ≠ z := fun eq => hy (eq ▸ hz)
      simp [Ty.subst, Subst.ofFormals, Subst.ofPairs, hne]

namespace Ty

/-- To put arguments in for formal parameters and then to substitute is to put in the substituted
arguments, if the formal parameters are the only variables.

**Proof sketch.** By `subst_subst` the left side is a substitution, which on each formal parameter
agrees with the one on the right. -/
theorem subst_formals_subst {formals : List VarId} {args : List Ty} {ty : Ty} (σ : Subst)
    (hvars : ∀ x, Ty.var x ∈ ty.subterms → x ∈ formals) (hlen : args.length = formals.length) :
    (ty.subst (Subst.ofFormals formals args)).subst σ =
      ty.subst (Subst.ofFormals formals (args.map (subst σ))) := by
  rw [subst_subst]
  refine subst_congr ty fun x hx => ?_
  obtain ⟨a, ha⟩ := Option.isSome_iff_exists.1 (Subst.ofFormals_isSome (hvars x hx) hlen)
  simp [Subst.andThen, Subst.ofFormals_map, ha]

/-! ## Names -/

/-- A looked-up name is a class, or stays as it is. -/
lemma canonical_named (t : ClassTable) (name : String) :
    (∃ id, (Ty.named name).canonical t = .cls id []) ∨
      (Ty.named name).canonical t = .named name := by
  cases h : t.lookup name with
  | some id => exact .inl ⟨id, by simp [canonical, h]⟩
  | none => exact .inr (by simp [canonical, h])

/-- Looking up names twice is looking them up once. -/
theorem canonical_canonical (t : ClassTable) (ty : Ty) :
    (ty.canonical t).canonical t = ty.canonical t := by
  induction ty using recOnMembers with
  | named name =>
    rcases canonical_named t name with ⟨id, h⟩ | h
    · rw [h]
      rfl
    · rw [h, h]
  | cls id args ih | inter args ih =>
    simp only [canonical, canonicalAll_eq_map, List.map_map]
    congr 1
    exact List.map_congr_left ih
  | array elem ih | wildExtends elem ih | wildSuper elem ih => simp [canonical, ih]
  | _ => rfl

/-- A type without open names has nothing to look up. -/
lemma canonical_eq_self {t : ClassTable} (ty : Ty) (h : ∀ name, Ty.named name ∉ ty.subterms) :
    ty.canonical t = ty := by
  induction ty using recOnMembers with
  | named name => exact absurd (by simp [subterms]) (h name)
  | cls id args ih =>
    simp only [canonical, canonicalAll_eq_map]
    rw [List.map_congr_left fun a ha => ih a ha fun n hn => h n (mem_subterms_cls ha hn)]
    simp
  | inter parts ih =>
    simp only [canonical, canonicalAll_eq_map]
    rw [List.map_congr_left fun p hp => ih p hp fun n hn => h n (mem_subterms_inter hp hn)]
    simp
  | array elem ih | wildExtends elem ih | wildSuper elem ih =>
    simp only [canonical]
    rw [ih fun n hn => h n (by simp [subterms, hn])]
  | _ => rfl

/-- Names can be looked up after a substitution or before it, in the type and in what is put in. -/
theorem canonical_subst (t : ClassTable) (σ : Subst) (ty : Ty) :
    (ty.subst σ).canonical t = (ty.canonical t).subst fun x => (σ x).map (canonical t) := by
  induction ty using recOnMembers with
  | var x => cases h : σ x <;> simp [subst, canonical, h]
  | named name =>
    rcases canonical_named t name with ⟨id, h⟩ | h
    · rw [subst, h]
      rfl
    · rw [subst, h]
      rfl
  | cls id args ih | inter args ih =>
    simp only [subst, canonical, substAll_eq_map, canonicalAll_eq_map, List.map_map]
    congr 1
    exact List.map_congr_left ih
  | array elem ih | wildExtends elem ih | wildSuper elem ih => simp [subst, canonical, ih]
  | _ => rfl

end Ty

end ContainerLint
