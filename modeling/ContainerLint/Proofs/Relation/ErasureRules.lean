import ContainerLint.Proofs.Declaration.Interning
import ContainerLint.Relation.Subtype

/-!
# The rules of erasure

Erasure is stated here by rules that know nothing of cycles: a variable erases to what its first
bound erases to, whatever that leads to. A derivation by these rules is finite, and there is only
one way to go on from a variable, so none comes up twice on the way. Hence to follow each variable
at most once, as the computation does, loses no erasure.

## Main definitions

* `ClassTable.Erases` — the rules.
* `Ty.headVar?` — the variable on which the erasure of a type depends.
* `ClassTable.Leads` — to erase one variable is to erase another one.

## Main results

* `ClassTable.erases_of_erasure` — what is computed follows from the rules.
* `ClassTable.Erases.not_transGen_leads` — a variable that leads back to itself has no erasure.
* `ClassTable.erasure_eq_some_iff` — what follows from the rules is what is computed.
-/

set_option autoImplicit false

namespace ContainerLint

/-- The erasure of a type, rule by rule. There is no rule for `void` and the placeholders, for names
that cannot be looked up, variables that are not defined and intersections without parts. -/
inductive ClassTable.Erases (t : ClassTable) : Ty → Ty → Prop where
  | prim (p : Primitive) : Erases t (.prim p) (.prim p)
  | null : Erases t .null .null
  | cls (id : ClassId) (args : List Ty) : Erases t (.cls id args) (.cls id [])
  | named {name : String} {id : ClassId} : t.lookup name = some id →
      Erases t (.named name) (.cls id [])
  | array {elem r : Ty} : Erases t elem r → Erases t (.array elem) (.array r)
  | unbounded {x : VarId} {p : TypeParam} : t.typeParam? x = some p → p.upperBounds = [] →
      Erases t (.var x) t.objectTy
  /-- Only the first bound counts. -/
  | bounded {x : VarId} {p : TypeParam} {bound r : Ty} {rest : List Ty} :
      t.typeParam? x = some p → p.upperBounds = bound :: rest → Erases t bound r →
      Erases t (.var x) r
  | wild : Erases t .wild t.objectTy
  | wildExtends {upper r : Ty} : Erases t upper r → Erases t (.wildExtends upper) r
  | wildSuper (lower : Ty) : Erases t (.wildSuper lower) t.objectTy
  /-- Only the first part counts. -/
  | inter {part r : Ty} {rest : List Ty} : Erases t part r → Erases t (.inter (part :: rest)) r

/-! ## What is computed follows from the rules -/

/-- A type erases by the rules if the variables do.

**Proof sketch.** By induction on the type. Each clause of the erasure is one of the rules, and the
clause for variables is the assumption. -/
lemma Ty.erases_of_eraseWith {t : ClassTable} {follow : VarId → Option Ty}
    (hfollow : ∀ x r, follow x = some r → t.Erases (.var x) r) {ty r : Ty}
    (h : ty.eraseWith t follow = some r) : t.Erases ty r := by
  induction ty using recOnMembers generalizing r with
  | void | unknown | error => cases h
  | prim p =>
    cases h
    exact .prim p
  | null =>
    cases h
    exact .null
  | cls id args =>
    cases h
    exact .cls id args
  | wild =>
    cases h
    exact .wild
  | wildSuper lower =>
    cases h
    exact .wildSuper lower
  | array elem ih =>
    obtain ⟨erased, herased, rfl⟩ := Option.map_eq_some_iff.1 h
    exact .array (ih herased)
  | var x => exact hfollow x r h
  | wildExtends upper ih => exact .wildExtends (ih h)
  | inter parts ih =>
    cases parts with
    | nil => cases h
    | cons part parts => exact .inter (ih part List.mem_cons_self h)
  | named name =>
    obtain ⟨id, hid, rfl⟩ := Option.map_eq_some_iff.1 h
    exact .named hid

namespace ClassTable

variable {t : ClassTable}

/-- Variables erase by the rules, whichever of them may be followed.

**Proof sketch.** Induction on the variables that may be followed: a bound is erased with one of
them less. -/
lemma erases_of_eraseVar {avail : List VarId} {x : VarId} {r : Ty}
    (h : t.eraseVar avail x = some r) : t.Erases (.var x) r := by
  induction avail using (measure List.length).wf.induction generalizing x r with
  | h avail ih =>
    rw [eraseVar] at h
    split at h
    · next hx =>
      split at h
      · cases h
      · next p hp =>
        split at h
        · next hbounds =>
          cases h
          exact .unbounded hp hbounds
        · next bound rest hbounds =>
          have shorter : (avail.erase x).length < avail.length := by
            have := List.length_pos_of_mem hx
            rw [List.length_erase_of_mem hx]
            omega
          exact .bounded hp hbounds (Ty.erases_of_eraseWith (fun y s hs => ih _ shorter hs) h)
    · cases h

/-- What is computed follows from the rules. -/
theorem erases_of_erasure {ty r : Ty} (h : t.erasure ty = some r) : t.Erases ty r :=
  Ty.erases_of_eraseWith (fun _ _ hs => erases_of_eraseVar hs) h

end ClassTable

/-! ## What follows from the rules is computed -/

/-- The variable on which the erasure of a type depends, if there is one. -/
def Ty.headVar? : Ty → Option VarId
  | .var x => some x
  | .array elem => elem.headVar?
  | .wildExtends upper => upper.headVar?
  | .inter (part :: _) => part.headVar?
  | _ => none

namespace ClassTable

variable {t : ClassTable}

/-- The erasure of the first bound of `x` depends on the variable `y`. -/
def Leads (t : ClassTable) (x y : VarId) : Prop :=
  ∃ p bound rest, t.typeParam? x = some p ∧ p.upperBounds = bound :: rest ∧
    bound.headVar? = some y

/-- A variable leads to the one on which its first bound depends, and to no other. -/
lemma leads_iff {x y : VarId} {p : TypeParam} {bound : Ty} {rest : List Ty}
    (hp : t.typeParam? x = some p) (hbounds : p.upperBounds = bound :: rest) :
    t.Leads x y ↔ bound.headVar? = some y := by
  constructor
  · rintro ⟨p', bound', rest', hp', hbounds', hy⟩
    obtain rfl : p = p' := Option.some.inj (hp.symm.trans hp')
    obtain ⟨rfl, rfl⟩ := List.cons.inj (hbounds.symm.trans hbounds')
    exact hy
  · exact fun hy => ⟨p, bound, rest, hp, hbounds, hy⟩

/-- **A variable that leads back to itself has no erasure**, and neither have the types that depend
on it.

**Proof sketch.** Induction on the derivation. From a variable there is only one way to go on, so a
cycle through it is a cycle through the variable on which its bound depends. -/
theorem Erases.not_transGen_leads {ty r : Ty} (h : t.Erases ty r) {x : VarId}
    (hx : ty.headVar? = some x) : ¬ Relation.TransGen t.Leads x x := by
  induction h generalizing x with
  | prim | null | cls | named | wild | wildSuper => cases hx
  | array _ ih | wildExtends _ ih | inter _ ih => exact ih hx
  | unbounded hp hbounds =>
    cases hx
    intro cycle
    obtain ⟨y, ⟨p', bound, rest, hp', hbounds', -⟩, -⟩ := Relation.TransGen.head'_iff.1 cycle
    obtain rfl := Option.some.inj (hp.symm.trans hp')
    simp [hbounds] at hbounds'
  | bounded hp hbounds _ ih =>
    cases hx
    intro cycle
    -- the first step of the cycle is the one to the bound; moved to the end, it closes one there
    obtain ⟨y, first, back⟩ := Relation.TransGen.head'_iff.1 cycle
    exact ih ((leads_iff hp hbounds).1 first) (.tail' back first)

/-- When a variable is used up that does not lead back to itself, those that come up behind it are
still there. -/
lemma mem_erase_of_leads {x y z : VarId} {avail : List VarId}
    (once : ¬ Relation.TransGen t.Leads x x) (first : t.Leads x y)
    (path : Relation.ReflTransGen t.Leads y z) (mem : z ∈ avail) : z ∈ avail.erase x := by
  have other : z ≠ x := by
    rintro rfl
    exact once (.head' first path)
  exact (List.mem_erase_of_ne other).2 mem

/-- The rules lead to what is computed if all variables that come up may be followed.

**Proof sketch.** Induction on the derivation. When a variable is followed, it is used up, but it
does not come up again. -/
lemma Erases.eraseWith_eq_some {ty r : Ty} (h : t.Erases ty r) {avail : List VarId}
    (available : ∀ x, ty.headVar? = some x → ∀ y ∈ t.varIds,
      Relation.ReflTransGen t.Leads x y → y ∈ avail) :
    ty.eraseWith t (t.eraseVar avail) = some r := by
  induction h generalizing avail with
  | prim | null | cls | wild | wildSuper => rfl
  | named hid => rw [Ty.eraseWith, hid, Option.map_some]
  | array _ ih => rw [Ty.eraseWith, ih available, Option.map_some]
  | wildExtends _ ih | inter _ ih => exact ih available
  | @unbounded x p hp hbounds =>
    have mem : x ∈ avail := available x rfl x (mem_varIds_iff.2 (by simp [hp])) .refl
    rw [Ty.eraseWith, eraseVar, dif_pos mem, hp]
    dsimp only
    rw [hbounds]
  | @bounded x p bound r rest hp hbounds hbound ih =>
    have mem : x ∈ avail := available x rfl x (mem_varIds_iff.2 (by simp [hp])) .refl
    have once : ¬ Relation.TransGen t.Leads x x :=
      (Erases.bounded hp hbounds hbound).not_transGen_leads rfl
    rw [Ty.eraseWith, eraseVar, dif_pos mem, hp]
    dsimp only
    rw [hbounds]
    refine ih fun y hy z hz path => ?_
    have first : t.Leads x y := (leads_iff hp hbounds).2 hy
    exact mem_erase_of_leads once first path (available x rfl z hz (path.head first))

/-- **Erasure computes what the rules say.** -/
theorem erasure_eq_some_iff {ty r : Ty} : t.erasure ty = some r ↔ t.Erases ty r :=
  ⟨erases_of_erasure, fun h => h.eraseWith_eq_some fun _ _ _ hy _ => hy⟩

end ClassTable

end ContainerLint
