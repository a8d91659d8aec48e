import ContainerLint.Proofs.Declaration.Edits
import ContainerLint.Proofs.Relation.ErasureRules
import Mathlib.Data.List.Basic

/-!
# What erasures look like

An erasure is a primitive type, the type of `null`, or a class without arguments, under any number
of arrays. Such a type is its own erasure, so to erase twice is to erase once.

## Main definitions

* `Ty.Erased` — the types of that form.

## Main results

* `ClassTable.erased_of_erasure` — every erasure is of that form.
* `ClassTable.erasure_erased` — such a type is its own erasure.
* `ClassTable.erasure_exact` — erasure computes what the rules say, which is of that form.
-/

set_option autoImplicit false

namespace ContainerLint

namespace Ty

/-- What is left of a type when it has been erased. -/
inductive Erased : Ty → Prop where
  | prim (p : Primitive) : Erased (.prim p)
  | null : Erased .null
  | cls (id : ClassId) : Erased (.cls id [])
  | array {elem : Ty} : Erased elem → Erased (.array elem)

/-- An erased type is left as it is, whatever variables erase to. -/
lemma Erased.eraseWith {ty : Ty} (h : ty.Erased) (t : ClassTable) (follow : VarId → Option Ty) :
    ty.eraseWith t follow = some ty := by
  induction h with
  | prim | null | cls => rfl
  | array _ ih => rw [Ty.eraseWith, ih, Option.map_some]

end Ty

namespace ClassTable

variable {t : ClassTable}

/-- What the rules lead to is an erased type. -/
lemma Erases.erased {ty r : Ty} (h : t.Erases ty r) : r.Erased := by
  induction h with
  | prim p => exact .prim p
  | null => exact .null
  | cls | named | unbounded | wild | wildSuper => exact .cls _
  | array _ ih => exact .array ih
  | bounded _ _ _ ih | wildExtends _ ih | inter _ ih => exact ih

/-- **Every erasure is an erased type.** -/
theorem erased_of_erasure {ty r : Ty} (h : t.erasure ty = some r) : r.Erased :=
  (erases_of_erasure h).erased

/-- **An erased type is its own erasure.** -/
theorem erasure_erased {r : Ty} (h : r.Erased) : t.erasure r = some r :=
  h.eraseWith t _

/-- **Erasure is exact.** In every table, be there cycles of bounds or not, a type has the erasure
`r` if and only if `r` follows from the rules, which do not look for cycles. Whatever follows from
them is an erased type and its own erasure. -/
theorem erasure_exact (t : ClassTable) (ty r : Ty) :
    (t.erasure ty = some r ↔ t.Erases ty r) ∧
    (t.Erases ty r → r.Erased ∧ t.erasure r = some r) :=
  ⟨erasure_eq_some_iff, fun h => ⟨h.erased, erasure_erased h.erased⟩⟩

/-- A table in which the first bounds of `T` lead to `Number` by way of an array, an intersection, a
wildcard and a name, while `A` and `B`, one of them a further bound of `T`, lead to each other. -/
def chained : ClassTable :=
  core.withRows []
    [{ name := "T", upperBounds := [.array (.var ⟨1⟩), .var ⟨3⟩] },
     { name := "U", upperBounds := [.inter [.wildExtends (.var ⟨2⟩), .var ⟨0⟩]] },
     { name := "V", upperBounds := [.named "Number"] },
     { name := "A", upperBounds := [.array (.var ⟨4⟩)] },
     { name := "B", upperBounds := [.wildExtends (.var ⟨3⟩)] }]

/-- The derivation for `T`. -/
lemma erases_chained : chained.Erases (.var ⟨0⟩) (.array (.cls Core.number [])) := by
  have name : chained.lookup "Number" = some Core.number := by decide
  exact .bounded rfl rfl (.array (.bounded rfl rfl (.inter (.wildExtends
    (.bounded rfl rfl (.named name))))))

/-- From `A` one gets to `B` and back. -/
lemma transGen_leads_chained : Relation.TransGen chained.Leads ⟨3⟩ ⟨3⟩ :=
  .tail (.single ⟨_, _, _, rfl, rfl, rfl⟩) (b := ⟨4⟩) ⟨_, _, _, rfl, rfl, rfl⟩

/-- **The rules at work.** The erasure of `T` is `Number[]`, which is its own erasure, and `A` has
none. -/
theorem erasure_chained : chained.Erases (.var ⟨0⟩) (.array (.cls Core.number [])) ∧
    chained.erasure (.var ⟨0⟩) = some (.array (.cls Core.number [])) ∧
    (Ty.array (.cls Core.number [])).Erased ∧
    chained.erasure (.array (.cls Core.number [])) = some (.array (.cls Core.number [])) ∧
    chained.erasure (.var ⟨3⟩) = none := by
  obtain ⟨exact, form⟩ := erasure_exact chained (.var ⟨0⟩) (.array (.cls Core.number []))
  refine ⟨erases_chained, exact.2 erases_chained, (form erases_chained).1,
    (form erases_chained).2, ?_⟩
  rw [Option.eq_none_iff_forall_ne_some]
  intro r hr
  exact ((erasure_exact chained _ r).1.1 hr).not_transGen_leads rfl transGen_leads_chained

end ClassTable

end ContainerLint
