import ContainerLint.Proofs.Analysis.FirstConclusive
import ContainerLint.Proofs.Hierarchy.RawUses

/-!
# Calls on raw receivers

A raw use of a generic class says nothing about type arguments, so a call on it should be left
alone. It is, with an index or without, as long as the raw use shows no arguments of any generic
class. A class without parameters in between is all that can make a difference: what it declares is
seen through the raw use as well, and a call can then be found to be wrong.

## Main results

* `ClassTable.RawSafe.analyze_eq` — calls on a safe raw receiver are left alone.
* `ResolvedCatalog.analyze_raw_receiver` — what raw receivers show, and when they are safe.
-/

set_option autoImplicit false

namespace ContainerLint

/-- An entry of which the base type shows nothing leaves the call open. -/
lemma ResolvedCatalog.verdict_tryEntry_eq_inconclusive {t : ClassTable}
    {index : Option AncestorIndex} {policy : Policy} {receiver : Ty} {e : ResolvedEntry}
    {argument : Ty} (h : receiverArgs t index receiver e.base = none) :
    (tryEntry t index policy receiver e argument).verdict = .inconclusive := by
  rw [tryEntry, h]
  rfl

namespace ClassTable

variable {t : ClassTable} {c : ClassId} {d : ClassDef}

/-- With an index or without, a raw receiver shows what the walk finds. -/
lemma receiverArgs_raw (index : Option AncestorIndex) (hd : t.classDef? c = some d)
    (generic : d.isGeneric = true) (a : ClassId) :
    ResolvedCatalog.receiverArgs t index (.cls c []) a = t.ancestorArgs (.cls c []) a := by
  cases index with
  | none => rfl
  | some index => exact index.ancestorArgs_raw hd generic a

/-- **Calls on a safe raw receiver are left alone.**

**Proof sketch.** The base type of an entry of a resolved catalog is generic, since the entry names
one of its parameters. The receiver shows nothing for it, so no entry is conclusive. -/
theorem RawSafe.analyze_eq (safe : t.RawSafe c) (hd : t.classDef? c = some d)
    (generic : d.isGeneric = true) (catalog : Catalog) (index : Option AncestorIndex)
    (policy : Policy) {call : CallSite} (hcall : call.receiver = .cls c []) :
    (catalog.resolve t).analyze t index policy call = {} := by
  rcases ResolvedCatalog.analyze_cases (catalog.indexed_resolve t) t index policy call with
    ⟨open', -⟩ | ⟨e, argument, first, -⟩
  · exact open'
  · obtain ⟨base, hbase, hparam⟩ := Catalog.exists_classDef?_of_mem_resolve first.mem
    have baseGeneric : base.isGeneric = true := ClassDef.isGeneric_iff.2 (by omega)
    refine absurd (ResolvedCatalog.verdict_tryEntry_eq_inconclusive ?_) first.conclusive
    rw [hcall, receiverArgs_raw index hd generic]
    exact safe.ancestorArgs_eq_none hbase baseGeneric

end ClassTable

namespace ResolvedCatalog

/-- **What raw receivers show.** For every table and every generic class that is used raw:

* every index sees the raw use as the walk does;
* the arguments that it shows for a generic class come from a class without parameters that raw
  steps lead to;
* where the types above it agree on the arguments of each class, it shows no arguments of a generic
  class if and only if it is safe;
* if it is safe, it shows none in any case, and every catalog that is resolved against the table
  leaves every call on it alone.

**Proof sketch.** An index is not used for raw types. From a raw type only raw steps lead on, up to
the first class without parameters, so arguments can come only from beyond such a class. If no
generic class is there, the receiver shows nothing that an entry could compare. -/
theorem analyze_raw_receiver (t : ClassTable) (c : ClassId) (d : ClassDef)
    (hd : t.classDef? c = some d) (generic : d.isGeneric = true) :
    (∀ (index : AncestorIndex) (a : ClassId),
      index.ancestorArgs t (.cls c []) a = t.ancestorArgs (.cls c []) a) ∧
    (∀ a d' args, t.classDef? a = some d' → d'.isGeneric = true →
      t.ancestorArgs (.cls c []) a = some args → t.BeyondRaw c (.cls a args)) ∧
    (t.Coherent (.cls c []) →
      ((∀ a d', t.classDef? a = some d' → d'.isGeneric = true →
        t.ancestorArgs (.cls c []) a = none) ↔ t.RawSafe c)) ∧
    (t.RawSafe c →
      (∀ a d', t.classDef? a = some d' → d'.isGeneric = true →
        t.ancestorArgs (.cls c []) a = none) ∧
      ∀ (catalog : Catalog) (index : Option AncestorIndex) (policy : Policy) (call : CallSite),
        call.receiver = .cls c [] → (catalog.resolve t).analyze t index policy call = {}) := by
  refine ⟨fun index => index.ancestorArgs_raw hd generic, ?_, ?_, ?_⟩
  · intro a d' args hd' generic' h
    exact (ClassTable.beyondRaw_of_ancestorArgs hd' generic' h).1
  · intro coherent
    exact (ClassTable.rawSafe_iff coherent).symm
  · intro safe
    refine ⟨fun a d' hd' generic' => safe.ancestorArgs_eq_none hd' generic', ?_⟩
    intro catalog index policy call hcall
    exact safe.analyze_eq hd generic catalog index policy hcall

/-- The classes `A` and `B` of the table `nested` are generic. -/
lemma isGeneric_nested :
    (ClassTable.nested.classDef? ⟨15⟩).any (·.isGeneric) = true ∧
      (ClassTable.nested.classDef? ⟨14⟩).any (·.isGeneric) = true := by
  rw [ClassTable.nested_eq]
  decide

/-- In the table `nested` everything above the raw use of `A` is raw. -/
lemma rawSafe_nested : ClassTable.nested.RawSafe ⟨15⟩ := by
  refine ClassTable.rawSafe_of_above fun a args above => ?_
  have mem : Ty.cls a args ∈ [Ty.cls ⟨15⟩ [], .cls ⟨14⟩ [], .cls ⟨0⟩ []] := by
    rw [ClassTable.nested_eq] at above
    exact ClassTable.mem_of_above (by decide) (by decide) above
  simp only [List.mem_cons, Ty.cls.injEq, List.not_mem_nil, or_false] at mem
  grind

/-- The types above it are of different classes. -/
lemma coherent_nested_raw : ClassTable.nested.Coherent (.cls ⟨15⟩ []) := by
  rw [ClassTable.nested_eq]
  exact ClassTable.coherent_of_closed [.cls ⟨15⟩ [], .cls ⟨14⟩ [], .cls ⟨0⟩ []]
    (by decide) (by decide) (by decide)

/-- The raw use of `A` does not show the argument of `B`, and calls on it are left alone. -/
theorem analyze_nested_raw :
    ClassTable.nested.RawSafe ⟨15⟩ ∧ ClassTable.nested.Coherent (.cls ⟨15⟩ []) ∧
    ClassTable.nested.ancestorArgs (.cls ⟨15⟩ []) ⟨14⟩ = none ∧
    (AncestorIndex.build ClassTable.nested ClassTable.nested.ids).ancestorArgs ClassTable.nested
      (.cls ⟨15⟩ []) ⟨14⟩ = none ∧
    ∀ (catalog : Catalog) (index : Option AncestorIndex) (policy : Policy) (call : CallSite),
      call.receiver = .cls ⟨15⟩ [] →
      (catalog.resolve ClassTable.nested).analyze ClassTable.nested index policy call = {} := by
  obtain ⟨d, hd, generic⟩ := (Option.any_eq_true _ _).1 isGeneric_nested.1
  obtain ⟨d', hd', generic'⟩ := (Option.any_eq_true _ _).1 isGeneric_nested.2
  obtain ⟨indexed, -, safe_iff, safe⟩ :=
    analyze_raw_receiver ClassTable.nested ⟨15⟩ d hd generic
  have none := (safe_iff coherent_nested_raw).2 rawSafe_nested ⟨14⟩ d' hd' generic'
  exact ⟨rawSafe_nested, coherent_nested_raw, none, (indexed _ _).trans none,
    (safe rawSafe_nested).2⟩

/-! ## A class without parameters in between -/

/-- A table in which the generic class `C<X>` extends `D`, which has no parameters and implements
`Base<String>`. -/
def pinned : ClassTable :=
  (ClassTable.core.declare
    [{ name := "com.example.Base", kind := .interface, typeParams := ["T"] },
     { name := "com.example.D", implemented := ["com.example.Base<String>"] },
     { name := "com.example.C", typeParams := ["X"], extended := ["com.example.D"] }]).1

/-- The rows of this table. -/
lemma pinned_eq : pinned = ClassTable.core.withRows
    [{ name := "com.example.Base", kind := .interface, typeParams := [⟨0⟩] },
     { name := "com.example.D", superClass := some (.cls ⟨0⟩ []),
       interfaces := [.cls ⟨13⟩ [.cls ⟨1⟩ []]] },
     { name := "com.example.C", typeParams := [⟨1⟩], superClass := some (.cls ⟨14⟩ []) }]
    [{ name := "T", upperBounds := [.cls ⟨0⟩ []] },
     { name := "X", upperBounds := [.cls ⟨0⟩ []] }] := by
  decide +kernel

/-- A call of `get` on the raw `C` with an `Integer`. -/
def rawCall : CallSite where
  receiver := .cls ⟨15⟩ []
  method := "get"
  params := [.cls ⟨0⟩ []]
  args := [.cls ⟨9⟩ []]

/-- The raw `C` is seen as `Base<String>`. -/
lemma ancestorArgs_pinned : pinned.ancestorArgs (.cls ⟨15⟩ []) ⟨13⟩ = some [.cls ⟨1⟩ []] := by
  have coherent : pinned.Coherent (.cls ⟨15⟩ []) := by
    rw [pinned_eq]
    exact ClassTable.coherent_of_closed
      [.cls ⟨15⟩ [], .cls ⟨14⟩ [], .cls ⟨13⟩ [.cls ⟨1⟩ []], .cls ⟨0⟩ []]
      (by decide) (by decide) (by decide)
  have extended : pinned.DeclaredStep (.cls ⟨15⟩ []) (.cls ⟨14⟩ []) :=
    (ClassTable.mem_declaredSupertypes_iff rfl).1 (by rw [pinned_eq]; decide)
  have implemented : pinned.DeclaredStep (.cls ⟨14⟩ []) (.cls ⟨13⟩ [.cls ⟨1⟩ []]) :=
    (ClassTable.mem_declaredSupertypes_iff rfl).1 (by rw [pinned_eq]; decide)
  rw [ClassTable.ancestorArgs,
    ClassTable.viewAs_of_above rfl coherent (.tail (.single extended) implemented) rfl, pinned_eq]
  rfl

/-- The class `C` is below `Base`, for the index as well. -/
lemma isBelow_pinned (index : Option AncestorIndex)
    (h : index = none ∨ index = some (AncestorIndex.build pinned pinned.ids)) :
    pinned.isBelow index (.cls ⟨15⟩ []) ⟨13⟩ = true := by
  have below : pinned.isBelow none (.cls ⟨15⟩ []) ⟨13⟩ = true := by
    have extended : pinned.Parent ⟨15⟩ ⟨14⟩ :=
      ClassTable.mem_parents_iff.1 (by rw [pinned_eq]; decide)
    have implemented : pinned.Parent ⟨14⟩ ⟨13⟩ :=
      ClassTable.mem_parents_iff.1 (by rw [pinned_eq]; decide)
    exact ClassTable.isBelow_none_cls_iff.2 (.inr (.tail (.single extended) implemented))
  have proper : pinned.ProperSupertypes := by
    rw [pinned_eq]
    exact ClassTable.properSupertypes_of_slots (by decide) (by decide)
  rcases h with rfl | rfl
  · exact below
  · rw [ClassTable.isBelow_build proper _ _ (by rw [pinned_eq]; decide)]
    exact below

/-- A `String` and an `Integer` do not go together. -/
lemma decide_string_integer_pinned :
    pinned.decide .strict (.cls ⟨1⟩ []) (.cls ⟨9⟩ []) = .incompatible := by
  rw [pinned_eq]
  exact ClassTable.decide_string_integer_withRows _ _

/-- The classes `C` and `Base` of the table `pinned` are generic. -/
lemma isGeneric_pinned :
    (pinned.classDef? ⟨15⟩).any (·.isGeneric) = true ∧
      (pinned.classDef? ⟨13⟩).any (·.isGeneric) = true := by
  rw [pinned_eq]
  decide

/-- The call on the raw `C` is found to be wrong, with the index and without.

**Proof sketch.** The one entry matches. It compares the argument with what the raw `C` shows of
`Base`, and that is the same with the index and without. -/
lemma analyze_rawCall (index : Option AncestorIndex)
    (h : index = none ∨ index = some (AncestorIndex.build pinned pinned.ids)) :
    (({ entries := [getEntry] } : Catalog).resolve pinned).analyze pinned index .strict rawCall =
      { verdict := .incompatible,
        mismatch := some
          { entry := getEntry, parameter := .cls ⟨1⟩ [], argument := .cls ⟨9⟩ [] } } := by
  obtain ⟨d, hd, generic⟩ := (Option.any_eq_true _ _).1 isGeneric_pinned.1
  have erasure : pinned.erasure rawCall.receiver = some (.cls ⟨15⟩ []) := rfl
  have params : pinned.eraseAll rawCall.params = some [.cls ⟨0⟩ []] := rfl
  have entries : (({ entries := [getEntry] } : Catalog).resolve pinned).byMethod rawCall.method =
      [{ entry := getEntry, base := ⟨13⟩, erasedParams := [.cls ⟨0⟩ []] }] := by
    rw [pinned_eq]
    decide +kernel
  have outcome : tryEntry pinned index .strict rawCall.receiver
      { entry := getEntry, base := ⟨13⟩, erasedParams := [.cls ⟨0⟩ []] } (.cls ⟨9⟩ []) =
        .compared (.cls ⟨1⟩ []) .incompatible := by
    have shown : receiverArgs pinned index rawCall.receiver ⟨13⟩ = some [.cls ⟨1⟩ []] :=
      (ClassTable.receiverArgs_raw index hd generic ⟨13⟩).trans ancestorArgs_pinned
    simp [tryEntry, shown, getEntry, decide_string_integer_pinned]
  have argument : rawCall.args[getEntry.argIndex]? = some (.cls ⟨9⟩ []) := rfl
  rw [analyze_eq, erasure, params, entries]
  dsimp only
  rw [List.findSome?_cons, judge_of_incompatible rfl (isBelow_pinned index h) argument outcome]
  rfl

/-- **A raw receiver can show arguments.** The raw `C` is seen as `Base<String>`, because `D` has no
parameters and declares it, and the call of `get` with an `Integer` is found to be wrong. -/
theorem analyze_pinned_raw :
    pinned.Reachable ∧ (pinned.classDef? ⟨15⟩).any (·.isGeneric) = true ∧
    (pinned.classDef? ⟨13⟩).any (·.isGeneric) = true ∧
    pinned.ancestorArgs (.cls ⟨15⟩ []) ⟨13⟩ = some [.cls ⟨1⟩ []] ∧
    (AncestorIndex.build pinned pinned.ids).ancestorArgs pinned (.cls ⟨15⟩ []) ⟨13⟩ =
      some [.cls ⟨1⟩ []] ∧
    (({ entries := [getEntry] } : Catalog).resolve pinned).analyze pinned none .strict rawCall =
      { verdict := .incompatible,
        mismatch := some
          { entry := getEntry, parameter := .cls ⟨1⟩ [], argument := .cls ⟨9⟩ [] } } ∧
    (({ entries := [getEntry] } : Catalog).resolve pinned).analyze pinned
        (some (AncestorIndex.build pinned pinned.ids)) .strict rawCall =
      { verdict := .incompatible,
        mismatch := some
          { entry := getEntry, parameter := .cls ⟨1⟩ [], argument := .cls ⟨9⟩ [] } } := by
  obtain ⟨d, hd, generic⟩ := (Option.any_eq_true _ _).1 isGeneric_pinned.1
  exact ⟨.declare _ .core, isGeneric_pinned.1, isGeneric_pinned.2, ancestorArgs_pinned,
    (AncestorIndex.ancestorArgs_raw _ hd generic _).trans ancestorArgs_pinned,
    analyze_rawCall none (.inl rfl), analyze_rawCall _ (.inr rfl)⟩

end ResolvedCatalog

end ContainerLint
