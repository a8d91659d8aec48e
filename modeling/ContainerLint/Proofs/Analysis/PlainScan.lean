import ContainerLint.Proofs.Analysis.IndexedAnalysis
import ContainerLint.Proofs.Catalog.Resolution
import ContainerLint.Proofs.Relation.ErasedForms

/-!
# Matching is a plain scan

The entries that a call matches are found through the index of method names and three tests. They
are the same as those that one finds by going through the catalog from its start to its end and
asking everything of each entry. The catalog may have been resolved in another table than the one in
which the call is looked at. Of the receiver and the parameters only the erasures count.

## Main definitions

* `ResolvedCatalog.scan` — the matching entries, one position of the catalog after the other.
* `CallSite.erased` — a call with its receiver and its parameters erased.

## Main results

* `ClassTable.eraseAll_eq_some_iff` — the erasures of a list, type by type.
* `ResolvedCatalog.Indexed.matching_eq_scan` — matching through the index is scanning.
* `ResolvedCatalog.matching_resolve_eq_scan` — the same for resolved catalogs, with what their index
  holds and with erased calls.
-/

set_option autoImplicit false

namespace ContainerLint

/-- The entries of a catalog that a call matches, each with the argument in question: those for its
method whose parameters are the erasures of its parameters, whose base type is above its receiver,
and that ask for an argument that it has. -/
def ResolvedCatalog.scan (c : ResolvedCatalog) (t : ClassTable) (call : CallSite) :
    List (ResolvedEntry × Ty) :=
  c.entries.filterMap fun e =>
    if e.entry.method = call.method ∧ call.params.map t.erasure = e.erasedParams.map some ∧
        t.isSubtype call.receiver (.cls e.base []) = true then
      call.args[e.entry.argIndex]?.map fun argument => (e, argument)
    else none

/-- A call with its receiver and its parameters erased. Types without an erasure are left as they
are. -/
def CallSite.erased (t : ClassTable) (call : CallSite) : CallSite :=
  { call with
    receiver := (t.erasure call.receiver).getD call.receiver
    params := call.params.map fun p => (t.erasure p).getD p }

namespace ClassTable

variable {t : ClassTable}

/-- All types of a list have erasures if each of them has one. -/
lemma eraseAll_eq_some_iff {tys rs : List Ty} :
    t.eraseAll tys = some rs ↔ tys.map t.erasure = rs.map some := by
  induction tys generalizing rs with
  | nil => cases rs <;> simp [eraseAll]
  | cons ty tys ih =>
    unfold eraseAll
    cases h : t.erasure ty with
    | none => cases rs <;> simp [h]
    | some r =>
      cases rs with
      | nil => simp
      | cons r' rs => simp [h, ih, and_comm]

/-- Without an index, an erased receiver is below a class if the receiver is. -/
lemma isBelow_none_of_erasure {receiver erased : Ty} (h : t.erasure receiver = some erased)
    (base : ClassId) : t.isBelow none erased base = t.isSubtype receiver (.cls base []) := by
  simp only [isBelow, Option.bind_none, isSubtype, h, erasure_erased (erased_of_erasure h)]

/-- To erase a type that is replaced by its erasure is to erase the type. -/
lemma erasure_getD_erasure (t : ClassTable) (ty : Ty) :
    t.erasure ((t.erasure ty).getD ty) = t.erasure ty := by
  cases h : t.erasure ty with
  | none => exact h
  | some r => exact erasure_erased (erased_of_erasure h)

end ClassTable

namespace ResolvedCatalog

variable {c : ResolvedCatalog}

/-- **Matching through the index of method names is scanning**, if the index agrees with the
entries.

**Proof sketch.** The index gives the entries for the method, so the scan finds nothing else. If the
receiver or a parameter has no erasure, no entry passes the scan either. -/
theorem Indexed.matching_eq_scan (indexed : c.Indexed) (t : ClassTable) (call : CallSite) :
    c.matching t none call = c.scan t call := by
  unfold matching scan
  cases hreceiver : t.erasure call.receiver with
  | none => simp [ClassTable.isSubtype, hreceiver]
  | some receiver =>
    cases hparams : t.eraseAll call.params with
    | none =>
      have missing (e : ResolvedEntry) :
          ¬ call.params.map t.erasure = e.erasedParams.map some := by
        simp [← ClassTable.eraseAll_eq_some_iff, hparams]
      simp [missing]
    | some params =>
      -- both tests on the parameters compare with the same list, now that it exists
      have same (e : ResolvedEntry) :
          e.erasedParams = params ↔ call.params.map t.erasure = e.erasedParams.map some := by
        rw [← ClassTable.eraseAll_eq_some_iff, hparams, Option.some.injEq, eq_comm]
      dsimp only
      rw [indexed.byMethod, List.filterMap_filter]
      refine List.filterMap_congr fun e _ => ?_
      simp only [ClassTable.isBelow_none_of_erasure hreceiver, same]
      by_cases hmethod : e.entry.method = call.method <;> simp [hmethod]

/-- A scan looks at the erasures of the receiver and the parameters only. -/
lemma scan_erased (c : ResolvedCatalog) (t : ClassTable) (call : CallSite) :
    c.scan t (call.erased t) = c.scan t call := by
  have params : (call.erased t).params.map t.erasure = call.params.map t.erasure := by
    simp [CallSite.erased, ClassTable.erasure_getD_erasure]
  have receiver (base : ClassId) : t.isSubtype (call.erased t).receiver (.cls base []) =
      t.isSubtype call.receiver (.cls base []) := by
    simp only [ClassTable.isSubtype, CallSite.erased, ClassTable.erasure_getD_erasure]
  simp only [scan, params, receiver]
  rfl

/-- **Matching is a plain scan.** A catalog is resolved in one table and a call is looked at in
another one, or in the same. Then

* the entries that the call matches, with their arguments, are those that a scan of the catalog
  finds, in the same order;
* for each method the index holds the positions of the entries for it, in ascending order, and it
  holds no position outside of the catalog;
* the call matches the same entries when its receiver and its parameters are erased. -/
theorem matching_resolve_eq_scan (t t' : ClassTable) (catalog : Catalog) (call : CallSite) :
    let c := catalog.resolve t'
    c.matching t none call = c.scan t call ∧
    (∀ method, (c.index.positions method).Pairwise (· < ·) ∧
      ∀ p, p ∈ c.index.positions method ↔ ∃ e, c.entries[p]? = some e ∧ e.entry.method = method) ∧
    (∀ slot ∈ c.index, ∀ p ∈ slot.2, p < c.size) ∧
    c.matching t none (call.erased t) = c.matching t none call := by
  intro c
  have listed : c.Listed := catalog.listed_resolve t'
  refine ⟨listed.indexed.matching_eq_scan t call, fun method => ?_, listed.inRange, ?_⟩
  · rw [listed.positions]
    exact ⟨pairwise_positionsOf _ _, fun p => mem_positionsOf_iff⟩
  · rw [listed.indexed.matching_eq_scan, listed.indexed.matching_eq_scan, scan_erased]

/-- A catalog with the entry for `Base.get(Object)` twice and between them one for a class that is
not there. -/
def getTwice : Catalog where
  entries := [getEntry, { getEntry with baseType := "com.example.Gone" }, getEntry]

/-- The two entries that remain, and where they stand. -/
lemma resolve_getTwice : getTwice.resolve skewed =
    { entries :=
        [{ entry := getEntry, base := ⟨13⟩, erasedParams := [.cls ⟨0⟩ []] },
          { entry := getEntry, base := ⟨13⟩, erasedParams := [.cls ⟨0⟩ []] }]
      index := [("get", [0, 1])] } := by
  rw [skewed_eq]
  decide +kernel

/-- **The scan at work.** The call of `get` on `Left & Right` matches both entries, the first one
first, also when its receiver is erased to `Left`.

**Proof sketch.** The matching entries are those of a scan, and erasing the receiver makes no
difference. In the scan both entries have the method, the parameters and a base type above the
receiver. -/
theorem matching_getTwice :
    ("get", [0, 1]) ∈ (getTwice.resolve skewed).index ∧ (1 : Nat) < (getTwice.resolve skewed).size ∧
    (getTwice.resolve skewed).matching skewed none (getCall.erased skewed) =
      [({ entry := getEntry, base := ⟨13⟩, erasedParams := [.cls ⟨0⟩ []] }, .cls ⟨9⟩ []),
        ({ entry := getEntry, base := ⟨13⟩, erasedParams := [.cls ⟨0⟩ []] }, .cls ⟨9⟩ [])] := by
  obtain ⟨scanned, -, inRange, erased⟩ :=
    matching_resolve_eq_scan skewed skewed getTwice getCall
  have held : ("get", [0, 1]) ∈ (getTwice.resolve skewed).index := by
    rw [resolve_getTwice]
    exact List.mem_singleton_self _
  have receiver : skewed.erasure getCall.receiver = some (.cls ⟨15⟩ []) := rfl
  have below : skewed.isSubtype getCall.receiver (.cls ⟨13⟩ []) = true := by
    rw [← ClassTable.isBelow_none_of_erasure receiver]
    exact isBelow_left
  have method : getEntry.method = getCall.method := rfl
  have params : getCall.params.map skewed.erasure = [some (.cls ⟨0⟩ [])] := rfl
  have argument : getCall.args[getEntry.argIndex]? = some (.cls ⟨9⟩ []) := rfl
  refine ⟨held, inRange _ held 1 (by simp), ?_⟩
  rw [erased, scanned, scan, resolve_getTwice]
  simp [method, params, below, argument]

end ResolvedCatalog

end ContainerLint
