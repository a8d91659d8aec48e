import ContainerLint.Catalog.Resolve
import Mathlib.Data.List.Basic
import Mathlib.Data.List.Induction

/-!
# Laws of resolved catalogs

A resolved catalog holds the entries that a class table can express, in the order of the catalog.
Its index of method names is an index indeed: to look up a method is to select the entries for it.
Every entry refers to a defined class and to one of the type parameters of that class.

## Main definitions

* `ResolvedCatalog.positionsOf` — the positions of the entries for a method.
* `ResolvedCatalog.Indexed` — the index of method names agrees with the entries.
* `ResolvedCatalog.Listed` — it lists the positions for each method in ascending order.

## Main results

* `Catalog.entries_resolve` — which entries are kept.
* `Catalog.listed_resolve`, `Catalog.indexed_resolve` — the index of a resolved catalog agrees with
  its entries.
* `CatalogEntry.resolve_eq_ok` — what it takes for an entry to be kept.
-/

set_option autoImplicit false

namespace ContainerLint

/-- To record a position adds it to those of its method. -/
lemma MethodIndex.positions_insert (index : MethodIndex) (method name : String) (p : Nat) :
    (index.insert method p).positions name =
      if method = name then index.positions name ++ [p] else index.positions name := by
  induction index with
  | nil =>
    by_cases same : method = name <;> simp [insert, positions, same]
  | cons head rest ih =>
    obtain ⟨first, ps⟩ := head
    unfold insert
    by_cases here : first = method
    · subst here
      by_cases same : first = name <;> simp [positions, same]
    · rw [if_neg here, positions, positions]
      by_cases found : first = name
      · subst found
        simp [Ne.symm here]
      · rw [if_neg found, if_neg found, ih]

/-- A position that is held after another one has been recorded is that one or was held before.

**Proof sketch.** By induction on the slots. The slot of the method gets the new position at its
end, a slot of another method stays as it was, and without a slot for the method a new one is made.
-/
lemma MethodIndex.mem_of_mem_insert {index : MethodIndex} {method : String} {p q : Nat}
    {slot : String × List Nat} (hslot : slot ∈ index.insert method p) (hq : q ∈ slot.2) :
    q = p ∨ ∃ old ∈ index, q ∈ old.2 := by
  induction index with
  | nil =>
    obtain rfl := List.mem_singleton.1 hslot
    exact .inl (List.mem_singleton.1 hq)
  | cons head rest ih =>
    unfold insert at hslot
    split at hslot
    · rcases List.mem_cons.1 hslot with rfl | hslot
      · rcases List.mem_append.1 hq with hq | hq
        · exact .inr ⟨head, List.mem_cons_self, hq⟩
        · exact .inl (List.mem_singleton.1 hq)
      · exact .inr ⟨slot, List.mem_cons_of_mem _ hslot, hq⟩
    · rcases List.mem_cons.1 hslot with rfl | hslot
      · exact .inr ⟨head, List.mem_cons_self, hq⟩
      · rcases ih hslot with same | ⟨old, hold, hq⟩
        · exact .inl same
        · exact .inr ⟨old, List.mem_cons_of_mem _ hold, hq⟩

namespace ResolvedCatalog

/-! ## Positions -/

/-- The positions of the entries for a method, in ascending order. -/
def positionsOf (es : List ResolvedEntry) (method : String) : List Nat :=
  (List.range es.length).filter fun p => es[p]?.any fun e => e.entry.method = method

/-- They are the positions of these entries. -/
lemma mem_positionsOf_iff {es : List ResolvedEntry} {method : String} {p : Nat} :
    p ∈ positionsOf es method ↔ ∃ e, es[p]? = some e ∧ e.entry.method = method := by
  simp only [positionsOf, List.mem_filter, List.mem_range, Option.any_eq_true, decide_eq_true_eq]
  refine and_iff_right_of_imp ?_
  rintro ⟨e, he, -⟩
  exact (List.getElem?_eq_some_iff.1 he).1

/-- They ascend. -/
lemma pairwise_positionsOf (es : List ResolvedEntry) (method : String) :
    (positionsOf es method).Pairwise (· < ·) :=
  List.pairwise_lt_range.filter _

/-- A further entry has the next position. -/
lemma positionsOf_concat (es : List ResolvedEntry) (e : ResolvedEntry) (method : String) :
    positionsOf (es ++ [e]) method =
      if e.entry.method = method then positionsOf es method ++ [es.length]
      else positionsOf es method := by
  have old : (List.range es.length).filter
        (fun p => (es ++ [e])[p]?.any fun e => e.entry.method = method) =
      positionsOf es method := by
    refine List.filter_congr fun p hp => ?_
    rw [List.getElem?_append_left (List.mem_range.1 hp)]
  rw [positionsOf, List.length_append, List.length_singleton, List.range_succ, List.filter_append,
    old]
  by_cases same : e.entry.method = method <;> simp [same]

/-- To collect the entries at these positions is to select the entries for the method. -/
lemma filterMap_positionsOf (es : List ResolvedEntry) (method : String) :
    (positionsOf es method).filterMap (fun p => es[p]?) =
      es.filter fun e => e.entry.method = method := by
  induction es using List.reverseRecOn with
  | nil => rfl
  | append_singleton es e ih =>
    have old : (positionsOf es method).filterMap (fun p => (es ++ [e])[p]?) =
        es.filter fun e => e.entry.method = method := by
      rw [← ih]
      refine List.filterMap_congr fun p hp => ?_
      obtain ⟨e', he', -⟩ := mem_positionsOf_iff.1 hp
      rw [List.getElem?_append_left (List.getElem?_eq_some_iff.1 he').1]
    rw [positionsOf_concat, List.filter_append]
    by_cases same : e.entry.method = method
    · rw [if_pos same, List.filterMap_append, old]
      simp [same]
    · rw [if_neg same, old]
      simp [same]

/-! ## The index of method names -/

/-- The index of method names agrees with the entries: it holds positions of entries only, and those
for a method are the positions of the entries for it, in order. -/
structure Indexed (c : ResolvedCatalog) : Prop where
  inRange : ∀ (method : String) (p : Nat), p ∈ c.index.positions method → p < c.entries.length
  byMethod : ∀ method : String,
    c.byMethod method = c.entries.filter fun e => e.entry.method = method

/-- The index lists the positions for each method in ascending order, and no others. -/
structure Listed (c : ResolvedCatalog) : Prop where
  positions : ∀ method : String, c.index.positions method = positionsOf c.entries method
  inRange : ∀ slot ∈ c.index, ∀ p ∈ slot.2, p < c.entries.length

/-- Such an index agrees with the entries. -/
lemma Listed.indexed {c : ResolvedCatalog} (h : c.Listed) : c.Indexed where
  inRange := by
    intro method p hp
    rw [h.positions] at hp
    obtain ⟨e, he, -⟩ := mem_positionsOf_iff.1 hp
    exact (List.getElem?_eq_some_iff.1 he).1
  byMethod := by
    intro method
    rw [ResolvedCatalog.byMethod, h.positions, filterMap_positionsOf]

/-- The index of the empty catalog is empty. -/
lemma listed_empty : ({} : ResolvedCatalog).Listed where
  positions := fun _ => rfl
  inRange := by simp

/-- The position of an entry that is added is recorded. -/
lemma Listed.push {c : ResolvedCatalog} (h : c.Listed) (e : ResolvedEntry) :
    (c.push e).Listed where
  positions := by
    intro method
    rw [ResolvedCatalog.push]
    dsimp only
    rw [MethodIndex.positions_insert, positionsOf_concat, h.positions]
  inRange := by
    intro slot hslot p hp
    rw [ResolvedCatalog.push] at hslot ⊢
    rw [List.length_append, List.length_singleton]
    rcases MethodIndex.mem_of_mem_insert hslot hp with rfl | ⟨old, hold, hp⟩
    · omega
    · have := h.inRange old hold p hp
      omega

/-- So are those of many entries, added one after the other, and they come behind those that are
there. -/
lemma Listed.foldl_push {c : ResolvedCatalog} (h : c.Listed) (es : List ResolvedEntry) :
    (es.foldl ResolvedCatalog.push c).Listed ∧
      (es.foldl ResolvedCatalog.push c).entries = c.entries ++ es := by
  induction es generalizing c with
  | nil => exact ⟨h, (List.append_nil _).symm⟩
  | cons e es ih =>
    obtain ⟨listed, entries⟩ := ih (h.push e)
    refine ⟨listed, ?_⟩
    rw [List.foldl_cons, entries, ResolvedCatalog.push, List.append_assoc, List.singleton_append]

end ResolvedCatalog

namespace Catalog

/-- To resolve a catalog is to add the entries that can be resolved. -/
lemma resolve_eq_foldl_push (t : ClassTable) (c : Catalog) :
    c.resolve t =
      (c.entries.filterMap fun e => (e.resolve t).toOption).foldl ResolvedCatalog.push {} := by
  rw [resolve, List.foldl_filterMap]
  congr 1
  funext resolved e
  cases e.resolve t <;> rfl

/-- **A resolved catalog holds the entries that can be resolved**, in order. -/
theorem entries_resolve (t : ClassTable) (c : Catalog) :
    (c.resolve t).entries = c.entries.filterMap fun e => (e.resolve t).toOption := by
  rw [resolve_eq_foldl_push, (ResolvedCatalog.listed_empty.foldl_push _).2]
  rfl

/-- **The index of a resolved catalog lists the positions of its entries.** -/
theorem listed_resolve (t : ClassTable) (c : Catalog) : (c.resolve t).Listed := by
  rw [resolve_eq_foldl_push]
  exact (ResolvedCatalog.listed_empty.foldl_push _).1

/-- **It agrees with the entries.** -/
theorem indexed_resolve (t : ClassTable) (c : Catalog) : (c.resolve t).Indexed :=
  (c.listed_resolve t).indexed

end Catalog

/-- An entry that is resolved refers to a defined class and to one of its type parameters, and its
parameter types have erasures.

**Proof sketch.** Resolving makes four checks, one for each part of the conclusion, and fails at the
first that is not passed. -/
lemma CatalogEntry.resolve_eq_ok {t : ClassTable} {e : CatalogEntry} {r : ResolvedEntry}
    (h : e.resolve t = .ok r) :
    r.entry = e ∧ t.lookup e.baseType = some r.base ∧
      (∃ d, t.classDef? r.base = some d ∧ e.typeParamIndex < d.arity) ∧
      eraseParams t e.erasedParams = some r.erasedParams := by
  unfold resolve at h
  split at h
  · cases h
  · next base hbase =>
    split at h
    · cases h
    · next d hd =>
      split at h
      · cases h
      · next hindex =>
        split at h
        · cases h
        · next erasedParams herased =>
          cases h
          exact ⟨rfl, hbase, ⟨d, hd, Nat.lt_of_not_le hindex⟩, herased⟩

/-- The base type of an entry of a resolved catalog is a defined class, which has the type parameter
that the entry names. -/
lemma Catalog.exists_classDef?_of_mem_resolve {t : ClassTable} {c : Catalog} {e : ResolvedEntry}
    (h : e ∈ (c.resolve t).entries) :
    ∃ d, t.classDef? e.base = some d ∧ e.entry.typeParamIndex < d.arity := by
  rw [Catalog.entries_resolve] at h
  obtain ⟨written, -, hwritten⟩ := List.mem_filterMap.1 h
  cases hresolve : written.resolve t with
  | error reason => simp [hresolve, Except.toOption] at hwritten
  | ok r =>
    obtain rfl : r = e := by simpa [hresolve, Except.toOption] using hwritten
    obtain ⟨rfl, -, defined, -⟩ := CatalogEntry.resolve_eq_ok hresolve
    exact defined

end ContainerLint
