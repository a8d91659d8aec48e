import ContainerLint.Proofs.Agreement.Analysis

/-!
# The order of interfaces is unobservable

A walk keeps the first type that it finds of each class, so the order in which the supertypes of a
class are visited can decide what a type is viewed as. It is not the order of the declaration: the
interfaces are sorted by their spelling. Class types of different classes are spelled differently,
whatever their arguments. So where a class lists each interface once, sorting undoes every
permutation, and two tables that differ in the order of interfaces give the same answers.

## Main definitions

* `Region.all` — all classes, variables and names.
* `ClassTable.InterfacesReordered` — two tables that differ in the order of interfaces.
* `ClassTable.DistinctInterfaces` — interfaces are class types, and no class lists one twice.

## Main results

* `sortByKey_eq_of_perm` — permuted lists with different keys are sorted to the same list.
* `ClassTable.DistinctInterfaces.sortsAlike` — reordered definitions are sorted alike.
* `ClassTable.answers_of_interfacesReordered` — all queries and analyses have the same answers.
-/

set_option autoImplicit false

namespace ContainerLint

/-- Permuted lists whose members have different keys are sorted to the same list. -/
lemma sortByKey_eq_of_perm {α : Type} {key : α → String} {as bs : List α} (perm : as.Perm bs)
    (inj : ∀ a ∈ bs, ∀ b ∈ bs, key a = key b → a = b) : sortByKey key as = sortByKey key bs := by
  have sorted := ((perm_sortByKey key as).trans perm).trans (perm_sortByKey key bs).symm
  refine List.Perm.eq_of_pairwise ?_ (pairwise_sortByKey key as) (pairwise_sortByKey key bs) sorted
  intro a b ha hb hab hba
  have ha := perm.mem_iff.1 ((perm_sortByKey key as).mem_iff.1 ha)
  exact inj a ha b ((perm_sortByKey key bs).mem_iff.1 hb) (le_antisymm hab hba)

/-- All classes, variables and names. -/
def Region.all : Region where
  classes _ := True
  vars _ := True
  names _ := True

/-- Every type is in this region. -/
lemma Ty.in_all (ty : Ty) : ty.In Region.all := by
  refine in_of_subterms fun s _ => ?_
  cases s <;> exact trivial

namespace ClassTable

variable {t t' : ClassTable}

/-- Two tables differ in the order in which some classes list their interfaces, and in nothing
else. -/
structure InterfacesReordered (t t' : ClassTable) : Prop where
  slots : List.Forall₂ (fun s s' => s'.name = s.name ∧
    Option.Rel ClassDef.Reordered s.defn s'.defn) t.slots t'.slots
  params : t'.params = t.params
  known : t'.known = t.known

/-- Every interface that a class lists is a class type, and no class lists one twice. -/
structure DistinctInterfaces (t : ClassTable) : Prop where
  isSome_class? : ∀ {id : ClassId} {d : ClassDef}, t.classDef? id = some d →
    ∀ i ∈ d.interfaces, i.class?.isSome
  nodup : ∀ {id : ClassId} {d : ClassDef}, t.classDef? id = some d →
    (d.interfaces.map Ty.class?).Nodup

/-- Every table is closed on the region of everything. -/
lemma closedOn_all (t : ClassTable) : t.ClosedOn Region.all where
  arraySuper _ _ := trivial
  box _ := trivial
  lookup _ _ _ _ := trivial
  bounds _ _ _ _ b _ := b.in_all
  typeParams _ _ _ _ _ _ := trivial
  supertypes _ _ _ _ sup _ := sup.in_all

namespace InterfacesReordered

/-- The rows of the two tables correspond to each other. -/
lemma slot (h : t.InterfacesReordered t') (i : Nat) :
    Option.Rel (fun s s' : ClassSlot => s'.name = s.name ∧
      Option.Rel ClassDef.Reordered s.defn s'.defn) t.slots[i]? t'.slots[i]? := by
  have rows := h.slots
  generalize t.slots = slots at rows
  generalize t'.slots = slots' at rows
  induction rows generalizing i with
  | nil => exact .none
  | cons row _ ih =>
    cases i with
    | zero => exact .some row
    | succ i => exact ih i

/-- The two tables have the same names. -/
lemma nameOf? (h : t.InterfacesReordered t') (id : ClassId) : t'.nameOf? id = t.nameOf? id := by
  have row := h.slot id.index
  unfold ClassTable.nameOf?
  generalize t.slots[id.index]? = s at row ⊢
  generalize t'.slots[id.index]? = s' at row ⊢
  cases row with
  | none => rfl
  | some row => exact congrArg some row.1

/-- The two tables have reordered definitions. -/
lemma classDef? (h : t.InterfacesReordered t') (id : ClassId) :
    Option.Rel ClassDef.Reordered (t.classDef? id) (t'.classDef? id) := by
  have row := h.slot id.index
  unfold ClassTable.classDef?
  generalize t.slots[id.index]? = s at row ⊢
  generalize t'.slots[id.index]? = s' at row ⊢
  cases row with
  | none => exact .none
  | some row => exact row.2

/-- The two tables agree on everything, up to the order of interfaces. -/
lemma agreesOn (h : t.InterfacesReordered t') : t.AgreesOn Region.all t' where
  closed := t.closedOn_all
  known := h.known
  lookup name _ := by
    rw [ClassTable.lookup, ClassTable.lookup, find?_congr h.nameOf?, find?_congr h.nameOf?]
  typeParam? x _ := by rw [ClassTable.typeParam?, ClassTable.typeParam?, h.params]
  classDef? id _ := h.classDef? id

end InterfacesReordered

namespace DistinctInterfaces

variable {id : ClassId} {d : ClassDef}

/-- Types of the classes of different interfaces have different keys. -/
lemma sortKey_inj (distinct : t.DistinctInterfaces) (lawful : t.Lawful)
    (hd : t.classDef? id = some d) {f : Ty → Ty} (hf : ∀ i ∈ d.interfaces, (f i).class? = i.class?)
    {i j : Ty} (hi : i ∈ d.interfaces) (hj : j ∈ d.interfaces)
    (eq : (f i).sortKey t = (f j).sortKey t) : i = j := by
  have dotted {i : Ty} (hi : i ∈ d.interfaces) {c : ClassId} (hc : i.class? = some c) :
      t.HasDottedName c :=
    HasDottedName.of_written (lawful.written hd (List.mem_append_right _ hi)) hc
  obtain ⟨c, hc⟩ := Option.isSome_iff_exists.1 (distinct.isSome_class? hd i hi)
  obtain ⟨c', hc'⟩ := Option.isSome_iff_exists.1 (distinct.isSome_class? hd j hj)
  by_cases same : c = c'
  · exact List.inj_on_of_nodup_map (distinct.nodup hd) hi hj (by rw [hc, hc', same])
  · obtain ⟨as, has⟩ := Ty.class?_eq_some_iff.1 ((hf i hi).trans hc)
    obtain ⟨bs, hbs⟩ := Ty.class?_eq_some_iff.1 ((hf j hj).trans hc')
    rw [has, hbs] at eq
    rcases Ty.sortKey_lt_or_lt lawful (dotted hi hc) (dotted hj hc') same (Iff.refl (as = []))
      (Iff.refl (bs = [])) with ⟨lt, -⟩ | ⟨lt, -⟩
    · exact absurd eq lt.ne
    · exact absurd eq.symm lt.ne

/-- Sorting undoes a permutation of the interfaces, whatever is put in for the type parameters. -/
lemma sortTypes_map (distinct : t.DistinctInterfaces) (lawful : t.Lawful)
    (hd : t.classDef? id = some d) {interfaces : List Ty} (perm : interfaces.Perm d.interfaces)
    {f : Ty → Ty} (hf : ∀ i ∈ d.interfaces, (f i).class? = i.class?) :
    sortTypes t (interfaces.map f) = sortTypes t (d.interfaces.map f) := by
  refine sortByKey_eq_of_perm (perm.map f) fun a ha b hb eq => ?_
  obtain ⟨i, hi, rfl⟩ := List.mem_map.1 ha
  obtain ⟨j, hj, rfl⟩ := List.mem_map.1 hb
  rw [distinct.sortKey_inj lawful hd hf hi hj eq]

/-- **Reordered definitions are sorted alike.**

**Proof sketch.** The spellings of interfaces with different classes are different, so sorting them
does not depend on their order (`DistinctInterfaces.sortTypes_map`). Both the raw form and an
instance of an interface are of the class of the interface. -/
theorem sortsAlike (distinct : t.DistinctInterfaces) (lawful : t.Lawful)
    (hd : t.classDef? id = some d) {d' : ClassDef} (reordered : d.Reordered d') :
    t.SortsAlike d d' := by
  have cls {i : Ty} (hi : i ∈ d.interfaces) : ∃ c as, i = .cls c as := by
    obtain ⟨c, hc⟩ := Option.isSome_iff_exists.1 (distinct.isSome_class? hd i hi)
    exact ⟨c, Ty.class?_eq_some_iff.1 hc⟩
  constructor
  · -- without its arguments an interface is still of its class
    have raw {interfaces : List Ty} (hsub : interfaces ⊆ d.interfaces) :
        interfaces.filterMap t.rawClass? =
          interfaces.map fun i => (t.rawClass? i).getD i := by
      rw [← List.filterMap_eq_map]
      refine List.filterMap_congr fun i hi => ?_
      obtain ⟨c, as, rfl⟩ := cls (hsub hi)
      rfl
    rw [raw fun i hi => reordered.interfaces.mem_iff.1 hi, raw (List.Subset.refl _)]
    refine distinct.sortTypes_map lawful hd reordered.interfaces fun i hi => ?_
    obtain ⟨c, as, rfl⟩ := cls hi
    rfl
  · refine fun args => distinct.sortTypes_map lawful hd reordered.interfaces fun i hi => ?_
    obtain ⟨c, as, rfl⟩ := cls hi
    rfl

end DistinctInterfaces

/-- Two tables that differ in the order of distinct interfaces agree on everything. -/
lemma InterfacesReordered.agreesAbove (h : t.InterfacesReordered t') (lawful : t.Lawful)
    (distinct : t.DistinctInterfaces) : t.AgreesAbove Region.all t' := by
  refine h.agreesOn.agreesAbove fun id d d' _ hd hd' => ?_
  exact distinct.sortsAlike lawful hd (h.agreesOn.reordered trivial hd hd')

/-- **The order in which a class lists its interfaces is unobservable.** Let two tables differ in
nothing but this order, one of them be reachable, and its classes list class types as interfaces,
none of them twice. Then for all types, classes and calls:

* direct supertypes and closures are the same lists, and views and the arguments of ancestors are
  the same;
* the indices of the same classes are equal, and each index answers the same for both tables;
* subtyping, castability and the verdicts under both policies are the same;
* analyses are the same against every catalog, with every index or none.

**Proof sketch.** The direct supertypes are sorted by spelling, which tells different interfaces
apart, so they do not depend on the order. The walks follow direct supertypes only, and what is
above a class for subtyping is the same set for both orders. -/
theorem answers_of_interfacesReordered (reachable : t.Reachable)
    (reordered : t.InterfacesReordered t') (distinct : t.DistinctInterfaces) :
    (∀ ty, t'.directSupertypes ty = t.directSupertypes ty ∧
      t'.supertypeClosure ty = t.supertypeClosure ty ∧
      ∀ target, t'.viewAs ty target = t.viewAs ty target ∧
        t'.ancestorArgs ty target = t.ancestorArgs ty target) ∧
    (∀ ids, AncestorIndex.build t' ids = AncestorIndex.build t ids) ∧
    (∀ (index : AncestorIndex) ty ancestor,
      index.ancestorArgs t' ty ancestor = index.ancestorArgs t ty ancestor) ∧
    (∀ a b, t'.isSubtype a b = t.isSubtype a b ∧ t'.isCastable a b = t.isCastable a b ∧
      ∀ policy, t'.decide policy a b = t.decide policy a b) ∧
    ∀ (c : ResolvedCatalog) (index : Option AncestorIndex) (policy : Policy) (call : CallSite),
      c.analyze t' index policy call = c.analyze t index policy call := by
  have agrees := reordered.agreesAbove reachable.lawful distinct
  have index_self (index : AncestorIndex) : index.AgreesOn Region.all index :=
    fun _ _ => ⟨rfl, fun _ _ ty _ => ty.in_all⟩
  refine ⟨fun ty => ⟨agrees.direct ty ty.in_all, agrees.supertypeClosure ty.in_all, ?_⟩,
    fun ids => agrees.build_eq fun _ _ => trivial, fun index ty ancestor => ?_,
    fun a b => ⟨?_, agrees.isCastable a.in_all b.in_all, ?_⟩, fun c index policy call => ?_⟩
  · exact fun target => ⟨(agrees.shared_viewAs ty.in_all target).1,
      (agrees.shared_ancestorArgs ty.in_all target).1⟩
  · exact (agrees.shared_index_ancestorArgs (index_self index) ty.in_all ancestor).1
  · exact agrees.isSubtype a.in_all (agrees.erasure b.in_all)
  · exact fun policy => agrees.decide policy a.in_all b.in_all
  · have same : Option.Rel (fun i i' => AncestorIndex.AgreesOn i Region.all i') index index := by
      cases index with
      | none => exact .none
      | some index => exact .some (index_self index)
    exact agrees.analyze same policy
      ⟨call.receiver.in_all, fun ty _ => ty.in_all, fun ty _ => ty.in_all⟩ c

/-! ## Two ways to the same class -/

/-- Rows that are reordered one by one reorder a table. -/
lemma interfacesReordered_withRows (t : ClassTable) {defs defs' : List ClassDef}
    (rows : List.Forall₂ ClassDef.Reordered defs defs') (params : List TypeParam) :
    (t.withRows defs params).InterfacesReordered (t.withRows defs' params) where
  slots := by
    refine List.rel_append ?_ ?_
    · refine List.forall₂_same.2 fun s _ => ⟨rfl, ?_⟩
      cases s.defn with
      | none => exact .none
      | some d => exact .some (.refl d)
    · rw [List.forall₂_map_left_iff, List.forall₂_map_right_iff]
      exact rows.imp fun _ _ row => ⟨row.name, .some row⟩
  params := rfl
  known := rfl

/-- Whether interfaces are distinct can be read off the rows. -/
lemma distinctInterfaces_of_slots
    (h : ∀ s ∈ t.slots, ∀ d ∈ s.defn, (∀ i ∈ d.interfaces, i.class?.isSome) ∧
      (d.interfaces.map Ty.class?).Nodup) : t.DistinctInterfaces := by
  have row {id : ClassId} {d : ClassDef} (hd : t.classDef? id = some d) :
      (∀ i ∈ d.interfaces, i.class?.isSome) ∧ (d.interfaces.map Ty.class?).Nodup := by
    obtain ⟨s, hs, hdefn⟩ := Option.bind_eq_some_iff.1 hd
    exact h s (List.mem_of_getElem? hs) d hdefn
  exact ⟨fun hd => (row hd).1, fun hd => (row hd).2⟩

/-- A table in which `Left` extends `Base<String>` and `Right` extends `Base<Integer>`, and `Both`
implements interfaces in a given order. -/
def crossing (implemented : List String) : ClassTable :=
  (core.declare
    [{ name := "com.example.Base", kind := .interface, typeParams := ["T"] },
     { name := "com.example.Left", kind := .interface, extended := ["com.example.Base<String>"] },
     { name := "com.example.Right", kind := .interface, extended := ["com.example.Base<Integer>"] },
     { name := "com.example.Both", implemented := implemented }]).1

/-- The definitions in this table. -/
def crossingRows (interfaces : List Ty) : List ClassDef :=
  [{ name := "com.example.Base", kind := .interface, typeParams := [⟨0⟩] },
   { name := "com.example.Left", kind := .interface, interfaces := [.cls ⟨13⟩ [.cls ⟨1⟩ []]] },
   { name := "com.example.Right", kind := .interface, interfaces := [.cls ⟨13⟩ [.cls ⟨9⟩ []]] },
   { name := "com.example.Both", superClass := some (.cls ⟨0⟩ []), interfaces := interfaces }]

/-- The rows of the table for either order. -/
lemma crossing_eq :
    crossing ["com.example.Left", "com.example.Right"] =
      core.withRows (crossingRows [.cls ⟨14⟩ [], .cls ⟨15⟩ []])
        [{ name := "T", upperBounds := [.cls ⟨0⟩ []] }] ∧
    crossing ["com.example.Right", "com.example.Left"] =
      core.withRows (crossingRows [.cls ⟨15⟩ [], .cls ⟨14⟩ []])
        [{ name := "T", upperBounds := [.cls ⟨0⟩ []] }] := by
  decide +kernel

/-- **The rule at work.** The class `Both` is below `Base<String>` and below `Base<Integer>`. As
which of them it is viewed does not depend on whether it lists `Left` or `Right` first, although the
two tables are different.

**Proof sketch.** The rows of both tables are written out. They differ in the order of two
interfaces of the last class, which have different classes, so the general theorem applies. That the
tables are different is seen in the definition of that class. -/
theorem answers_crossing :
    let t := crossing ["com.example.Left", "com.example.Right"]
    let t' := crossing ["com.example.Right", "com.example.Left"]
    t.Reachable ∧ t'.Reachable ∧ t' ≠ t ∧ t.InterfacesReordered t' ∧ t.DistinctInterfaces ∧
    t'.viewAs (.cls ⟨16⟩ []) ⟨13⟩ = t.viewAs (.cls ⟨16⟩ []) ⟨13⟩ ∧
    ∀ (c : ResolvedCatalog) (index : Option AncestorIndex) (policy : Policy) (call : CallSite),
      c.analyze t' index policy call = c.analyze t index policy call := by
  intro t t'
  obtain ⟨ht, ht'⟩ : t = _ ∧ t' = _ := crossing_eq
  have reachable : t.Reachable := .declare _ .core
  have reordered : t.InterfacesReordered t' := by
    rw [ht, ht']
    refine interfacesReordered_withRows core ?_ _
    exact .cons (.refl _) (.cons (.refl _) (.cons (.refl _)
      (.cons ⟨rfl, rfl, rfl, rfl, rfl, .swap _ _ _⟩ .nil)))
  have distinct : t.DistinctInterfaces := by
    rw [ht]
    exact distinctInterfaces_of_slots (by decide)
  obtain ⟨walks, -, -, -, analyses⟩ :=
    answers_of_interfacesReordered reachable reordered distinct
  refine ⟨reachable, .declare _ .core, ?_, reordered, distinct,
    ((walks (.cls ⟨16⟩ [])).2.2 ⟨13⟩).1, analyses⟩
  intro same
  have order := congrArg (fun u => (u.classDef? ⟨16⟩).map (·.interfaces)) same
  rw [ht, ht'] at order
  revert order
  decide

end ClassTable

end ContainerLint
