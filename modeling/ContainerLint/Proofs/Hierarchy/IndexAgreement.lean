import ContainerLint.Hierarchy.View
import ContainerLint.Proofs.Hierarchy.DeclaredSteps
import ContainerLint.Proofs.Ty.SpellingOrder

/-!
# The index of ancestors agrees with the walk

The index walks the supertypes of a class once, applied to its own formal parameters, and puts in
the arguments afterwards. The walk puts them in at every step and sorts the interfaces by spellings
that contain them. Both visit the same classes in the same order, because a substitution changes
neither the class of a supertype nor the order of the interfaces of a class.

## Main definitions

* `ClassTable.PlainSupertypes` — no declared supertype is a bare variable, and no class lists an
  interface twice.
* `ClassTable.supertypeInstance` — a declared supertype with arguments put in.

## Main results

* `ClassTable.filter_directSupertypes_subst` — a substitution commutes with one step up.
* `ClassTable.supertypeClosure_subst` — a substitution commutes with the closure of supertypes.
* `AncestorIndex.ancestorArgs_build_eq_walk` — the index answers as the walk does.
-/

set_option autoImplicit false

namespace ContainerLint

/-- No declared supertype is a bare type variable, and no class lists the same interface twice. -/
structure ClassTable.PlainSupertypes (t : ClassTable) : Prop where
  var_not_mem : ∀ {id : ClassId} {d : ClassDef}, t.classDef? id = some d →
    ∀ x, Ty.var x ∉ d.supertypes
  interfaces_nodup : ∀ {id : ClassId} {d : ClassDef}, t.classDef? id = some d →
    (d.interfaces.filterMap Ty.class?).Nodup

namespace ClassTable

/-- Whether supertypes are plain can be read off the rows of a table. -/
lemma plainSupertypes_of_slots {t : ClassTable} (h : ∀ slot ∈ t.slots, ∀ d ∈ slot.defn,
      (∀ sup ∈ d.supertypes, sup.class?.isSome) ∧ (d.interfaces.filterMap Ty.class?).Nodup) :
    t.PlainSupertypes := by
  have row {id : ClassId} {d : ClassDef} (hd : t.classDef? id = some d) :
      (∀ sup ∈ d.supertypes, sup.class?.isSome) ∧ (d.interfaces.filterMap Ty.class?).Nodup := by
    obtain ⟨slot, hslot, hd⟩ := Option.bind_eq_some_iff.1 hd
    exact h slot (List.mem_of_getElem? hslot) d hd
  refine ⟨fun hd x hx => ?_, fun hd => (row hd).2⟩
  exact absurd ((row hd).1 _ hx) (by simp [Ty.class?])

end ClassTable

/-! ## Substitution and names -/

/-- The substitution puts in types that have no names to look up. -/
def Subst.Canonical (σ : Subst) (t : ClassTable) : Prop :=
  ∀ x a, σ x = some a → a.canonical t = a

namespace Ty

variable {t : ClassTable}

/-- A class type has its class. -/
lemma class?_eq_some_iff {ty : Ty} {id : ClassId} :
    ty.class? = some id ↔ ∃ args, ty = .cls id args := by
  cases ty <;> simp [class?]

/-- A substitution keeps the class of a class type. -/
lemma class?_subst {ty : Ty} (h : ty.class?.isSome) (σ : Subst) :
    (ty.subst σ).class? = ty.class? := by
  cases ty with
  | cls => rfl
  | _ => cases h

/-- Looking up names changes nothing in a list if it changes none of the members. -/
lemma map_canonical_eq_self_iff {tys : List Ty} :
    tys.map (canonical t) = tys ↔ ∀ a ∈ tys, a.canonical t = a := by
  conv_lhs => rw [← List.map_id' tys, List.map_map]
  exact List.map_inj_left

/-- The arguments of a class type without open names have none either. -/
lemma canonical_args {id : ClassId} {args : List Ty}
    (h : (Ty.cls id args).canonical t = .cls id args) : ∀ a ∈ args, a.canonical t = a := by
  simp only [canonical, canonicalAll_eq_map, cls.injEq, true_and] at h
  exact map_canonical_eq_self_iff.1 h

/-- Looking up names commutes with a substitution by types without open names. -/
lemma canonical_subst_of_canonical {σ : Subst} (hσ : σ.Canonical t) (ty : Ty) :
    (ty.subst σ).canonical t = (ty.canonical t).subst σ := by
  rw [canonical_subst]
  congr 1
  funext x
  cases hx : σ x with
  | none => rfl
  | some a => rw [Option.map_some, hσ x a hx]

/-- Such a substitution brings no open names in. -/
lemma canonical_subst_eq_self {σ : Subst} (hσ : σ.Canonical t) {ty : Ty}
    (h : ty.canonical t = ty) : (ty.subst σ).canonical t = ty.subst σ := by
  rw [canonical_subst_of_canonical hσ, h]

/-- The values of formal parameters are arguments. -/
lemma canonical_of_ofFormals {formals : List VarId} {args : List Ty}
    (h : ∀ a ∈ args, a.canonical t = a) : (Subst.ofFormals formals args).Canonical t := by
  intro x a hx
  have mapped := Subst.ofFormals_map formals (canonical t) args x
  rw [map_canonical_eq_self_iff.2 h, hx, Option.map_some, Option.some.injEq] at mapped
  exact mapped.symm

end Ty

/-! ## One step up -/

namespace ClassTable

variable {t : ClassTable} {d : ClassDef} {args : List Ty} {σ : Subst}

/-- A declared supertype with the arguments put in and the names looked up. -/
def supertypeInstance (t : ClassTable) (d : ClassDef) (args : List Ty) (sup : Ty) : Ty :=
  (sup.subst (Subst.ofFormals d.typeParams args)).canonical t

/-- The supertypes of an applied class are the instances of the declared ones. -/
lemma appliedSupertypes_eq (t : ClassTable) (d : ClassDef) (args : List Ty) :
    t.appliedSupertypes d args =
      d.superClass.toList.map (t.supertypeInstance d args)
        ++ sortTypes t (d.interfaces.map (t.supertypeInstance d args))
        ++ t.implicitSupertypes d :=
  rfl

/-- The variables of a declared supertype are formal parameters, so a substitution acts on the
arguments. -/
lemma Lawful.supertypeInstance_subst (h : t.Lawful) {id : ClassId} (hd : t.classDef? id = some d)
    (hlen : args.length = d.arity) (hargs : ∀ a ∈ args, a.canonical t = a)
    (hσ : σ.Canonical t) {sup : Ty} (hsup : sup ∈ d.supertypes) :
    t.supertypeInstance d (args.map (Ty.subst σ)) sup =
      (t.supertypeInstance d args sup).subst σ := by
  have written := h.written hd hsup
  have fixed := written.canonical_eq_self t
  have hargs' : ∀ a ∈ args.map (Ty.subst σ), a.canonical t = a := by
    intro a ha
    obtain ⟨b, hb, rfl⟩ := List.mem_map.1 ha
    exact Ty.canonical_subst_eq_self hσ (hargs b hb)
  rw [supertypeInstance, supertypeInstance,
    Ty.canonical_subst_eq_self (Ty.canonical_of_ofFormals hargs) fixed,
    Ty.canonical_subst_eq_self (Ty.canonical_of_ofFormals hargs') fixed,
    Ty.subst_formals_subst σ (fun x => written.mem_formals) hlen]

/-- An instance of a declared supertype has its class. -/
lemma PlainSupertypes.class?_supertypeInstance (plain : t.PlainSupertypes) (h : t.Lawful)
    {id : ClassId} (hd : t.classDef? id = some d) {sup : Ty} (hsup : sup ∈ d.supertypes)
    (args : List Ty) : (t.supertypeInstance d args sup).class? = sup.class? := by
  cases h.written hd hsup with
  | var => exact absurd hsup (plain.var_not_mem hd _)
  | _ => rfl

/-- Nothing is substituted in the supertypes of a raw use. -/
lemma subst_of_mem_rawSupertypes {s : Ty} (h : s ∈ t.rawSupertypes d) (σ : Subst) :
    s.subst σ = s := by
  rcases mem_rawSupertypes.1 h with ⟨_, _, c, as, _, rfl⟩ | ⟨_, rfl⟩
  · rfl
  · rfl

/-- Different interfaces of a class are of different classes. -/
lemma PlainSupertypes.class?_ne (plain : t.PlainSupertypes) {id : ClassId}
    (hd : t.classDef? id = some d) {s s' : Ty} (hs : s ∈ d.interfaces) (hs' : s' ∈ d.interfaces)
    (hne : s ≠ s') {c c' : ClassId} (hc : s.class? = some c) (hc' : s'.class? = some c') :
    c ≠ c' := by
  have nodup := plain.interfaces_nodup hd
  rw [List.Nodup, List.pairwise_filterMap] at nodup
  have : Std.Symm fun s s' : Ty =>
      ∀ c, s.class? = some c → ∀ c', s'.class? = some c' → c ≠ c' :=
    ⟨fun s s' h c hc c' hc' => (h c' hc' c hc).symm⟩
  exact nodup.forall hs hs' hne c hc c' hc'

/-- The order of two interfaces of a class is the same for all arguments. -/
lemma PlainSupertypes.sortKey_lt_or_lt (plain : t.PlainSupertypes) (h : t.Lawful) {id : ClassId}
    (hd : t.classDef? id = some d) {s s' : Ty} (hs : s ∈ d.interfaces) (hs' : s' ∈ d.interfaces)
    (hne : s ≠ s') {c c' : ClassId} (hc : s.class? = some c) (hc' : s'.class? = some c')
    (args args' : List Ty) :
    (t.supertypeInstance d args s).sortKey t < (t.supertypeInstance d args s').sortKey t ∧
        (t.supertypeInstance d args' s).sortKey t < (t.supertypeInstance d args' s').sortKey t ∨
      (t.supertypeInstance d args s').sortKey t < (t.supertypeInstance d args s).sortKey t ∧
        (t.supertypeInstance d args' s').sortKey t < (t.supertypeInstance d args' s).sortKey t := by
  have mem {s : Ty} (hs : s ∈ d.interfaces) : s ∈ d.supertypes := List.mem_append_right _ hs
  have dotted := HasDottedName.of_written (h.written hd (mem hs)) hc
  have dotted' := HasDottedName.of_written (h.written hd (mem hs')) hc'
  have apart := plain.class?_ne hd hs hs' hne hc hc'
  obtain ⟨as, rfl⟩ := Ty.class?_eq_some_iff.1 hc
  obtain ⟨as', rfl⟩ := Ty.class?_eq_some_iff.1 hc'
  simp only [supertypeInstance, Ty.subst, Ty.canonical, Ty.canonicalAll_eq_map, Ty.substAll_eq_map]
  exact Ty.sortKey_lt_or_lt h dotted dotted' apart (by simp) (by simp)

/-- Whether the walk goes on with an instance does not depend on the arguments. -/
lemma PlainSupertypes.keyed_supertypeInstance (plain : t.PlainSupertypes) (h : t.Lawful)
    {id : ClassId} (hd : t.classDef? id = some d) {sup : Ty} (hsup : sup ∈ d.supertypes)
    (args args' : List Ty) :
    t.supertypeWalk.keyed (t.supertypeInstance d args sup) =
      t.supertypeWalk.keyed (t.supertypeInstance d args' sup) :=
  congrArg Option.isSome ((plain.class?_supertypeInstance h hd hsup args).trans
    (plain.class?_supertypeInstance h hd hsup args').symm)

/-- A substitution commutes with sorting the interfaces of a class.

**Proof sketch.** Those that the walk goes on with are of different classes, and for such types the
order does not depend on the arguments. -/
lemma filter_sortTypes_supertypeInstance (lawful : t.Lawful) (plain : t.PlainSupertypes)
    {id : ClassId} (hd : t.classDef? id = some d)
    (inst_subst : ∀ sup ∈ d.supertypes, t.supertypeInstance d (args.map (Ty.subst σ)) sup =
      (t.supertypeInstance d args sup).subst σ) :
    (sortTypes t ((d.interfaces.map (t.supertypeInstance d args)).map (Ty.subst σ))).filter
        t.supertypeWalk.keyed =
      ((sortTypes t (d.interfaces.map (t.supertypeInstance d args))).filter
        t.supertypeWalk.keyed).map (Ty.subst σ) := by
  have mem {s : Ty} (hs : s ∈ d.interfaces) : s ∈ d.supertypes := List.mem_append_right _ hs
  refine filter_sortByKey_map ?_ ?_
  · intro a ha
    obtain ⟨s, hs, rfl⟩ := List.mem_map.1 ha
    rw [← inst_subst s (mem hs)]
    exact plain.keyed_supertypeInstance lawful hd (mem hs) _ _
  · intro a ha b hb ka kb hne
    obtain ⟨s, hs, rfl⟩ := List.mem_map.1 ha
    obtain ⟨s', hs', rfl⟩ := List.mem_map.1 hb
    obtain ⟨c, hc⟩ := Option.isSome_iff_exists.1 (keyed_supertypeWalk_iff.1 ka)
    obtain ⟨c', hc'⟩ := Option.isSome_iff_exists.1 (keyed_supertypeWalk_iff.1 kb)
    rw [plain.class?_supertypeInstance lawful hd (mem hs)] at hc
    rw [plain.class?_supertypeInstance lawful hd (mem hs')] at hc'
    rw [← inst_subst s (mem hs), ← inst_subst s' (mem hs')]
    exact plain.sortKey_lt_or_lt lawful hd hs hs' (fun h => hne (by rw [h])) hc hc' _ _

/-- A substitution commutes with the supertypes of an applied class.

**Proof sketch.** An instance by substituted arguments is the substituted instance, since a lawful
definition mentions its own parameters only. The superclass and the interfaces are treated in turn;
the latter are sorted, and a substitution does not change their order, because they have different
classes. -/
lemma filter_appliedSupertypes_subst (lawful : t.Lawful) (plain : t.PlainSupertypes)
    {id : ClassId} (hd : t.classDef? id = some d) (hlen : args.length = d.arity)
    (hargs : ∀ a ∈ args, a.canonical t = a) (hσ : σ.Canonical t) :
    (t.appliedSupertypes d (args.map (Ty.subst σ))).filter t.supertypeWalk.keyed =
      ((t.appliedSupertypes d args).filter t.supertypeWalk.keyed).map (Ty.subst σ) := by
  have inst_subst : ∀ sup ∈ d.supertypes, t.supertypeInstance d (args.map (Ty.subst σ)) sup =
      (t.supertypeInstance d args sup).subst σ :=
    fun sup hsup => lawful.supertypeInstance_subst hd hlen hargs hσ hsup
  have map_inst {sups : List Ty} (hsups : sups ⊆ d.supertypes) :
      sups.map (t.supertypeInstance d (args.map (Ty.subst σ))) =
        (sups.map (t.supertypeInstance d args)).map (Ty.subst σ) := by
    rw [List.map_map]
    exact List.map_congr_left fun sup hsup => inst_subst sup (hsups hsup)
  have superClass : d.superClass.toList ⊆ d.supertypes := List.subset_append_left _ _
  have interfaces : d.interfaces ⊆ d.supertypes := List.subset_append_right _ _
  rw [appliedSupertypes_eq, appliedSupertypes_eq, map_inst superClass, map_inst interfaces]
  simp only [List.filter_append, List.map_append]
  congr 1
  · congr 1
    · refine filter_map_comm fun a ha => ?_
      obtain ⟨sup, hsup, rfl⟩ := List.mem_map.1 ha
      rw [← inst_subst sup (superClass hsup)]
      exact plain.keyed_supertypeInstance lawful hd (superClass hsup) _ _
    · exact filter_sortTypes_supertypeInstance lawful plain hd inst_subst
  · unfold implicitSupertypes
    cases d.kind <;> rfl

/-- **A substitution commutes with one step up**, as far as the walk goes on with its results.

**Proof sketch.** The case distinction looks only at the number of arguments, which a substitution
keeps. Raw supertypes have nothing to substitute, and applied ones are the lemma before. -/
theorem filter_directSupertypes_subst (lawful : t.Lawful) (plain : t.PlainSupertypes)
    (hσ : σ.Canonical t) {ty : Ty} (hty : ty.canonical t = ty)
    (hclass : ty.class?.isSome) :
    (t.directSupertypes (ty.subst σ)).filter t.supertypeWalk.keyed =
      ((t.directSupertypes ty).filter t.supertypeWalk.keyed).map (Ty.subst σ) := by
  obtain ⟨id, hid⟩ := Option.isSome_iff_exists.1 hclass
  obtain ⟨args, rfl⟩ := Ty.class?_eq_some_iff.1 hid
  have hsubst := Ty.canonical_subst_eq_self hσ hty
  simp only [Ty.subst, Ty.substAll_eq_map] at hsubst ⊢
  simp only [directSupertypes, hty, hsubst, List.isEmpty_map, List.length_map]
  cases hd : t.classDef? id with
  | none => rfl
  | some d =>
    dsimp only
    split
    · refine (List.map_congr_left fun s hs => ?_).trans (List.map_id' _) |>.symm
      exact subst_of_mem_rawSupertypes (List.mem_filter.1 hs).1 σ
    · split
      · next hlen =>
        exact filter_appliedSupertypes_subst lawful plain hd hlen (Ty.canonical_args hty) hσ
      · rfl

/-- **A substitution commutes with the closure of supertypes.**

**Proof sketch.** The walk from the substituted type is the image of the walk, because the
substitution keeps the classes by which types are marked as seen and commutes with each step
(`Walk.fromQueue_map`). -/
theorem supertypeClosure_subst (lawful : t.Lawful) (plain : t.PlainSupertypes)
    (hσ : σ.Canonical t) {ty : Ty} (hty : ty.canonical t = ty)
    (hclass : ty.class?.isSome) :
    t.supertypeClosure (ty.subst σ) = (t.supertypeClosure ty).map (Ty.subst σ) := by
  rw [supertypeClosure, supertypeClosure, Ty.canonical_subst_eq_self hσ hty, hty]
  refine Walk.fromQueue_map (Ty.subst σ) (fun a => a.canonical t = a ∧ a.class?.isSome) ?_ ?_ ?_
    _ _ _ ?_ ?_
  · rintro a ⟨-, ha⟩
    exact Ty.class?_subst ha σ
  · rintro a ⟨ha, -⟩ b hb kb
    exact ⟨((mem_directSupertypes_iff ha).1 hb).canonical, kb⟩
  · rintro a ⟨ha, ha'⟩ -
    exact filter_directSupertypes_subst lawful plain hσ ha ha'
  · intro a ha ka
    obtain rfl := List.mem_singleton.1 ha
    exact ⟨hty, hclass⟩
  · change ([ty].map (Ty.subst σ)).filter _ = _
    refine filter_map_comm fun a ha => ?_
    obtain rfl := List.mem_singleton.1 ha
    exact congrArg Option.isSome (Ty.class?_subst hclass σ)

end ClassTable

/-! ## The index -/

namespace AncestorIndex

variable {t : ClassTable}

/-- An entry of the index is the closure of a class applied to its own parameters. -/
lemma find?_build_eq_some {ids : List ClassId} {id : ClassId} {supers : List Ty}
    (h : (build t ids).find? id = some supers) :
    ∃ d, t.classDef? id = some d ∧ supers = t.supertypeClosure (selfType id d) := by
  obtain ⟨entry, hentry, rfl⟩ := Option.map_eq_some_iff.1 h
  obtain ⟨id', -, hid'⟩ := List.mem_filterMap.1 (List.mem_of_find?_eq_some hentry)
  obtain ⟨d, hd, rfl⟩ := Option.map_eq_some_iff.1 hid'
  obtain rfl : id' = id := by simpa using List.find?_some hentry
  exact ⟨d, hd, rfl⟩

/-- A defined class that is asked for gets an entry. -/
lemma find?_build {ids : List ClassId} {id : ClassId} {d : ClassDef} (hid : id ∈ ids)
    (hd : t.classDef? id = some d) :
    (build t ids).find? id = some (t.supertypeClosure (selfType id d)) := by
  obtain ⟨supers, hsupers⟩ : ∃ supers, (build t ids).find? id = some supers := by
    rw [← Option.isSome_iff_exists, find?, Option.isSome_map, List.find?_isSome]
    exact ⟨(id, t.supertypeClosure (selfType id d)),
      List.mem_filterMap.2 ⟨id, by simpa using hid, by rw [hd, Option.map_some]⟩, by simp⟩
  obtain ⟨d', hd', rfl⟩ := find?_build_eq_some hsupers
  rw [hsupers, Option.some.inj (hd.symm.trans hd')]

/-- The arguments put in for the parameters of a class applied to them give the applied class. -/
lemma selfType_subst {id : ClassId} {d : ClassDef} {args : List Ty} (nodup : d.typeParams.Nodup)
    (hlen : args.length = d.arity) :
    (selfType id d).subst (Subst.ofFormals d.typeParams args) = .cls id args := by
  rw [selfType, Ty.subst, Ty.substAll_eq_map, Subst.map_var_ofFormals nodup hlen]

/-- The type of a class among the supertypes keeps its place under a substitution. -/
lemma find?_map_subst {supers : List Ty} (h : ∀ s ∈ supers, s.class?.isSome) (σ : Subst)
    (ancestor : ClassId) :
    (supers.map (Ty.subst σ)).find? (fun s => s.class? == some ancestor) =
      (ofClass? supers ancestor).map (Ty.subst σ) := by
  rw [ofClass?]
  induction supers with
  | nil => rfl
  | cons s supers ih =>
    rw [List.map_cons, List.find?_cons, List.find?_cons, Ty.class?_subst (h s (.head _))]
    split
    · rfl
    · exact ih fun s hs => h s (.tail _ hs)

end AncestorIndex

namespace ClassTable

variable {t : ClassTable}

/-- A class type with the wrong number of arguments is seen as nothing. -/
lemma ancestorArgs_eq_none {id : ClassId} {args : List Ty} {d : ClassDef}
    (hty : (Ty.cls id args).canonical t = .cls id args) (hd : t.classDef? id = some d)
    (hraw : ¬(args.isEmpty && d.isGeneric) = true) (hlen : args.length ≠ d.arity)
    (ancestor : ClassId) : t.ancestorArgs (.cls id args) ancestor = none := by
  have alone : ∀ s, t.Above (.cls id args) s → s = .cls id args := by
    intro s hs
    induction hs with
    | refl => exact hty
    | tail _ step ih =>
      rw [ih, ← mem_directSupertypes_iff hty] at step
      simp [directSupertypes, hty, hd, hraw, hlen] at step
  rw [ancestorArgs, Option.bind_eq_none_iff]
  intro s hs
  obtain ⟨above, hclass⟩ := above_of_viewAs (by rw [hty]; rfl) hs
  obtain rfl := alone s above
  simp [checkedArgs, hd, hlen]

/-- Looking up the names of a class type does not change what it is seen as. -/
lemma ancestorArgs_canonical {ty : Ty} (h : (ty.canonical t).class?.isSome) (ancestor : ClassId) :
    t.ancestorArgs (ty.canonical t) ancestor = t.ancestorArgs ty ancestor := by
  have h' : ((ty.canonical t).canonical t).class?.isSome := by rwa [Ty.canonical_canonical]
  rw [ancestorArgs, ancestorArgs, viewAs_eq_find? h, viewAs_eq_find? h',
    supertypeClosure_canonical]

end ClassTable

namespace AncestorIndex

variable {t : ClassTable}

/-- The index answers for class types as the walk does.

**Proof sketch.** A class that is not in the index, and a raw use, are walked. With the right number
of arguments the class type is an instance of the class applied to its own parameters, and its
closure is the instance of that closure. With a wrong number neither sees anything. -/
lemma ancestorArgs_build_cls (lawful : t.Lawful) (plain : t.PlainSupertypes) (ids : List ClassId)
    {id : ClassId} {args : List Ty} (hty : (Ty.cls id args).canonical t = .cls id args)
    (ancestor : ClassId) :
    (build t ids).ancestorArgs t (.cls id args) ancestor =
      t.ancestorArgs (.cls id args) ancestor := by
  rw [ancestorArgs, hty]
  dsimp only
  cases hfind : (build t ids).find? id with
  | none => rfl
  | some supers =>
    obtain ⟨d, hd, rfl⟩ := find?_build_eq_some hfind
    simp only [hd]
    split
    · rfl
    · next hraw =>
      split
      · next hlen =>
        have hσ : (Subst.ofFormals d.typeParams args).Canonical t :=
          Ty.canonical_of_ofFormals (Ty.canonical_args hty)
        have closure : t.supertypeClosure (.cls id args) =
            (t.supertypeClosure (selfType id d)).map
              (Ty.subst (Subst.ofFormals d.typeParams args)) := by
          rw [← selfType_subst (lawful.formals_nodup hd) hlen]
          exact t.supertypeClosure_subst lawful plain hσ (by simp [selfType, Ty.canonical]) rfl
        rw [ClassTable.ancestorArgs, ClassTable.viewAs_eq_find? (by rw [hty]; rfl), closure,
          find?_map_subst fun s hs => (ClassTable.above_of_mem_supertypeClosure hs).2,
          Option.bind_map]
        rfl
      · next hlen => exact (ClassTable.ancestorArgs_eq_none hty hd hraw hlen ancestor).symm

/-- The index answers as the walk does for the types that are class types once their names are
looked up, and for those that have no names to look up. -/
lemma ancestorArgs_build (lawful : t.Lawful) (plain : t.PlainSupertypes) (ids : List ClassId)
    {ty : Ty} (hty : (ty.canonical t).class?.isSome ∨ ty.canonical t = ty) (ancestor : ClassId) :
    (build t ids).ancestorArgs t ty ancestor = t.ancestorArgs ty ancestor := by
  by_cases hclass : (ty.canonical t).class?.isSome
  · obtain ⟨id, hid⟩ := Option.isSome_iff_exists.1 hclass
    obtain ⟨args, hcls⟩ := Ty.class?_eq_some_iff.1 hid
    have fixed : (Ty.cls id args).canonical t = .cls id args := by
      rw [← hcls, Ty.canonical_canonical]
    have same : (build t ids).ancestorArgs t ty ancestor =
        (build t ids).ancestorArgs t (.cls id args) ancestor := by
      rw [ancestorArgs, ancestorArgs, hcls, fixed]
    rw [same, ancestorArgs_build_cls lawful plain ids fixed, ← hcls,
      ClassTable.ancestorArgs_canonical hclass]
  · have fixed := hty.resolve_left hclass
    rw [ancestorArgs, fixed]
    cases ty with
    | cls => exact absurd rfl hclass
    | _ => rfl

/-- **The index of ancestors agrees with the walk.** In every table that declarations lead to, if no
declared supertype is a bare variable and no class lists an interface twice, the index over any
classes sees a class type, or a name, as the walk does: with the right arguments, raw, or with a
wrong number of arguments, and whether or not the hierarchy has cycles. -/
theorem ancestorArgs_build_eq_walk (t : ClassTable) (ht : t.Reachable) (plain : t.PlainSupertypes)
    (ids : List ClassId) (receiver : Ty)
    (hreceiver : (∃ id args, receiver = .cls id args) ∨ ∃ name, receiver = .named name)
    (ancestor : ClassId) :
    (build t ids).ancestorArgs t receiver ancestor = t.ancestorArgs receiver ancestor := by
  refine ancestorArgs_build ht.lawful plain ids ?_ ancestor
  rcases hreceiver with ⟨id, args, rfl⟩ | ⟨name, rfl⟩
  · exact .inl rfl
  · rcases Ty.canonical_named t name with ⟨id, h⟩ | h
    · exact .inl (by rw [h]; rfl)
    · exact .inr h

/-- The table `nested` is the result of declarations. -/
lemma reachable_nested : ClassTable.nested.Reachable :=
  .declare _ .core

/-- Its supertypes are plain. -/
lemma plainSupertypes_nested : ClassTable.nested.PlainSupertypes := by
  rw [ClassTable.nested_eq]
  exact ClassTable.plainSupertypes_of_slots (by decide)

/-- The index sees `A<String>` as `B<List<String>>`, as the walk does. -/
theorem ancestorArgs_build_nested :
    ClassTable.nested.Reachable ∧ ClassTable.nested.PlainSupertypes ∧
    (build ClassTable.nested [⟨15⟩]).ancestorArgs ClassTable.nested
      (.cls ⟨15⟩ [.cls ⟨1⟩ []]) ⟨14⟩ = some [.cls ⟨13⟩ [.cls ⟨1⟩ []]] := by
  refine ⟨reachable_nested, plainSupertypes_nested, ?_⟩
  rw [ancestorArgs_build_eq_walk _ reachable_nested plainSupertypes_nested _ _ (.inl ⟨_, _, rfl⟩),
    ClassTable.ancestorArgs,
    ClassTable.viewAs_of_above rfl ClassTable.coherent_nested ClassTable.above_nested rfl]
  decide +kernel

end AncestorIndex

end ContainerLint
