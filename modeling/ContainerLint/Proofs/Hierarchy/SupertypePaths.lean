import ContainerLint.Proofs.Hierarchy.IndexAgreement
import ContainerLint.Proofs.Relation.ErasureRules

/-!
# Substitution along paths of supertypes

One substitution after another is one substitution. So it does not matter when the arguments of a
class are put in for its formal parameters: at every edge of a path of declared supertypes, as a
walk does, or once at its end, as an index does. Names may be looked up at the edges or left open.

## Main definitions

* `ClassTable.ClosedSupertypes` — declared supertypes mention the parameters of their class only.
* `ClassTable.declaredEdge?`, `ClassTable.follow` — one edge, and a path of them.

## Main results

* `ClassTable.follow_subst` — a substitution commutes with paths.
* `ClassTable.above_of_follow` — paths lead to what the walk finds above a type.
* `ClassTable.follow_selfType` — substitution composes, and arguments can be put in at the end.
-/

set_option autoImplicit false

namespace ContainerLint

namespace ClassTable

variable {t : ClassTable} {look : Ty → Ty} {σ : Subst}

/-- The type parameters of each class are distinct, and they are the only variables in its declared
supertypes. -/
structure ClosedSupertypes (t : ClassTable) : Prop where
  formals_nodup : ∀ {c : ClassId} {d : ClassDef}, t.classDef? c = some d → d.typeParams.Nodup
  mem_formals : ∀ {c : ClassId} {d : ClassDef}, t.classDef? c = some d →
    ∀ sup ∈ d.supertypes, ∀ x, Ty.var x ∈ sup.subterms → x ∈ d.typeParams

/-- The end of an edge: the declared supertype at a position, with the arguments put in for the
formal parameters, and then changed by `look`. A class type with the wrong number of arguments has
no edges. -/
def declaredEdge? (t : ClassTable) (look : Ty → Ty) : Ty → Nat → Option Ty
  | .cls c args, i =>
    match t.classDef? c with
    | none => none
    | some d =>
      if args.length = d.arity then
        d.supertypes[i]?.map fun sup => look (sup.subst (Subst.ofFormals d.typeParams args))
      else none
  | _, _ => none

/-- The end of a path, which gives the position of a declared supertype for each edge. -/
def follow (t : ClassTable) (look : Ty → Ty) : List Nat → Ty → Option Ty
  | [], ty => some ty
  | i :: path, ty => (t.declaredEdge? look ty i).bind (t.follow look path)

/-- What an edge is. -/
lemma declaredEdge?_eq_some_iff {ty s : Ty} {i : Nat} :
    t.declaredEdge? look ty i = some s ↔
      ∃ c args d sup, ty = .cls c args ∧ t.classDef? c = some d ∧ args.length = d.arity ∧
        d.supertypes[i]? = some sup ∧ look (sup.subst (Subst.ofFormals d.typeParams args)) = s := by
  constructor
  · intro h
    unfold declaredEdge? at h
    split at h
    · next c args =>
      split at h
      · cases h
      · next d hd =>
        split_ifs at h with hlen
        obtain ⟨sup, hsup, hs⟩ := Option.map_eq_some_iff.1 h
        exact ⟨c, args, d, sup, rfl, hd, hlen, hsup, hs⟩
    · cases h
  · rintro ⟨c, args, d, sup, rfl, hd, hlen, hsup, rfl⟩
    simp only [declaredEdge?, hd, hlen, if_true, hsup, Option.map_some]

/-! ## Substitution -/

/-- A substitution commutes with an edge.

**Proof sketch.** The formal parameters are the only variables of a declared supertype, so to
substitute in its instance is to substitute in the arguments. -/
lemma declaredEdge?_subst (closed : t.ClosedSupertypes)
    (hlook : ∀ ty, look (ty.subst σ) = (look ty).subst σ) {ty s : Ty} {i : Nat}
    (h : t.declaredEdge? look ty i = some s) :
    t.declaredEdge? look (ty.subst σ) i = some (s.subst σ) := by
  obtain ⟨c, args, d, sup, rfl, hd, hlen, hsup, rfl⟩ := declaredEdge?_eq_some_iff.1 h
  have vars := closed.mem_formals hd sup (List.mem_of_getElem? hsup)
  refine declaredEdge?_eq_some_iff.2 ⟨c, args.map (Ty.subst σ), d, sup, ?_, hd, ?_, hsup, ?_⟩
  · rw [Ty.subst, Ty.substAll_eq_map]
  · rw [List.length_map, hlen]
  · rw [← Ty.subst_formals_subst σ vars hlen, hlook]

/-- **A substitution commutes with paths.** -/
theorem follow_subst (closed : t.ClosedSupertypes)
    (hlook : ∀ ty, look (ty.subst σ) = (look ty).subst σ) {path : List Nat} {ty s : Ty}
    (h : t.follow look path ty = some s) :
    t.follow look path (ty.subst σ) = some (s.subst σ) := by
  induction path generalizing ty with
  | nil =>
    cases h
    rfl
  | cons i path ih =>
    obtain ⟨next, first, rest⟩ := Option.bind_eq_some_iff.1 h
    rw [follow, declaredEdge?_subst closed hlook first, Option.bind_some]
    exact ih rest

/-! ## Paths of the walk -/

/-- If names are looked up at every edge, the edges of a path are declared steps. -/
lemma steps_of_follow {path : List Nat} {ty s : Ty}
    (h : t.follow (Ty.canonical t) path ty = some s) :
    Relation.ReflTransGen t.DeclaredStep ty s := by
  induction path generalizing ty with
  | nil =>
    cases h
    exact .refl
  | cons i path ih =>
    obtain ⟨next, first, rest⟩ := Option.bind_eq_some_iff.1 h
    obtain ⟨c, args, d, sup, rfl, hd, hlen, hsup, rfl⟩ := declaredEdge?_eq_some_iff.1 first
    exact (ih rest).head (.applied hd hlen (List.mem_of_getElem? hsup))

/-- So paths that start without open names lead to types that the walk finds. -/
lemma above_of_follow {path : List Nat} {ty s : Ty}
    (h : t.follow (Ty.canonical t) path (ty.canonical t) = some s) : t.Above ty s :=
  steps_of_follow h

/-! ## Arguments put in at the end -/

/-- Names left open: the arguments are put in as they are. -/
lemma follow_selfType_open (closed : t.ClosedSupertypes) {c : ClassId} {d : ClassDef}
    {args : List Ty} (hd : t.classDef? c = some d) (hlen : args.length = d.arity)
    {path : List Nat} {ty : Ty} (h : t.follow id path (AncestorIndex.selfType c d) = some ty) :
    t.follow id path (.cls c args) = some (ty.subst (Subst.ofFormals d.typeParams args)) := by
  have unchanged (s : Ty) : id (s.subst (Subst.ofFormals d.typeParams args)) =
      (id s).subst (Subst.ofFormals d.typeParams args) := rfl
  rw [← AncestorIndex.selfType_subst (closed.formals_nodup hd) hlen]
  exact follow_subst closed unchanged h

/-- Names looked up: it is the same to look up those of the arguments before or at the end.

**Proof sketch.** With the names of the arguments looked up, looking up names commutes with the
substitution. What the path leads to from the formal parameters has no open names itself. -/
lemma follow_selfType_looked (closed : t.ClosedSupertypes) {c : ClassId} {d : ClassDef}
    {args : List Ty} (hd : t.classDef? c = some d) (hlen : args.length = d.arity)
    {path : List Nat} {ty : Ty}
    (h : t.follow (Ty.canonical t) path (AncestorIndex.selfType c d) = some ty) :
    t.follow (Ty.canonical t) path ((Ty.cls c args).canonical t) =
      some ((ty.subst (Subst.ofFormals d.typeParams args)).canonical t) := by
  have looked : ∀ a ∈ args.map (Ty.canonical t), a.canonical t = a := by
    intro a ha
    obtain ⟨b, -, rfl⟩ := List.mem_map.1 ha
    exact Ty.canonical_canonical t b
  have self : (AncestorIndex.selfType c d).subst
      (Subst.ofFormals d.typeParams (args.map (Ty.canonical t))) = (Ty.cls c args).canonical t := by
    rw [AncestorIndex.selfType_subst (closed.formals_nodup hd) (by rw [List.length_map, hlen]),
      Ty.canonical, Ty.canonicalAll_eq_map]
  have start : (AncestorIndex.selfType c d).canonical t = AncestorIndex.selfType c d := by
    simp [AncestorIndex.selfType, Ty.canonical]
  have fixed : ty.canonical t = ty := by
    rw [← start] at h
    exact (above_of_follow h).canonical
  have values : Subst.ofFormals d.typeParams (args.map (Ty.canonical t)) =
      fun x => (Subst.ofFormals d.typeParams args x).map (Ty.canonical t) :=
    funext (Subst.ofFormals_map d.typeParams (Ty.canonical t) args)
  rw [← self, Ty.canonical_subst, fixed, ← values]
  exact follow_subst closed
    (Ty.canonical_subst_of_canonical (Ty.canonical_of_ofFormals looked)) h

/-- **Substitution composes**, so the arguments of a class can be put in at the end of a path. Let
the parameters of each class be distinct and be the only variables in its declared supertypes. Where
a path leads from a class applied to its own parameters, it leads from the class with arguments to
the same type with the arguments put in, whether names are left open or looked up at every edge. In
the latter case that type is above the class type. -/
theorem follow_selfType :
    (∀ (σ ρ : Subst) (ty : Ty), (ty.subst σ).subst ρ = ty.subst (σ.andThen ρ)) ∧
    ∀ (t : ClassTable), t.ClosedSupertypes →
      ∀ (c : ClassId) (d : ClassDef) (args : List Ty), t.classDef? c = some d →
        args.length = d.arity →
      ∀ (path : List Nat) (ty : Ty),
        (t.follow id path (AncestorIndex.selfType c d) = some ty →
          t.follow id path (.cls c args) =
            some (ty.subst (Subst.ofFormals d.typeParams args))) ∧
        (t.follow (Ty.canonical t) path (AncestorIndex.selfType c d) = some ty →
          t.follow (Ty.canonical t) path ((Ty.cls c args).canonical t) =
            some ((ty.subst (Subst.ofFormals d.typeParams args)).canonical t) ∧
          t.Above (.cls c args) ((ty.subst (Subst.ofFormals d.typeParams args)).canonical t)) := by
  refine ⟨fun σ ρ ty => ty.subst_subst σ ρ, fun t closed c d args hd hlen path ty => ⟨?_, ?_⟩⟩
  · exact follow_selfType_open closed hd hlen
  · intro h
    have looked := follow_selfType_looked closed hd hlen h
    exact ⟨looked, above_of_follow looked⟩

/-! ## A path of three edges -/

/-- Whether supertypes are closed can be read off the rows of a table: every variable in a type is
the head of a subterm. -/
lemma closedSupertypes_of_slots (h : ∀ slot ∈ t.slots, ∀ d ∈ slot.defn, d.typeParams.Nodup ∧
      ∀ sup ∈ d.supertypes, ∀ s ∈ sup.subterms, ∀ x ∈ s.headVar?, x ∈ d.typeParams) :
    t.ClosedSupertypes := by
  have row {c : ClassId} {d : ClassDef} (hd : t.classDef? c = some d) : d.typeParams.Nodup ∧
      ∀ sup ∈ d.supertypes, ∀ s ∈ sup.subterms, ∀ x ∈ s.headVar?, x ∈ d.typeParams := by
    obtain ⟨slot, hslot, hd⟩ := Option.bind_eq_some_iff.1 hd
    exact h slot (List.mem_of_getElem? hslot) d hd
  exact ⟨fun hd => (row hd).1, fun hd sup hsup x hx => (row hd).2 sup hsup (.var x) hx x rfl⟩

/-- A table in which `C<Z>` extends `B<Z[], ? super String>`, with `String` as an open name,
`B<X, Y>` extends `A<X, A<Y, X>>`, and `A<P, Q>` implements `I<Q>`. -/
def towered : ClassTable :=
  core.withRows
    [{ name := "com.example.I", kind := .interface, typeParams := [⟨0⟩] },
     { name := "com.example.A", typeParams := [⟨1⟩, ⟨2⟩], superClass := some (.cls ⟨0⟩ []),
       interfaces := [.cls ⟨13⟩ [.var ⟨2⟩]] },
     { name := "com.example.B", typeParams := [⟨3⟩, ⟨4⟩],
       superClass := some (.cls ⟨14⟩ [.var ⟨3⟩, .cls ⟨14⟩ [.var ⟨4⟩, .var ⟨3⟩]]) },
     { name := "com.example.C", typeParams := [⟨5⟩],
       superClass := some (.cls ⟨15⟩ [.array (.var ⟨5⟩), .wildSuper (.named "String")]) }]
    [{ name := "T" }, { name := "P" }, { name := "Q" }, { name := "X" }, { name := "Y" },
     { name := "Z" }]

/-- The definition of `C<Z>`. -/
def toweredDef : ClassDef where
  name := "com.example.C"
  typeParams := [⟨5⟩]
  superClass := some (.cls ⟨15⟩ [.array (.var ⟨5⟩), .wildSuper (.named "String")])

/-- **Arguments put in along a path of three edges.** From `C<Integer>`, where both `Integer` here
and `String` in the declaration of `C` are open names, the path leads to
`I<A<? super String, Integer[]>>`, with the names left open or looked up. -/
theorem follow_towered : towered.ClosedSupertypes ∧
    towered.follow id [0, 0, 1] (.cls ⟨16⟩ [.named "Integer"]) =
      some (.cls ⟨13⟩ [.cls ⟨14⟩ [.wildSuper (.named "String"), .array (.named "Integer")]]) ∧
    towered.follow (Ty.canonical towered) [0, 0, 1] (.cls ⟨16⟩ [.cls ⟨9⟩ []]) =
      some (.cls ⟨13⟩ [.cls ⟨14⟩ [.wildSuper (.cls ⟨1⟩ []), .array (.cls ⟨9⟩ [])]]) ∧
    towered.Above (.cls ⟨16⟩ [.named "Integer"])
      (.cls ⟨13⟩ [.cls ⟨14⟩ [.wildSuper (.cls ⟨1⟩ []), .array (.cls ⟨9⟩ [])]]) := by
  have closed : towered.ClosedSupertypes := closedSupertypes_of_slots (by decide)
  obtain ⟨-, paths⟩ := follow_selfType
  have paths := paths towered closed ⟨16⟩ toweredDef [.named "Integer"] rfl rfl [0, 0, 1]
  obtain ⟨open', -⟩ := paths
    (.cls ⟨13⟩ [.cls ⟨14⟩ [.wildSuper (.named "String"), .array (.var ⟨5⟩)]])
  obtain ⟨-, looked⟩ := paths
    (.cls ⟨13⟩ [.cls ⟨14⟩ [.wildSuper (.cls ⟨1⟩ []), .array (.var ⟨5⟩)]])
  obtain ⟨path, above⟩ := looked (by decide)
  exact ⟨closed, open' (by decide), path, above⟩

end ClassTable

end ContainerLint
