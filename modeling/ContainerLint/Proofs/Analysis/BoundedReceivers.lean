import ContainerLint.Proofs.Analysis.IndexedAnalysis
import ContainerLint.Proofs.Relation.ErasureRules

/-!
# Calls on bounded receivers

A receiver may be a variable whose bound is a variable, and so on up to a class type, or a wildcard
with such a bound. An entry of a catalog is matched by the erasure of the receiver and compared with
the arguments that the receiver shows. Erasure follows the first bound of a variable and a view all
of them, each with a list of the variables that may still be followed. Where every variable has one
bound they go the same way, and neither comes back to a variable, so both end at the class type.

## Main definitions

* `ClassTable.Bounds` — a type is all that is known of a variable or wildcard.

## Main results

* `ClassTable.Bounds.erasure_eq`, `ClassTable.Bounds.viewAs_eq` — such a variable or wildcard has
  the erasure and the views of its bound.
* `ResolvedCatalog.analyze_congr_receiver` — the erasure and the arguments of ancestors are all that
  an analysis knows of a receiver.
* `ResolvedCatalog.answers_of_boundChain` — the same for chains of variables of any length.
-/

set_option autoImplicit false

namespace ContainerLint

namespace ClassTable

variable {t : ClassTable} {bound ty : Ty}

/-- The type `bound` is all that is known of `ty`: only bounds lead to it, and each variable on the
way has only one. -/
inductive Bounds (t : ClassTable) (bound : Ty) : Ty → Prop where
  | refl : Bounds t bound bound
  | var {x : VarId} {upper : Ty} : (t.typeParam? x).map (·.upperBounds) = some [upper] →
      Bounds t bound upper → Bounds t bound (.var x)
  | wildExtends {upper : Ty} : Bounds t bound upper → Bounds t bound (.wildExtends upper)

/-! ## Erasure -/

/-- By the rules a type erases to what its bound erases to.

**Proof sketch.** By induction on the chain of bounds. At a variable the rule for unbounded
variables does not apply, and the rule for bounded ones leads to the bound; at a wildcard there is
only one rule. -/
lemma Bounds.erases_iff (h : t.Bounds bound ty) {r : Ty} : t.Erases ty r ↔ t.Erases bound r := by
  induction h with
  | refl => rfl
  | var hx _ ih =>
    obtain ⟨p, hp, hbounds⟩ := Option.map_eq_some_iff.1 hx
    rw [← ih]
    constructor
    · intro h
      cases h with
      | unbounded hp' none =>
        obtain rfl := Option.some.inj (hp.symm.trans hp')
        simp [hbounds] at none
      | bounded hp' first h =>
        obtain rfl := Option.some.inj (hp.symm.trans hp')
        obtain ⟨rfl, -⟩ := List.cons.inj (hbounds.symm.trans first)
        exact h
    · exact .bounded hp hbounds
  | wildExtends _ ih =>
    rw [← ih]
    constructor
    · intro h
      cases h with
      | wildExtends h => exact h
    · exact .wildExtends

/-- **A type has the erasure of its bound.** -/
theorem Bounds.erasure_eq (h : t.Bounds bound ty) : t.erasure ty = t.erasure bound := by
  ext r
  rw [erasure_eq_some_iff, erasure_eq_some_iff, h.erases_iff]

/-! ## Views -/

/-- A class type, or the name of a class, has an erasure. -/
lemma exists_erases_of_class (h : (bound.canonical t).class?.isSome) : ∃ r, t.Erases bound r := by
  cases bound with
  | cls id args => exact ⟨_, .cls id args⟩
  | named name =>
    cases found : t.lookup name with
    | some id => exact ⟨_, .named found⟩
    | none => simp [Ty.canonical, found, Ty.class?] at h
  | _ => simp [Ty.canonical, Ty.class?] at h

/-- A class type, or the name of a class, is viewed without following variables. -/
lemma viewWith_of_class (h : (bound.canonical t).class?.isSome) (target : ClassId)
    (follow : VarId → Option Ty) : bound.viewWith t target follow = t.viewAs bound target := by
  cases bound with
  | cls | named => rfl
  | _ => simp [Ty.canonical, Ty.class?] at h

/-- A variable with one bound, if it may be followed, is viewed through that bound. -/
lemma viewVar_of_bound {x : VarId} {upper : Ty} {avail : List VarId} (mem : x ∈ avail)
    (hx : (t.typeParam? x).map (·.upperBounds) = some [upper]) (target : ClassId) :
    t.viewVar target avail x = upper.viewWith t target (t.viewVar target (avail.erase x)) := by
  obtain ⟨p, hp, hbounds⟩ := Option.map_eq_some_iff.1 hx
  have sorted : sortTypes t p.upperBounds = [upper] := by
    rw [hbounds, sortTypes, sortByKey, List.mergeSort_singleton]
  rw [viewVar, dif_pos mem, hp]
  dsimp only
  rw [sorted]
  cases h : upper.viewWith t target (t.viewVar target (avail.erase x)) <;> simp [mergeViews, h]

/-- A type is viewed as its bound is, if all variables that come up may be followed.

**Proof sketch.** Induction on the way to the bound. When a variable is followed, it is used up. It
has an erasure, since the bound has one, so it does not lead back to itself and is not missed. -/
lemma Bounds.viewWith_eq (h : t.Bounds bound ty) (hbound : (bound.canonical t).class?.isSome)
    (target : ClassId) {avail : List VarId}
    (available : ∀ x, ty.headVar? = some x → ∀ y ∈ t.varIds,
      Relation.ReflTransGen t.Leads x y → y ∈ avail) :
    ty.viewWith t target (t.viewVar target avail) = t.viewAs bound target := by
  induction h generalizing avail with
  | refl => exact viewWith_of_class hbound target _
  | wildExtends _ ih => exact ih available
  | @var x upper hx h ih =>
    obtain ⟨p, hp, hbounds⟩ := Option.map_eq_some_iff.1 hx
    have mem : x ∈ avail := available x rfl x (mem_varIds_iff.2 (by simp [hp])) .refl
    have once : ¬ Relation.TransGen t.Leads x x := by
      obtain ⟨r, hr⟩ := exists_erases_of_class hbound
      exact ((Bounds.var hx h).erases_iff.2 hr).not_transGen_leads rfl
    rw [Ty.viewWith, viewVar_of_bound mem hx]
    refine ih fun y hy z hz path => ?_
    have first : t.Leads x y := (leads_iff hp hbounds).2 hy
    exact mem_erase_of_leads once first path (available x rfl z hz (path.head first))

/-- **A type is viewed as its bound is**, if that is a class type. -/
theorem Bounds.viewAs_eq (h : t.Bounds bound ty) (hbound : (bound.canonical t).class?.isSome)
    (target : ClassId) : t.viewAs ty target = t.viewAs bound target :=
  h.viewWith_eq hbound target fun _ _ _ hy _ => hy

/-- So it shows the arguments of ancestors that its bound shows. -/
lemma Bounds.ancestorArgs_eq (h : t.Bounds bound ty) (hbound : (bound.canonical t).class?.isSome)
    (ancestor : ClassId) : t.ancestorArgs ty ancestor = t.ancestorArgs bound ancestor := by
  rw [ancestorArgs, ancestorArgs, h.viewAs_eq hbound]

/-- The class type at the end of a chain of variables bounds the first of them.

**Proof sketch.** Induction on the length. Without the first variable it is a shorter chain. -/
lemma bounds_of_chain {n : ℕ} {T : ℕ → VarId}
    (inner : ∀ i < n, (t.typeParam? (T i)).map (·.upperBounds) = some [.var (T (i + 1))])
    (last : (t.typeParam? (T n)).map (·.upperBounds) = some [bound]) :
    t.Bounds bound (.var (T 0)) := by
  induction n generalizing T with
  | zero => exact .var last .refl
  | succ n ih =>
    have rest : t.Bounds bound (.var (T 1)) :=
      ih (T := fun i => T (i + 1)) (fun i hi => inner (i + 1) (by omega)) last
    exact .var (inner 0 (by omega)) rest

end ClassTable

namespace ResolvedCatalog

variable {t : ClassTable} {receiver other : Ty}

/-- **The erasure and the arguments of ancestors are all that an analysis knows of a receiver**, if
there is no index.

**Proof sketch.** Which entries match depends on the erasure of the receiver. The outcome of each
entry and what is reported of it depend on the arguments that the receiver shows. So the same
entries are tried, with the same outcomes, up to the same one. -/
theorem analyze_congr_receiver (erasure : t.erasure receiver = t.erasure other)
    (args : ∀ ancestor, t.ancestorArgs receiver ancestor = t.ancestorArgs other ancestor)
    (c : ResolvedCatalog) (policy : Policy) (call : CallSite) :
    c.analyze t none policy { call with receiver := receiver } =
      c.analyze t none policy { call with receiver := other } := by
  have matched : c.matching t none { call with receiver := receiver } =
      c.matching t none { call with receiver := other } := by
    simp only [matching, erasure]
  have examined (e : ResolvedEntry) (argument : Ty) :
      examineEntry t none policy receiver e argument =
        examineEntry t none policy other e argument := by
    simp only [examineEntry, tryEntry, receiverArgs, args]
  have tried (entries : List (ResolvedEntry × Ty)) :
      tryUntilDecided t none policy receiver entries =
        tryUntilDecided t none policy other entries := by
    induction entries with
    | nil => rfl
    | cons e entries ih => rw [tryUntilDecided_cons, tryUntilDecided_cons, examined, ih]
  have reported (x : Examination) : x.analysis t none receiver = x.analysis t none other := by
    apply x.analysis_congr
    exact args
  simp only [analyze, examine, matched, tried, reported]

/-- **A bounded receiver behaves like its bound.** Let the only upper bound of each variable of the
chain `T 0`, …, `T n` be the next one, and that of the last a class type, or the name of a class.
The first variable, a wildcard with this variable as upper bound and a wildcard with the class type
as upper bound show the arguments of ancestors that the class type shows, and every catalog finds
the same about every call on them. That the variables are distinct need not be said: a chain that
came back to one of its variables would not end. -/
theorem answers_of_boundChain (t : ClassTable) (n : ℕ) (T : ℕ → VarId) (bound : Ty)
    (hbound : (bound.canonical t).class?.isSome)
    (inner : ∀ i < n, (t.typeParam? (T i)).map (·.upperBounds) = some [.var (T (i + 1))])
    (last : (t.typeParam? (T n)).map (·.upperBounds) = some [bound]) :
    ∀ receiver ∈ [Ty.var (T 0), .wildExtends (.var (T 0)), .wildExtends bound],
      (∀ ancestor, t.ancestorArgs receiver ancestor = t.ancestorArgs bound ancestor) ∧
      ∀ (c : ResolvedCatalog) (policy : Policy) (call : CallSite),
        c.analyze t none policy { call with receiver := receiver } =
          c.analyze t none policy { call with receiver := bound } := by
  intro receiver hreceiver
  have chain : t.Bounds bound (.var (T 0)) := ClassTable.bounds_of_chain inner last
  have bounds : t.Bounds bound receiver := by
    simp only [List.mem_cons, List.not_mem_nil, or_false] at hreceiver
    rcases hreceiver with rfl | rfl | rfl
    · exact chain
    · exact .wildExtends chain
    · exact .wildExtends .refl
  have args := bounds.ancestorArgs_eq hbound
  exact ⟨args, analyze_congr_receiver bounds.erasure_eq args⟩

/-! ## A chain of three variables -/

/-- A table in which `Words` implements `Base<String>` and the parameters of a class
`Pool<T extends U, U extends V, V extends Words>` form a chain. -/
def pooled : ClassTable :=
  ClassTable.core.withRows
    [{ name := "com.example.Base", kind := .interface, typeParams := [⟨0⟩] },
     { name := "com.example.Words", superClass := some (.cls ⟨0⟩ []),
       interfaces := [.cls ⟨13⟩ [.cls ⟨1⟩ []]] },
     { name := "com.example.Pool", typeParams := [⟨1⟩, ⟨2⟩, ⟨3⟩],
       superClass := some (.cls ⟨0⟩ []) }]
    [{ name := "E", upperBounds := [.cls ⟨0⟩ []] }, { name := "T", upperBounds := [.var ⟨2⟩] },
     { name := "U", upperBounds := [.var ⟨3⟩] }, { name := "V", upperBounds := [.cls ⟨14⟩ []] }]

/-- The resolved entry for `Base.get(Object)`. -/
def pooledEntry : ResolvedEntry where
  entry := getEntry
  base := ⟨13⟩
  erasedParams := [.cls ⟨0⟩ []]

/-- A call of `get` on `Words` with an `Integer`. -/
def wordsCall : CallSite where
  receiver := .cls ⟨14⟩ []
  method := "get"
  params := [.cls ⟨0⟩ []]
  args := [.cls ⟨9⟩ []]

/-- `Words` is seen as `Base<String>`. -/
lemma ancestorArgs_words : pooled.ancestorArgs (.cls ⟨14⟩ []) ⟨13⟩ = some [.cls ⟨1⟩ []] := by
  have coherent : pooled.Coherent (.cls ⟨14⟩ []) :=
    ClassTable.coherent_of_closed
      [.cls ⟨14⟩ [], .cls ⟨13⟩ [.cls ⟨1⟩ []], .cls ⟨0⟩ []]
      (by decide) (by decide) (by decide)
  have above : pooled.Above (.cls ⟨14⟩ []) (.cls ⟨13⟩ [.cls ⟨1⟩ []]) :=
    .single ((ClassTable.mem_declaredSupertypes_iff rfl).1 (by decide))
  rw [ClassTable.ancestorArgs, ClassTable.viewAs_of_above rfl coherent above rfl]
  rfl

/-- The call on `Words` is found to be wrong.

**Proof sketch.** There is one entry. It matches, since `Base` is a parent of `Words`, and it
compares the argument with `String`, which `Words` shows as the argument of `Base`. -/
lemma analyze_wordsCall : (push {} pooledEntry).analyze pooled none .strict wordsCall =
    { verdict := .incompatible,
      mismatch := some
        { entry := getEntry, parameter := .cls ⟨1⟩ [], argument := .cls ⟨9⟩ [] } } := by
  have erasure : pooled.erasure wordsCall.receiver = some (.cls ⟨14⟩ []) := rfl
  have params : pooled.eraseAll wordsCall.params = some [.cls ⟨0⟩ []] := rfl
  have entries : (push {} pooledEntry).byMethod wordsCall.method = [pooledEntry] := by decide
  have below : pooled.isBelow none (.cls ⟨14⟩ []) pooledEntry.base = true :=
    ClassTable.isBelow_none_cls_iff.2 (.inr (.single (ClassTable.mem_parents_iff.1 (by decide))))
  have different : pooled.decide .strict (.cls ⟨1⟩ []) (.cls ⟨9⟩ []) = .incompatible :=
    ClassTable.decide_string_integer_withRows _ _
  have outcome : tryEntry pooled none .strict wordsCall.receiver pooledEntry (.cls ⟨9⟩ []) =
      .compared (.cls ⟨1⟩ []) .incompatible := by
    have shown : receiverArgs pooled none wordsCall.receiver pooledEntry.base =
        some [.cls ⟨1⟩ []] := ancestorArgs_words
    rw [tryEntry, shown]
    simp [pooledEntry, getEntry, different]
  have sameParams : pooledEntry.erasedParams = [.cls ⟨0⟩ []] := rfl
  have argument : wordsCall.args[pooledEntry.entry.argIndex]? = some (.cls ⟨9⟩ []) := rfl
  rw [analyze_eq, erasure, params, entries]
  dsimp only
  rw [List.findSome?_cons, judge_of_incompatible sameParams below argument outcome]
  rfl

/-- **A chain at work.** In the table `pooled` the variable `T` and the wildcard `? extends T` are
seen as `Base<String>`, and a call of `get` on them with an `Integer` is found to be wrong. -/
theorem answers_pooled :
    (∀ i < 2, (pooled.typeParam? ⟨i + 1⟩).map (·.upperBounds) = some [.var ⟨i + 2⟩]) ∧
    (pooled.typeParam? ⟨3⟩).map (·.upperBounds) = some [.cls ⟨14⟩ []] ∧
    ∀ receiver ∈ [Ty.var ⟨1⟩, .wildExtends (.var ⟨1⟩), .wildExtends (.cls ⟨14⟩ [])],
      pooled.ancestorArgs receiver ⟨13⟩ = some [.cls ⟨1⟩ []] ∧
      (push {} pooledEntry).analyze pooled none .strict
          { wordsCall with receiver := receiver } =
        { verdict := .incompatible,
          mismatch := some
            { entry := getEntry, parameter := .cls ⟨1⟩ [], argument := .cls ⟨9⟩ [] } } := by
  have inner : ∀ i < 2,
      (pooled.typeParam? ⟨i + 1⟩).map (·.upperBounds) = some [.var ⟨i + 2⟩] := by decide
  have last : (pooled.typeParam? ⟨3⟩).map (·.upperBounds) = some [.cls ⟨14⟩ []] := rfl
  refine ⟨inner, last, fun receiver hreceiver => ?_⟩
  obtain ⟨args, analyses⟩ := answers_of_boundChain pooled 2 (fun i => ⟨i + 1⟩) (.cls ⟨14⟩ []) rfl
    inner last receiver hreceiver
  exact ⟨(args ⟨13⟩).trans ancestorArgs_words, (analyses _ _ _).trans analyze_wordsCall⟩

end ResolvedCatalog

end ContainerLint
