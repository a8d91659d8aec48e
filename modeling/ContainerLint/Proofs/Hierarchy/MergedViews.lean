import ContainerLint.Proofs.Agreement.InterfaceOrder
import ContainerLint.Proofs.Relation.DecisionSymmetry

/-!
# The view of an intersection

The parts of an intersection are viewed one after the other, in the order of their spelling, and
what has been found is merged with each further view. The outcome can only be the view with the
fewest placeholders. But merging ends at the first conflict, so a conflict between two views that
are both less informative hides it, unless the most informative view has been met before.

## Main definitions

* `MostInformative` — a view that has fewer placeholders than all others.
* `ConflictsCovered` — each conflict comes after a view that is more informative.

## Main results

* `mergeViews_eq_some_iff` — what views are merged to.
* `ClassTable.viewAs_inter_eq_some_iff` — the view of an intersection, and when it does not depend
  on the order of the parts.
* `ClassTable.viewAs_inter_conflict` — an intersection without a view that has a most informative
  part, and one whose view depends on the order of its parts.
-/

set_option autoImplicit false

namespace ContainerLint

/-- The view `v` is one of several, and each other one has more placeholders. -/
structure MostInformative (views : List Ty) (v : Ty) : Prop where
  mem : v ∈ views
  least : ∀ u ∈ views, u = v ∨ v.placeholders < u.placeholders

/-- Which view that is can be decided, since only the views themselves are compared. -/
instance (views : List Ty) (v : Ty) : Decidable (MostInformative views v) :=
  decidable_of_iff (v ∈ views ∧ ∀ u ∈ views, u = v ∨ v.placeholders < u.placeholders)
    ⟨fun h => ⟨h.1, h.2⟩, fun h => ⟨h.mem, h.least⟩⟩

/-- Whenever a view conflicts with one that comes before it, being different and having as many
placeholders, a view with fewer placeholders comes before it too. -/
def ConflictsCovered (views : List Ty) : Prop :=
  ∀ before v after, views = before ++ v :: after →
    ∀ u ∈ before, u ≠ v → u.placeholders = v.placeholders →
      ∃ w ∈ before, w.placeholders < v.placeholders

/-! ## Merging two views -/

/-- Two views are merged to the more informative one. -/
lemma mostInformative_of_mergeTwo {a b c : Ty} (h : mergeTwo a b = some c) :
    MostInformative [a, b] c := by
  unfold mergeTwo at h
  split_ifs at h with eq lt gt
  · obtain rfl := Option.some.inj h
    exact ⟨by simp, by simp [eq]⟩
  · obtain rfl := Option.some.inj h
    exact ⟨by simp, by simp [lt]⟩
  · obtain rfl := Option.some.inj h
    exact ⟨by simp, by simp [gt]⟩

/-- Two views conflict if they are different and have equally many placeholders. -/
lemma mergeTwo_eq_none_iff {a b : Ty} :
    mergeTwo a b = none ↔ a ≠ b ∧ a.placeholders = b.placeholders := by
  unfold mergeTwo
  split_ifs with eq lt gt
  · simp [eq]
  · simp only [false_iff, not_and]
    omega
  · simp only [false_iff, not_and]
    omega
  · simp only [true_iff]
    exact ⟨eq, by omega⟩

namespace MostInformative

variable {views : List Ty} {u v w : Ty}

/-- There is at most one most informative view. -/
lemma unique (hu : MostInformative views u) (hv : MostInformative views v) : u = v := by
  rcases hv.least u hu.mem with eq | lt
  · exact eq
  · rcases hu.least v hv.mem with eq | gt
    · exact eq.symm
    · omega

/-- A view that is alone is the most informative one. -/
lemma singleton (v : Ty) : MostInformative [v] v :=
  ⟨List.mem_singleton_self v, fun _ hu => .inl (List.mem_singleton.1 hu)⟩

/-- A further view is compared with the most informative one so far. -/
lemma concat (hu : MostInformative views u) (hw : MostInformative [u, v] w) :
    MostInformative (views ++ [v]) w where
  mem := by
    rcases List.mem_pair.1 hw.mem with rfl | rfl
    · exact List.mem_append_left _ hu.mem
    · exact List.mem_append_right _ (List.mem_singleton_self _)
  least x hx := by
    rcases List.mem_append.1 hx with hx | hx
    · have best := hw.least u (by simp)
      rcases hu.least x hx with rfl | lt
      · exact best
      · rcases best with rfl | lt'
        · exact .inr lt
        · exact .inr (lt'.trans lt)
    · rw [List.mem_singleton.1 hx]
      exact hw.least v (by simp)

end MostInformative

namespace ConflictsCovered

variable {views : List Ty} {u v w : Ty}

/-- A view that is alone has no conflicts to cover. -/
lemma singleton (v : Ty) : ConflictsCovered [v] := by
  intro before x after split u hu
  rcases List.append_eq_singleton_iff.1 split.symm with ⟨rfl, -⟩ | ⟨-, absurd⟩
  · cases hu
  · cases absurd

/-- A further view keeps the conflicts covered if it can be merged with the most informative one so
far.

**Proof sketch.** If the further view is less informative than the best one so far, that one comes
before it. If not, no view so far has as many placeholders, or it is the same. -/
lemma concat (covered : ConflictsCovered views) (hu : MostInformative views u)
    (merged : mergeTwo u v ≠ none) : ConflictsCovered (views ++ [v]) := by
  intro before x after split y hy ne same
  rcases List.eq_nil_or_concat after with rfl | ⟨after, z, rfl⟩
  · obtain ⟨rfl, last⟩ := List.append_inj' split rfl
    obtain rfl : v = x := by simpa using last
    refine ⟨u, hu.mem, ?_⟩
    by_contra notLess
    refine merged (mergeTwo_eq_none_iff.2 ?_)
    rcases hu.least y hy with rfl | lt
    · exact ⟨ne, same⟩
    · omega
  · have split : views ++ [v] = (before ++ x :: after) ++ [z] := by simpa using split
    obtain ⟨rfl, -⟩ := List.append_inj' split rfl
    exact covered before x after rfl y hy ne same

end ConflictsCovered

/-! ## Merging many views -/

section Steps

variable {α : Type} {view : α → Option Ty} {a : α} {as : List α} {u v : Ty}

/-- A candidate without a view is passed over. -/
lemma mergeViews_cons_of_none (h : view a = none) (found : Option Ty) :
    mergeViews view found (a :: as) = mergeViews view found as := by
  cases found <;> simp only [mergeViews, h]

/-- The first view is taken as it is. -/
lemma mergeViews_none_cons (h : view a = some v) :
    mergeViews view none (a :: as) = mergeViews view (some v) as := by
  simp only [mergeViews, h]

/-- A further view is merged with what has been found. -/
lemma mergeViews_some_cons (h : view a = some v) :
    mergeViews view (some u) (a :: as) =
      (mergeTwo u v).bind fun w => mergeViews view (some w) as := by
  conv_lhs => unfold mergeViews
  rw [h]
  dsimp only
  cases mergeTwo u v <;> rfl

/-- Candidates without a view do not count. -/
lemma mergeViews_eq_filterMap (view : α → Option Ty) (found : Option Ty) (as : List α) :
    mergeViews view found as = mergeViews some found (as.filterMap view) := by
  induction as generalizing found with
  | nil => rfl
  | cons a as ih =>
    cases h : view a with
    | none => rw [List.filterMap_cons_none h, mergeViews_cons_of_none h, ih]
    | some v =>
      rw [List.filterMap_cons_some h]
      cases found with
      | none => rw [mergeViews_none_cons h, mergeViews_none_cons rfl, ih]
      | some u =>
        rw [mergeViews_some_cons h, mergeViews_some_cons rfl]
        exact congrArg _ (funext fun w => ih (some w))

end Steps

/-- What further views are merged to, when the conflicts before them are covered.

**Proof sketch.** Induction on the further views. The next one is merged with the most informative
one so far, or else it conflicts with it, and nothing before it is more informative. -/
lemma mergeViews_after_eq_some_iff {before : List Ty} {u : Ty} (hu : MostInformative before u)
    (covered : ConflictsCovered before) (after : List Ty) (v : Ty) :
    mergeViews some (some u) after = some v ↔
      MostInformative (before ++ after) v ∧ ConflictsCovered (before ++ after) := by
  induction after generalizing before u with
  | nil =>
    rw [List.append_nil, mergeViews, Option.some.injEq]
    exact ⟨fun eq => eq ▸ ⟨hu, covered⟩, fun h => hu.unique h.1⟩
  | cons a after ih =>
    rw [mergeViews_some_cons rfl]
    cases merged : mergeTwo u a with
    | none =>
      obtain ⟨ne, same⟩ := mergeTwo_eq_none_iff.1 merged
      simp only [Option.bind_none, reduceCtorEq, false_iff, not_and]
      intro _ covered'
      obtain ⟨w, hw, less⟩ := covered' before a after rfl u hu.mem ne same
      rcases hu.least w hw with rfl | lt <;> omega
    | some w =>
      have best := hu.concat (mostInformative_of_mergeTwo merged)
      have covered := covered.concat hu (v := a) (by simp [merged])
      rw [Option.bind_some, ih best covered, List.append_assoc, List.singleton_append]

/-- **Views are merged to the most informative one, provided that their conflicts are covered.** -/
theorem mergeViews_eq_some_iff (views : List Ty) (v : Ty) :
    mergeViews some none views = some v ↔ MostInformative views v ∧ ConflictsCovered views := by
  cases views with
  | nil =>
    refine iff_of_false (by simp [mergeViews]) fun h => ?_
    exact absurd h.1.mem List.not_mem_nil
  | cons a views =>
    rw [mergeViews_none_cons rfl]
    exact mergeViews_after_eq_some_iff (.singleton a) (.singleton a) views v

/-- A map that keeps the keys commutes with sorting. -/
lemma sortByKey_map {α β : Type} {key : α → String} {key' : β → String} {f : α → β}
    (h : ∀ a, key' (f a) = key a) (as : List α) :
    sortByKey key' (as.map f) = (sortByKey key as).map f := by
  refine (List.map_mergeSort fun a _ b _ => ?_).symm
  rw [h, h]

namespace ClassTable

/-- The view of an intersection is merged from those of its parts, in the order of their
spelling. -/
lemma viewAs_inter (t : ClassTable) (parts : List Ty) (target : ClassId) :
    t.viewAs (.inter parts) target =
      mergeViews some none ((sortTypes t parts).filterMap fun part => t.viewAs part target) := by
  have sorted : sortByKey (·.1) (Ty.viewEach t target (t.viewVar target t.varIds) parts) =
      (sortTypes t parts).map fun part => (part.sortKey t, fun _ => t.viewAs part target) := by
    rw [Ty.viewEach_eq_map]
    exact sortByKey_map (fun _ => rfl) parts
  rw [viewAs, Ty.viewWith, sorted, mergeViews_eq_filterMap, List.filterMap_map]
  rfl

/-- If parts that are spelled alike have the same view, the views do not depend on the order in
which the parts are given. -/
lemma filterMap_viewAs_sortTypes_of_perm {t : ClassTable} {target : ClassId}
    {parts parts' : List Ty} (perm : parts'.Perm parts)
    (alike : ∀ p ∈ parts, ∀ q ∈ parts, p.sortKey t = q.sortKey t →
      t.viewAs p target = t.viewAs q target) :
    ((sortTypes t parts').filterMap fun part => t.viewAs part target) =
      (sortTypes t parts).filterMap fun part => t.viewAs part target := by
  have pairs (parts : List Ty) : ((sortTypes t parts).filterMap fun part => t.viewAs part target) =
      (sortByKey (·.1) (parts.map fun p => (p.sortKey t, t.viewAs p target))).filterMap (·.2) := by
    have sorted : sortByKey (·.1) (parts.map fun p => (p.sortKey t, t.viewAs p target)) =
        (sortTypes t parts).map fun p => (p.sortKey t, t.viewAs p target) :=
      sortByKey_map (fun _ => rfl) parts
    rw [sorted, List.filterMap_map]
    rfl
  rw [pairs, pairs]
  refine congrArg _ (sortByKey_eq_of_perm (perm.map _) fun a ha b hb same => ?_)
  obtain ⟨p, hp, rfl⟩ := List.mem_map.1 ha
  obtain ⟨q, hq, rfl⟩ := List.mem_map.1 hb
  exact Prod.ext same (alike p hp q hq same)

/-- **An intersection is viewed as its most informative part**, if each conflict between two views
comes after a view that is more informative than both. The parts are taken in the order of their
spelling. So the view is the same in whichever order they are given, if those that are spelled alike
have the same view. -/
theorem viewAs_inter_eq_some_iff (t : ClassTable) (target : ClassId) (parts : List Ty) :
    let views := (sortTypes t parts).filterMap fun part => t.viewAs part target
    (∀ v, t.viewAs (.inter parts) target = some v ↔
      MostInformative views v ∧ ConflictsCovered views) ∧
    ∀ parts', parts'.Perm parts →
      (∀ p ∈ parts, ∀ q ∈ parts, p.sortKey t = q.sortKey t →
        t.viewAs p target = t.viewAs q target) →
      t.viewAs (.inter parts') target = t.viewAs (.inter parts) target := by
  intro views
  refine ⟨fun v => ?_, fun parts' perm alike => ?_⟩
  · rw [viewAs_inter]
    exact mergeViews_eq_some_iff views v
  · rw [viewAs_inter, viewAs_inter, filterMap_viewAs_sortTypes_of_perm perm alike]

/-! ## Conflicts behind and before an informative view -/

/-- If parts ascend in their spelling and each is its own view, the views are the parts. -/
lemma filterMap_viewAs_sortTypes_eq_self {t : ClassTable} {target : ClassId} {parts : List Ty}
    (ascending : parts.Pairwise fun p q => p.sortKey t ≤ q.sortKey t)
    (own : ∀ p ∈ parts, t.viewAs p target = some p) :
    ((sortTypes t parts).filterMap fun part => t.viewAs part target) = parts := by
  have sorted : sortTypes t parts = parts :=
    List.mergeSort_of_pairwise (ascending.imp decide_eq_true)
  rw [sorted, List.filterMap_congr own, List.filterMap_some]

/-- A table with an interface `Base<K, V>` and two classes whose type parameters have the same
name. -/
def paired : ClassTable :=
  (core.declare
    [{ name := "com.example.Base", kind := .interface, typeParams := ["K", "V"] },
     { name := "com.example.P", typeParams := ["T"] },
     { name := "com.example.Q", typeParams := ["T"] }]).1

/-- The rows of this table. -/
lemma paired_eq : paired = core.withRows
    [{ name := "com.example.Base", kind := .interface, typeParams := [⟨0⟩, ⟨1⟩] },
     { name := "com.example.P", typeParams := [⟨2⟩], superClass := some (.cls ⟨0⟩ []) },
     { name := "com.example.Q", typeParams := [⟨3⟩], superClass := some (.cls ⟨0⟩ []) }]
    [{ name := "K", upperBounds := [.cls ⟨0⟩ []] }, { name := "V", upperBounds := [.cls ⟨0⟩ []] },
     { name := "T", upperBounds := [.cls ⟨0⟩ []] },
     { name := "T", upperBounds := [.cls ⟨0⟩ []] }] := by
  decide +kernel

/-- The type `Base<k, v>`. -/
def baseOf (k v : Ty) : Ty := .cls ⟨13⟩ [k, v]

/-- Two conflicting views, and one that is more informative and is spelled before them. -/
def informedFirst : List Ty :=
  [baseOf (.cls (Core.box .int) []) (.cls Core.string []), baseOf (.cls Core.number []) .unknown,
    baseOf (.cls Core.string []) .unknown]

/-- Two conflicting views, and one that is more informative and is spelled after them. -/
def informedLast : List Ty :=
  [baseOf .unknown (.cls (Core.box .int) []), baseOf .unknown (.cls Core.string []),
    baseOf (.cls Core.string []) (.cls Core.string [])]

/-- Two conflicting views, and one that is more informative and is spelled like them: it has a class
of an unknown name where they have a placeholder. -/
def spelledAlike : List Ty :=
  [baseOf .unknown (.var ⟨2⟩), baseOf .unknown (.var ⟨3⟩), baseOf (.named "<unknown>") (.var ⟨2⟩)]

/-- These uses of `Base` are their own views. -/
lemma viewAs_paired {p : Ty} (hp : p ∈ informedFirst ++ informedLast ++ spelledAlike) :
    paired.viewAs p ⟨13⟩ = some p := by
  have uses : ∀ p ∈ informedFirst ++ informedLast ++ spelledAlike,
      p.canonical paired = p ∧ p.class? = some ⟨13⟩ := by
    rw [paired_eq]
    decide
  obtain ⟨looked, isBase⟩ := uses p hp
  cases p with
  | cls c as =>
    cases isBase
    exact viewAs_self looked
  | _ => cases isBase

/-- They ascend in their spelling. -/
lemma ascending_paired :
    ∀ parts ∈ [informedFirst, informedLast, spelledAlike, spelledAlike.reverse],
      parts.Pairwise fun p q => p.sortKey paired ≤ q.sortKey paired := by
  rw [paired_eq]
  decide

/-- **The rule at work.** A view that comes first covers the conflict between the two others, in
whichever order the parts are given.

**Proof sketch.** The views of the parts are the parts, and these are spelled in ascending order.
The first one covers each of the others, which is checked one after the other. All parts are spelled
differently, so their order does not matter. -/
theorem viewAs_inter_informedFirst :
    paired.viewAs (.inter informedFirst) ⟨13⟩ =
        some (baseOf (.cls (Core.box .int) []) (.cls Core.string [])) ∧
      ∀ parts, parts.Perm informedFirst →
        paired.viewAs (.inter parts) ⟨13⟩ = paired.viewAs (.inter informedFirst) ⟨13⟩ := by
  obtain ⟨view, order⟩ := viewAs_inter_eq_some_iff paired ⟨13⟩ informedFirst
  have own : ∀ p ∈ informedFirst, paired.viewAs p ⟨13⟩ = some p := fun p hp =>
    viewAs_paired (List.mem_append_left _ (List.mem_append_left _ hp))
  rw [filterMap_viewAs_sortTypes_eq_self (ascending_paired _ (by simp)) own] at view
  refine ⟨(view _).2 ⟨by decide, ?_⟩, fun parts perm => order parts perm ?_⟩
  · have first := ConflictsCovered.singleton
      (baseOf (.cls (Core.box .int) []) (.cls Core.string []))
    have second := first.concat (.singleton _) (v := baseOf (.cls Core.number []) .unknown)
      (by decide)
    exact second.concat (v := baseOf (.cls Core.string []) .unknown)
      (u := baseOf (.cls (Core.box .int) []) (.cls Core.string [])) (by decide) (by decide)
  · have apart : ∀ p ∈ informedFirst, ∀ q ∈ informedFirst,
        p.sortKey paired = q.sortKey paired → p = q := by
      rw [paired_eq]
      decide
    exact fun p hp q hq same => by rw [apart p hp q hq same]

/-- **A conflict can hide the most informative part.** The views of the parts are the parts. In both
intersections one of them is the most informative, but the other two conflict and come first. Where
the parts are spelled alike, the same parts in another order have a view.

**Proof sketch.** The views of the parts are the parts, and these are in ascending order, so that
merging the parts in the order in which they stand is what counts. This is computed. -/
theorem viewAs_inter_conflict :
    (∀ p ∈ informedLast ++ spelledAlike, paired.viewAs p ⟨13⟩ = some p) ∧
    MostInformative informedLast (baseOf (.cls Core.string []) (.cls Core.string [])) ∧
    paired.viewAs (.inter informedLast) ⟨13⟩ = none ∧
    MostInformative spelledAlike (baseOf (.named "<unknown>") (.var ⟨2⟩)) ∧
    paired.viewAs (.inter spelledAlike) ⟨13⟩ = none ∧
    paired.viewAs (.inter spelledAlike.reverse) ⟨13⟩ =
      some (baseOf (.named "<unknown>") (.var ⟨2⟩)) := by
  have own : ∀ p ∈ informedLast ++ spelledAlike, paired.viewAs p ⟨13⟩ = some p := fun p hp =>
    viewAs_paired (by rw [List.append_assoc]; exact List.mem_append_right _ hp)
  have last : ∀ p ∈ informedLast, paired.viewAs p ⟨13⟩ = some p := fun p hp =>
    own p (List.mem_append_left _ hp)
  have alike : ∀ p ∈ spelledAlike, paired.viewAs p ⟨13⟩ = some p := fun p hp =>
    own p (List.mem_append_right _ hp)
  have reversed : ∀ p ∈ spelledAlike.reverse, paired.viewAs p ⟨13⟩ = some p := fun p hp =>
    alike p (List.mem_reverse.1 hp)
  refine ⟨own, by decide, ?_, by decide, ?_, ?_⟩
  · rw [viewAs_inter, filterMap_viewAs_sortTypes_eq_self (ascending_paired _ (by simp)) last]
    decide
  · rw [viewAs_inter, filterMap_viewAs_sortTypes_eq_self (ascending_paired _ (by simp)) alike]
    decide
  · rw [viewAs_inter, filterMap_viewAs_sortTypes_eq_self (ascending_paired _ (by simp)) reversed]
    decide

end ClassTable

end ContainerLint
