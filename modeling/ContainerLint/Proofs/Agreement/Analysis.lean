import ContainerLint.Proofs.Agreement.Hierarchy
import ContainerLint.Proofs.Analysis.IndexedAnalysis

/-!
# Analyses in tables that agree

A verdict is put together from erasures, subtyping and views of the two types, and an analysis from
verdicts on what a receiver shows and what a call passes. So two tables that agree on a region, up
to the supertypes of its types, give the same verdicts on these types and the same analyses of calls
over them. The base types of a catalog need not be in the region: a class outside of it is above no
type of the region, whichever table is asked.

## Main definitions

* `CallSite.In` — a call over types of a region.

## Main results

* `ClassTable.AgreesAbove.isCastable` — the same types of the region are castable to each other.
* `ClassTable.AgreesAbove.decide` — two types of the region have the same verdict.
* `ClassTable.AgreesAbove.analyze` — a call over types of the region has the same analysis.
-/

set_option autoImplicit false

namespace ContainerLint

/-- A call whose receiver, parameters and arguments are of types of a region. -/
structure CallSite.In (R : Region) (call : CallSite) : Prop where
  receiver : call.receiver.In R
  params : Ty.AllIn R call.params
  args : Ty.AllIn R call.args

namespace ClassTable

variable {R : Region} {t t' : ClassTable}

/-! ## Castability -/

namespace AgreesOn

/-- Values of the same classes can coincide. -/
lemma classesCastable (h : t.AgreesOn R t') {a b : ClassId} (ha : R.classes a)
    (hb : R.classes b) : t'.classesCastable a b = t.classesCastable a b := by
  unfold ClassTable.classesCastable
  cases hda : t.classDef? a with
  | none => rw [h.classDef?_eq_none ha hda]
  | some da =>
    obtain ⟨da', hda', reordered⟩ := h.exists_classDef? ha hda
    rw [hda']
    cases hdb : t.classDef? b with
    | none => rw [h.classDef?_eq_none hb hdb]
    | some db =>
      obtain ⟨db', hdb', reordered'⟩ := h.exists_classDef? hb hdb
      rw [hdb']
      dsimp only
      rw [reordered.kind, reordered.isFinal, reordered'.kind, reordered'.isFinal]

/-- The same erased types are castable to each other.

**Proof sketch.** By induction on the first type. Both tables try the two subtype tests first, which
agree. Beyond them only two class types, or the elements of two arrays, are looked at; the former by
`classesCastable`, the latter by induction. -/
lemma erasedCastable (h : t.AgreesOn R t') {a b : Ty} (ha : a.In R) (hb : b.In R) :
    t'.erasedCastable a b = t.erasedCastable a b := by
  have up := h.erasedSubtype ha b
  have down := h.erasedSubtype hb a
  induction a using Ty.recOnMembers generalizing b with
  | cls c as =>
    cases b with
    | cls d bs =>
      cases ha with
      | cls hc _ =>
        cases hb with
        | cls hd _ =>
          rw [ClassTable.erasedCastable, ClassTable.erasedCastable, up, down,
            h.classesCastable hc hd]
    | _ => simp only [ClassTable.erasedCastable, up, down]
  | array a ih =>
    cases b with
    | array b =>
      cases ha with
      | array ha =>
        cases hb with
        | array hb =>
          rw [ClassTable.erasedCastable, ClassTable.erasedCastable, up, down,
            ih ha hb (h.erasedSubtype ha b) (h.erasedSubtype hb a)]
    | _ => simp only [ClassTable.erasedCastable, up, down]
  | _ => cases b <;> simp only [ClassTable.erasedCastable, up, down]

/-- The same uses of a class of the region are raw. -/
lemma isRawUse (h : t.AgreesOn R t') {id : ClassId} (hid : R.classes id) (args : List Ty) :
    t'.isRawUse id args = t.isRawUse id args := by
  rw [ClassTable.isRawUse, ClassTable.isRawUse,
    h.map_classDef? (fun _ _ reordered => reordered.isGeneric) hid]

end AgreesOn

namespace AgreesAbove

/-- The arguments of the same types are certainly different.

**Proof sketch.** After names are looked up, only two class types matter. What is asked about them
is whether their uses are raw, whether one class is among the ancestors of the other, and how each
is viewed as the class of the other. The tables agree on each of these questions. -/
lemma distinctArgs (h : t.AgreesAbove R t') {a b : Ty} (ha : a.In R) (hb : b.In R) :
    t'.distinctArgs a b = t.distinctArgs a b := by
  have above {c d : ClassId} (hc : R.classes c) :
      (t'.ancestors c).contains d = (t.ancestors c).contains d := by
    rw [Bool.eq_iff_iff, List.contains_iff_mem, List.contains_iff_mem, h.mem_ancestors_iff hc]
  have hca := h.closed.canonical ha
  have hcb := h.closed.canonical hb
  unfold ClassTable.distinctArgs
  rw [h.canonical ha, h.canonical hb]
  generalize a.canonical t = ca at hca
  generalize b.canonical t = cb at hcb
  cases ca with
  | cls c as =>
    cases cb with
    | cls d bs =>
      have viewA := (h.shared_viewAs hca d).1
      have viewB := (h.shared_viewAs hcb c).1
      cases hca with
      | cls hc _ =>
        cases hcb with
        | cls hd _ =>
          dsimp only
          rw [h.isRawUse hc, h.isRawUse hd, above hc, above hd, viewA, viewB]
    | _ => rfl
  | _ => rfl

/-! ## Verdicts -/

/-- **The same types of the region are castable to each other.** -/
theorem isCastable (h : t.AgreesAbove R t') {a b : Ty} (ha : a.In R) (hb : b.In R) :
    t'.isCastable a b = t.isCastable a b := by
  have boxedA := h.closed.boxed ha
  have boxedB := h.closed.boxed hb
  obtain ⟨sameA, insideA⟩ := h.shared_erasure boxedA
  obtain ⟨sameB, insideB⟩ := h.shared_erasure boxedB
  unfold ClassTable.isCastable
  dsimp only
  rw [h.boxed, h.boxed, sameA, sameB, h.distinctArgs boxedA boxedB]
  cases hea : t.erasure (t.boxed a) with
  | none => rfl
  | some ea =>
    cases heb : t.erasure (t.boxed b) with
    | none => rfl
    | some eb =>
      dsimp only
      rw [h.erasedCastable (insideA ea hea) (insideB eb heb)]

/-- **Two types of the region have the same verdict**, under both policies.

**Proof sketch.** The boxed types are in the region, so they have the same erasures, which are in
the region too. If both have one, the strict policy asks for two subtype tests and the lenient
policy for one cast, and the tables agree on these. -/
theorem decide (h : t.AgreesAbove R t') (policy : Policy) {p a : Ty} (hp : p.In R) (ha : a.In R) :
    t'.decide policy p a = t.decide policy p a := by
  have boxedP := h.closed.boxed hp
  have boxedA := h.closed.boxed ha
  obtain ⟨sameP, insideP⟩ := h.shared_erasure boxedP
  obtain ⟨sameA, insideA⟩ := h.shared_erasure boxedA
  unfold ClassTable.decide
  dsimp only
  rw [h.boxed, h.boxed, sameP, sameA]
  cases hep : t.erasure (t.boxed p) with
  | none => rfl
  | some ep =>
    cases hea : t.erasure (t.boxed a) with
    | none => rfl
    | some ea =>
      have compatible : t'.compatible policy (t.boxed p) (t.boxed a) ep ea =
          t.compatible policy (t.boxed p) (t.boxed a) ep ea := by
        have inP := insideP ep hep
        have inA := insideA ea hea
        cases policy with
        | strict =>
          rw [ClassTable.compatible, ClassTable.compatible, h.isSubtype inA (h.erasure inP),
            h.isSubtype inP (h.erasure inA)]
        | castable => exact h.isCastable boxedA boxedP
      dsimp only
      rw [compatible]

end AgreesAbove

/-! ## Calls -/

/-- The erasures of a list of types of the region are the same. -/
lemma AgreesOn.eraseAll (h : t.AgreesOn R t') {tys : List Ty} (htys : Ty.AllIn R tys) :
    t'.eraseAll tys = t.eraseAll tys := by
  induction tys with
  | nil => rfl
  | cons ty tys ih =>
    rw [ClassTable.eraseAll, ClassTable.eraseAll, h.erasure (htys ty List.mem_cons_self),
      ih fun ty' hty' => htys ty' (List.mem_cons_of_mem _ hty')]

/-- A receiver of the region is below the same classes, with indices that agree or without. -/
lemma AgreesOn.isBelow (h : t.AgreesOn R t') {index index' : Option AncestorIndex}
    (hindex : Option.Rel (fun i i' => i.AgreesOn R i') index index') {receiver : Ty}
    (hreceiver : receiver.In R) (base : ClassId) :
    t'.isBelow index' receiver base = t.isBelow index receiver base := by
  have walked : t'.isSubtype receiver (.cls base []) = t.isSubtype receiver (.cls base []) :=
    h.isSubtype hreceiver rfl
  unfold ClassTable.isBelow
  rw [walked]
  cases hindex with
  | none => rfl
  | @some i i' agrees =>
    cases hreceiver with
    | @cls id args hid hargs =>
      have same : i'.hasAncestor? id base = i.hasAncestor? id base := by
        rw [AncestorIndex.hasAncestor?, AncestorIndex.hasAncestor?, (agrees id hid).1]
      simp only [Option.bind_some, Ty.class?, same]
    | _ => rfl

end ClassTable

open ResolvedCatalog

namespace ClassTable.AgreesAbove

variable {R : Region} {t t' : ClassTable} {index index' : Option AncestorIndex}

/-- A receiver of the region shows the same arguments, with indices that agree or without. -/
lemma shared_receiverArgs (h : t.AgreesAbove R t')
    (hindex : Option.Rel (fun i i' => i.AgreesOn R i') index index') {receiver : Ty}
    (hreceiver : receiver.In R) (base : ClassId) :
    Shared (Ty.AllIn R) (receiverArgs t index receiver base)
      (receiverArgs t' index' receiver base) := by
  cases hindex with
  | none => exact h.shared_ancestorArgs hreceiver base
  | some agrees => exact h.shared_index_ancestorArgs agrees hreceiver base

/-- An entry that is tried has the same outcome. -/
lemma tryEntry (h : t.AgreesAbove R t')
    (hindex : Option.Rel (fun i i' => i.AgreesOn R i') index index') (policy : Policy)
    {receiver argument : Ty} (hreceiver : receiver.In R) (hargument : argument.In R)
    (e : ResolvedEntry) :
    tryEntry t' index' policy receiver e argument =
      tryEntry t index policy receiver e argument := by
  obtain ⟨same, inside⟩ := h.shared_receiverArgs hindex hreceiver e.base
  unfold ResolvedCatalog.tryEntry
  rw [same]
  cases hargs : receiverArgs t index receiver e.base with
  | none => rfl
  | some args =>
    dsimp only
    cases hparameter : args[e.entry.typeParamIndex]? with
    | none => rfl
    | some parameter =>
      have inParameter := inside args hargs parameter (List.mem_of_getElem? hparameter)
      dsimp only
      rw [h.decide policy inParameter hargument]

/-- An entry has the same judgement on a call over types of the region.

**Proof sketch.** Whether the entry matches is the same by `isBelow`. The argument is one of the
call and therefore in the region, so the entry is tried with the same outcome (`tryEntry`). What is
reported depends on the arguments that the receiver shows, and these are shared. -/
lemma judge (h : t.AgreesAbove R t')
    (hindex : Option.Rel (fun i i' => i.AgreesOn R i') index index') (policy : Policy)
    {call : CallSite} (hcall : call.In R) {receiver : Ty} (hreceiver : receiver.In R)
    (params : List Ty) (e : ResolvedEntry) :
    judge t' index' policy call receiver params e =
      judge t index policy call receiver params e := by
  have same {argument : Ty} (hargument : argument ∈ call.args) :
      examineEntry t' index' policy call.receiver e argument =
        examineEntry t index policy call.receiver e argument := by
    rw [examineEntry, examineEntry,
      h.tryEntry hindex policy hcall.receiver (hcall.args argument hargument)]
  have reported (x : Examination) :
      x.analysis t' index' call.receiver = x.analysis t index call.receiver :=
    x.analysis_congr fun base => (h.shared_receiverArgs hindex hcall.receiver base).1
  unfold ResolvedCatalog.judge
  rw [h.isBelow hindex hreceiver]
  split
  · refine Option.bind_congr fun argument hargument => ?_
    rw [same (List.mem_of_getElem? hargument)]
    simp only [reported]
  · rfl

/-- **A call over types of the region has the same analysis**, whatever the catalog, with indices
that agree or without. -/
theorem analyze (h : t.AgreesAbove R t')
    (hindex : Option.Rel (fun i i' => i.AgreesOn R i') index index') (policy : Policy)
    {call : CallSite} (hcall : call.In R) (c : ResolvedCatalog) :
    c.analyze t' index' policy call = c.analyze t index policy call := by
  obtain ⟨same, inside⟩ := h.shared_erasure hcall.receiver
  rw [analyze_eq, analyze_eq, same, h.eraseAll hcall.params]
  cases hreceiver : t.erasure call.receiver with
  | none => rfl
  | some receiver =>
    cases t.eraseAll call.params with
    | none => rfl
    | some params =>
      dsimp only
      congr 2
      funext e
      exact h.judge hindex policy hcall (inside receiver hreceiver) params e

end ClassTable.AgreesAbove

end ContainerLint
