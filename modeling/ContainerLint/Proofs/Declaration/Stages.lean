import ContainerLint.Proofs.Declaration.Frame
import ContainerLint.Proofs.Declaration.Renaming

/-!
# What the stages of a batch compute

The stages of a batch run from left to right, but only the numbers that they give out depend on the
order. All names are there when the first signature is resolved, and no later stage changes which
class a name refers to. So each stage can be described member by member: which members it accepts,
and what it leaves at the numbers of each.

## Main definitions

* `ParamHeader.readAll?` — the type parameters of a declaration, as they are written.
* `numberFrom` — headers with consecutive numbers.
* `Allocated.param` — the type parameter that a declared one amounts to.
* `ClassTable.Allocates` — all classes and type parameters of a batch get numbers.
* `ClassTable.Declares` — what an accepted batch does to a table.

## Main results

* `TableStep.each_local` — a run of steps that each write to places of their own.
* `TableStep.exists_ok_each_iff` — when such a run succeeds.
* `ClassTable.exists_allocates_iff` — when a batch gets numbers.
* `ClassTable.Allocates.exists_ok_declare_iff` — when it is accepted after that.
* `ClassTable.Allocates.declares` — an accepted batch does what `ClassTable.Declares` says.
-/

set_option autoImplicit false

namespace ContainerLint

/-! ## Runs of steps -/

namespace TableStep

variable {α β : Type} {step : TableStep α β} {t : ClassTable} {a : α} {as : List α}

/-- A run ends at a failure. -/
lemma each_cons_of_error {e : DeclareError} (h : (step t a).2 = .error e) :
    each step t (a :: as) = ((step t a).1, .error e) := by
  unfold each
  cases hstep : step t a with
  | mk t₁ result =>
    rw [hstep] at h
    cases h
    rfl

/-- A run goes on after a success. -/
lemma each_cons_of_ok {b : β} (h : (step t a).2 = .ok b) :
    each step t (a :: as) =
      ((each step (step t a).1 as).1, (each step (step t a).1 as).2.map (b :: ·)) := by
  rw [each]
  cases hstep : step t a with
  | mk t₁ result =>
    rw [hstep] at h
    cases h
    dsimp only
    cases each step t₁ as with
    | mk t₂ result' => cases result' <;> rfl

/-- The results of a run correspond to its members if those of each step do. -/
lemma map_eq_of_each {γ : Type} {f : α → γ} {g : β → γ} {bs : List β}
    (hstep : ∀ t a b, (step t a).2 = .ok b → g b = f a) (h : (each step t as).2 = .ok bs) :
    bs.map g = as.map f := by
  induction as generalizing t bs with
  | nil =>
    cases h
    rfl
  | cons a as ih =>
    cases first : (step t a).2 with
    | error e =>
      rw [each_cons_of_error first] at h
      cases h
    | ok b =>
      rw [each_cons_of_ok first] at h
      obtain ⟨bs', rest, rfl⟩ := exists_of_map_eq_ok h
      rw [List.map_cons, List.map_cons, hstep t a b first, ih rest]

/-- **A run of steps that each write to places of their own.** The function `g` reads a place of the
table, and `w` says to which places the step of a member writes. What every step keeps is kept, the
other places are not touched, and after a success the places of each member are as its own step has
left them.

**Proof sketch.** By induction on the members. The first step leaves the places of the others as
they were, and the others leave its places alone. -/
theorem each_local {κ ν : Type} {P : ClassTable → Prop} {g : ClassTable → κ → Option ν}
    {w : α → List κ} {Q : α → κ → Option ν → Option ν → Prop}
    (hstep : ∀ a ∈ as, ∀ t, P t → P (step t a).1 ∧
      (∀ k ∉ w a, g (step t a).1 k = g t k) ∧
      ∀ b, (step t a).2 = .ok b → ∀ k ∈ w a, Q a k (g t k) (g (step t a).1 k))
    (ht : P t) (nodup : (as.flatMap w).Nodup) :
    P (each step t as).1 ∧ (∀ k ∉ as.flatMap w, g (each step t as).1 k = g t k) ∧
      ∀ bs, (each step t as).2 = .ok bs →
        ∀ a ∈ as, ∀ k ∈ w a, Q a k (g t k) (g (each step t as).1 k) := by
  induction as generalizing t with
  | nil => exact ⟨ht, fun _ _ => rfl, by simp⟩
  | cons a as ih =>
    obtain ⟨kept, others, own⟩ := hstep a List.mem_cons_self t ht
    rw [List.flatMap_cons, List.nodup_append] at nodup
    obtain ⟨-, nodup, apart⟩ := nodup
    cases h : (step t a).2 with
    | error e =>
      rw [each_cons_of_error h]
      refine ⟨kept, fun k hk => others k fun mem => hk ?_, fun bs hbs => nomatch hbs⟩
      rw [List.flatMap_cons]
      exact List.mem_append_left _ mem
    | ok b =>
      rw [each_cons_of_ok h]
      obtain ⟨kept', others', own'⟩ :=
        ih (fun c hc => hstep c (List.mem_cons_of_mem _ hc)) kept nodup
      refine ⟨kept', fun k hk => ?_, fun bs hbs c hc k hk => ?_⟩
      · rw [List.flatMap_cons, List.mem_append, not_or] at hk
        rw [others' k hk.2, others k hk.1]
      · obtain ⟨bs', hbs', -⟩ := exists_of_map_eq_ok hbs
        rcases List.mem_cons.1 hc with rfl | hc
        · rw [others' k fun mem => apart k hk k mem rfl]
          exact own b h k hk
        · have mem : k ∈ as.flatMap w := List.mem_flatMap.2 ⟨c, hc, hk⟩
          rw [← others k fun mem' => apart k mem' k mem rfl]
          exact own' bs' hbs' c hc k hk

/-- A run succeeds if every member is acceptable, provided that this does not depend on what the
other steps change. -/
theorem exists_ok_each_iff {P : ClassTable → Prop} {A : α → Prop}
    (hstep : ∀ a ∈ as, ∀ t, P t → P (step t a).1 ∧ ((∃ b, (step t a).2 = .ok b) ↔ A a))
    (ht : P t) : (∃ bs, (each step t as).2 = .ok bs) ↔ ∀ a ∈ as, A a := by
  induction as generalizing t with
  | nil => exact ⟨fun _ => by simp, fun _ => ⟨[], rfl⟩⟩
  | cons a as ih =>
    obtain ⟨kept, accepts⟩ := hstep a List.mem_cons_self t ht
    have rest := ih (fun c hc => hstep c (List.mem_cons_of_mem _ hc)) kept
    rw [List.forall_mem_cons, ← accepts, ← rest]
    cases h : (step t a).2 with
    | error e =>
      rw [each_cons_of_error h]
      simp
    | ok b =>
      rw [each_cons_of_ok h]
      cases (each step (step t a).1 as).2 <;> simp [Except.map]

end TableStep

/-- Nothing is repeated if no first repetition is found. -/
lemma firstRepeated?_eq_none_iff {α : Type} [DecidableEq α] {seen as : List α} :
    firstRepeated? seen as = none ↔ as.Nodup ∧ ∀ a ∈ as, a ∉ seen := by
  induction as generalizing seen with
  | nil => simp [firstRepeated?]
  | cons a as ih =>
    rw [firstRepeated?]
    split
    · next h => simp [h]
    · next h =>
      rw [ih, List.nodup_cons]
      simp only [List.mem_cons, not_or, forall_eq_or_imp]
      constructor
      · rintro ⟨nodup, fresh⟩
        exact ⟨⟨fun ha => (fresh a ha).1 rfl, nodup⟩, h, fun b hb => (fresh b hb).2⟩
      · rintro ⟨⟨hnot, nodup⟩, -, fresh⟩
        exact ⟨nodup, fun b hb => ⟨fun eq => hnot (eq ▸ hb), fresh b hb⟩⟩

/-! ## Allocating type parameters -/

/-- Read type parameters, whose names must differ from each other and from those in `taken`. -/
def ParamHeader.readAll? (taken : List String) : List String → Option (List ParamHeader)
  | [] => some []
  | text :: texts =>
    match ParamHeader.parse? text with
    | none => none
    | some header =>
      if header.name ∈ taken then none
      else (readAll? (header.name :: taken) texts).map (header :: ·)

/-- Headers with consecutive numbers. -/
def numberFrom : Nat → List ParamHeader → List (VarId × ParamHeader)
  | _, [] => []
  | n, header :: headers => (⟨n⟩, header) :: numberFrom (n + 1) headers

/-- The headers stay the same. -/
lemma map_snd_numberFrom (n : Nat) (headers : List ParamHeader) :
    (numberFrom n headers).map (·.2) = headers := by
  induction headers generalizing n with
  | nil => rfl
  | cons header headers ih => simp [numberFrom, ih]

/-- The numbers follow each other. -/
lemma map_fst_numberFrom (n : Nat) (headers : List ParamHeader) :
    (numberFrom n headers).map (·.1) = (List.range' n headers.length).map VarId.mk := by
  induction headers generalizing n with
  | nil => rfl
  | cons header headers ih => simp [numberFrom, List.range'_succ, ih]

/-- Two lists are numbered one after the other. -/
lemma numberFrom_append (n : Nat) (headers headers' : List ParamHeader) :
    numberFrom n (headers ++ headers') =
      numberFrom n headers ++ numberFrom (n + headers.length) headers' := by
  induction headers generalizing n with
  | nil => rfl
  | cons header headers ih =>
    simp only [List.cons_append, numberFrom, ih, List.length_cons]
    rw [Nat.add_right_comm, Nat.add_assoc]

/-- A number says at which position its header stands. -/
lemma getElem?_of_mem_numberFrom {n : Nat} {headers : List ParamHeader} {f : VarId × ParamHeader}
    (h : f ∈ numberFrom n headers) : n ≤ f.1.index ∧ headers[f.1.index - n]? = some f.2 := by
  induction headers generalizing n with
  | nil => cases h
  | cons header headers ih =>
    rcases List.mem_cons.1 h with rfl | h
    · simp
    · obtain ⟨le, found⟩ := ih h
      have pos : f.1.index - n = (f.1.index - (n + 1)) + 1 := by omega
      rw [pos, List.getElem?_cons_succ]
      exact ⟨by omega, found⟩

namespace ClassTable

variable {t t' : ClassTable}

/-- A type parameter that is bounded by `Object`. -/
def unbounded (t : ClassTable) (header : ParamHeader) : TypeParam :=
  { name := header.name, upperBounds := [t.objectTy] }

/-- A table with further type parameters, bounded by `Object`. -/
def addHeaders (t : ClassTable) (headers : List ParamHeader) : ClassTable :=
  { t with params := t.params ++ headers.map t.unbounded }

/-- Type parameters may be added in two parts. -/
lemma addHeaders_append (t : ClassTable) (headers headers' : List ParamHeader) :
    (t.addHeaders headers).addHeaders headers' = t.addHeaders (headers ++ headers') := by
  simp [addHeaders, unbounded, objectTy]

/-- The added type parameters. -/
lemma typeParam?_addHeaders {headers : List ParamHeader} {f : VarId × ParamHeader}
    (h : f ∈ numberFrom t.params.length headers) :
    (t.addHeaders headers).typeParam? f.1 = some (t.unbounded f.2) := by
  obtain ⟨le, found⟩ := getElem?_of_mem_numberFrom h
  rw [typeParam?, addHeaders, List.getElem?_append_right le, List.getElem?_map, found]
  rfl

/-- The other type parameters stay. -/
lemma typeParam?_addHeaders_of_not_mem {headers : List ParamHeader} {x : VarId}
    (h : x ∉ (numberFrom t.params.length headers).map (·.1)) :
    (t.addHeaders headers).typeParam? x = t.typeParam? x := by
  rw [typeParam?, addHeaders]
  rcases Nat.lt_or_ge x.index t.params.length with lt | le
  · exact List.getElem?_append_left lt
  · have beyond : t.params.length + headers.length ≤ x.index := by
      by_contra lt
      refine h ?_
      rw [map_fst_numberFrom, List.mem_map]
      exact ⟨x.index, List.mem_range'_1.2 ⟨le, by omega⟩, rfl⟩
    rw [typeParam?, List.getElem?_eq_none le, List.getElem?_eq_none (by simpa using beyond)]

/-- Type parameters that can be read get the next numbers.

**Proof sketch.** By induction on the texts. Allocating and reading make the same two checks of each
text, so both pass, and the parameter is appended with the next number. -/
lemma allocateParams_of_readAll? {className : String} {taken texts : List String}
    {headers : List ParamHeader} (h : ParamHeader.readAll? taken texts = some headers) :
    allocateParams className taken t texts =
      (t.addHeaders headers, .ok (numberFrom t.params.length headers)) := by
  induction texts generalizing t taken headers with
  | nil =>
    cases h
    simp [allocateParams, addHeaders, numberFrom]
  | cons text texts ih =>
    rw [ParamHeader.readAll?] at h
    unfold allocateParams
    cases hparse : ParamHeader.parse? text with
    | none =>
      rw [hparse] at h
      cases h
    | some header =>
      rw [hparse] at h
      dsimp only at h ⊢
      split at h
      · cases h
      · next fresh =>
        obtain ⟨rest, hrest, rfl⟩ := Option.map_eq_some_iff.1 h
        rw [if_neg fresh, ih hrest]
        simp [addParam, addHeaders, unbounded, objectTy, numberFrom]

/-- Type parameters that cannot be read are refused.

**Proof sketch.** By induction on the texts, with the same two checks: the one that reading fails at
is the one that allocating fails at. -/
lemma exists_error_allocateParams (className : String) {taken texts : List String}
    (h : ParamHeader.readAll? taken texts = none) :
    ∃ e, (allocateParams className taken t texts).2 = .error e := by
  induction texts generalizing t taken with
  | nil => cases h
  | cons text texts ih =>
    rw [ParamHeader.readAll?] at h
    unfold allocateParams
    cases hparse : ParamHeader.parse? text with
    | none => exact ⟨_, rfl⟩
    | some header =>
      rw [hparse] at h
      dsimp only at h ⊢
      split at h
      · next repeated =>
        rw [if_pos repeated]
        exact ⟨_, rfl⟩
      · next fresh =>
        rw [if_neg fresh]
        obtain ⟨e, he⟩ :=
          ih (t := (t.addParam { name := header.name, upperBounds := [t.objectTy] }).1)
            (Option.map_eq_none_iff.1 h)
        split
        · exact ⟨_, rfl⟩
        · next hok =>
          rw [hok] at he
          cases he

/-- A declaration whose type parameters can be read gets numbers for them. -/
lemma allocate_of_readAll? {p : ClassDecl × ClassId} {headers : List ParamHeader}
    (h : ParamHeader.readAll? [] p.1.typeParams = some headers) :
    allocate t p = (t.addHeaders headers,
      .ok { decl := p.1, id := p.2, formals := numberFrom t.params.length headers }) := by
  unfold allocate
  dsimp only
  rw [allocateParams_of_readAll? h]

/-- The declarations that get numbers are those whose type parameters can be read. -/
lemma exists_ok_allocate_iff {p : ClassDecl × ClassId} :
    (∃ a, (allocate t p).2 = .ok a) ↔ (ParamHeader.readAll? [] p.1.typeParams).isSome := by
  cases h : ParamHeader.readAll? [] p.1.typeParams with
  | some headers =>
    rw [allocate_of_readAll? h]
    simp
  | none =>
    obtain ⟨e, he⟩ := exists_error_allocateParams (t := t) p.1.name h
    suffices (allocate t p).2 = .error e by simp [this]
    unfold allocate
    dsimp only
    split
    · next hrun =>
      rw [hrun] at he
      cases he
      rfl
    · next hrun =>
      rw [hrun] at he
      cases he

/-- **The numbers that a run of allocations gives out.** The type parameters of all declarations
together get the next numbers, in order.

**Proof sketch.** By induction on the declarations. One whose type parameters cannot be read ends
the run. The others get the next numbers and append as many parameters, so the rest goes on
numbering where they stopped. -/
lemma formals_of_each_allocate {ps : List (ClassDecl × ClassId)} {batch : List Allocated}
    (h : (TableStep.each allocate t ps).2 = .ok batch) :
    (∀ a ∈ batch, ParamHeader.readAll? [] a.decl.typeParams = some (a.formals.map (·.2))) ∧
      batch.flatMap (·.formals) =
        numberFrom t.params.length (batch.flatMap fun a => a.formals.map (·.2)) ∧
      (TableStep.each allocate t ps).1 =
        t.addHeaders (batch.flatMap fun a => a.formals.map (·.2)) := by
  induction ps generalizing t batch with
  | nil =>
    cases h
    simp [TableStep.each, addHeaders, numberFrom]
  | cons p ps ih =>
    cases hread : ParamHeader.readAll? [] p.1.typeParams with
    | none =>
      cases hfirst : (allocate t p).2 with
      | error e =>
        rw [TableStep.each_cons_of_error hfirst] at h
        cases h
      | ok a =>
        have := exists_ok_allocate_iff.1 ⟨a, hfirst⟩
        rw [hread] at this
        cases this
    | some headers =>
      have hfirst := allocate_of_readAll? (t := t) hread
      have hok := congrArg (·.2) hfirst
      rw [TableStep.each_cons_of_ok hok] at h ⊢
      obtain ⟨rest, hrest, rfl⟩ := exists_of_map_eq_ok h
      rw [hfirst] at hrest ⊢
      obtain ⟨readable, numbers, table⟩ := ih hrest
      refine ⟨List.forall_mem_cons.2 ⟨?_, readable⟩, ?_, ?_⟩
      · rw [map_snd_numberFrom, hread]
      · rw [List.flatMap_cons, List.flatMap_cons, numbers, map_snd_numberFrom, numberFrom_append]
        simp [addHeaders]
      · rw [table, addHeaders_append, List.flatMap_cons, map_snd_numberFrom]

end ClassTable

/-! ## Bounds and definitions -/

/-- The type parameter that a declared one amounts to. -/
def Allocated.param (a : Allocated) (t : ClassTable) (header : ParamHeader) :
    Except DeclareError TypeParam :=
  if header.bounds.isEmpty then .ok (t.unbounded header)
  else (a.resolveAll t header.bounds).map fun upperBounds => { name := header.name, upperBounds }

namespace ClassTable

variable {t t' u : ClassTable}

/-- Two tables in which signatures mean the same. -/
structure Agrees (u t : ClassTable) : Prop where
  nameOf? : ∀ id, t.nameOf? id = u.nameOf? id
  known : t.known = u.known

/-- The bounds of a type parameter are written to its number, and nothing else is changed.

**Proof sketch.** The bounds are resolved in a table with the same names, so with the same result.
Without bounds, or if they are refused, nothing is written; otherwise one entry is replaced. -/
lemma boundParam_local {a : Allocated} {f : VarId × ParamHeader} (agrees : u.Agrees t)
    (hf : f.1.index < t.params.length) :
    (u.Agrees (boundParam a t f).1 ∧ (boundParam a t f).1.params.length = t.params.length) ∧
      (∀ x ∉ [f.1], (boundParam a t f).1.typeParam? x = t.typeParam? x) ∧
      (∀ r, (boundParam a t f).2 = .ok r → ∀ x ∈ [f.1], t.typeParam? x = some (u.unbounded f.2) →
        ∃ p, a.param u f.2 = .ok p ∧ (boundParam a t f).1.typeParam? x = some p) ∧
      ((∃ r, (boundParam a t f).2 = .ok r) ↔ ∃ p, a.param u f.2 = .ok p) := by
  have same := a.resolveAll_congr (find?_congr agrees.nameOf?) f.2.bounds
  unfold boundParam Allocated.param
  dsimp only
  rw [same]
  split
  · refine ⟨⟨agrees, rfl⟩, fun _ _ => rfl, fun r _ x hx old => ⟨_, rfl, old⟩, by simp⟩
  · cases a.resolveAll u f.2.bounds with
    | error e =>
      refine ⟨⟨agrees, rfl⟩, fun _ _ => rfl, fun r hr => ?_, by simp [Except.map]⟩
      cases hr
    | ok upperBounds =>
      refine ⟨⟨⟨agrees.nameOf?, agrees.known⟩, by simp [defineParam]⟩, fun x hx => ?_,
        fun r _ x hx _ => ⟨_, rfl, ?_⟩, by simp [Except.map]⟩
      · have ne : f.1.index ≠ x.index := fun eq =>
          hx (List.mem_singleton.2 (congrArg VarId.mk eq.symm))
        simp [typeParam?, defineParam, List.getElem?_set_ne ne]
      · rw [List.mem_singleton] at hx
        subst hx
        simp [typeParam?, defineParam, hf]

/-- The bounds of a declaration are resolved one after the other. -/
lemma fst_bound (t : ClassTable) (a : Allocated) :
    (bound t a).1 = (TableStep.each (boundParam a) t a.formals).1 := by
  unfold bound
  dsimp only
  split <;> next h => rw [h]

/-- The bounds of a declaration are accepted if each of them is. -/
lemma snd_bound (t : ClassTable) (a : Allocated) :
    (bound t a).2 = (TableStep.each (boundParam a) t a.formals).2.map fun _ => () := by
  unfold bound
  dsimp only
  split <;> next h => rw [h]; rfl

/-- The bounds of a declaration are written to the numbers of its type parameters, and nothing else
is changed.

**Proof sketch.** Each parameter is bounded by a step that writes to its own number
(`boundParam_local`). The numbers are different, so a run of these steps writes to each of them what
its step would write alone (`TableStep.each_local`), and it is accepted if each step is
(`TableStep.exists_ok_each_iff`). -/
lemma bound_local {a : Allocated} (agrees : u.Agrees t)
    (allocated : ∀ f ∈ a.formals, f.1.index < t.params.length)
    (nodup : (a.formals.map (·.1)).Nodup) :
    (u.Agrees (bound t a).1 ∧ (bound t a).1.params.length = t.params.length) ∧
      (∀ x ∉ a.formals.map (·.1), (bound t a).1.typeParam? x = t.typeParam? x) ∧
      (∀ r, (bound t a).2 = .ok r → ∀ f ∈ a.formals, t.typeParam? f.1 = some (u.unbounded f.2) →
        ∃ p, a.param u f.2 = .ok p ∧ (bound t a).1.typeParam? f.1 = some p) ∧
      ((∃ r, (bound t a).2 = .ok r) ↔ ∀ f ∈ a.formals, ∃ p, a.param u f.2 = .ok p) := by
  have numbers : a.formals.flatMap (fun f => [f.1]) = a.formals.map (·.1) :=
    List.map_eq_flatMap.symm
  let P := fun s : ClassTable => u.Agrees s ∧ s.params.length = t.params.length
  have step : ∀ f ∈ a.formals, ∀ s, P s → _ := fun f hf s hs =>
    boundParam_local (a := a) (f := f) hs.1 (hs.2 ▸ allocated f hf)
  obtain ⟨kept, others, own⟩ := TableStep.each_local (P := P) (g := typeParam?)
    (w := fun f => [f.1])
    (Q := fun f x old new => old = some (u.unbounded f.2) →
      ∃ p, a.param u f.2 = .ok p ∧ new = some p)
    (fun f hf s hs =>
      have spec := step f hf s hs
      ⟨⟨spec.1.1, spec.1.2.trans hs.2⟩, spec.2.1, spec.2.2.1⟩)
    ⟨agrees, rfl⟩ (by rwa [numbers])
  have accepts := TableStep.exists_ok_each_iff (P := P) (t := t)
    (A := fun f => ∃ p, a.param u f.2 = .ok p)
    (fun f hf s hs =>
      have spec := step f hf s hs
      ⟨⟨spec.1.1, spec.1.2.trans hs.2⟩, spec.2.2.2⟩)
    ⟨agrees, rfl⟩
  rw [fst_bound, snd_bound]
  refine ⟨kept, numbers ▸ others, fun r hr f hf => ?_, ?_⟩
  · obtain ⟨rs, hrs, -⟩ := exists_of_map_eq_ok hr
    exact own rs hrs f hf f.1 List.mem_cons_self
  · rw [← accepts]
    cases (TableStep.each (boundParam a) t a.formals).2 <;> simp [Except.map]

/-- The result of completing a declaration is its number. -/
lemma id_eq_of_complete {a : Allocated} {id : ClassId} (h : (complete t a).2 = .ok id) :
    id = a.id := by
  unfold complete at h
  dsimp only at h
  split at h
  · cases h
  · cases h
    rfl

/-- A class whose number is in use has the definition that it was given. -/
lemma classDef?_define_self {id : ClassId} (inUse : id ∈ t.ids) (d : ClassDef) :
    (t.define id d).classDef? id = some d := by
  obtain ⟨i, hi, rfl⟩ := List.mem_map.1 inUse
  simp [classDef?, define, List.getElem?_eq_getElem (List.mem_range.1 hi)]

/-- The definition of a declaration is written to its number, and nothing else is changed. -/
lemma complete_local {a : Allocated} (agrees : u.Agrees t) (inUse : a.id ∈ u.ids) :
    (u.Agrees (complete t a).1 ∧ (complete t a).1.params = t.params) ∧
      (∀ id ∉ [a.id], (complete t a).1.classDef? id = t.classDef? id) ∧
      (∀ r, (complete t a).2 = .ok r →
        ∃ d, u.definition a = .ok d ∧ (complete t a).1.classDef? a.id = some d) ∧
      ((∃ r, (complete t a).2 = .ok r) ↔ ∃ d, u.definition a = .ok d) := by
  have same := definition_congr (find?_congr agrees.nameOf?) (congrArg (·.object) agrees.known) a
  rw [mem_ids_iff, ← agrees.nameOf?, ← mem_ids_iff] at inUse
  refine ⟨?_, fun id hid => classDef?_complete (by simpa using hid) t, ?_⟩
  all_goals
    unfold complete
    dsimp only
    rw [same]
    cases u.definition a with
    | error e => simp [agrees]
    | ok d => ?_
  · exact ⟨⟨fun id => (nameOf?_define t a.id id d).trans (agrees.nameOf? id), agrees.known⟩, rfl⟩
  · simp [classDef?_define_self inUse]

/-! ## A whole batch -/

variable {decls : List ClassDecl} {batch : List Allocated}

/-- A table in which the names of a batch are interned. -/
def withNames (t : ClassTable) (decls : List ClassDecl) : ClassTable :=
  (t.internAll (decls.map (·.name))).1

/-- The numbers of the names of a batch. -/
def numbersOf (t : ClassTable) (decls : List ClassDecl) : List ClassId :=
  (t.internAll (decls.map (·.name))).2

/-- The names of a batch are different and its type parameters are readable, so that all of them
get numbers. -/
structure Allocates (t : ClassTable) (decls : List ClassDecl) (batch : List Allocated) : Prop where
  distinct : (decls.map (·.name)).Nodup
  run : (TableStep.each allocate (t.withNames decls) (decls.zip (t.numbersOf decls))).2 = .ok batch

/-- What an accepted batch does to a table: it defines its classes and bounds its type parameters
as they are written, and leaves the others alone. -/
structure Declares (t : ClassTable) (decls : List ClassDecl) (batch : List Allocated)
    (t' : ClassTable) : Prop where
  agrees : (t.withNames decls).Agrees t'
  defined : ∀ a ∈ batch,
    ∃ d, (t.withNames decls).definition a = .ok d ∧ t'.classDef? a.id = some d
  classDef? : ∀ id ∉ t.numbersOf decls, t'.classDef? id = t.classDef? id
  bounded : ∀ a ∈ batch, ∀ f ∈ a.formals,
    ∃ p, a.param (t.withNames decls) f.2 = .ok p ∧ t'.typeParam? f.1 = some p
  typeParam? : ∀ x ∉ batch.flatMap fun a => a.formals.map (·.1), t'.typeParam? x = t.typeParam? x

/-- Every declaration has a number. -/
lemma length_numbersOf (t : ClassTable) (decls : List ClassDecl) :
    (t.numbersOf decls).length = decls.length := by
  rw [numbersOf, length_internAll, List.length_map]

/-- When all declarations of a batch get numbers. -/
lemma exists_allocates_iff :
    (∃ batch, t.Allocates decls batch) ↔ (decls.map (·.name)).Nodup ∧
      ∀ decl ∈ decls, (ParamHeader.readAll? [] decl.typeParams).isSome := by
  have run : (∃ batch, (TableStep.each allocate (t.withNames decls)
      (decls.zip (t.numbersOf decls))).2 = .ok batch) ↔
      ∀ p ∈ decls.zip (t.numbersOf decls),
        ((ParamHeader.readAll? [] p.1.typeParams).isSome : Prop) :=
    TableStep.exists_ok_each_iff (P := fun _ => True)
      (fun p _ s _ => ⟨trivial, exists_ok_allocate_iff⟩) trivial
  have members : (decls.zip (t.numbersOf decls)).map (·.1) = decls :=
    List.map_fst_zip (Nat.le_of_eq (length_numbersOf t decls).symm)
  have readable : (∀ decl ∈ decls, ((ParamHeader.readAll? [] decl.typeParams).isSome : Prop)) ↔
      ∀ p ∈ decls.zip (t.numbersOf decls),
        ((ParamHeader.readAll? [] p.1.typeParams).isSome : Prop) := by
    conv_lhs => rw [← members]
    exact List.forall_mem_map
  rw [readable, ← run]
  exact ⟨fun ⟨batch, h⟩ => ⟨h.distinct, batch, h.run⟩, fun ⟨nodup, batch, h⟩ => ⟨batch, nodup, h⟩⟩

/-- A batch that is accepted has been allocated. -/
lemma exists_allocates_of_declare {ids : List ClassId} (h : (t.declare decls).2 = .ok ids) :
    ∃ batch, t.Allocates decls batch := by
  unfold declare at h
  cases hnames : firstRepeated? [] (decls.map (·.name)) with
  | some name =>
    rw [hnames] at h
    cases h
  | none =>
    rw [hnames] at h
    dsimp only at h
    split at h
    · cases h
    · next s batch hrun =>
      exact ⟨batch, (firstRepeated?_eq_none_iff.1 hnames).1, congrArg (·.2) hrun⟩

/-- A batch that is not allocated ends before its bounds are resolved. -/
lemma declare_of_not_allocates (h : ¬ ∃ batch, t.Allocates decls batch) :
    (t.declare decls).1 = t ∨ (t.declare decls).1 =
      (TableStep.each allocate (t.withNames decls) (decls.zip (t.numbersOf decls))).1 := by
  unfold declare
  cases hnames : firstRepeated? [] (decls.map (·.name)) with
  | some name => exact .inl rfl
  | none =>
    right
    dsimp only
    split
    · next s e hrun => exact (congrArg (·.1) hrun).symm
    · next s batch hrun =>
      exact absurd ⟨batch, (firstRepeated?_eq_none_iff.1 hnames).1, congrArg (·.2) hrun⟩ h

namespace Allocates

/-- The members of an allocated batch are its declarations with their numbers. -/
lemma map_eq (h : t.Allocates decls batch) :
    batch.map (fun a => (a.decl, a.id)) = decls.zip (t.numbersOf decls) := by
  have run := TableStep.map_eq_of_each (f := fun p => p) (g := fun a => (a.decl, a.id))
    (fun s p a ha => by rw [(eq_of_allocate ha).1, (eq_of_allocate ha).2]) h.run
  simpa using run

/-- The declarations of an allocated batch. -/
lemma map_decl (h : t.Allocates decls batch) : batch.map (·.decl) = decls := by
  have first := congrArg (List.map (·.1)) h.map_eq
  rw [List.map_map, List.map_fst_zip (Nat.le_of_eq (length_numbersOf t decls).symm)] at first
  exact first

/-- The numbers of an allocated batch. -/
lemma map_id (h : t.Allocates decls batch) : batch.map (·.id) = t.numbersOf decls := by
  have second := congrArg (List.map (·.2)) h.map_eq
  rw [List.map_map, List.map_snd_zip (Nat.le_of_eq (length_numbersOf t decls))] at second
  exact second

/-- The type parameters of an allocated batch get the next numbers. -/
lemma formals_eq (h : t.Allocates decls batch) :
    batch.flatMap (·.formals) =
      numberFrom t.params.length (batch.flatMap fun a => a.formals.map (·.2)) := by
  rw [(formals_of_each_allocate h.run).2.1, withNames, params_internAll]

/-- The numbers of the type parameters of an allocated batch. -/
lemma vars_eq (h : t.Allocates decls batch) :
    (batch.flatMap fun a => a.formals.map (·.1)) = (List.range' t.params.length
      (batch.flatMap fun a => a.formals.map (·.2)).length).map VarId.mk := by
  rw [← map_fst_numberFrom, ← h.formals_eq, List.map_flatMap]

/-- The type parameters of an allocated batch have different numbers. -/
lemma nodup_vars (h : t.Allocates decls batch) :
    (batch.flatMap fun a => a.formals.map (·.1)).Nodup := by
  rw [h.vars_eq]
  exact (List.nodup_range' ..).map fun _ _ eq => VarId.mk.inj eq

/-- The numbers of the classes of an allocated batch are different. -/
lemma nodup_ids (h : t.Allocates decls batch) : (batch.map (·.id)).Nodup := by
  rw [h.map_id]
  exact nodup_internAll h.distinct

/-- The name of an allocated declaration has its number. -/
lemma mem_zip (h : t.Allocates decls batch) {a : Allocated} (ha : a ∈ batch) :
    (a.decl.name, a.id) ∈ (decls.map (·.name)).zip (t.numbersOf decls) := by
  have mem : (a.decl, a.id) ∈ decls.zip (t.numbersOf decls) :=
    h.map_eq ▸ List.mem_map_of_mem (f := fun a : Allocated => (a.decl, a.id)) ha
  rw [List.zip_map_left]
  exact List.mem_map_of_mem (f := Prod.map (·.name) fun c => c) mem

/-- A class of an allocated batch is interned under its name. -/
lemma nameOf?_id (h : t.Allocates decls batch) {a : Allocated} (ha : a ∈ batch) :
    (t.withNames decls).nameOf? a.id = some a.decl.name := by
  have named := (edits_internAll t (decls.map (·.name))).2
  exact named (a.decl.name, a.id) (h.mem_zip ha)

/-- A class of an allocated batch is found by its name. -/
lemma find?_name (h : t.Allocates decls batch) {a : Allocated} (ha : a ∈ batch) :
    (t.withNames decls).find? a.decl.name = some a.id :=
  find?_internAll h.distinct (a.decl.name, a.id) (h.mem_zip ha)

/-- The numbers of the classes of an allocated batch are in use. -/
lemma mem_ids (h : t.Allocates decls batch) : ∀ a ∈ batch, a.id ∈ (t.withNames decls).ids := by
  intro a ha
  rw [mem_ids_iff, h.nameOf?_id ha]
  rfl

/-- The table with the type parameters of an allocated batch, before their bounds are resolved. -/
def table (t : ClassTable) (decls : List ClassDecl) (batch : List Allocated) : ClassTable :=
  (t.withNames decls).addHeaders (batch.flatMap fun a => a.formals.map (·.2))

/-- What is left to do for an allocated batch. -/
lemma declare_eq (h : t.Allocates decls batch) :
    t.declare decls =
      match TableStep.each bound (table t decls batch) batch with
      | (s, .error e) => (s, .error e)
      | (s, .ok _) => TableStep.each complete s batch := by
  have names : firstRepeated? [] (decls.map (·.name)) = none :=
    firstRepeated?_eq_none_iff.2 ⟨h.distinct, by simp⟩
  have run : TableStep.each allocate (t.internAll (decls.map (·.name))).1
      (decls.zip (t.internAll (decls.map (·.name))).2) = (table t decls batch, .ok batch) :=
    Prod.ext (formals_of_each_allocate h.run).2.2 h.run
  unfold declare
  rw [names]
  cases hbound : TableStep.each bound (table t decls batch) batch with
  | mk s result => cases result <;> simp only [run, hbound]

/-- An allocated batch ends when its bounds are resolved, or goes on to define its classes. -/
lemma declare_fst (h : t.Allocates decls batch) :
    let bounded := (TableStep.each bound (table t decls batch) batch).1
    (t.declare decls).1 = bounded ∨
      (t.declare decls).1 = (TableStep.each complete bounded batch).1 := by
  intro bounded
  rw [h.declare_eq]
  split
  · next s e hrun => exact .inl (congrArg (·.1) hrun).symm
  · next s rs hrun =>
    right
    have table : s = bounded := (congrArg (·.1) hrun).symm
    rw [table]

/-- The type parameters of an allocated batch are bounded by `Object` at first. -/
lemma typeParam?_table (h : t.Allocates decls batch) {a : Allocated} (ha : a ∈ batch)
    {f : VarId × ParamHeader} (hf : f ∈ a.formals) :
    (table t decls batch).typeParam? f.1 = some ((t.withNames decls).unbounded f.2) := by
  refine typeParam?_addHeaders ?_
  rw [withNames, params_internAll, ← h.formals_eq]
  exact List.mem_flatMap.2 ⟨a, ha, hf⟩

/-- The other type parameters are there as before. -/
lemma typeParam?_table_of_not_mem (h : t.Allocates decls batch) {x : VarId}
    (hx : x ∉ batch.flatMap fun a => a.formals.map (·.1)) :
    (table t decls batch).typeParam? x = t.typeParam? x := by
  have params : (t.withNames decls).params = t.params := params_internAll t _
  rw [table, typeParam?_addHeaders_of_not_mem, ClassTable.typeParam?, ClassTable.typeParam?, params]
  rwa [params, ← h.formals_eq, List.map_flatMap]

/-- **The bounds of an allocated batch** are written to the numbers of its type parameters. They are
accepted if each of them is.

**Proof sketch.** The same argument one level up: each declaration is bounded by a run that writes
to its own variables (`bound_local`), and the variables of the batch are all different. Before the
run they are unbounded. -/
lemma bounds (h : t.Allocates decls batch) :
    let run := TableStep.each bound (table t decls batch) batch
    (t.withNames decls).Agrees run.1 ∧
      (∀ x ∉ batch.flatMap fun a => a.formals.map (·.1), run.1.typeParam? x = t.typeParam? x) ∧
      (∀ rs, run.2 = .ok rs → ∀ a ∈ batch, ∀ f ∈ a.formals,
        ∃ p, a.param (t.withNames decls) f.2 = .ok p ∧ run.1.typeParam? f.1 = some p) ∧
      ((∃ rs, run.2 = .ok rs) ↔
        ∀ a ∈ batch, ∀ f ∈ a.formals, ∃ p, a.param (t.withNames decls) f.2 = .ok p) := by
  intro run
  let P := fun s : ClassTable =>
    (t.withNames decls).Agrees s ∧ s.params.length = (table t decls batch).params.length
  have base : P (table t decls batch) := ⟨⟨fun _ => rfl, rfl⟩, rfl⟩
  have step : ∀ a ∈ batch, ∀ s, P s → _ := fun a ha s hs =>
    bound_local (a := a) hs.1
      (fun f hf => by
        rw [hs.2]
        exact (List.getElem?_eq_some_iff.1 (h.typeParam?_table ha hf)).1)
      ((List.nodup_flatMap.1 h.nodup_vars).1 a ha)
  obtain ⟨kept, others, own⟩ := TableStep.each_local (P := P) (g := ClassTable.typeParam?)
    (w := fun a => a.formals.map (·.1))
    (Q := fun a x old new => ∀ f ∈ a.formals, f.1 = x →
      old = some ((t.withNames decls).unbounded f.2) →
      ∃ p, a.param (t.withNames decls) f.2 = .ok p ∧ new = some p)
    (fun a ha s hs =>
      have spec := step a ha s hs
      ⟨⟨spec.1.1, spec.1.2.trans hs.2⟩, spec.2.1, fun r hr x _ f hf hx => by
        subst hx
        exact spec.2.2.1 r hr f hf⟩)
    base h.nodup_vars
  have accepts := TableStep.exists_ok_each_iff (P := P)
    (A := fun a => ∀ f ∈ a.formals, ∃ p, a.param (t.withNames decls) f.2 = .ok p)
    (fun a ha s hs =>
      have spec := step a ha s hs
      ⟨⟨spec.1.1, spec.1.2.trans hs.2⟩, spec.2.2.2⟩)
    base
  refine ⟨kept.1, fun x hx => ?_, fun rs hrs a ha f hf => ?_, accepts⟩
  · rw [others x hx, h.typeParam?_table_of_not_mem hx]
  · exact own rs hrs a ha f.1 (List.mem_map_of_mem hf) f hf rfl (h.typeParam?_table ha hf)

/-- Resolving the bounds of an allocated batch defines nothing. -/
lemma classDef?_bounds (t : ClassTable) (decls : List ClassDecl) (batch : List Allocated)
    (id : ClassId) :
    (TableStep.each bound (table t decls batch) batch).1.classDef? id = t.classDef? id := by
  rw [ClassTable.classDef?, slots_each_bound]
  exact classDef?_internAll t (decls.map (·.name)) id

/-- **The definitions of an allocated batch** are written to the numbers of its classes. They are
accepted if each of them is.

**Proof sketch.** Each declaration is completed by a step that writes to its own number
(`complete_local`), and the numbers of the batch are all different. The numbers returned are those
that the steps return. -/
lemma definitions (h : t.Allocates decls batch) {s : ClassTable}
    (agrees : (t.withNames decls).Agrees s) :
    let run := TableStep.each complete s batch
    ((t.withNames decls).Agrees run.1 ∧ run.1.params = s.params) ∧
      (∀ id ∉ t.numbersOf decls, run.1.classDef? id = s.classDef? id) ∧
      (∀ ids, run.2 = .ok ids → ids = t.numbersOf decls ∧ ∀ a ∈ batch,
        ∃ d, (t.withNames decls).definition a = .ok d ∧ run.1.classDef? a.id = some d) ∧
      ((∃ ids, run.2 = .ok ids) ↔ ∀ a ∈ batch, ∃ d, (t.withNames decls).definition a = .ok d) := by
  intro run
  have numbers : batch.flatMap (fun a => [a.id]) = t.numbersOf decls := by
    rw [← h.map_id]
    exact List.map_eq_flatMap.symm
  let P := fun s' : ClassTable => (t.withNames decls).Agrees s' ∧ s'.params = s.params
  have step : ∀ a ∈ batch, ∀ s, P s → _ := fun a ha s hs =>
    complete_local (a := a) hs.1 (h.mem_ids a ha)
  obtain ⟨kept, others, own⟩ := TableStep.each_local (P := P) (g := ClassTable.classDef?)
    (w := fun a => [a.id])
    (Q := fun a id _ new => ∃ d, (t.withNames decls).definition a = .ok d ∧ new = some d)
    (fun a ha s hs =>
      have spec := step a ha s hs
      ⟨⟨spec.1.1, spec.1.2.trans hs.2⟩, spec.2.1, fun r hr id hid => by
        rw [List.mem_singleton.1 hid]
        exact spec.2.2.1 r hr⟩)
    ⟨agrees, rfl⟩ (by rw [numbers, ← h.map_id]; exact h.nodup_ids)
  have accepts := TableStep.exists_ok_each_iff (P := P)
    (A := fun a => ∃ d, (t.withNames decls).definition a = .ok d)
    (fun a ha s hs =>
      have spec := step a ha s hs
      ⟨⟨spec.1.1, spec.1.2.trans hs.2⟩, spec.2.2.2⟩)
    ⟨agrees, rfl⟩
  refine ⟨kept, numbers ▸ others, fun ids hids => ⟨?_, fun a ha => ?_⟩, accepts⟩
  · have results := TableStep.map_eq_of_each (f := fun a => a.id) (g := fun id => id)
      (fun s a id => id_eq_of_complete) hids
    rw [← h.map_id, ← results]
    simp
  · exact own ids hids a ha a.id List.mem_cons_self

/-- **When an allocated batch is accepted**: each bound and each definition must make sense, in a
table where all names of the batch are interned. -/
theorem exists_ok_declare_iff (h : t.Allocates decls batch) :
    (∃ ids, (t.declare decls).2 = .ok ids) ↔ ∀ a ∈ batch,
      (∀ f ∈ a.formals, ∃ p, a.param (t.withNames decls) f.2 = .ok p) ∧
        ∃ d, (t.withNames decls).definition a = .ok d := by
  obtain ⟨agrees, -, -, bounded⟩ := h.bounds
  obtain ⟨-, -, -, defined⟩ := h.definitions agrees
  rw [forall₂_and, ← bounded, ← defined, h.declare_eq]
  cases TableStep.each bound (table t decls batch) batch with
  | mk s result => cases result <;> simp

/-- **What an accepted batch does to a table.**

**Proof sketch.** Put the two stages together. The second one changes no type parameters, and the
first one no definitions. -/
theorem declares (h : t.Allocates decls batch) {ids : List ClassId}
    (hok : (t.declare decls).2 = .ok ids) :
    ids = t.numbersOf decls ∧ t.Declares decls batch (t.declare decls).1 := by
  obtain ⟨agrees, keptParams, bounded, -⟩ := h.bounds
  obtain ⟨⟨agrees', params⟩, keptDefs, defined, -⟩ := h.definitions agrees
  have keptBefore := classDef?_bounds t decls batch
  rw [h.declare_eq] at hok ⊢
  cases hrun : TableStep.each bound (table t decls batch) batch with
  | mk s result =>
    rw [hrun] at hok keptParams bounded agrees' params keptDefs defined keptBefore
    cases result with
    | error e => cases hok
    | ok rs =>
      obtain ⟨hids, defs⟩ := defined ids hok
      refine ⟨hids, agrees', defs, fun id hid => ?_, fun a ha f hf => ?_, fun x hx => ?_⟩
      · rw [keptDefs id hid, keptBefore]
      · obtain ⟨p, hp, found⟩ := bounded rs rfl a ha f hf
        refine ⟨p, hp, ?_⟩
        rw [← found, ClassTable.typeParam?, ClassTable.typeParam?, params]
      · rw [← keptParams x hx, ClassTable.typeParam?, ClassTable.typeParam?, params]

end Allocates

end ClassTable

end ContainerLint
