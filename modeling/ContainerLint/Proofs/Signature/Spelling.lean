import ContainerLint.Proofs.Ty.Substitution
import ContainerLint.Signature.Parser

/-!
# What a signature can spell

The names in a signature are identifiers joined by dots, and the types that it can denote are built
of primitives, classes with such names, arrays, wildcards and the type variables in scope. All that
is declared comes from a signature, so this is what is known of declared types.

## Main definitions

* `Text.isDottedName` — identifiers joined by dots.
* `Signature.Spelled` — all names in a signature are dotted names.
* `ClassTable.nameOf?` — the name under which a class is interned.
* `Ty.Written` — what a signature can denote.

## Main results

* `Signature.spelled_of_parse` — the reader accepts dotted names only.
* `Ty.written_of_parse` — the type that a text denotes is a written one.
-/

set_option autoImplicit false

namespace ContainerLint

/-- From a computation that succeeds, its two parts. -/
lemma exists_of_bind_eq_ok {ε α β : Type} {x : Except ε α} {f : α → Except ε β} {b : β}
    (h : x >>= f = .ok b) : ∃ a, x = .ok a ∧ f a = .ok b := by
  cases x with
  | error e => cases h
  | ok a => exact ⟨a, rfl, h⟩

/-- From a result that is changed afterwards, the result before. -/
lemma exists_of_map_eq_ok {ε α β : Type} {x : Except ε α} {f : α → β} {b : β}
    (h : x.map f = .ok b) : ∃ a, x = .ok a ∧ f a = b := by
  cases x with
  | error e => cases h
  | ok a => exact ⟨a, rfl, Except.ok.inj h⟩

/-! ## Dotted names -/

namespace Text

/-- Identifiers joined by dots, as far as characters go: it starts like an identifier and goes on
with further characters of identifiers and dots. -/
def isDottedName : List Char → Bool
  | [] => false
  | c :: cs => isWordStart c && cs.all fun d => isWordRest d || d == '.'

/-- The first character of an identifier could also be a further one. -/
lemma isWordRest_of_isWordStart {c : Char} (h : isWordStart c = true) : isWordRest c = true := by
  simp only [isWordStart, isWordRest, isLetterOrNumber, Bool.or_eq_true] at h ⊢
  tauto

/-- An identifier is a dotted name. -/
lemma isDottedName_of_isWord {cs : List Char} (h : isWord cs = true) : isDottedName cs = true := by
  cases cs with
  | nil => cases h
  | cons c cs =>
    simp only [isWord, isDottedName, Bool.and_eq_true, List.all_eq_true] at h ⊢
    exact ⟨h.1, fun d hd => by simp [h.2 d hd]⟩

/-- Two dotted names joined by a dot. -/
lemma isDottedName_append {cs ds : List Char} (hc : isDottedName cs = true)
    (hd : isDottedName ds = true) : isDottedName (cs ++ '.' :: ds) = true := by
  cases cs with
  | nil => cases hc
  | cons c cs =>
    cases ds with
    | nil => cases hd
    | cons d ds =>
      simp only [isDottedName, Bool.and_eq_true, List.all_eq_true, List.cons_append,
        List.mem_append, List.mem_cons] at hc hd ⊢
      refine ⟨hc.1, ?_⟩
      rintro e (he | rfl | rfl | he)
      · exact hc.2 e he
      · rfl
      · simp [isWordRest_of_isWordStart hd.1]
      · exact hd.2 e he

/-- A dotted name contains no angle bracket. -/
lemma not_mem_of_isDottedName {cs : List Char} (h : isDottedName cs = true) : '<' ∉ cs := by
  cases cs with
  | nil => cases h
  | cons c cs =>
    simp only [isDottedName, Bool.and_eq_true, List.all_eq_true] at h
    rintro (_ | ⟨_, hc⟩)
    · exact absurd h.1 (by decide)
    · exact absurd (h.2 _ hc) (by decide)

end Text

open Text

/-! ## Signatures -/

namespace Signature

/-- All names in a signature are dotted names. -/
inductive Spelled : Signature → Prop where
  | prim (p : Primitive) : Spelled (.prim p)
  | named {name : String} {args : List Signature} : isDottedName name.toList = true →
      (∀ a ∈ args, Spelled a) → Spelled (.named name args)
  | array {elem : Signature} : Spelled elem → Spelled (.array elem)
  | wild : Spelled .wild
  | wildExtends {upper : Signature} : Spelled upper → Spelled (.wildExtends upper)
  | wildSuper {lower : Signature} : Spelled lower → Spelled (.wildSuper lower)

namespace Parser

/-- The reader of words reads identifiers. -/
lemma isWord_of_word? {cs rest : List Char} {w : String} (h : word? cs = some (w, rest)) :
    isWord w.toList = true := by
  unfold word? at h
  split at h
  · cases h
  · next c tail _ =>
    split at h
    · next hc =>
      cases h
      simp [isWord, hc]
    · cases h

/-- Reading on a dotted name gives a dotted name. -/
lemma isDottedName_of_nameAt {name name' : String} {cs rest : List Char}
    (h : nameAt name cs = .ok (name', rest)) (hn : isDottedName name.toList = true) :
    isDottedName name'.toList = true := by
  fun_induction nameAt name cs with
  | case1 =>
    cases h
    exact hn
  | case2 => cases h
  | case3 name cs after _ segment tail hw ih =>
    refine ih h ?_
    have segment := isDottedName_of_isWord (isWord_of_word? hw)
    simpa using isDottedName_append hn segment

/-- Brackets behind a type add no names. -/
lemma spelled_of_arraysAt {sig sig' : Signature} {cs rest : List Char}
    (h : arraysAt sig cs = .ok (sig', rest)) (hs : sig.Spelled) : sig'.Spelled := by
  fun_induction arraysAt sig cs with
  | case1 =>
    cases h
    exact hs
  | case2 => cases h
  | case3 sig cs after _ tail _ ih => exact ih h (.array hs)

/-- Types and argument lists are read with dotted names only.

**Proof sketch.** Induction on the budget, for both at once. -/
lemma spelled_of_typeAt (n : Nat) :
    (∀ {cs rest : List Char} {sig : Signature}, typeAt n cs = .ok (sig, rest) → sig.Spelled) ∧
    ∀ {cs rest : List Char} {sigs : List Signature}, argsAt n cs = .ok (sigs, rest) →
      ∀ sig ∈ sigs, sig.Spelled := by
  induction n with
  | zero => exact ⟨fun h => by simp [typeAt] at h, fun h => by simp [argsAt] at h⟩
  | succ n ih =>
    obtain ⟨ihType, ihArgs⟩ := ih
    refine ⟨fun {cs rest sig} h => ?_, fun {cs rest sigs} h => ?_⟩
    · unfold typeAt at h
      split at h
      · cases h
      · next word after hw =>
        split at h
        · next p _ => exact spelled_of_arraysAt h (.prim p)
        · obtain ⟨⟨name, tail⟩, hname, h⟩ := exists_of_bind_eq_ok h
          have hn := isDottedName_of_nameAt hname (isDottedName_of_isWord (isWord_of_word? hw))
          dsimp only at h
          split at h
          · exact spelled_of_arraysAt h (.named hn (by simp))
          · obtain ⟨⟨args, tail'⟩, hargs, h⟩ := exists_of_bind_eq_ok h
            exact spelled_of_arraysAt h (.named hn (ihArgs hargs))
    · rw [argsAt] at h
      obtain ⟨⟨arg, tail⟩, harg, h⟩ := exists_of_bind_eq_ok h
      have hs : arg.Spelled := by
        unfold argAt at harg
        split at harg
        · exact ihType harg
        · split at harg
          · obtain ⟨⟨sig, _⟩, hsig, eq⟩ := exists_of_map_eq_ok harg
            cases eq
            exact .wildExtends (ihType hsig)
          · split at harg
            · obtain ⟨⟨sig, _⟩, hsig, eq⟩ := exists_of_map_eq_ok harg
              cases eq
              exact .wildSuper (ihType hsig)
            · cases harg
              exact .wild
      dsimp only at h
      split at h
      · obtain ⟨⟨args, tail'⟩, hargs, h⟩ := exists_of_bind_eq_ok h
        cases h
        intro sig hsig
        rcases List.mem_cons.1 hsig with rfl | hsig
        · exact hs
        · exact ihArgs hargs sig hsig
      · split at h
        · cases h
          intro sig hsig
          obtain rfl := List.mem_singleton.1 hsig
          exact hs
        · cases h

end Parser

/-- All names in a signature that is read from a text are dotted names. -/
theorem spelled_of_parse {input : String} {sig : Signature} (h : parse input = .ok sig) :
    sig.Spelled := by
  unfold parse at h
  split at h
  · next sig' hsig =>
    cases h
    unfold Parser.wholeType at hsig
    obtain ⟨⟨sig, rest⟩, htype, hsig⟩ := exists_of_bind_eq_ok hsig
    dsimp only at hsig
    split at hsig
    · cases hsig
      exact (Parser.spelled_of_typeAt _).1 htype
    · cases hsig
  · cases h

end Signature

/-! ## Names of classes -/

namespace ClassTable

/-- The name under which a class is interned. -/
def nameOf? (t : ClassTable) (id : ClassId) : Option String :=
  t.slots[id.index]?.map (·.name)

/-- A class that is found by its name has that name. -/
lemma nameOf?_of_find? {t : ClassTable} {name : String} {id : ClassId}
    (h : t.find? name = some id) : t.nameOf? id = some name := by
  obtain ⟨i, hi, rfl⟩ := Option.map_eq_some_iff.1 h
  obtain ⟨hlt, heq, -⟩ := List.findIdx?_eq_some_iff_getElem.1 hi
  simpa [nameOf?, hlt] using heq

/-- A class that a program refers to by a dotted name has a dotted name. -/
lemma isDottedName_of_lookup {t : ClassTable} {name : String} {id : ClassId}
    (h : t.lookup name = some id) (hn : isDottedName name.toList = true) :
    ∃ full, t.nameOf? id = some full ∧ isDottedName full.toList = true := by
  unfold lookup at h
  split at h
  · next id' hfind =>
    cases h
    exact ⟨name, nameOf?_of_find? hfind, hn⟩
  · split at h
    · cases h
    · refine ⟨_, nameOf?_of_find? h, ?_⟩
      have package : isDottedName "java.lang".toList = true := by decide
      simpa using isDottedName_append package hn

end ClassTable

/-- A variable that is found in a scope belongs to it. -/
lemma TypeScope.mem_of_find? {scope : TypeScope} {name : String} {x : VarId}
    (h : scope.find? name = some x) : x ∈ scope.map (·.2) := by
  unfold TypeScope.find? at h
  split at h
  · cases h
  · obtain ⟨b, hb, rfl⟩ := Option.map_eq_some_iff.1 h
    exact List.mem_map_of_mem (List.mem_reverse.1 (List.mem_of_find?_eq_some hb))

namespace Ty

/-- The types that a signature can denote if the variables in `formals` may be mentioned. The
classes in it are interned under dotted names. -/
inductive Written (t : ClassTable) (formals : List VarId) : Ty → Prop where
  | prim (p : Primitive) : Written t formals (.prim p)
  | cls {id : ClassId} {name : String} {args : List Ty} : t.nameOf? id = some name →
      isDottedName name.toList = true → (∀ a ∈ args, Written t formals a) →
      Written t formals (.cls id args)
  | array {elem : Ty} : Written t formals elem → Written t formals (.array elem)
  | var {x : VarId} : x ∈ formals → Written t formals (.var x)
  | wild : Written t formals .wild
  | wildExtends {upper : Ty} : Written t formals upper → Written t formals (.wildExtends upper)
  | wildSuper {lower : Ty} : Written t formals lower → Written t formals (.wildSuper lower)

namespace Written

variable {t t' : ClassTable} {formals : List VarId} {ty : Ty}

/-- A written type stays one as long as the classes keep their names. -/
lemma mono (h : ty.Written t formals)
    (names : ∀ id name, t.nameOf? id = some name → t'.nameOf? id = some name) :
    ty.Written t' formals := by
  induction h with
  | prim p => exact .prim p
  | cls hid hname _ ih => exact .cls (names _ _ hid) hname ih
  | array _ ih => exact .array ih
  | var hx => exact .var hx
  | wild => exact .wild
  | wildExtends _ ih => exact .wildExtends ih
  | wildSuper _ ih => exact .wildSuper ih

/-- Everything inside of a written type is written.

**Proof sketch.** By induction on how the type is written. A part of it is the type itself or a part
of one of its members. -/
lemma of_mem_subterms (h : ty.Written t formals) {s : Ty} (hs : s ∈ ty.subterms) :
    s.Written t formals := by
  induction h with
  | prim p =>
    obtain rfl := List.mem_singleton.1 hs
    exact .prim p
  | var hx =>
    obtain rfl := List.mem_singleton.1 hs
    exact .var hx
  | wild =>
    obtain rfl := List.mem_singleton.1 hs
    exact .wild
  | cls hid hname hargs ih =>
    rw [subterms] at hs
    rcases List.mem_cons.1 hs with rfl | hs
    · exact .cls hid hname hargs
    · obtain ⟨a, ha, hs⟩ := mem_subtermsAll.1 hs
      exact ih a ha hs
  | array h ih =>
    rcases List.mem_cons.1 hs with rfl | hs
    · exact .array h
    · exact ih hs
  | wildExtends h ih =>
    rcases List.mem_cons.1 hs with rfl | hs
    · exact .wildExtends h
    · exact ih hs
  | wildSuper h ih =>
    rcases List.mem_cons.1 hs with rfl | hs
    · exact .wildSuper h
    · exact ih hs

/-- A written type mentions no other variables. -/
lemma mem_formals (h : ty.Written t formals) {x : VarId} (hx : Ty.var x ∈ ty.subterms) :
    x ∈ formals := by
  cases h.of_mem_subterms hx with
  | var hx => exact hx

/-- A written type has no open names. -/
lemma named_not_mem (h : ty.Written t formals) (name : String) : Ty.named name ∉ ty.subterms := by
  intro hn
  cases h.of_mem_subterms hn

/-- A written type has nothing to look up. -/
lemma canonical_eq_self (h : ty.Written t formals) (t' : ClassTable) : ty.canonical t' = ty :=
  Ty.canonical_eq_self ty h.named_not_mem

end Written

/-- Resolving arguments succeeds only if resolving each of them does. -/
lemma written_of_resolveAll {t : ClassTable} {scope : TypeScope} {formals : List VarId}
    {sigs : List Signature}
    (members : ∀ sig ∈ sigs, ∀ ty, sig.resolve t scope = .ok ty → ty.Written t formals)
    {tys : List Ty} (h : Signature.resolveAll t scope sigs = .ok tys) :
    ∀ ty ∈ tys, ty.Written t formals := by
  induction sigs generalizing tys with
  | nil =>
    cases h
    simp
  | cons sig sigs ih =>
    unfold Signature.resolveAll at h
    split at h
    · cases h
    · next first hfirst =>
      obtain ⟨rest, hrest, rfl⟩ := exists_of_map_eq_ok h
      intro ty hty
      rcases List.mem_cons.1 hty with rfl | hty
      · exact members sig List.mem_cons_self ty hfirst
      · exact ih (fun s hs => members s (List.mem_cons_of_mem _ hs)) hrest ty hty

/-- A signature with dotted names resolves to a written type.

**Proof sketch.** By induction on the signature. A name is resolved to a variable of the scope, or
to a class whose full name is dotted because the name is; the members are resolved to written types
by induction. -/
lemma written_of_resolve {t : ClassTable} {scope : TypeScope} {sig : Signature} (hs : sig.Spelled)
    {ty : Ty} (h : sig.resolve t scope = .ok ty) : ty.Written t (scope.map (·.2)) := by
  induction hs generalizing ty with
  | prim p =>
    cases h
    exact .prim p
  | wild =>
    cases h
    exact .wild
  | named hname _ ih =>
    unfold Signature.resolve at h
    split at h
    · next x hx =>
      split at h
      · cases h
        exact .var (TypeScope.mem_of_find? hx)
      · cases h
    · split at h
      · cases h
      · next id hid =>
        obtain ⟨args, hargs, rfl⟩ := exists_of_map_eq_ok h
        obtain ⟨full, hfull, hdots⟩ := ClassTable.isDottedName_of_lookup hid hname
        exact .cls hfull hdots (written_of_resolveAll (fun a ha ty hty => ih a ha hty) hargs)
  | array _ ih =>
    obtain ⟨elem, helem, rfl⟩ := exists_of_map_eq_ok h
    exact .array (ih helem)
  | wildExtends _ ih =>
    obtain ⟨upper, hupper, rfl⟩ := exists_of_map_eq_ok h
    exact .wildExtends (ih hupper)
  | wildSuper _ ih =>
    obtain ⟨lower, hlower, rfl⟩ := exists_of_map_eq_ok h
    exact .wildSuper (ih hlower)

/-- The type that a text denotes is a written one. -/
theorem written_of_parse {t : ClassTable} {scope : TypeScope} {input : String} {ty : Ty}
    (h : Ty.parse t scope input = .ok ty) : ty.Written t (scope.map (·.2)) := by
  obtain ⟨sig, hsig, hty⟩ := exists_of_bind_eq_ok h
  exact written_of_resolve (Signature.spelled_of_parse hsig) hty

end Ty

end ContainerLint
