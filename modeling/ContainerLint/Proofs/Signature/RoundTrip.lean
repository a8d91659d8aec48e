import ContainerLint.Proofs.Declaration.Lawful
import ContainerLint.Proofs.Hierarchy.DeclaredSteps
import ContainerLint.Proofs.Signature.Reader
import ContainerLint.Ty.Printer

/-!
# Writing a type and reading it again

A type that was read from a text is written with full names. The text that this gives need not be
the one that was read, but it denotes the same type, provided that the classes in it have a name to
show. So the spelling tells such types apart.

## Main definitions

* `ClassTable.scopeOf` — the type parameters of a class under their names.
* `Ty.Defined` — all classes of a type are defined.
* `Signature.Prints` — a text gives the same tokens whatever follows it.

## Main results

* `Signature.exists_respells_of_derives` — the spelling of a type is made of tokens that the grammar
  derives, and they denote the type.
* `Ty.parse_render_of_parse` — reading the spelling of a type gives the type.

## Design

A class may be referred to by its simple name, and then is written with its package. A type variable
hides a class of the same name. So the spelling has other tokens than the text, and the round trip
is not one of signatures: the signature that is read from the spelling is made along the derivation
of the one that was read from the text.
-/

set_option autoImplicit false

namespace ContainerLint

open Text

/-- The type parameters of a class, each under its name. A class that is not defined has none. -/
def ClassTable.scopeOf (t : ClassTable) (id : ClassId) : TypeScope :=
  match t.classDef? id with
  | none => []
  | some d => d.typeParams.filterMap fun x => (t.typeParam? x).map fun p => (p.name, x)

/-- All classes that a type mentions are defined. -/
def Ty.Defined (t : ClassTable) (ty : Ty) : Prop :=
  ∀ id args, Ty.cls id args ∈ ty.subterms → (t.classDef? id).isSome = true

namespace Signature

/-! ## Texts and their tokens -/

/-- The text `cs` gives the tokens `toks`, whatever follows, unless its last word goes on. -/
def Prints (cs : List Char) (toks : List Token) : Prop :=
  ∀ rest more, EndsWord rest → Tokens rest more → Tokens (cs ++ rest) (toks ++ more)

namespace Prints

variable {cs cs' : List Char} {toks toks' : List Token} {w : String}

/-- A mark is printed as itself, whatever follows. -/
lemma mark {c : Char} (hc : c ∈ Token.marks) (h : Prints cs toks) :
    Prints (c :: cs) (.mark c :: toks) :=
  fun rest more ends ht => .mark hc (h rest more ends ht)

/-- A blank is printed between tokens. -/
lemma blank {c : Char} (hc : isBlank c = true) (h : Prints cs toks) : Prints (c :: cs) toks :=
  fun rest more ends ht => .blank hc (h rest more ends ht)

/-- No text prints no tokens. -/
lemma nil : Prints [] [] :=
  fun _ _ _ ht => ht

/-- A word is printed as itself, if what follows does not continue it. -/
lemma word (hw : isWord w.toList = true) : Prints w.toList [.word w] := by
  intro rest more ends ht
  have token := Tokens.word hw ends ht
  rwa [String.ofList_toList] at token

/-- One text behind another, which it does not continue. -/
lemma append (h : Prints cs toks) (h' : Prints cs' toks') (ends : EndsWord cs') (hne : cs' ≠ []) :
    Prints (cs ++ cs') (toks ++ toks') := by
  intro rest more ends' ht
  rw [List.append_assoc, List.append_assoc]
  refine h _ _ ?_ (h' rest more ends' ht)
  obtain ⟨c, tail, rfl⟩ := List.exists_cons_of_ne_nil hne
  exact ends

end Prints

/-- A token that stands for itself ends a word. -/
lemma endsWord_mark {c : Char} (hc : c ∈ Token.marks) (cs : List Char) : EndsWord (c :: cs) := by
  intro d hd
  obtain rfl : c = d := by simpa using hd
  exact (Token.of_mem_marks c hc).2.2

/-- A dotted name gives its words and dots. -/
lemma prints_name {w : String} {segments : List String} (hw : isWord w.toList = true)
    (hsegments : ∀ v ∈ segments, isWord v.toList = true) :
    Prints (".".intercalate (w :: segments)).toList (nameTokens w segments) := by
  induction segments generalizing w with
  | nil => exact .word hw
  | cons v segments ih =>
    have tail := ih (hsegments v List.mem_cons_self)
      fun u hu => hsegments u (List.mem_cons_of_mem _ hu)
    rw [String.intercalate_cons_cons, String.toList_append, String.toList_append, List.append_assoc]
    exact (Prints.word hw).append (.mark (by decide) tail) (endsWord_mark (by decide) _) (by simp)

/-- A wildcard with a bound. -/
lemma prints_wildcard (keyword : String) (hk : isWord keyword.toList = true) {cs : List Char}
    {toks : List Token} (h : Prints cs toks) :
    Prints ('?' :: ' ' :: (keyword.toList ++ ' ' :: cs)) (.mark '?' :: .word keyword :: toks) := by
  have bound : Prints (' ' :: cs) toks := .blank (by decide) h
  have ends : EndsWord (' ' :: cs) := by
    intro c hc
    obtain rfl : ' ' = c := by simpa using hc
    decide
  exact .mark (by decide) (.blank (by decide) ((Prints.word hk).append bound ends (by simp)))

/-- The words of a text are words. -/
lemma isWord_of_tokens {cs : List Char} {toks : List Token} (h : Tokens cs toks) {w : String}
    (hw : Token.word w ∈ toks) : isWord w.toList = true := by
  induction h with
  | nil => cases hw
  | blank _ _ ih => exact ih hw
  | mark _ _ ih => exact ih (by simpa using hw)
  | word hv _ _ ih =>
    rcases List.mem_cons.1 hw with eq | hw
    · cases eq
      simpa using hv
    · exact ih hw

/-! ## Names -/

/-- The words of a name that is not read as a primitive type. -/
structure IsName (w : String) (segments : List String) : Prop where
  keyword : Primitive.ofKeyword? w = none
  first : isWord w.toList = true
  further : ∀ v ∈ segments, isWord v.toList = true

/-- The name of a class in `java.lang`. -/
lemma IsName.javaLang {w : String} {segments : List String} (h : IsName w segments) :
    IsName "java" ("lang" :: w :: segments) := by
  refine ⟨by decide, by decide, ?_⟩
  intro v hv
  rcases List.mem_cons.1 hv with rfl | hv
  · decide
  · rcases List.mem_cons.1 hv with rfl | hv
    · exact h.first
    · exact h.further v hv

/-- A class that is found under a name is found under its full name as well, also where the name of
a type variable might hide it.

**Proof sketch.** The name is the full name itself, or it is a name in the package `java.lang`. In
the latter case the full name has two more segments, and with a dot in it no type variable can hide
it. -/
lemma exists_fullName_of_lookup {t : ClassTable} (ht : t.Lawful) {scope : TypeScope} {w : String}
    {segments : List String} (hn : IsName w segments) {id : ClassId} {d : ClassDef}
    (hnone : scope.find? (".".intercalate (w :: segments)) = none)
    (hid : t.lookup (".".intercalate (w :: segments)) = some id) (hd : t.classDef? id = some d) :
    ∃ w' segments', IsName w' segments' ∧ d.name = ".".intercalate (w' :: segments') ∧
      scope.find? d.name = none ∧ t.lookup d.name = some id := by
  have fullName {name : String} (hfind : t.find? name = some id) : d.name = name :=
    Option.some.inj ((ht.defName hd).symm.trans (ClassTable.nameOf?_of_find? hfind))
  have found : t.lookup d.name = some id := by
    rw [ClassTable.lookup, ht.find?_of_nameOf? (ht.defName hd)]
  unfold ClassTable.lookup at hid
  split at hid
  · next id' hfind =>
    cases hid
    exact ⟨w, segments, hn, fullName hfind, fullName hfind ▸ hnone, found⟩
  · split at hid
    · cases hid
    · have package : "java.lang." ++ ".".intercalate (w :: segments) =
          ".".intercalate ("java" :: "lang" :: w :: segments) := by
        rw [String.intercalate_cons_cons, String.intercalate_cons_cons, ← String.append_assoc]
        rfl
      refine ⟨"java", "lang" :: w :: segments, hn.javaLang, (fullName hid).trans package, ?_, found⟩
      rw [fullName hid, TypeScope.find?, if_pos]
      simp

/-! ## The spelling of a type -/

/-- The tokens `toks` spell the type `ty`, and the grammar derives them as `sig`, which denotes the
type. -/
structure Respells (t : ClassTable) (scope : TypeScope) (cat : Category) (ty : Ty)
    (toks : List Token) (sig : Signature) : Prop where
  derives : Derives cat toks sig
  prints : Prints (ty.render t .full).toList toks
  resolves : sig.resolve t scope = .ok ty

section Respelling

variable {t : ClassTable} {scope : TypeScope}

/-- There are as many types as signatures that denote them. -/
lemma exists_cons_of_resolveAll {sig : Signature} {sigs : List Signature} {tys : List Ty}
    (h : resolveAll t scope (sig :: sigs) = .ok tys) :
    ∃ ty tys', tys = ty :: tys' ∧ sig.resolve t scope = .ok ty ∧
      resolveAll t scope sigs = .ok tys' := by
  rw [resolveAll] at h
  split at h
  · cases h
  · next ty hty =>
    obtain ⟨tys', htys, rfl⟩ := exists_of_map_eq_ok h
    exact ⟨ty, tys', rfl, hty, htys⟩

/-- Arguments can be spelled if each of them can.

**Proof sketch.** By induction on the arguments. The spelling of the first one is followed by a
comma and a blank if there are more, so that its last word ends there. -/
lemma exists_prints_args {args : List (List Token × Signature)}
    (members : ∀ a ∈ args, ∀ ty, a.2.resolve t scope = .ok ty → ty.Defined t →
      ∃ toks sig, Respells t scope .arg ty toks sig)
    {tys : List Ty} (h : resolveAll t scope (args.map (·.2)) = .ok tys)
    (hdef : ∀ ty ∈ tys, ty.Defined t) :
    ∃ args' : List (List Token × Signature),
      (∀ a ∈ args', Derives .arg a.1 a.2) ∧ resolveAll t scope (args'.map (·.2)) = .ok tys ∧
      Prints (", ".intercalate (tys.map (Ty.render t .full))).toList
        ([.mark ','].intercalate (args'.map (·.1))) := by
  induction args generalizing tys with
  | nil =>
    cases h
    exact ⟨[], by simp, rfl, .nil⟩
  | cons a args ih =>
    obtain ⟨ty, tys', rfl, hty, htys⟩ := exists_cons_of_resolveAll h
    obtain ⟨toks, sig, first⟩ := members a List.mem_cons_self ty hty (hdef ty List.mem_cons_self)
    obtain ⟨args', derived, resolved, prints⟩ :=
      ih (fun b hb => members b (List.mem_cons_of_mem _ hb)) htys
        fun u hu => hdef u (List.mem_cons_of_mem _ hu)
    refine ⟨(toks, sig) :: args', ?_, ?_, ?_⟩
    · intro b hb
      rcases List.mem_cons.1 hb with rfl | hb
      · exact first.derives
      · exact derived b hb
    · simp only [List.map_cons, resolveAll, first.resolves, resolved, Except.map]
    · cases args' with
      | nil =>
        cases resolved
        simpa using first.prints
      | cons b args' =>
        obtain ⟨u, tys, rfl, -, -⟩ := exists_cons_of_resolveAll resolved
        simp only [List.map_cons, String.intercalate_cons_cons, List.intercalate_cons_cons,
          String.toList_append, List.append_assoc] at prints ⊢
        exact first.prints.append (.mark (by decide) (.blank (by decide) prints))
          (endsWord_mark (by decide) _) (by simp)

/-- A class type can be spelled with the full name of its class if its arguments can be.

**Proof sketch.** The full name is spelled token by token. Without arguments that is all. With
arguments their spellings are enclosed in marks, which end the words before them, and the grammar
derives the whole as a generic type. -/
lemma exists_respells_class {w : String} {segments : List String} {id : ClassId} {d : ClassDef}
    (hn : IsName w segments) (hname : d.name = ".".intercalate (w :: segments))
    (hnone : scope.find? d.name = none) (hid : t.lookup d.name = some id)
    (hd : t.classDef? id = some d) {args : List (List Token × Signature)} {tys : List Ty}
    (derived : ∀ a ∈ args, Derives .arg a.1 a.2)
    (resolved : resolveAll t scope (args.map (·.2)) = .ok tys)
    (prints : Prints (", ".intercalate (tys.map (Ty.render t .full))).toList
      ([.mark ','].intercalate (args.map (·.1)))) :
    ∃ toks sig, Respells t scope .type (.cls id tys) toks sig := by
  have nameRead : Prints d.name.toList (nameTokens w segments) := by
    rw [hname]
    exact prints_name hn.first hn.further
  have spelled : Ty.render t .full (.cls id tys) =
      d.name ++ Ty.renderArgs (tys.map (Ty.render t .full)) := by
    simp [Ty.render, Ty.renderClass, hd, NameStyle.className]
  have denoted : (Signature.named d.name (args.map (·.2))).resolve t scope = .ok (.cls id tys) := by
    simp [resolve, hnone, hid, resolved, Except.map]
  cases args with
  | nil =>
    cases resolved
    have derivedName : Derives .type (nameTokens w segments) (.named d.name []) := by
      rw [hname]
      exact .named segments hn.keyword
    refine ⟨_, _, derivedName, ?_, denoted⟩
    rw [spelled]
    simpa [Ty.renderArgs] using nameRead
  | cons a args =>
    obtain ⟨u, us, rfl, -, -⟩ := exists_cons_of_resolveAll resolved
    have derivedName := Derives.generic segments hn.keyword (by simp) derived
    rw [← hname] at derivedName
    refine ⟨_, _, derivedName, ?_, denoted⟩
    have closed := prints.append (.mark (c := '>') (by decide) .nil) (endsWord_mark (by decide) _)
      (by simp)
    have whole := nameRead.append (.mark (c := '<') (by decide) closed)
      (endsWord_mark (by decide) _) (by simp)
    rw [spelled]
    simpa [Ty.renderArgs] using whole

end Respelling

end Signature

/-- The bindings of a scope are type parameters under their names. -/
def TypeScope.NamesParams (scope : TypeScope) (t : ClassTable) : Prop :=
  ∀ b ∈ scope, ∃ p, t.typeParam? b.2 = some p ∧ p.name = b.1

/-- The scope of a class binds type parameters under their names. -/
lemma ClassTable.namesParams_scopeOf (t : ClassTable) (id : ClassId) :
    (t.scopeOf id).NamesParams t := by
  intro b hb
  unfold ClassTable.scopeOf at hb
  split at hb
  · cases hb
  · obtain ⟨x, -, hx⟩ := List.mem_filterMap.1 hb
    obtain ⟨p, hp, rfl⟩ := Option.map_eq_some_iff.1 hx
    exact ⟨p, hp, rfl⟩

/-- A variable that is found in such a scope has the name under which it is found. -/
lemma TypeScope.NamesParams.of_find? {scope : TypeScope} {t : ClassTable}
    (h : scope.NamesParams t) {name : String} {x : VarId} (hx : scope.find? name = some x) :
    ∃ p, t.typeParam? x = some p ∧ p.name = name := by
  unfold TypeScope.find? at hx
  split at hx
  · cases hx
  · obtain ⟨b, hb, rfl⟩ := Option.map_eq_some_iff.1 hx
    obtain ⟨p, hp, hname⟩ := h b (List.mem_reverse.1 (List.mem_of_find?_eq_some hb))
    have key : b.1 = name := by simpa using List.find?_some hb
    exact ⟨p, hp, hname.trans key⟩

namespace Signature

section Respelling

variable {t : ClassTable} {scope : TypeScope}

/-- A name with arguments that can be spelled denotes a type that can be spelled. It may stand for a
type variable, which is written as it was read, or for a class, which is written with its full
name.

**Proof sketch.** Resolving the name has two cases. A type variable has no arguments, and is written
with the name of its parameter. A class is found under its full name too
(`exists_fullName_of_lookup`), and its arguments can be spelled (`exists_prints_args`). -/
lemma exists_respells_named (ht : t.Lawful) (hscope : scope.NamesParams t) {w : String}
    {segments : List String} (hn : IsName w segments) {args : List (List Token × Signature)}
    (members : ∀ a ∈ args, ∀ ty, a.2.resolve t scope = .ok ty → ty.Defined t →
      ∃ toks sig, Respells t scope .arg ty toks sig)
    {ty : Ty} (hty : (Signature.named (".".intercalate (w :: segments))
      (args.map (·.2))).resolve t scope = .ok ty) (hdef : ty.Defined t) :
    ∃ toks sig, Respells t scope .type ty toks sig := by
  have denoted := hty
  rw [resolve] at hty
  split at hty
  · next x hx =>
    split at hty
    · next hargs =>
      cases hty
      rw [List.isEmpty_iff.1 hargs] at denoted
      obtain ⟨p, hp, hname⟩ := hscope.of_find? hx
      refine ⟨_, _, .named segments hn.keyword, ?_, denoted⟩
      simp only [Ty.render, Ty.renderVar, hp, hname]
      exact prints_name hn.first hn.further
    · cases hty
  · next hnone =>
    split at hty
    · cases hty
    · next id hid =>
      obtain ⟨tys, htys, rfl⟩ := exists_of_map_eq_ok hty
      obtain ⟨d, hd⟩ := Option.isSome_iff_exists.1 (hdef id tys (by simp [Ty.subterms]))
      obtain ⟨w', segments', hn', hname, hnone', hid'⟩ :=
        exists_fullName_of_lookup ht hn hnone hid hd
      obtain ⟨args', derived, resolved, prints⟩ := exists_prints_args members htys
        fun a ha c bs hc => hdef c bs (Ty.mem_subterms_cls ha hc)
      exact exists_respells_class hn' hname hnone' hid' hd derived resolved prints

/-- The words of a member are words of the list. -/
lemma mem_intercalate (sep : Token) {tok : Token} {parts : List (List Token)} {part : List Token}
    (hpart : part ∈ parts) (htok : tok ∈ part) : tok ∈ [sep].intercalate parts := by
  induction parts with
  | nil => cases hpart
  | cons first parts ih =>
    cases parts with
    | nil =>
      obtain rfl := List.mem_singleton.1 hpart
      simpa using htok
    | cons second parts =>
      rw [List.intercalate_cons_cons]
      rcases List.mem_cons.1 hpart with rfl | hpart
      · exact List.mem_append_left _ (List.mem_append_left _ htok)
      · exact List.mem_append_right _ (ih hpart)

/-- **The spelling of a type is made of tokens that the grammar derives, and they denote the type.**

**Proof sketch.** Induction on the derivation of the text that the type was read from. -/
theorem exists_respells_of_derives (ht : t.Lawful) (hscope : scope.NamesParams t) {cat : Category}
    {toks : List Token} {sig : Signature} (h : Derives cat toks sig)
    (words : ∀ w, Token.word w ∈ toks → isWord w.toList = true) {ty : Ty}
    (hty : sig.resolve t scope = .ok ty) (hdef : ty.Defined t) :
    ∃ toks' sig', Respells t scope cat ty toks' sig' := by
  induction h generalizing ty with
  | prim p =>
    cases hty
    refine ⟨_, _, .prim p, ?_, rfl⟩
    rw [Ty.render]
    exact .word (words _ (by simp))
  | @named w segments hw =>
    have hn : IsName w segments := by
      refine ⟨hw, words w (by simp [nameTokens]), fun v hv => words v ?_⟩
      simp [nameTokens, hv]
    have hty' : (Signature.named (".".intercalate (w :: segments))
        (([] : List (List Token × Signature)).map (·.2))).resolve t scope = .ok ty := hty
    exact exists_respells_named ht hscope hn (by simp) hty' hdef
  | @generic w segments args hw hne _ ih =>
    have hn : IsName w segments := by
      refine ⟨hw, words w (by simp [nameTokens]), fun v hv => words v ?_⟩
      simp [nameTokens, hv]
    refine exists_respells_named ht hscope hn (fun a ha ty hty hdef => ?_) hty hdef
    refine ih a ha (fun v hv => words v ?_) hty hdef
    have member := mem_intercalate (.mark ',') (List.mem_map_of_mem (f := (·.1)) ha) hv
    simp [member]
  | array _ ih =>
    obtain ⟨elem, helem, rfl⟩ := exists_of_map_eq_ok hty
    obtain ⟨toks', sig', derives, prints, resolves⟩ :=
      ih (fun v hv => words v (List.mem_append_left _ hv)) helem
        fun c as hc => hdef c as (List.mem_cons_of_mem _ hc)
    refine ⟨_, _, .array derives, ?_, by simp [resolve, resolves, Except.map]⟩
    rw [Ty.render, String.toList_append]
    exact prints.append (.mark (by decide) (.mark (by decide) .nil)) (endsWord_mark (by decide) _)
      (by simp)
  | type _ ih =>
    obtain ⟨toks', sig', derives, prints, resolves⟩ := ih words hty hdef
    exact ⟨toks', sig', .type derives, prints, resolves⟩
  | wild =>
    cases hty
    refine ⟨_, _, .wild, ?_, rfl⟩
    rw [Ty.render]
    exact .mark (by decide) .nil
  | wildExtends _ ih =>
    obtain ⟨upper, hupper, rfl⟩ := exists_of_map_eq_ok hty
    obtain ⟨toks', sig', derives, prints, resolves⟩ :=
      ih (fun v hv => words v (by simp [hv])) hupper
        fun c as hc => hdef c as (List.mem_cons_of_mem _ hc)
    refine ⟨_, _, .wildExtends derives, ?_, by simp [resolve, resolves, Except.map]⟩
    rw [Ty.render, String.toList_append]
    exact prints_wildcard "extends" (by decide) prints
  | wildSuper _ ih =>
    obtain ⟨lower, hlower, rfl⟩ := exists_of_map_eq_ok hty
    obtain ⟨toks', sig', derives, prints, resolves⟩ :=
      ih (fun v hv => words v (by simp [hv])) hlower
        fun c as hc => hdef c as (List.mem_cons_of_mem _ hc)
    refine ⟨_, _, .wildSuper derives, ?_, by simp [resolve, resolves, Except.map]⟩
    rw [Ty.render, String.toList_append]
    exact prints_wildcard "super" (by decide) prints

end Respelling

end Signature

namespace Ty

variable {t : ClassTable} {scope : TypeScope}

/-- The spelling of a type that was read is read as the same type. -/
lemma parse_render (ht : t.Lawful) (hscope : scope.NamesParams t) {input : String} {ty : Ty}
    (h : Ty.parse t scope input = .ok ty) (hdef : ty.Defined t) :
    Ty.parse t scope (ty.render t .full) = .ok ty := by
  obtain ⟨sig, hsig, hty⟩ := exists_of_bind_eq_ok h
  obtain ⟨toks, htoks, hd⟩ := Signature.parse_eq_ok_iff.1 hsig
  obtain ⟨toks', sig', derives, prints, resolves⟩ := Signature.exists_respells_of_derives ht hscope
    hd (fun w hw => Signature.isWord_of_tokens htoks hw) hty hdef
  have whole : Signature.Tokens (ty.render t .full).toList toks' := by
    simpa using prints [] [] (by simp [Signature.EndsWord]) .nil
  have read : Signature.parse (ty.render t .full) = .ok sig' :=
    Signature.parse_eq_ok_iff.2 ⟨toks', whole, derives⟩
  rw [Ty.parse, read]
  exact resolves

/-- **Writing a type and reading it again gives the type**, for every type that was read in a
reachable table and mentions defined classes only. So different types of this kind are spelled
differently.

**Proof sketch.** The spelling is made of tokens that the grammar derives, as a signature that
denotes the type, and the reader reads what the grammar derives. -/
theorem parse_render_of_parse (ht : t.Reachable) (hscope : scope = [] ∨ ∃ id, scope = t.scopeOf id)
    {input : String} {ty : Ty} (h : Ty.parse t scope input = .ok ty) (hdef : ty.Defined t) :
    Ty.parse t scope (ty.render t .full) = .ok ty ∧
      ∀ input' ty', Ty.parse t scope input' = .ok ty' → ty'.Defined t →
        ty'.render t .full = ty.render t .full → ty' = ty := by
  have named : scope.NamesParams t := by
    rcases hscope with rfl | ⟨id, rfl⟩
    · exact fun b hb => nomatch hb
    · exact t.namesParams_scopeOf id
  have again := parse_render ht.lawful named h hdef
  refine ⟨again, fun input' ty' h' hdef' eq => ?_⟩
  have again' := parse_render ht.lawful named h' hdef'
  rw [eq] at again'
  exact Except.ok.inj (again'.symm.trans again)

open ClassTable (nested nested_eq)

/-- `B<String, ? super X[]>` in the scope of `A<X>`. -/
def stringAndArrays : Ty := .cls ⟨14⟩ [.cls ⟨1⟩ [], .wildSuper (.array (.var ⟨2⟩))]

/-- The text leaves out the package of `String`. -/
lemma parse_stringAndArrays :
    Ty.parse nested (nested.scopeOf ⟨15⟩) "com.example.B<String,? super X []>" =
      .ok stringAndArrays := by
  rw [nested_eq]
  decide +kernel

/-- Its classes are defined. -/
lemma defined_stringAndArrays : stringAndArrays.Defined nested := by
  intro id args h
  have classes : id = ⟨14⟩ ∨ id = ⟨1⟩ := by
    simp [stringAndArrays, subterms, subtermsAll] at h
    tauto
  rw [nested_eq]
  rcases classes with rfl | rfl <;> rfl

/-- It is written with the package of `String`, and read again from that. -/
theorem parse_render_stringAndArrays :
    Ty.parse nested (nested.scopeOf ⟨15⟩)
        "com.example.B<java.lang.String, ? super X[]>" = .ok stringAndArrays ∧
      (∀ input ty, Ty.parse nested (nested.scopeOf ⟨15⟩) input = .ok ty → ty.Defined nested →
        ty.render nested .full = stringAndArrays.render nested .full → ty = stringAndArrays) := by
  have again := parse_render_of_parse (.declare _ .core) (.inr ⟨⟨15⟩, rfl⟩) parse_stringAndArrays
    defined_stringAndArrays
  refine ⟨?_, again.2⟩
  have spelled : stringAndArrays.render nested .full =
      "com.example.B<java.lang.String, ? super X[]>" := by
    rw [nested_eq]
    decide
  rw [← spelled]
  exact again.1

end Ty

end ContainerLint
