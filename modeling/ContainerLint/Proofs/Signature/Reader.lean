import ContainerLint.Proofs.Signature.Grammar

/-!
# The reader and the grammar

The grammar says in words what a signature is. The reader works on the characters, with a budget,
and goes back where a word is not the one that it looked for. Both describe the same texts.

## Main definitions

* `Signature.Reads` — the tokens between two places of a text.
* `Signature.Parser.Readable` — what the reader should make of derived tokens.
* `Signature.Parser.StopsWithin` — a result that leaves an end of the text.

## Main results

* `Signature.Parser.derives_of_typeAt` — what the reader reads, the grammar derives.
* `Signature.Parser.readable_of_derives` — what the grammar derives, the reader reads.
* `Signature.Parser.StopsWithin.typeAt` — the reader stops at a place in the text.
* `Signature.parse_iff_spells` — the reader accepts the texts of the grammar and no others.

## Design

Whether a text can be cut behind some token depends on what follows it. The lemmas about the reader
therefore speak of the whole text that remains, and of the tokens that remain with it.
-/

set_option autoImplicit false

namespace ContainerLint

open Text

namespace Text

/-- The length in bytes of two texts, one behind the other. -/
lemma byteLength_append (cs ds : List Char) :
    byteLength (cs ++ ds) = byteLength cs + byteLength ds := by
  induction cs with
  | nil => simp [byteLength]
  | cons c cs ih => simp [byteLength, ih, Nat.add_assoc]

/-- The length in bytes is that of the string. -/
lemma utf8ByteSize_ofList (cs : List Char) :
    (String.ofList cs).utf8ByteSize = byteLength cs := by
  induction cs with
  | nil => rfl
  | cons c cs ih =>
    rw [String.ofList_cons, String.utf8ByteSize_append, ih, String.utf8ByteSize_singleton]
    rfl

end Text

namespace Signature

/-! ## What the reader reads, the grammar derives -/

/-- The reader gets from `cs` to `rest` over the tokens `toks`. -/
def Reads (cs : List Char) (toks : List Token) (rest : List Char) : Prop :=
  ∀ more, Tokens rest more → Tokens cs (toks ++ more)

namespace Reads

variable {cs rest rest' : List Char} {toks toks' : List Token} {c : Char} {w : String}

/-- Nothing is read. -/
lemma refl (cs : List Char) : Reads cs [] cs := fun _ h => h

/-- Tokens are read one after the other. -/
lemma trans (h : Reads cs toks rest) (h' : Reads rest toks' rest') :
    Reads cs (toks ++ toks') rest' := by
  intro more hmore
  rw [List.append_assoc]
  exact h _ (h' more hmore)

/-- A mark that is eaten is read. -/
lemma mark (h : Parser.eat? c cs = some rest) (hc : c ∈ Token.marks) : Reads cs [.mark c] rest :=
  fun _ hmore => Parser.tokens_of_eat? h hc hmore

/-- So is a word. -/
lemma word (h : Parser.word? cs = some (w, rest)) : Reads cs [.word w] rest :=
  fun _ hmore => Parser.tokens_of_word? h hmore

end Reads

namespace Parser

/-- What is read of a name are segments behind dots. -/
lemma exists_segments_of_nameAt {name name' : String} {cs rest : List Char}
    (h : nameAt name cs = .ok (name', rest)) :
    ∃ segments, name' = ".".intercalate (name :: segments) ∧
      Reads cs (segments.flatMap fun v => [.mark '.', .word v]) rest := by
  fun_induction nameAt name cs with
  | case1 name cs _ =>
    cases h
    exact ⟨[], rfl, .refl _⟩
  | case2 => cases h
  | case3 name cs after hdot segment tail hw ih =>
    obtain ⟨segments, rfl, reads⟩ := ih h
    exact ⟨segment :: segments, rfl, ((Reads.mark hdot (by decide)).trans (.word hw)).trans reads⟩

/-- What is read behind a type makes it an array type. -/
lemma derives_of_arraysAt {sig sig' : Signature} {cs rest : List Char} {toks : List Token}
    (h : arraysAt sig cs = .ok (sig', rest)) (hs : Derives .type toks sig) :
    ∃ brackets, Derives .type (toks ++ brackets) sig' ∧ Reads cs brackets rest := by
  fun_induction arraysAt sig cs generalizing toks with
  | case1 sig cs _ =>
    cases h
    exact ⟨[], by simpa using hs, .refl _⟩
  | case2 => cases h
  | case3 sig cs after hopen tail hclose ih =>
    obtain ⟨brackets, hs, reads⟩ := ih h (.array hs)
    refine ⟨[.mark '[', .mark ']'] ++ brackets, by simpa using hs, ?_⟩
    exact ((Reads.mark hopen (by decide)).trans (.mark hclose (by decide))).trans reads

/-- A keyword that is read is a word that is read. -/
lemma word?_of_keyword? {keyword : String} {cs rest : List Char}
    (h : keyword? keyword cs = some rest) : word? cs = some (keyword, rest) := by
  unfold keyword? at h
  split at h
  · next word tail hw =>
    split at h
    · next eq =>
      cases h
      exact eq_of_beq eq ▸ hw
    · cases h
  · cases h

/-- What is read as an argument, the grammar derives, if this is so of types.

**Proof sketch.** One case for each form of an argument: a type, which is the assumption, and the
three wildcards, whose question mark and keyword are read before a type or nothing. -/
lemma derives_of_argAt {n : Nat} {cs rest : List Char} {sig : Signature}
    (ih : ∀ {cs rest : List Char} {sig : Signature}, typeAt n cs = .ok (sig, rest) →
      ∃ toks, Derives .type toks sig ∧ Reads cs toks rest)
    (h : argAt (typeAt n) cs = .ok (sig, rest)) :
    ∃ toks, Derives .arg toks sig ∧ Reads cs toks rest := by
  have keyword {keyword : String} {cs rest : List Char}
      (h : keyword? keyword cs = some rest) : Reads cs [.word keyword] rest :=
    .word (word?_of_keyword? h)
  unfold argAt at h
  split at h
  · obtain ⟨toks, hd, reads⟩ := ih h
    exact ⟨toks, .type hd, reads⟩
  · next after hmark =>
    have first := Reads.mark hmark (by decide)
    split at h
    · next after' hword =>
      obtain ⟨⟨upper, tail⟩, htype, eq⟩ := exists_of_map_eq_ok h
      cases eq
      obtain ⟨toks, hd, reads⟩ := ih htype
      exact ⟨_, .wildExtends hd, (first.trans (keyword hword)).trans reads⟩
    · split at h
      · next after' hword =>
        obtain ⟨⟨lower, tail⟩, htype, eq⟩ := exists_of_map_eq_ok h
        cases eq
        obtain ⟨toks, hd, reads⟩ := ih htype
        exact ⟨_, .wildSuper hd, (first.trans (keyword hword)).trans reads⟩
      · cases h
        exact ⟨_, .wild, first⟩

/-- **What the reader reads, the grammar derives**, for types and argument lists.

**Proof sketch.** Induction on the budget, for both at once. -/
lemma derives_of_typeAt (n : Nat) :
    (∀ {cs rest : List Char} {sig : Signature}, typeAt n cs = .ok (sig, rest) →
      ∃ toks, Derives .type toks sig ∧ Reads cs toks rest) ∧
    ∀ {cs rest : List Char} {sigs : List Signature}, argsAt n cs = .ok (sigs, rest) →
      ∃ args : List (List Token × Signature), args ≠ [] ∧ (∀ a ∈ args, Derives .arg a.1 a.2) ∧
        args.map (·.2) = sigs ∧
        Reads cs ([.mark ','].intercalate (args.map (·.1)) ++ [.mark '>']) rest := by
  induction n with
  | zero => exact ⟨fun h => by simp [typeAt] at h, fun h => by simp [argsAt] at h⟩
  | succ n ih =>
    obtain ⟨ihType, ihArgs⟩ := ih
    refine ⟨fun {cs rest sig} h => ?_, fun {cs rest sigs} h => ?_⟩
    · unfold typeAt at h
      split at h
      · cases h
      · next w after hw =>
        have first := Reads.word hw
        split at h
        · next p hp =>
          have keyword : p.keyword = w := by simpa using List.find?_some hp
          subst keyword
          obtain ⟨brackets, hd, reads⟩ := derives_of_arraysAt h (.prim p)
          exact ⟨_, hd, first.trans reads⟩
        · next hp =>
          obtain ⟨⟨name, tail⟩, hname, h⟩ := exists_of_bind_eq_ok h
          obtain ⟨segments, rfl, segmentsRead⟩ := exists_segments_of_nameAt hname
          have nameRead : Reads cs (nameTokens w segments) tail := first.trans segmentsRead
          dsimp only at h
          split at h
          · obtain ⟨brackets, hd, reads⟩ := derives_of_arraysAt h (.named segments hp)
            exact ⟨_, hd, nameRead.trans reads⟩
          · next after' hopen =>
            obtain ⟨⟨sigs, tail'⟩, hargs, h⟩ := exists_of_bind_eq_ok h
            obtain ⟨args, hne, derived, rfl, argsRead⟩ := ihArgs hargs
            obtain ⟨brackets, hd, reads⟩ := derives_of_arraysAt h (.generic segments hp hne derived)
            refine ⟨_, hd, ?_⟩
            have opened := (nameRead.trans (.mark hopen (by decide))).trans argsRead
            simpa using opened.trans reads
    · rw [argsAt] at h
      obtain ⟨⟨arg, tail⟩, harg, h⟩ := exists_of_bind_eq_ok h
      obtain ⟨toks, hd, argRead⟩ := derives_of_argAt ihType harg
      dsimp only at h
      split at h
      · next after hcomma =>
        obtain ⟨⟨sigs', tail'⟩, hargs, h⟩ := exists_of_bind_eq_ok h
        cases h
        obtain ⟨args, hne, derived, rfl, argsRead⟩ := ihArgs hargs
        refine ⟨(toks, arg) :: args, by simp, ?_, rfl, ?_⟩
        · intro a ha
          rcases List.mem_cons.1 ha with rfl | ha
          · exact hd
          · exact derived a ha
        · obtain ⟨b, bs, rfl⟩ := List.exists_cons_of_ne_nil hne
          simpa [List.intercalate_cons_cons] using
            (argRead.trans (.mark hcomma (by decide))).trans argsRead
      · split at h
        · next after hclose =>
          cases h
          refine ⟨[(toks, arg)], by simp, by simpa using hd, rfl, ?_⟩
          simpa using argRead.trans (.mark hclose (by decide))
        · cases h

/-! ## What the grammar derives, the reader reads -/

/-- The tokens go on as they may behind an argument. -/
def EndsArg (more : List Token) : Prop :=
  more.head? = some (.mark ',') ∨ more.head? = some (.mark '>')

/-- What the reader should make of derived tokens. A type is read up to the brackets that may follow
it, unless more of its name or its arguments follow; an argument is read as far as it goes. -/
def Readable : Category → List Token → Signature → Prop
  | .type, toks, sig => ∀ n cs more, toks.length ≤ n → Tokens cs (toks ++ more) →
      more.head? ≠ some (.mark '.') → more.head? ≠ some (.mark '<') →
      ∃ rest, Tokens rest more ∧ typeAt n cs = arraysAt sig rest
  | .arg, toks, sig => ∀ n cs more, toks.length ≤ n → Tokens cs (toks ++ more) →
      EndsArg more → ∃ rest, Tokens rest more ∧ argAt (typeAt n) cs = .ok (sig, rest)

section Completeness

variable {n : Nat} {w : String} {cs rest : List Char} {toks more : List Token}
  {sig : Signature}

/-- What follows an argument is a comma or a closing bracket. -/
lemma EndsArg.head?_ne (h : EndsArg more) {tok : Token} (comma : tok ≠ .mark ',')
    (close : tok ≠ .mark '>') : more.head? ≠ some tok := by
  rcases h with h | h
  · rw [h]
    exact fun eq => comma (Option.some.inj eq).symm
  · rw [h]
    exact fun eq => close (Option.some.inj eq).symm

/-- A name is read with all its segments.

**Proof sketch.** By induction on the segments. Each of them is read as a dot and a word. After the
last one there is no dot, so that reading the name stops there. -/
lemma nameAt_of_tokens (name : String) (segments : List String)
    (h : Tokens cs ((segments.flatMap fun v => [.mark '.', .word v]) ++ more))
    (hmore : more.head? ≠ some (.mark '.')) :
    ∃ rest, Tokens rest more ∧
      nameAt name cs = .ok (".".intercalate (name :: segments), rest) := by
  induction segments generalizing name cs with
  | nil =>
    refine ⟨cs, h, ?_⟩
    rw [nameAt]
    split
    · rfl
    · next hdot =>
      rw [eat?_eq_none_of_tokens h (by decide) hmore] at hdot
      cases hdot
  | cons v segments ih =>
    obtain ⟨after, hdot, h⟩ := exists_eat?_of_tokens h
    obtain ⟨after', hword, h⟩ := exists_word?_of_tokens h
    obtain ⟨rest, hrest, read⟩ := ih (name ++ "." ++ v) h
    refine ⟨rest, hrest, ?_⟩
    rw [nameAt]
    split
    · next hnone => simp [hdot] at hnone
    · next hsome =>
      obtain rfl := Option.some.inj (hdot.symm.trans hsome)
      split
      · next hnone => simp [hword] at hnone
      · next hsome' =>
        cases hword.symm.trans hsome'
        exact read

/-- Nothing is read behind a type if no bracket follows. -/
lemma arraysAt_eq_ok (h : Tokens cs more) (hmore : more.head? ≠ some (.mark '[')) :
    arraysAt sig cs = .ok (sig, cs) := by
  rw [arraysAt]
  split
  · rfl
  · next hopen =>
    rw [eat?_eq_none_of_tokens h (by decide) hmore] at hopen
    cases hopen

/-- Brackets behind a type are read. -/
lemma arraysAt_of_tokens (h : Tokens cs (.mark '[' :: .mark ']' :: more)) :
    ∃ rest, Tokens rest more ∧ arraysAt sig cs = arraysAt (.array sig) rest := by
  obtain ⟨after, hopen, h⟩ := exists_eat?_of_tokens h
  obtain ⟨rest, hclose, h⟩ := exists_eat?_of_tokens h
  refine ⟨rest, h, ?_⟩
  rw [arraysAt]
  split
  · next hnone => simp [hopen] at hnone
  · next hsome =>
    obtain rfl := Option.some.inj (hopen.symm.trans hsome)
    split
    · next hnone => simp [hclose] at hnone
    · next hsome' =>
      obtain rfl := Option.some.inj (hclose.symm.trans hsome')
      rfl

/-- A type begins with a word. -/
lemma exists_word_of_derives (h : Derives .type toks sig) : ∃ w tail, toks = .word w :: tail := by
  generalize hcat : Category.type = cat at h
  induction h with
  | prim | named => exact ⟨_, _, rfl⟩
  | generic => exact ⟨_, _, rfl⟩
  | array _ ih =>
    obtain ⟨w, tail, rfl⟩ := ih rfl
    exact ⟨w, _, rfl⟩
  | type | wild | wildExtends | wildSuper => cases hcat

/-- A keyword is recognised. -/
lemma readable_prim (p : Primitive) : Readable .type [.word p.keyword] (.prim p) := by
  intro n cs more hn h _ _
  obtain ⟨rest, hword, hrest⟩ := exists_word?_of_tokens h
  obtain ⟨m, rfl⟩ : ∃ m, n = m + 1 := ⟨n - 1, by simp at hn; omega⟩
  have keyword : Primitive.ofKeyword? p.keyword = some p := by
    cases p <;> rfl
  refine ⟨rest, hrest, ?_⟩
  rw [typeAt, hword]
  simp only [keyword]

/-- A name is recognised, and what follows it is looked at. -/
lemma exists_typeAt_of_nameTokens {segments : List String}
    (h : Tokens cs (nameTokens w segments ++ more)) (hw : Primitive.ofKeyword? w = none)
    (hmore : more.head? ≠ some (.mark '.')) (n : Nat) :
    ∃ rest, Tokens rest more ∧ typeAt (n + 1) cs =
      match eat? '<' rest with
      | none => arraysAt (.named (".".intercalate (w :: segments)) []) rest
      | some rest => argsAt n rest >>= fun (args, rest) =>
          arraysAt (.named (".".intercalate (w :: segments)) args) rest := by
  obtain ⟨after, hword, h⟩ := exists_word?_of_tokens h
  obtain ⟨rest, hrest, hname⟩ := nameAt_of_tokens w segments h hmore
  refine ⟨rest, hrest, ?_⟩
  rw [typeAt, hword]
  simp only [hw, hname]
  rfl

/-- A name without arguments is read. -/
lemma readable_named (segments : List String) (hw : Primitive.ofKeyword? w = none) :
    Readable .type (nameTokens w segments) (.named (".".intercalate (w :: segments)) []) := by
  intro n cs more hn h hdot hangle
  obtain ⟨m, rfl⟩ : ∃ m, n = m + 1 := ⟨n - 1, by simp [nameTokens] at hn; omega⟩
  obtain ⟨rest, hrest, read⟩ := exists_typeAt_of_nameTokens h hw hdot m
  refine ⟨rest, hrest, ?_⟩
  rw [read, eat?_eq_none_of_tokens hrest (by decide) hangle]

/-- An argument list is read if its members are.

**Proof sketch.** Induction on the members. Each one is followed by a comma or by the bracket that
closes the list, so it is read as far as it goes. -/
lemma argsAt_of_readable {args : List (List Token × Signature)} (hne : args ≠ [])
    (members : ∀ a ∈ args, Readable .arg a.1 a.2)
    (hn : ([.mark ','].intercalate (args.map (·.1)) : List Token).length < n)
    (h : Tokens cs ([.mark ','].intercalate (args.map (·.1)) ++ .mark '>' :: more)) :
    ∃ rest, Tokens rest more ∧ argsAt n cs = .ok (args.map (·.2), rest) := by
  induction args generalizing n cs with
  | nil => exact absurd rfl hne
  | cons a args ih =>
    obtain ⟨m, rfl⟩ : ∃ m, n = m + 1 := ⟨n - 1, by omega⟩
    have member := members a List.mem_cons_self
    cases args with
    | nil =>
      simp only [List.map_cons, List.map_nil, List.intercalate_singleton] at hn h
      obtain ⟨after, hafter, harg⟩ := member m cs _ (by omega) h (.inr rfl)
      obtain ⟨rest, hclose, hrest⟩ := exists_eat?_of_tokens hafter
      have hcomma : eat? ',' after = none :=
        eat?_eq_none_of_tokens hafter (by decide) (by simp)
      refine ⟨rest, hrest, ?_⟩
      simp [argsAt, harg, hcomma, hclose, bind, Except.bind, pure, Except.pure]
    | cons b args =>
      simp only [List.map_cons, List.intercalate_cons_cons, List.append_assoc, List.length_append,
        List.length_singleton] at hn h
      obtain ⟨after, hafter, harg⟩ := member m cs _ (by omega) h (.inl rfl)
      obtain ⟨after', hcomma, hafter'⟩ := exists_eat?_of_tokens hafter
      obtain ⟨rest, hrest, hargs⟩ := ih (by simp)
        (fun a ha => members a (List.mem_cons_of_mem _ ha)) (n := m) (by simp; omega) hafter'
      refine ⟨rest, hrest, ?_⟩
      simp [argsAt, harg, hcomma, hargs, bind, Except.bind, pure, Except.pure]

/-- A name with arguments is read if these are. -/
lemma readable_generic (segments : List String) (hw : Primitive.ofKeyword? w = none)
    {args : List (List Token × Signature)} (hne : args ≠ [])
    (members : ∀ a ∈ args, Readable .arg a.1 a.2) :
    Readable .type
      (nameTokens w segments ++ .mark '<' :: [.mark ','].intercalate (args.map (·.1)) ++
        [.mark '>'])
      (.named (".".intercalate (w :: segments)) (args.map (·.2))) := by
  intro n cs more hn h _ _
  simp only [nameTokens, List.length_append, List.length_cons] at hn
  obtain ⟨m, rfl⟩ : ∃ m, n = m + 1 := ⟨n - 1, by omega⟩
  simp only [List.append_assoc, List.cons_append, List.nil_append] at h
  obtain ⟨after, hafter, read⟩ := exists_typeAt_of_nameTokens h hw (by simp) m
  obtain ⟨after', hopen, hafter'⟩ := exists_eat?_of_tokens hafter
  obtain ⟨rest, hrest, hargs⟩ := argsAt_of_readable hne members (n := m) (by omega) hafter'
  refine ⟨rest, hrest, ?_⟩
  rw [read, hopen]
  simp only [hargs]
  rfl

/-- The word that comes first is compared with a keyword. -/
lemma exists_keyword?_of_tokens (h : Tokens cs (.word w :: more)) :
    ∃ rest, Tokens rest more ∧
      ∀ keyword, keyword? keyword cs = if w = keyword then some rest else none := by
  obtain ⟨rest, hword, hrest⟩ := exists_word?_of_tokens h
  refine ⟨rest, hrest, fun keyword => ?_⟩
  simp [keyword?, hword]

/-- A type at the end of an argument is read as far as it goes. -/
lemma Readable.typeAt_eq_ok (h : Readable .type toks sig) (hn : toks.length ≤ n)
    (ht : Tokens cs (toks ++ more)) (hend : EndsArg more) :
    ∃ rest, Tokens rest more ∧ typeAt n cs = .ok (sig, rest) := by
  obtain ⟨rest, hrest, read⟩ := h n cs more hn ht (hend.head?_ne (by decide) (by decide))
    (hend.head?_ne (by decide) (by decide))
  refine ⟨rest, hrest, ?_⟩
  rw [read, arraysAt_eq_ok hrest (hend.head?_ne (by decide) (by decide))]

/-- **What the grammar derives, the reader reads.**

**Proof sketch.** Induction on the derivation. A type that becomes an array type is read up to its
brackets; a type that is an argument or the bound of a wildcard is read to its end. -/
lemma readable_of_derives {cat : Category} (h : Derives cat toks sig) : Readable cat toks sig := by
  induction h with
  | prim p => exact readable_prim p
  | named segments hw => exact readable_named segments hw
  | generic segments hw hne _ ih => exact readable_generic segments hw hne ih
  | array _ ih =>
    intro n cs more hn h _ _
    rw [List.append_assoc] at h
    obtain ⟨after, hafter, read⟩ := ih n cs _ (by simp at hn; omega) h (by simp) (by simp)
    obtain ⟨rest, hrest, brackets⟩ := arraysAt_of_tokens hafter
    exact ⟨rest, hrest, by rw [read, brackets]⟩
  | type hd ih =>
    intro n cs more hn h hend
    obtain ⟨w, tail, rfl⟩ := exists_word_of_derives hd
    have hmark : eat? '?' cs = none := eat?_eq_none_of_tokens h (by decide) (by simp)
    obtain ⟨rest, hrest, read⟩ := ih.typeAt_eq_ok hn h hend
    exact ⟨rest, hrest, by simp [argAt, hmark, read]⟩
  | wild =>
    intro n cs more _ h hend
    obtain ⟨rest, hmark, hrest⟩ := exists_eat?_of_tokens h
    have hword : word? rest = none :=
      word?_eq_none_of_tokens hrest fun w => hend.head?_ne (by simp) (by simp)
    exact ⟨rest, hrest, by simp [argAt, hmark, keyword?, hword]⟩
  | wildExtends _ ih | wildSuper _ ih =>
    intro n cs more hn h hend
    obtain ⟨after, hmark, h⟩ := exists_eat?_of_tokens h
    obtain ⟨after', h, hkeyword⟩ := exists_keyword?_of_tokens h
    obtain ⟨rest, hrest, read⟩ := ih.typeAt_eq_ok (n := n) (by simp at hn; omega) h hend
    exact ⟨rest, hrest, by simp [argAt, hmark, hkeyword, read, Except.map]⟩

end Completeness

/-- There are no more tokens than characters. -/
lemma length_le_of_tokens {cs : List Char} {toks : List Token} (h : Tokens cs toks) :
    toks.length ≤ cs.length := by
  induction h with
  | nil => exact Nat.le_refl _
  | blank _ _ ih => exact Nat.le_succ_of_le ih
  | mark _ _ ih => exact Nat.succ_le_succ ih
  | word hw _ _ ih =>
    obtain ⟨d, ds, rfl, -, -⟩ := exists_cons_of_isWord hw
    simp only [List.length_cons, List.length_append]
    omega

/-- A whole text is read exactly if it is made of tokens that the grammar derives.

**Proof sketch.** From left to right the grammar derives what was read, and nothing but blanks is
left. From right to left the length of the text is budget enough for its tokens, so the reader
follows the derivation to the end. -/
lemma wholeType_eq_ok_iff {cs : List Char} {sig : Signature} :
    wholeType cs = .ok sig ↔ ∃ toks, Tokens cs toks ∧ Derives .type toks sig := by
  constructor
  · intro h
    obtain ⟨⟨sig', rest⟩, htype, h⟩ := exists_of_bind_eq_ok h
    obtain ⟨toks, hd, reads⟩ := (derives_of_typeAt _).1 htype
    dsimp only at h
    split at h
    · next hend =>
      cases h
      refine ⟨toks, ?_, hd⟩
      simpa using reads [] (dropBlanks_eq_nil_iff.1 hend)
    · cases h
  · rintro ⟨toks, ht, hd⟩
    have budget := length_le_of_tokens ht
    rw [← List.append_nil toks] at ht
    obtain ⟨rest, hrest, read⟩ :=
      readable_of_derives hd (cs.length + 1) cs [] (by omega) ht (by simp) (by simp)
    rw [arraysAt_eq_ok hrest (by simp)] at read
    simp [wholeType, read, bind, Except.bind, pure, Except.pure, dropBlanks_eq_nil_iff.2 hrest]

/-! ## Where the reader stops -/

/-- A result of reading `cs` leaves an end of `cs`, also if it is a failure. -/
def StopsWithin {α : Type} (cs : List Char) : Except Stop (α × List Char) → Prop
  | .ok (_, rest) => rest <:+ cs
  | .error stop => stop.rest <:+ cs

/-- What is left after white space. -/
lemma dropBlanks_suffix (cs : List Char) : dropBlanks cs <:+ cs :=
  List.dropWhile_suffix isBlank

/-- What is left after a character. -/
lemma suffix_of_eat? {c : Char} {cs rest : List Char} (h : eat? c cs = some rest) :
    rest <:+ cs := by
  unfold eat? at h
  split at h
  · cases h
  · next d tail eq =>
    split at h
    · cases h
      exact (eq ▸ List.suffix_cons d rest).trans (dropBlanks_suffix cs)
    · cases h

/-- What is left after a word. -/
lemma suffix_of_word? {w : String} {cs rest : List Char} (h : word? cs = some (w, rest)) :
    rest <:+ cs := by
  unfold word? at h
  split at h
  · cases h
  · next d tail eq =>
    split at h
    · cases h
      have inner : tail.dropWhile isWordRest <:+ d :: tail :=
        (List.dropWhile_suffix isWordRest).trans (List.suffix_cons d tail)
      exact (eq ▸ inner).trans (dropBlanks_suffix cs)
    · cases h

namespace StopsWithin

variable {α β : Type} {cs cs' : List Char}

/-- An end of an end of a text. -/
lemma mono {x : Except Stop (α × List Char)} (hx : StopsWithin cs x) (h : cs <:+ cs') :
    StopsWithin cs' x := by
  cases x with
  | error stop => exact List.IsSuffix.trans hx h
  | ok a => exact List.IsSuffix.trans hx h

/-- One reader after another. -/
lemma bind {x : Except Stop (α × List Char)} {f : α × List Char → Except Stop (β × List Char)}
    (hx : StopsWithin cs x) (hf : ∀ a rest, StopsWithin rest (f (a, rest))) :
    StopsWithin cs (x >>= f) := by
  cases x with
  | error stop => exact hx
  | ok a => exact (hf a.1 a.2).mono hx

/-- A result that is changed afterwards. -/
lemma map {x : Except Stop (α × List Char)} (hx : StopsWithin cs x) (f : α → β) :
    StopsWithin cs (x.map fun (a, rest) => (f a, rest)) := by
  cases x with
  | error stop => exact hx
  | ok a => exact hx

/-- Reading a name. -/
lemma nameAt (name : String) (cs : List Char) : StopsWithin cs (Parser.nameAt name cs) := by
  fun_induction Parser.nameAt name cs with
  | case1 => exact List.suffix_rfl
  | case2 name cs after hdot => exact (dropBlanks_suffix after).trans (suffix_of_eat? hdot)
  | case3 name cs after hdot segment tail hw ih =>
    exact ih.mono ((suffix_of_word? hw).trans (suffix_of_eat? hdot))

/-- Reading brackets. -/
lemma arraysAt (sig : Signature) (cs : List Char) : StopsWithin cs (Parser.arraysAt sig cs) := by
  fun_induction Parser.arraysAt sig cs with
  | case1 => exact List.suffix_rfl
  | case2 sig cs after hopen => exact (dropBlanks_suffix after).trans (suffix_of_eat? hopen)
  | case3 sig cs after hopen tail hclose ih =>
    exact ih.mono ((suffix_of_eat? hclose).trans (suffix_of_eat? hopen))

/-- Reading an argument.

**Proof sketch.** An argument is read by reading a mark, a keyword and a type, or some of them. Each
of these stops within what it is given, and goes on with a suffix of it. -/
lemma argAt {n : Nat} (htype : ∀ cs, StopsWithin cs (typeAt n cs)) (cs : List Char) :
    StopsWithin cs (Parser.argAt (typeAt n) cs) := by
  have keyword {keyword : String} {cs rest : List Char} (h : keyword? keyword cs = some rest) :
      rest <:+ cs :=
    suffix_of_word? (word?_of_keyword? h)
  unfold Parser.argAt
  split
  · exact htype cs
  · next after hmark =>
    refine StopsWithin.mono ?_ (suffix_of_eat? hmark)
    split
    · next hword => exact ((htype _).map _).mono (keyword hword)
    · split
      · next hword => exact ((htype _).map _).mono (keyword hword)
      · exact List.suffix_rfl

/-- Reading a type or an argument list.

**Proof sketch.** By induction on the budget, for types and argument lists together. Each reader
reads a token and hands on a suffix of the text, or stops where the text does not go on as expected.
-/
lemma typeAt (n : Nat) : (∀ cs, StopsWithin cs (Parser.typeAt n cs)) ∧
    ∀ cs, StopsWithin cs (Parser.argsAt n cs) := by
  induction n with
  | zero =>
    refine ⟨fun cs => ?_, fun cs => ?_⟩
    · rw [Parser.typeAt]
      exact List.suffix_rfl
    · rw [Parser.argsAt]
      exact List.suffix_rfl
  | succ n ih =>
    refine ⟨fun cs => ?_, fun cs => ?_⟩
    · unfold Parser.typeAt
      split
      · exact dropBlanks_suffix cs
      · next word rest hw =>
        refine StopsWithin.mono ?_ (suffix_of_word? hw)
        split
        · exact arraysAt _ rest
        · refine (nameAt word rest).bind fun name rest => ?_
          dsimp only
          split
          · exact arraysAt _ rest
          · next hopen =>
            exact ((ih.2 _).bind fun args rest => arraysAt _ rest).mono (suffix_of_eat? hopen)
    · rw [argsAt]
      refine (argAt ih.1 cs).bind fun arg rest => ?_
      dsimp only
      split
      · next hcomma =>
        refine StopsWithin.mono ?_ (suffix_of_eat? hcomma)
        exact (ih.2 _).bind fun args rest => List.suffix_rfl
      · split
        · next hclose => exact suffix_of_eat? hclose
        · exact dropBlanks_suffix rest

end StopsWithin

/-- The place where reading a whole text fails is a place in the text. -/
lemma suffix_of_wholeType {cs : List Char} {stop : Stop} (h : wholeType cs = .error stop) :
    stop.rest <:+ cs := by
  have within := (StopsWithin.typeAt (cs.length + 1)).1 cs
  unfold wholeType at h
  cases htype : typeAt (cs.length + 1) cs with
  | error stop' =>
    rw [htype] at h within
    cases h
    exact within
  | ok a =>
    obtain ⟨sig, rest⟩ := a
    rw [htype] at h within
    simp only [bind, Except.bind] at h
    split at h
    · cases h
    · next hrest =>
      cases h
      exact (dropBlanks_suffix rest).trans within

end Parser

/-! ## The reader and the grammar -/

/-- The reader accepts what the grammar spells. -/
lemma parse_eq_ok_iff {input : String} {sig : Signature} :
    parse input = .ok sig ↔ Spells input sig := by
  rw [Spells, ← Parser.wholeType_eq_ok_iff, parse]
  cases Parser.wholeType input.toList <;> simp

/-- A failure names a place between two characters of the text, or one of its ends. -/
lemma isValid_of_parse_eq_error {input : String} {e : SignatureError}
    (h : parse input = .error e) :
    ∃ offset expected, e = .syntaxError input offset expected ∧
      String.Pos.Raw.IsValid input ⟨offset⟩ := by
  unfold parse at h
  split at h
  · cases h
  · next stop hstop =>
    cases h
    obtain ⟨front, hfront⟩ := Parser.suffix_of_wholeType hstop
    refine ⟨_, _, rfl, String.Pos.Raw.isValid_iff_exists_append.2
      ⟨String.ofList front, String.ofList stop.rest, ?_, ?_⟩⟩
    · rw [← String.ofList_append, hfront, String.ofList_toList]
    · have offset : byteLength input.toList - byteLength stop.rest = byteLength front := by
        rw [← hfront, byteLength_append, Nat.add_sub_cancel]
      rw [offset, ← utf8ByteSize_ofList]
      rfl

/-- **The reader accepts exactly the texts that the grammar spells**, each of them as the one
signature that it spells. For every other text it names a place in the text: between two characters,
or at an end. -/
theorem parse_iff_spells (input : String) :
    (∀ sig, parse input = .ok sig ↔ Spells input sig) ∧
    (∀ sig sig', Spells input sig → Spells input sig' → sig = sig') ∧
    ((∀ sig, ¬ Spells input sig) → ∃ offset expected,
      parse input = .error (.syntaxError input offset expected) ∧
      String.Pos.Raw.IsValid input ⟨offset⟩ ∧ offset ≤ input.utf8ByteSize) := by
  refine ⟨fun sig => parse_eq_ok_iff, fun sig sig' h h' => ?_, fun none => ?_⟩
  · rw [← parse_eq_ok_iff] at h h'
    exact Except.ok.inj (h.symm.trans h')
  · cases hparse : parse input with
    | ok sig => exact absurd (parse_eq_ok_iff.1 hparse) (none sig)
    | error e =>
      obtain ⟨offset, expected, rfl, valid⟩ := isValid_of_parse_eq_error hparse
      exact ⟨offset, expected, rfl, valid, valid.le_rawEndPos⟩

/-- The text `L < ?>` spells a type with a wildcard, and is read as that type. -/
lemma spells_wildcard : Spells "L < ?>" (.named "L" [.wild]) := by
  have derived : Derives .type [.word "L", .mark '<', .mark '?', .mark '>'] (.named "L" [.wild]) :=
    @Derives.generic "L" [] [([.mark '?'], .wild)] (by decide) (by simp) (by simp [Derives.wild])
  refine ⟨_, ?_, derived⟩
  refine .word (w := ['L']) (by decide) (by simp [EndsWord]; decide) ?_
  exact .blank (by decide) (.mark (by decide) (.blank (by decide)
    (.mark (by decide) (.mark (by decide) .nil))))

/-- The text `L < ?>` is read as what it spells. The text `L<?extendsN>` spells nothing, since its
word goes on as far as it can. -/
theorem parse_wildcard_and_glued :
    parse "L < ?>" = .ok (.named "L" [.wild]) ∧
    (∀ sig, Spells "L < ?>" sig → sig = .named "L" [.wild]) ∧
    ∃ offset expected,
      parse "L<?extendsN>" = .error (.syntaxError "L<?extendsN>" offset expected) ∧
      String.Pos.Raw.IsValid "L<?extendsN>" ⟨offset⟩ ∧
      offset ≤ "L<?extendsN>".utf8ByteSize := by
  have rejected : (parse "L<?extendsN>").isOk = false := by decide +kernel
  refine ⟨((parse_iff_spells _).1 _).2 spells_wildcard,
    fun sig h => (parse_iff_spells _).2.1 sig _ h spells_wildcard,
    (parse_iff_spells _).2.2 fun sig h => ?_⟩
  rw [parse_eq_ok_iff.2 h] at rejected
  cases rejected

end Signature

end ContainerLint
