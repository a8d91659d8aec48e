import ContainerLint.Proofs.Signature.Spelling

/-!
# The grammar of signatures

A text is cut into tokens, and the tokens are derived by the rules of a grammar. White space may
stand in front of a token and at the end of the text, and a word goes on as far as it can.

## Main definitions

* `Signature.Token`, `Signature.Tokens` — tokens, and the texts that are made of them.
* `Signature.Derives` — the rules for types and for arguments.
* `Signature.Spells` — a text spells a signature.

## Main results

* `Signature.Parser.exists_eat?_of_tokens`, `Signature.Parser.exists_word?_of_tokens` — the readers
  of single tokens follow the way in which a text is cut.
* `Signature.Parser.tokens_of_eat?`, `Signature.Parser.tokens_of_word?` — the converse.
-/

set_option autoImplicit false

namespace ContainerLint

open Text

namespace Text

/-- Whether no range of `rs` meets a range of `qs`. -/
def rangesApart (rs qs : List (Nat × Nat)) : Bool :=
  rs.all fun r => qs.all fun q => r.2 < q.1 || q.2 < r.1

/-- A number does not lie in ranges that are apart. -/
lemma inRanges_eq_false_of_rangesApart {rs qs : List (Nat × Nat)} (apart : rangesApart rs qs = true)
    {n : Nat} (hn : inRanges rs n = true) : inRanges qs n = false := by
  obtain ⟨r, hr, hrn⟩ := List.any_eq_true.1 hn
  rw [inRanges, List.any_eq_false]
  intro q hq hqn
  have rq := List.all_eq_true.1 (List.all_eq_true.1 apart r hr) q hq
  simp only [Bool.and_eq_true, Bool.or_eq_true, decide_eq_true_eq] at hrn hqn rq
  omega

/-- Ranges of the characters with which a word can begin: the dollar sign, the underscore, the
letters of ASCII and the other letters. -/
def wordStartRanges : List (Nat × Nat) :=
  [(36, 36), (95, 95), (65, 90), (97, 122)] ++ letterRanges

/-- A word begins with a character of these ranges. -/
lemma inRanges_of_isWordStart {c : Char} (h : isWordStart c = true) :
    inRanges wordStartRanges c.toNat = true := by
  simp only [isWordStart, isLetter, Bool.or_eq_true, Bool.and_eq_true, beq_iff_eq] at h
  simp only [inRanges, wordStartRanges, List.any_append, Bool.or_eq_true]
  rcases h with ((alpha | ⟨-, letter⟩) | rfl) | rfl
  · left
    change (decide (c.val ≥ 'A'.val ∧ c.val ≤ 'Z'.val) ||
      (c.val ≥ 'a'.val && c.val ≤ 'z'.val)) = true at alpha
    simp only [Bool.or_eq_true, Bool.and_eq_true, decide_eq_true_eq, UInt32.le_iff_toNat_le,
      ge_iff_le] at alpha
    change (65 ≤ c.toNat ∧ c.toNat ≤ 90) ∨ 97 ≤ c.toNat ∧ c.toNat ≤ 122 at alpha
    simp only [List.any_cons, List.any_nil, Bool.or_eq_true, Bool.and_eq_true, decide_eq_true_eq]
    omega
  · exact .inr letter
  · exact .inl (by decide)
  · exact .inl (by decide)

/-- No word begins with white space. -/
lemma isBlank_of_isWordStart {c : Char} (h : isWordStart c = true) : isBlank c = false := by
  have apart : rangesApart blankRanges wordStartRanges = true := by decide +kernel
  rw [Bool.eq_false_iff]
  intro blank
  have outside := inRanges_eq_false_of_rangesApart apart blank
  rw [inRanges_of_isWordStart h] at outside
  cases outside

end Text

namespace Signature

/-! ## Tokens -/

/-- A token: a word, or a character that stands for itself. -/
inductive Token where
  | word (w : String)
  | mark (c : Char)
deriving DecidableEq

/-- The characters that stand for themselves. -/
def Token.marks : List Char := ['.', '<', '>', ',', '?', '[', ']']

/-- No word goes on at the beginning of `cs`. -/
def EndsWord (cs : List Char) : Prop :=
  ∀ c ∈ cs.head?, isWordRest c = false

/-- A text is made of tokens, with white space in front of each of them and at the end. A word ends
where it cannot go on. -/
inductive Tokens : List Char → List Token → Prop where
  | nil : Tokens [] []
  | blank {c : Char} {cs : List Char} {toks : List Token} :
      isBlank c = true → Tokens cs toks → Tokens (c :: cs) toks
  | mark {c : Char} {cs : List Char} {toks : List Token} :
      c ∈ Token.marks → Tokens cs toks → Tokens (c :: cs) (.mark c :: toks)
  | word {w cs : List Char} {toks : List Token} :
      isWord w = true → EndsWord cs → Tokens cs toks →
      Tokens (w ++ cs) (.word (String.ofList w) :: toks)

/-! ## The rules -/

/-- The tokens of a dotted name: a word, and further words behind dots. -/
def nameTokens (w : String) (segments : List String) : List Token :=
  .word w :: segments.flatMap fun v => [.mark '.', .word v]

/-- What a rule of the grammar is about. -/
inductive Category where
  | type
  | arg

/-- The rules of the grammar:

    type ::= (primitive | word ('.' word)* ['<' arg (',' arg)* '>']) ('[' ']')*
    arg  ::= type | '?' | '?' 'extends' type | '?' 'super' type

A name does not begin with the keyword of a primitive type. -/
inductive Derives : Category → List Token → Signature → Prop where
  | prim (p : Primitive) : Derives .type [.word p.keyword] (.prim p)
  | named {w : String} (segments : List String) : Primitive.ofKeyword? w = none →
      Derives .type (nameTokens w segments) (.named (".".intercalate (w :: segments)) [])
  | generic {w : String} (segments : List String) {args : List (List Token × Signature)} :
      Primitive.ofKeyword? w = none → args ≠ [] → (∀ a ∈ args, Derives .arg a.1 a.2) →
      Derives .type
        (nameTokens w segments ++ .mark '<' :: [.mark ','].intercalate (args.map (·.1)) ++
          [.mark '>'])
        (.named (".".intercalate (w :: segments)) (args.map (·.2)))
  | array {toks : List Token} {sig : Signature} : Derives .type toks sig →
      Derives .type (toks ++ [.mark '[', .mark ']']) (.array sig)
  | type {toks : List Token} {sig : Signature} : Derives .type toks sig → Derives .arg toks sig
  | wild : Derives .arg [.mark '?'] .wild
  | wildExtends {toks : List Token} {sig : Signature} : Derives .type toks sig →
      Derives .arg (.mark '?' :: .word "extends" :: toks) (.wildExtends sig)
  | wildSuper {toks : List Token} {sig : Signature} : Derives .type toks sig →
      Derives .arg (.mark '?' :: .word "super" :: toks) (.wildSuper sig)

/-- A text spells a signature: it is made of tokens that the rules derive. -/
def Spells (input : String) (sig : Signature) : Prop :=
  ∃ toks, Tokens input.toList toks ∧ Derives .type toks sig

/-! ## Cutting a text into tokens -/

section Cutting

variable {c : Char} {w : String} {cs rest : List Char} {toks : List Token}

/-- The characters that stand for themselves are neither white space nor parts of words. -/
lemma Token.of_mem_marks : ∀ c ∈ Token.marks,
    isBlank c = false ∧ isWordStart c = false ∧ isWordRest c = false := by
  -- a test on the list itself: what is said of its members would be tried on every character
  have all : Token.marks.all (fun c => !isBlank c && !isWordStart c && !isWordRest c) = true := by
    decide
  intro c hc
  have none := List.all_eq_true.1 all c hc
  simpa [and_assoc] using none

/-- A word has a first character, and what follows it belongs to the word as well. -/
lemma exists_cons_of_isWord {w : List Char} (h : isWord w = true) :
    ∃ d ds, w = d :: ds ∧ isWordStart d = true ∧ ∀ e ∈ ds, isWordRest e = true := by
  cases w with
  | nil => cases h
  | cons d ds =>
    simp only [isWord, Bool.and_eq_true, List.all_eq_true] at h
    exact ⟨d, ds, rfl, h.1, h.2⟩

/-- White space in front does not count. -/
lemma tokens_cons_blank_iff (hc : isBlank c = true) : Tokens (c :: cs) toks ↔ Tokens cs toks := by
  refine ⟨fun h => ?_, .blank hc⟩
  generalize hcs : c :: cs = text at h
  cases h with
  | nil => cases hcs
  | blank _ h =>
    cases hcs
    exact h
  | mark hm _ =>
    cases hcs
    rw [(Token.of_mem_marks c hm).1] at hc
    cases hc
  | word hw _ _ =>
    obtain ⟨d, ds, rfl, hd, -⟩ := exists_cons_of_isWord hw
    cases hcs
    rw [isBlank_of_isWordStart hd] at hc
    cases hc

/-- White space in front does not count, however much there is. -/
lemma tokens_dropBlanks_iff : Tokens (dropBlanks cs) toks ↔ Tokens cs toks := by
  induction cs with
  | nil => rfl
  | cons c cs ih =>
    by_cases hc : isBlank c = true
    · rw [dropBlanks, List.dropWhile_cons_of_pos hc, tokens_cons_blank_iff hc]
      exact ih
    · rw [dropBlanks, List.dropWhile_cons_of_neg hc]

/-- A text without tokens is white space. -/
lemma dropBlanks_eq_nil_iff : dropBlanks cs = [] ↔ Tokens cs [] := by
  rw [← tokens_dropBlanks_iff]
  refine ⟨fun h => h ▸ .nil, fun h => ?_⟩
  generalize hd : dropBlanks cs = ds at h
  cases h with
  | nil => rfl
  | @blank c _ _ hc _ =>
    have head := List.head?_dropWhile_not isBlank cs
    rw [← dropBlanks, hd] at head
    simp [hc] at head

namespace Parser

/-- White space in front of a token is skipped. -/
lemma eat?_cons_blank {d : Char} (hc : isBlank c = true) : eat? d (c :: cs) = eat? d cs := by
  simp only [eat?, dropBlanks, List.dropWhile_cons_of_pos hc]

/-- A character that is read is a token of the text. -/
lemma tokens_of_eat? (h : eat? c cs = some rest) (hc : c ∈ Token.marks) (ht : Tokens rest toks) :
    Tokens cs (.mark c :: toks) := by
  rw [← tokens_dropBlanks_iff]
  unfold eat? at h
  split at h
  · cases h
  · next d tail eq =>
    split at h
    · next hd =>
      cases h
      rw [eq, eq_of_beq hd]
      exact .mark hc ht
    · cases h

/-- The first token is read if it is the one in question. -/
lemma exists_eat?_of_tokens (h : Tokens cs (.mark c :: toks)) :
    ∃ rest, eat? c cs = some rest ∧ Tokens rest toks := by
  generalize htoks : Token.mark c :: toks = all at h
  induction h with
  | nil => cases htoks
  | blank hb _ ih =>
    rw [eat?_cons_blank hb]
    exact ih htoks
  | @mark d ds _ hm hds _ =>
    cases htoks
    have notBlank : dropBlanks (c :: ds) = c :: ds := by
      simp [dropBlanks, (Token.of_mem_marks c hm).1]
    exact ⟨ds, by simp [eat?, notBlank], hds⟩
  | word => cases htoks

/-- The first token is not read if it is another one. -/
lemma eat?_eq_none_of_tokens (h : Tokens cs toks) (hc : c ∈ Token.marks)
    (hne : toks.head? ≠ some (.mark c)) : eat? c cs = none := by
  induction h with
  | nil => rfl
  | blank hb _ ih =>
    rw [eat?_cons_blank hb]
    exact ih hne
  | @mark d ds _ hm _ _ =>
    have other : d ≠ c := fun h => hne (by simp [h])
    simp [eat?, dropBlanks, (Token.of_mem_marks d hm).1, other]
  | word hw _ _ _ =>
    obtain ⟨d, ds, rfl, hd, -⟩ := exists_cons_of_isWord hw
    have other : d ≠ c := by
      rintro rfl
      rw [(Token.of_mem_marks d hc).2.1] at hd
      cases hd
    simp [eat?, dropBlanks, isBlank_of_isWordStart hd, other]

/-- White space in front of a word is skipped. -/
lemma word?_cons_blank (hc : isBlank c = true) : word? (c :: cs) = word? cs := by
  simp only [word?, dropBlanks, List.dropWhile_cons_of_pos hc]

/-- A word that is read is a token of the text.

**Proof sketch.** After blanks the word is the longest run of characters that can be in a word. So
it is followed by a character that cannot, or by nothing, and that is what makes it a token. -/
lemma tokens_of_word? (h : word? cs = some (w, rest)) (ht : Tokens rest toks) :
    Tokens cs (.word w :: toks) := by
  rw [← tokens_dropBlanks_iff]
  unfold word? at h
  split at h
  · cases h
  · next d tail eq =>
    split at h
    · next hd =>
      cases h
      rw [eq]
      have whole : d :: tail =
          (d :: tail.takeWhile isWordRest) ++ tail.dropWhile isWordRest := by
        simp [List.takeWhile_append_dropWhile]
      rw [whole]
      refine .word (by simp [isWord, hd]) (fun e he => ?_) ht
      have ends := List.head?_dropWhile_not isWordRest tail
      rw [Option.mem_def.1 he] at ends
      simpa using ends
    · cases h

/-- The first token is read if it is a word. -/
lemma exists_word?_of_tokens (h : Tokens cs (.word w :: toks)) :
    ∃ rest, word? cs = some (w, rest) ∧ Tokens rest toks := by
  generalize htoks : Token.word w :: toks = all at h
  induction h with
  | nil => cases htoks
  | blank hb _ ih =>
    rw [word?_cons_blank hb]
    exact ih htoks
  | mark => cases htoks
  | @word v ds _ hv ends hds _ =>
    cases htoks
    obtain ⟨d, es, rfl, hd, hes⟩ := exists_cons_of_isWord hv
    have ends' : ds.takeWhile isWordRest = [] ∧ ds.dropWhile isWordRest = ds := by
      cases ds with
      | nil => exact ⟨rfl, rfl⟩
      | cons e ds => simp [ends e rfl]
    refine ⟨ds, ?_, hds⟩
    simp [word?, dropBlanks, isBlank_of_isWordStart hd, hd, List.takeWhile_append_of_pos hes,
      List.dropWhile_append_of_pos hes, ends']

/-- No word is read if the first token is none. -/
lemma word?_eq_none_of_tokens (h : Tokens cs toks) (hne : ∀ w, toks.head? ≠ some (.word w)) :
    word? cs = none := by
  induction h with
  | nil => rfl
  | blank hb _ ih =>
    rw [word?_cons_blank hb]
    exact ih hne
  | @mark d ds _ hm _ _ =>
    have := Token.of_mem_marks d hm
    simp [word?, dropBlanks, this.1, this.2.1]
  | word => exact absurd rfl (hne _)

end Parser

end Cutting

end Signature

end ContainerLint
