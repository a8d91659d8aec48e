import Mathlib.Data.String.Basic

/-!
# The order of bytes

Texts are compared character by character. Their encodings in UTF-8, compared byte by byte, are in
the same order: a greater character has a greater leading byte, or the first different byte behind
it is greater.

## Main definitions

* `Text.bytes` — the bytes of a text.

## Main results

* `Text.encode_append_lt` — different characters are told apart by their bytes, in their order.
* `Text.bytes_lt_bytes` — the bytes of texts are in the order of the texts.
-/

set_option autoImplicit false

namespace ContainerLint.Text

/-- The bytes of a text. -/
def bytes (s : String) : List UInt8 :=
  s.toUTF8.data.toList

/-- Numbers are compared by their leading digits to the base 64, and by the last one if those are
equal. -/
lemma lt_iff_div_lt_or (m n : ℕ) :
    m < n ↔ m / 64 < n / 64 ∨ m / 64 = n / 64 ∧ m % 64 < n % 64 := by
  omega

/-- Lists of bytes that start with small numbers. -/
lemma ofNat_cons_lt_cons_iff {m n : ℕ} (hm : m < 256) (hn : n < 256) (r s : List UInt8) :
    UInt8.ofNat m :: r < UInt8.ofNat n :: s ↔ m < n ∨ m = n ∧ r < s := by
  rw [List.cons_lt_cons_iff, UInt8.lt_iff_toNat_lt, ← UInt8.toNat_inj,
    UInt8.toNat_ofNat_of_lt' hm, UInt8.toNat_ofNat_of_lt' hn]

/-- **A greater character has greater bytes**, whatever follows.

**Proof sketch.** Behind the leading byte there is a byte for each further digit to the base 64. If
the encodings are of different length, the leading bytes tell; if not, the digits are compared one
after the other. -/
lemma encode_append_lt {c d : Char} (h : c < d) (r s : List UInt8) :
    String.utf8EncodeChar c ++ r < String.utf8EncodeChar d ++ s := by
  have less : c.val.toNat < d.val.toNat := h
  have bound : d.val.toNat < 1114112 := by
    rcases d.valid with h | h
    · exact Nat.lt_trans h (by decide)
    · exact h.2
  simp only [String.utf8EncodeChar]
  generalize c.val.toNat = m at less
  generalize d.val.toNat = n at less bound
  have digits := (lt_iff_div_lt_or m n).1 less
  rw [lt_iff_div_lt_or (m / 64), lt_iff_div_lt_or (m / 64 / 64)] at digits
  simp only [Nat.div_div_eq_div_mul, Nat.reduceMul] at digits
  -- a case for each pair of lengths; a shorter encoding of `d` would contradict `less`
  split_ifs <;>
    simp (disch := omega) only [Nat.mod_eq_of_lt, List.cons_append, List.nil_append,
      ofNat_cons_lt_cons_iff] <;>
    omega

/-- The encodings of lists of characters are in the order of the lists. -/
lemma flatMap_encode_lt {cs ds : List Char} (h : cs < ds) :
    cs.flatMap String.utf8EncodeChar < ds.flatMap String.utf8EncodeChar := by
  induction List.lex_lt.2 h with
  | @nil d ds =>
    have encoded : String.utf8EncodeChar d ≠ [] := by
      rw [← List.length_pos_iff_ne_nil, String.length_utf8EncodeChar]
      exact d.utf8Size_pos
    obtain ⟨b, bs, hd⟩ := List.exists_cons_of_ne_nil encoded
    rw [List.flatMap_nil, List.flatMap_cons, hd]
    exact List.nil_lt_cons _ _
  | rel less => exact encode_append_lt less _ _
  | cons lex ih => exact List.append_left_lt (ih (List.lex_lt.1 lex))

/-- **The bytes of texts are in the order of the texts.** -/
theorem bytes_lt_bytes {a b : String} (h : a < b) : bytes a < bytes b := by
  have encoded (s : String) : bytes s = s.toList.flatMap String.utf8EncodeChar := by
    rw [bytes, String.toUTF8, ← String.utf8Encode_toList, List.utf8Encode,
      List.toList_data_toByteArray]
  rw [encoded, encoded]
  exact flatMap_encode_lt (String.lt_iff_toList_lt.1 h)

end ContainerLint.Text
