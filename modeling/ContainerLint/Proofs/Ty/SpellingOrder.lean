import ContainerLint.Proofs.Declaration.Lawful
import ContainerLint.Ty.Printer
import Mathlib.Data.List.Pairwise
import Mathlib.Data.String.Basic

/-!
# The order of class types by their spelling

The supertypes of a class are visited in the order of their spelling, and the spelling of a class
type includes its arguments. For types of different classes the arguments do not matter: the
spellings differ within the class names or right behind them, since no class name goes on with the
character that opens an argument list. So the order stays the same under a substitution.

## Main definitions

* `ClassTable.HasDottedName` — a class can be written in a signature.
* `Text.ArgTexts` — two argument lists are both left out or both opened.

## Main results

* `Ty.sortKey_lt_or_lt` — the order of two types of different classes is that of their classes.
* `filter_sortByKey_map` — a map that keeps the order of keys commutes with sorting.
-/

set_option autoImplicit false

namespace ContainerLint

/-! ## Sorting and maps -/

section Sorting

variable {α : Type} {key : α → String}

/-- Sorting keeps the members. -/
lemma perm_sortByKey (key : α → String) (xs : List α) : (sortByKey key xs).Perm xs :=
  List.mergeSort_perm xs _

/-- A sorted list ascends. -/
lemma pairwise_sortByKey (key : α → String) (xs : List α) :
    (sortByKey key xs).Pairwise fun a b => key a ≤ key b := by
  have sorted : (sortByKey key xs).Pairwise fun a b => decide (key a ≤ key b) = true := by
    refine List.pairwise_mergeSort (fun a b c hab hbc => ?_) (fun a b => ?_) xs
    · simp only [decide_eq_true_eq] at hab hbc ⊢
      exact hab.trans hbc
    · simp only [Bool.or_eq_true, decide_eq_true_eq]
      exact le_total (key a) (key b)
  exact sorted.imp of_decide_eq_true

/-- A map that keeps which members are of interest commutes with selecting them. -/
lemma filter_map_comm {f : α → α} {p : α → Bool} {xs : List α} (keep : ∀ a ∈ xs, p (f a) = p a) :
    (xs.map f).filter p = (xs.filter p).map f := by
  rw [List.filter_map]
  exact congrArg (List.map f) (List.filter_congr keep)

/-- A map that keeps the strict order between the members of interest commutes with sorting.

**Proof sketch.** Both lists have the same members and ascend, and different members have different
keys, so they are the same list. -/
theorem filter_sortByKey_map {f : α → α} {p : α → Bool} {xs : List α}
    (keep : ∀ a ∈ xs, p (f a) = p a)
    (order : ∀ a ∈ xs, ∀ b ∈ xs, p a = true → p b = true → a ≠ b →
      key a < key b ∧ key (f a) < key (f b) ∨ key b < key a ∧ key (f b) < key (f a)) :
    (sortByKey key (xs.map f)).filter p = ((sortByKey key xs).filter p).map f := by
  have mem_left {u : α} (hu : u ∈ (sortByKey key (xs.map f)).filter p) :
      ∃ a ∈ xs, p a = true ∧ f a = u := by
    have hu := ((perm_sortByKey key (xs.map f)).filter p).mem_iff.1 hu
    rw [filter_map_comm keep] at hu
    obtain ⟨a, ha, rfl⟩ := List.mem_map.1 hu
    exact ⟨a, (List.mem_filter.1 ha).1, (List.mem_filter.1 ha).2, rfl⟩
  have mem_right {a : α} (ha : a ∈ (sortByKey key xs).filter p) : a ∈ xs ∧ p a = true :=
    List.mem_filter.1 (((perm_sortByKey key xs).filter p).mem_iff.1 ha)
  have perm : ((sortByKey key (xs.map f)).filter p).Perm (((sortByKey key xs).filter p).map f) := by
    refine ((perm_sortByKey key (xs.map f)).filter p).trans ?_
    rw [filter_map_comm keep]
    exact (((perm_sortByKey key xs).filter p).map f).symm
  refine List.Perm.eq_of_pairwise ?_ ((pairwise_sortByKey key (xs.map f)).filter p) ?_ perm
  · intro u v hu hv huv hvu
    obtain ⟨a, ha, pa, rfl⟩ := mem_left hu
    obtain ⟨b, hb, rfl⟩ := List.mem_map.1 hv
    obtain ⟨hb, pb⟩ := mem_right hb
    by_cases hab : a = b
    · rw [hab]
    · rcases order a ha b hb pa pb hab with ⟨-, lt⟩ | ⟨-, lt⟩
      · exact absurd hvu (not_le_of_gt lt)
      · exact absurd huv (not_le_of_gt lt)
  · rw [List.pairwise_map]
    refine ((pairwise_sortByKey key xs).filter p).imp_of_mem fun {a b} ha hb hle => ?_
    obtain ⟨ha, pa⟩ := mem_right ha
    obtain ⟨hb, pb⟩ := mem_right hb
    by_cases hab : a = b
    · rw [hab]
    · rcases order a ha b hb pa pb hab with ⟨-, lt⟩ | ⟨lt, -⟩
      · exact lt.le
      · exact absurd hle (not_le_of_gt lt)

end Sorting

/-! ## Texts with arguments -/

namespace Text

/-- Two texts of arguments that begin alike: both are left out, or both are opened. -/
inductive ArgTexts : List Char → List Char → Prop where
  | none : ArgTexts [] []
  | opened (x x' : List Char) : ArgTexts ('<' :: x) ('<' :: x')

/-- Two pairs of texts are ordered alike if their first characters differ, or else their rests are
ordered alike. -/
lemma cons_lt_or_lt {c d : Char} {x x' y y' : List Char}
    (h : c = d → x < y ∧ x' < y' ∨ y < x ∧ y' < x') :
    c :: x < d :: y ∧ c :: x' < d :: y' ∨ d :: y < c :: x ∧ d :: y' < c :: x' := by
  simp only [List.cons_lt_cons_iff]
  rcases lt_trichotomy c d with lt | eq | gt
  · exact .inl ⟨.inl lt, .inl lt⟩
  · rcases h eq with ⟨lt, lt'⟩ | ⟨gt, gt'⟩
    · exact .inl ⟨.inr ⟨eq, lt⟩, .inr ⟨eq, lt'⟩⟩
    · exact .inr ⟨.inr ⟨eq.symm, gt⟩, .inr ⟨eq.symm, gt'⟩⟩
  · exact .inr ⟨.inl gt, .inl gt⟩

/-- A text of arguments differs at once from a text that goes on with the name. -/
lemma ArgTexts.lt_or_lt {x x' : List Char} (h : ArgTexts x x') {c : Char} (hc : c ≠ '<')
    (y y' : List Char) :
    x < c :: y ∧ x' < c :: y' ∨ c :: y < x ∧ c :: y' < x' := by
  cases h with
  | none => exact .inl ⟨List.nil_lt_cons c y, List.nil_lt_cons c y'⟩
  | opened x x' => exact cons_lt_or_lt fun eq => absurd eq.symm hc

/-- The order of two different names without `<` does not depend on their arguments. -/
lemma append_lt_or_lt {n m x x' y y' : List Char} (hn : '<' ∉ n) (hm : '<' ∉ m) (hne : n ≠ m)
    (hx : ArgTexts x x') (hy : ArgTexts y y') :
    n ++ x < m ++ y ∧ n ++ x' < m ++ y' ∨ m ++ y < n ++ x ∧ m ++ y' < n ++ x' := by
  induction n generalizing m with
  | nil =>
    cases m with
    | nil => exact absurd rfl hne
    | cons d m => exact hx.lt_or_lt (fun h => hm (by simp [h])) _ _
  | cons c n ih =>
    cases m with
    | nil => exact (hy.lt_or_lt (fun h => hn (by simp [h])) _ _).symm
    | cons d m =>
      refine cons_lt_or_lt fun eq => ih (fun h => hn (.tail c h)) (fun h => hm (.tail d h)) ?_
      rintro rfl
      exact hne (by rw [eq])

end Text

open Text

/-! ## Class types -/

namespace ClassTable

variable {t : ClassTable}

/-- The class is interned under a name that a signature can contain. -/
def HasDottedName (t : ClassTable) (id : ClassId) : Prop :=
  ∃ name, t.nameOf? id = some name ∧ isDottedName name.toList = true

/-- The class of a written type can be written. -/
lemma HasDottedName.of_written {formals : List VarId} {ty : Ty} {id : ClassId}
    (h : ty.Written t formals) (hid : ty.class? = some id) : t.HasDottedName id := by
  cases h with
  | cls hname hdotted _ =>
    obtain rfl := Option.some.inj hid
    exact ⟨_, hname, hdotted⟩
  | _ => cases hid

end ClassTable

namespace Ty

variable {t : ClassTable}

/-- The spelling of a class begins somehow and goes on without `<`.

**Proof sketch.** A defined class is spelled with its dotted name, which is not empty and has no `<`
in it. A class without definition is spelled with its number, in which all characters but the first
are letters, `#`, digits and `>`. -/
lemma exists_renderClass_eq_cons (h : t.Lawful) {id : ClassId} (hid : t.HasDottedName id) :
    ∃ c cs, (renderClass t .full id).toList = c :: cs ∧ '<' ∉ cs := by
  obtain ⟨name, hname, hdotted⟩ := hid
  unfold renderClass
  cases hd : t.classDef? id with
  | some d =>
    obtain rfl : d.name = name := Option.some.inj ((h.defName hd).symm.trans hname)
    have free := not_mem_of_isDottedName hdotted
    simp only [NameStyle.className]
    cases hcs : d.name.toList with
    | nil => simp [hcs, isDottedName] at hdotted
    | cons c cs => exact ⟨c, cs, rfl, fun hmem => free (by simp [hcs, hmem])⟩
  | none =>
    refine ⟨'<', "class#".toList ++ (toString id.index).toList ++ ">".toList, ?_, ?_⟩
    · simp [String.toList_append]
    · simp only [List.mem_append, Nat.toString_eq_repr, Nat.repr_eq_ofList_toDigits,
        String.toList_ofList]
      rintro ((hmem | hmem) | hmem)
      · exact absurd hmem (by decide)
      · exact absurd (Nat.isDigit_of_mem_toDigits (by decide) (by decide) hmem) (by decide)
      · exact absurd hmem (by decide)

/-- A dotted name does not contain the character that opens the spelling of an undefined class. -/
lemma ne_of_isDottedName {name : String} (h : isDottedName name.toList = true) (n : Nat) :
    name ≠ "<class#" ++ toString n ++ ">" := by
  rintro rfl
  exact not_mem_of_isDottedName h (by simp [String.toList_append])

/-- Different classes are spelled differently.

**Proof sketch.** Two names determine their classes, and two numbers do. A name is never spelled
like a number, since it has no `<` in it. -/
lemma renderClass_inj (h : t.Lawful) {id id' : ClassId} (hid : t.HasDottedName id)
    (hid' : t.HasDottedName id') (eq : renderClass t .full id = renderClass t .full id') :
    id = id' := by
  obtain ⟨name, hname, hdotted⟩ := hid
  obtain ⟨name', hname', hdotted'⟩ := hid'
  unfold renderClass at eq
  cases hd : t.classDef? id with
  | some d =>
    obtain rfl : d.name = name := Option.some.inj ((h.defName hd).symm.trans hname)
    cases hd' : t.classDef? id' with
    | some d' =>
      rw [hd, hd'] at eq
      have names : d.name = d'.name := eq
      exact h.name_inj (h.defName hd) (names ▸ h.defName hd')
    | none =>
      rw [hd, hd'] at eq
      exact absurd eq (ne_of_isDottedName hdotted _)
  | none =>
    cases hd' : t.classDef? id' with
    | some d' =>
      obtain rfl : d'.name = name' := Option.some.inj ((h.defName hd').symm.trans hname')
      rw [hd, hd'] at eq
      exact absurd eq.symm (ne_of_isDottedName hdotted' _)
    | none =>
      rw [hd, hd'] at eq
      have repr : toString id.index = toString id'.index :=
        (String.append_right_inj _).1 ((String.append_left_inj _).1 eq)
      simp only [Nat.toString_eq_repr, Nat.repr_eq_ofList_toDigits, String.ofList_inj] at repr
      have index := congrArg (Nat.ofDigitChars 10 · 0) repr
      simp only [Nat.ofDigitChars_ten_toDigits] at index
      cases id
      cases id'
      exact congrArg ClassId.mk index

/-- The arguments of a type are written, or left out, whichever they are. -/
lemma argTexts_renderArgs {as as' : List String} (h : as = [] ↔ as' = []) :
    ArgTexts (renderArgs as).toList (renderArgs as').toList := by
  cases as with
  | nil =>
    obtain rfl := h.1 rfl
    exact .none
  | cons a as =>
    cases as' with
    | nil => exact absurd (h.2 rfl) (by simp)
    | cons a' as' =>
      simp only [renderArgs, String.toList_append]
      exact .opened _ _

/-- **The order of two types of different classes does not depend on their arguments**, only on
whether they have any. -/
theorem sortKey_lt_or_lt (h : t.Lawful) {c d : ClassId} (hc : t.HasDottedName c)
    (hd : t.HasDottedName d) (hne : c ≠ d) {as as' bs bs' : List Ty} (ha : as = [] ↔ as' = [])
    (hb : bs = [] ↔ bs' = []) :
    sortKey t (.cls c as) < sortKey t (.cls d bs) ∧
        sortKey t (.cls c as') < sortKey t (.cls d bs') ∨
      sortKey t (.cls d bs) < sortKey t (.cls c as) ∧
        sortKey t (.cls d bs') < sortKey t (.cls c as') := by
  obtain ⟨x, xs, hx, freex⟩ := exists_renderClass_eq_cons h hc
  obtain ⟨y, ys, hy, freey⟩ := exists_renderClass_eq_cons h hd
  have differ : x :: xs ≠ y :: ys := by
    rw [← hx, ← hy]
    exact fun eq => hne (renderClass_inj h hc hd (String.toList_inj.1 eq))
  simp only [sortKey, render, renderEach_eq_map, String.lt_iff_toList_lt, String.toList_append,
    hx, hy]
  -- the first characters may be `<`; the rests are names without it
  refine cons_lt_or_lt fun eq => append_lt_or_lt freex freey ?_
    (argTexts_renderArgs (by simpa using ha)) (argTexts_renderArgs (by simpa using hb))
  rintro rfl
  exact differ (by rw [eq])

end Ty

end ContainerLint
