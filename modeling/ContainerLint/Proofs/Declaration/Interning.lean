import ContainerLint.Proofs.Declaration.Lawful
import Mathlib.Data.List.Nodup

/-!
# Interned names

Interning a list of names gives each of them one number. Names that were there keep theirs, the
others get those that come next, and which class any other name refers to does not change.

## Main results

* `ClassTable.find?_intern` — what is found after a name is interned.
* `ClassTable.find?_internAll` — interned names are found under their numbers.
* `ClassTable.mem_internAll_of_mem_ids` — no other numbers come into use.
* `ClassTable.length_slots_internAll` — how many numbers come into use.
-/

set_option autoImplicit false

namespace ContainerLint

namespace ClassTable

variable {t t' : ClassTable}

/-- The name index is determined by the names. -/
lemma find?_congr (h : ∀ id, t'.nameOf? id = t.nameOf? id) (name : String) :
    t'.find? name = t.find? name := by
  have find (t : ClassTable) :
      t.find? name = ((t.slots.map (·.name)).findIdx? (· == name)).map ClassId.mk := by
    simp [find?, List.findIdx?_map, Function.comp_def]
  have names : t'.slots.map (·.name) = t.slots.map (·.name) := by
    refine List.ext_getElem? fun i => ?_
    simpa [nameOf?] using h ⟨i⟩
  rw [find, find, names]

/-- A number is in use if it has a name. -/
lemma mem_ids_iff {id : ClassId} : id ∈ t.ids ↔ (t.nameOf? id).isSome := by
  obtain ⟨i⟩ := id
  simp [ids, nameOf?]

/-- A variable is allocated if something is known of it. -/
lemma mem_varIds_iff {x : VarId} : x ∈ t.varIds ↔ (t.typeParam? x).isSome := by
  obtain ⟨i⟩ := x
  simp [varIds, typeParam?]

/-- After a name is interned, it is found, and the other names as before. -/
lemma find?_intern (t : ClassTable) (name other : String) :
    (t.intern name).1.find? other = if other = name then some (t.intern name).2
      else t.find? other := by
  unfold intern
  cases h : t.find? name with
  | some id =>
    by_cases eq : other = name
    · rw [if_pos eq, eq, h]
    · rw [if_neg eq]
  | none =>
    have absent : t.slots.findIdx? (fun s => s.name == name) = none := by
      simpa [find?] using h
    by_cases eq : other = name
    · simp [eq, find?, List.findIdx?_append, absent]
    · have ne : (name == other) = false := beq_eq_false_iff_ne.2 (Ne.symm eq)
      simp [eq, ne, find?, List.findIdx?_append, List.findIdx?_cons]

/-- Interning a name changes no type parameter. -/
lemma params_intern (t : ClassTable) (name : String) : (t.intern name).1.params = t.params := by
  unfold intern
  split <;> rfl

/-- Interning a name does not free numbers. -/
lemma length_le_intern (t : ClassTable) (name : String) :
    t.slots.length ≤ (t.intern name).1.slots.length := by
  unfold intern
  split <;> simp

/-- A name either had its number before, or gets the next free one. -/
lemma find?_or_length_le_intern (t : ClassTable) (name : String) :
    t.find? name = some (t.intern name).2 ∨ t.slots.length ≤ (t.intern name).2.index := by
  unfold intern
  cases h : t.find? name with
  | some id => exact .inl rfl
  | none => exact .inr (Nat.le_refl _)

/-- Interning names does not change which class another name refers to. -/
lemma find?_internAll_of_not_mem {names : List String} {name : String} (h : name ∉ names) :
    (t.internAll names).1.find? name = t.find? name := by
  induction names generalizing t with
  | nil => rfl
  | cons first names ih =>
    rw [List.mem_cons, not_or] at h
    refine (ih (t := (t.intern first).1) h.2).trans ?_
    rw [find?_intern, if_neg h.1]

/-- Interning names changes no type parameter. -/
lemma params_internAll (t : ClassTable) (names : List String) :
    (t.internAll names).1.params = t.params := by
  induction names generalizing t with
  | nil => rfl
  | cons name names ih => exact (ih (t.intern name).1).trans (params_intern t name)

/-- Every interned name gets a number. -/
lemma length_internAll (t : ClassTable) (names : List String) :
    (t.internAll names).2.length = names.length := by
  induction names generalizing t with
  | nil => rfl
  | cons name names ih => simpa [internAll] using ih (t.intern name).1

/-- Interned names are found under their numbers. -/
lemma find?_internAll {names : List String} (nodup : names.Nodup) :
    ∀ p ∈ names.zip (t.internAll names).2, (t.internAll names).1.find? p.1 = some p.2 := by
  induction names generalizing t with
  | nil => simp
  | cons name names ih =>
    rw [List.nodup_cons] at nodup
    intro p hp
    rcases List.mem_cons.1 hp with rfl | hp
    · have found := find?_intern t name name
      rw [if_pos rfl] at found
      exact (find?_internAll_of_not_mem nodup.1).trans found
    · exact ih nodup.2 p hp

/-- Each interned name either had its number before, or has one that was not in use. -/
lemma find?_or_length_le_internAll {names : List String} (nodup : names.Nodup) :
    ∀ p ∈ names.zip (t.internAll names).2, t.find? p.1 = some p.2 ∨ t.slots.length ≤ p.2.index := by
  induction names generalizing t with
  | nil => simp
  | cons name names ih =>
    rw [List.nodup_cons] at nodup
    intro p hp
    rcases List.mem_cons.1 hp with rfl | hp
    · exact find?_or_length_le_intern t name
    · have ne : p.1 ≠ name := fun eq => nodup.1 (eq ▸ (List.of_mem_zip hp).1)
      rcases ih (t := (t.intern name).1) nodup.2 p hp with old | fresh
      · left
        rwa [find?_intern, if_neg ne] at old
      · exact .inr (Nat.le_trans (length_le_intern t name) fresh)

/-- A name that had a number keeps it. -/
lemma find?_internAll_of_find? {names : List String} {name : String} {id : ClassId}
    (h : t.find? name = some id) : (t.internAll names).1.find? name = some id := by
  induction names generalizing t with
  | nil => exact h
  | cons first names ih =>
    refine ih (t := (t.intern first).1) ?_
    rw [find?_intern]
    split
    · next eq =>
      subst eq
      simp [intern, h]
    · exact h

/-- The numbers that come into use are those of interned names.

**Proof sketch.** By induction on the names. A number that comes into use with the first name is the
next one, and that is what the name is given. -/
lemma mem_internAll_of_mem_ids {names : List String} {id : ClassId}
    (h : id ∈ (t.internAll names).1.ids) : id ∈ t.ids ∨ id ∈ (t.internAll names).2 := by
  induction names generalizing t with
  | nil => exact .inl h
  | cons name names ih =>
    rcases ih (t := (t.intern name).1) h with old | mem
    · by_cases known : id ∈ t.ids
      · exact .inl known
      · -- the number came into use with the first name
        refine .inr (List.mem_cons.2 (.inl ?_))
        change id = (t.intern name).2
        unfold intern at old ⊢
        cases hfind : t.find? name with
        | some id' =>
          rw [hfind] at old
          exact absurd old known
        | none =>
          rw [hfind] at old
          obtain ⟨i⟩ := id
          simp only [ids, List.length_append, List.length_singleton, List.mem_map, List.mem_range,
            ClassId.mk.injEq, exists_eq_right] at old known
          have : i = t.slots.length := by omega
          rw [this]
    · exact .inr (List.mem_cons_of_mem _ mem)

/-- A class that is not among the interned ones has the name that it had. -/
lemma nameOf?_internAll_of_not_mem {names : List String} {id : ClassId}
    (h : id ∉ (t.internAll names).2) : (t.internAll names).1.nameOf? id = t.nameOf? id := by
  cases old : t.nameOf? id with
  | some name => exact (edits_internAll t names).1.nameOf? old
  | none =>
    by_contra some
    rw [← ne_eq, Option.ne_none_iff_isSome, ← mem_ids_iff] at some
    rcases mem_internAll_of_mem_ids some with known | mem
    · rw [mem_ids_iff, old] at known
      cases known
    · exact h mem

/-- As many numbers come into use as there are new names. -/
lemma length_slots_internAll {names : List String} (nodup : names.Nodup) :
    (t.internAll names).1.slots.length =
      t.slots.length + names.countP fun name => (t.find? name).isNone := by
  induction names generalizing t with
  | nil => rfl
  | cons name names ih =>
    rw [List.nodup_cons] at nodup
    have rest : names.countP (fun other => ((t.intern name).1.find? other).isNone) =
        names.countP fun other => (t.find? other).isNone := by
      refine List.countP_congr fun other hother => ?_
      have ne : other ≠ name := fun eq => nodup.1 (eq ▸ hother)
      rw [find?_intern, if_neg ne]
    have first : (t.intern name).1.slots.length =
        t.slots.length + if (t.find? name).isNone then 1 else 0 := by
      unfold intern
      cases t.find? name <;> simp
    refine (ih (t := (t.intern name).1) nodup.2).trans ?_
    rw [rest, first, List.countP_cons]
    omega

/-- The numbers of interned names, by name. -/
lemma map_nameOf?_internAll (t : ClassTable) (names : List String) :
    (t.internAll names).2.map (t.internAll names).1.nameOf? = names.map some := by
  have len := length_internAll t names
  have named := (edits_internAll t names).2
  generalize (t.internAll names).1 = u at named
  generalize (t.internAll names).2 = ids at named len
  calc ids.map u.nameOf?
      = ((names.zip ids).map (·.2)).map u.nameOf? := by rw [List.map_snd_zip (by omega)]
    _ = ((names.zip ids).map (·.1)).map some := by
        rw [List.map_map, List.map_map]
        exact List.map_congr_left named
    _ = names.map some := by rw [List.map_fst_zip (by omega)]

/-- Different names have different numbers. -/
lemma nodup_internAll {names : List String} (nodup : names.Nodup) :
    (t.internAll names).2.Nodup := by
  refine List.Nodup.of_map (t.internAll names).1.nameOf? ?_
  rw [map_nameOf?_internAll]
  exact nodup.map fun _ _ => Option.some.inj

end ClassTable

end ContainerLint
