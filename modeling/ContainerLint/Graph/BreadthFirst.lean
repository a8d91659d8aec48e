/-!
# Breadth-first walks

A walk visits the nodes that can be reached from a queue of nodes, each at most once. Two nodes with
the same key count as one, and the one that comes first is visited. Nodes without a key are skipped.

## Main definitions

* `Walk` — a graph with keys, finitely many of which belong to nodes with successors.
* `Walk.fresh` — how many of these keys are still to be visited.
* `Walk.visit` — the nodes that a walk visits, in order.

## Design

Only finitely many keys have successors, which is why a walk ends on every graph, with cycles or
without: each visit either uses up one of these keys or shortens the queue.
-/

set_option autoImplicit false

namespace ContainerLint

/-- A graph to walk. -/
structure Walk (α κ : Type) where
  /-- What identifies a node. -/
  key? : α → Option κ
  /-- The successors of a node. -/
  next : α → List α
  /-- The keys of the nodes that may have successors. -/
  domain : List κ
  /-- The other nodes have none. -/
  next_eq_nil : ∀ {a : α} {k : κ}, key? a = some k → k ∉ domain → next a = []

namespace Walk

variable {α κ : Type} [DecidableEq κ]

/-- The number of keys in the domain that have not been seen. -/
def fresh (g : Walk α κ) (seen : List κ) : Nat :=
  g.domain.countP fun k => decide (k ∉ seen)

/-- To see one more key leaves no more of them unseen. -/
theorem countP_unseen_cons_le (ks seen : List κ) (k : κ) :
    (ks.countP fun j => decide (j ∉ k :: seen)) ≤ ks.countP fun j => decide (j ∉ seen) :=
  List.countP_mono_left fun j _ hj => by simp_all

/-- It leaves fewer of them unseen if the key is among them and was not seen. -/
theorem countP_unseen_cons_lt {ks seen : List κ} {k : κ} (mem : k ∈ ks) (unseen : k ∉ seen) :
    (ks.countP fun j => decide (j ∉ k :: seen)) < ks.countP fun j => decide (j ∉ seen) := by
  induction ks with
  | nil => simp at mem
  | cons j js ih =>
    by_cases eq : j = k
    · subst eq
      have := countP_unseen_cons_le js seen j
      rw [List.countP_cons_of_neg (by simp), List.countP_cons_of_pos (by simpa using unseen)]
      omega
    · have lt := ih (by simpa [Ne.symm eq] using mem)
      by_cases hj : j ∈ seen
      · rw [List.countP_cons_of_neg (by simp [hj]), List.countP_cons_of_neg (by simp [hj])]
        exact lt
      · rw [List.countP_cons_of_pos (by simp [hj, eq]), List.countP_cons_of_pos (by simp [hj])]
        omega

/-- A visit to a node with successors leaves fewer keys to visit. -/
theorem fresh_cons_lt (g : Walk α κ) {seen : List κ} {k : κ} (mem : k ∈ g.domain)
    (unseen : k ∉ seen) : g.fresh (k :: seen) < g.fresh seen :=
  countP_unseen_cons_lt mem unseen

/-- No visit adds to the keys to visit. -/
theorem fresh_cons_le (g : Walk α κ) (seen : List κ) (k : κ) :
    g.fresh (k :: seen) ≤ g.fresh seen :=
  countP_unseen_cons_le g.domain seen k

/-- The nodes visited from a queue when the keys in `seen` have been visited before. -/
def fromQueue (g : Walk α κ) (seen : List κ) : List α → List α
  | [] => []
  | a :: queue =>
    match _h : g.key? a with
    | none => fromQueue g seen queue
    | some k =>
      if k ∈ seen then fromQueue g seen queue
      else a :: fromQueue g (k :: seen) (queue ++ g.next a)
termination_by queue => (g.fresh seen, queue.length)
decreasing_by
  · exact Prod.Lex.right _ (by simp)
  · exact Prod.Lex.right _ (by simp)
  · by_cases mem : k ∈ g.domain
    · exact Prod.Lex.left _ _ (fresh_cons_lt g mem ‹_›)
    · rw [g.next_eq_nil _h mem, List.append_nil]
      rcases Nat.lt_or_eq_of_le (fresh_cons_le g seen k) with lt | eq
      · exact Prod.Lex.left _ _ lt
      · rw [eq]
        exact Prod.Lex.right _ (by simp)

/-- The nodes visited from one node. -/
def visit (g : Walk α κ) (start : α) : List α :=
  g.fromQueue [] [start]

end Walk

end ContainerLint
