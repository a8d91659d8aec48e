import ContainerLint.Proofs.Graph.Reachability
import Mathlib.Data.List.Nodup
import Mathlib.Logic.Function.Iterate

/-!
# A walk, turn by turn

A walk is a loop: each turn takes the first node that waits, and skips it or visits it. The queue
may grow for a while, and on a graph with cycles the nodes that can be reached may be infinitely
many. It ends nevertheless, and the number of its turns can be told from what it has visited: a node
waits once for each visited node of which it is a successor.

## Main definitions

* `Walk.Loop` — how far a walk has come.
* `Walk.turn` — one turn of the loop.
* `Walk.Loop.Ordered` — what ties the nodes visited, the keys seen and the nodes that wait together.

## Main results

* `Walk.iterate_turn` — the loop ends, and it has visited what `Walk.fromQueue` says.
* `Walk.Loop.Ordered.turn`, `Walk.Loop.Ordered.iterate` — a turn, and a run, keep the invariant.
* `Walk.nodup_keys_visit` — no two visited nodes have the same key.
* `Walk.exists_earlier_of_visit` — a visited node is a successor of one visited before.
-/

set_option autoImplicit false

namespace ContainerLint

namespace Walk

variable {α κ : Type}

/-- How far a walk has come: the nodes that wait, the keys that have been seen, the last one first,
and the nodes that have been visited, in order. -/
structure Loop (α κ : Type) where
  queue : List α
  seen : List κ
  visited : List α

/-! ## The order of visits -/

/-- The invariant of a walk from `start`: the keys seen are those of the visited nodes and all
different, and every node that is visited or waits is the start or a successor of a node that was
visited before. -/
structure Loop.Ordered (g : Walk α κ) (start : α) (s : Loop α κ) : Prop where
  keys : s.visited.map g.key? = s.seen.reverse.map some
  nodup : s.seen.Nodup
  waiting : ∀ a ∈ s.queue, a = start ∨ ∃ c ∈ s.visited, a ∈ g.next c
  visited : ∀ (i : Nat) (a : α), s.visited[i]? = some a →
    a = start ∨ ∃ j < i, ∃ c, s.visited[j]? = some c ∧ a ∈ g.next c

namespace Loop.Ordered

variable {g : Walk α κ} {start : α} {s : Loop α κ}

/-- A walk starts in order. -/
lemma initial (g : Walk α κ) (start : α) :
    Ordered g start { queue := [start], seen := [], visited := [] } where
  keys := rfl
  nodup := List.nodup_nil
  waiting a ha := .inl (List.mem_singleton.1 ha)
  visited i a h := by simp at h

/-- To skip the first node that waits keeps the order. -/
lemma skip (h : s.Ordered g start) {a : α} {queue : List α} (hqueue : s.queue = a :: queue) :
    Ordered g start { s with queue } where
  keys := h.keys
  nodup := h.nodup
  waiting b hb := h.waiting b (hqueue ▸ List.mem_cons_of_mem a hb)
  visited := h.visited

/-- To visit the first node that waits keeps the order.

**Proof sketch.** One condition after the other. The nodes that wait now waited before, or are next
to the node that is visited, which is then visited. A node that was visited before keeps its
position, and the new one comes after all of them. -/
lemma visit (h : s.Ordered g start) {a : α} {queue : List α} (hqueue : s.queue = a :: queue) {k : κ}
    (hk : g.key? a = some k) (hs : k ∉ s.seen) :
    Ordered g start
      { queue := queue ++ g.next a, seen := k :: s.seen, visited := s.visited ++ [a] } where
  keys := by
    rw [List.map_append, h.keys, List.reverse_cons, List.map_append, List.map_singleton, hk]
    rfl
  nodup := List.nodup_cons.2 ⟨hs, h.nodup⟩
  waiting b hb := by
    rcases List.mem_append.1 hb with hb | hb
    · rcases h.waiting b (hqueue ▸ List.mem_cons_of_mem a hb) with eq | ⟨c, hc, hbc⟩
      · exact .inl eq
      · exact .inr ⟨c, List.mem_append_left _ hc, hbc⟩
    · exact .inr ⟨a, by simp, hb⟩
  visited i b hb := by
    rcases Nat.lt_trichotomy i s.visited.length with lt | rfl | gt
    · rw [List.getElem?_append_left lt] at hb
      rcases h.visited i b hb with eq | ⟨j, hj, c, hc, hbc⟩
      · exact .inl eq
      · refine .inr ⟨j, hj, c, ?_, hbc⟩
        rw [List.getElem?_append_left (by omega), hc]
    · -- the node visited now was waiting, so it comes after the one that it waited for
      obtain rfl : a = b := by simpa using hb
      rcases h.waiting a (hqueue ▸ List.mem_cons_self) with eq | ⟨c, hc, hac⟩
      · exact .inl eq
      · obtain ⟨j, hj, rfl⟩ := List.getElem_of_mem hc
        refine .inr ⟨j, hj, s.visited[j], ?_, hac⟩
        rw [List.getElem?_append_left hj, List.getElem?_eq_getElem hj]
    · rw [List.getElem?_eq_none (by simp; omega)] at hb
      cases hb

end Loop.Ordered

variable [DecidableEq κ]

/-- One turn. A node without a key and a node whose key has been seen are skipped, any other node is
visited and its successors wait from then on. Where no node waits, nothing is left to do. -/
def turn (g : Walk α κ) (s : Loop α κ) : Loop α κ :=
  match s.queue with
  | [] => s
  | a :: queue =>
    match g.key? a with
    | none => { s with queue }
    | some k =>
      if k ∈ s.seen then { s with queue }
      else { queue := queue ++ g.next a, seen := k :: s.seen, visited := s.visited ++ [a] }

/-! ## The loop ends -/

/-- **The loop ends**, after as many turns as nodes have waited: those that did at the start, and
the successors of each visited node. It has then visited what `fromQueue` says.

**Proof sketch.** Induction along the walk. Each turn takes one node from the queue, and a visit
puts the successors of one visited node into it. -/
theorem iterate_turn (g : Walk α κ) (queue : List α) (seen : List κ) (visited : List α) :
    ∃ seen', g.turn^[queue.length + ((g.fromQueue seen queue).flatMap g.next).length]
      { queue, seen, visited } =
        { queue := [], seen := seen', visited := visited ++ g.fromQueue seen queue } := by
  fun_induction fromQueue g seen queue generalizing visited with
  | case1 seen => exact ⟨seen, by simp⟩
  | case2 seen a queue hk ih =>
    obtain ⟨seen', run⟩ := ih visited
    refine ⟨seen', ?_⟩
    rw [List.length_cons, Nat.add_right_comm, Function.iterate_succ_apply, ← run]
    simp only [turn, hk]
  | case3 seen a queue k hk hs ih =>
    obtain ⟨seen', run⟩ := ih visited
    refine ⟨seen', ?_⟩
    rw [List.length_cons, Nat.add_right_comm, Function.iterate_succ_apply, ← run]
    simp only [turn, hk, if_pos hs]
  | case4 seen a queue k hk hs ih =>
    obtain ⟨seen', run⟩ := ih (visited ++ [a])
    refine ⟨seen', ?_⟩
    have turns (rest : List α) : (a :: queue).length + ((a :: rest).flatMap g.next).length =
        (queue ++ g.next a).length + (rest.flatMap g.next).length + 1 := by
      simp only [List.length_cons, List.flatMap_cons, List.length_append]
      omega
    rw [List.append_assoc, List.singleton_append] at run
    rw [turns, Function.iterate_succ_apply, ← run]
    simp only [turn, hk, if_neg hs]

namespace Loop.Ordered

variable {g : Walk α κ} {start : α} {s : Loop α κ}

/-- **A turn keeps the order.** -/
theorem turn (h : s.Ordered g start) : (g.turn s).Ordered g start := by
  unfold Walk.turn
  split
  · exact h
  · next a queue hqueue =>
    split
    · exact h.skip hqueue
    · next k hk =>
      split
      · exact h.skip hqueue
      · next hs => exact h.visit hqueue hk hs

/-- **A run of turns keeps the order.** -/
theorem iterate (h : s.Ordered g start) (n : Nat) : (g.turn^[n] s).Ordered g start := by
  induction n with
  | zero => exact h
  | succ n ih =>
    rw [Function.iterate_succ_apply']
    exact ih.turn

end Loop.Ordered

/-! ## A whole walk -/

/-- A whole walk is in order. -/
lemma exists_ordered_visit (g : Walk α κ) (start : α) :
    ∃ seen, Loop.Ordered g start { queue := [], seen, visited := g.visit start } := by
  obtain ⟨seen, run⟩ := iterate_turn g [start] [] []
  have ordered := (Loop.Ordered.initial g start).iterate
    ([start].length + ((g.fromQueue [] [start]).flatMap g.next).length)
  rw [run] at ordered
  exact ⟨seen, ordered⟩

/-- No two visited nodes have the same key. -/
theorem nodup_keys_visit (g : Walk α κ) (start : α) : ((g.visit start).map g.key?).Nodup := by
  obtain ⟨seen, ordered⟩ := exists_ordered_visit g start
  rw [ordered.keys]
  exact (List.nodup_reverse.2 ordered.nodup).map fun _ _ => Option.some.inj

/-- A walk from a node with a key visits that node first. -/
lemma exists_visit_eq_cons (g : Walk α κ) {start : α} (h : g.keyed start = true) :
    ∃ rest, g.visit start = start :: rest := by
  obtain ⟨k, hk⟩ := Option.isSome_iff_exists.1 h
  exact ⟨_, fromQueue_cons_of_not_mem hk (by simp) []⟩

/-- A walk from a node without a key visits nothing. -/
lemma visit_eq_nil (g : Walk α κ) {start : α} (h : g.keyed start = false) : g.visit start = [] := by
  rw [visit, fromQueue_cons_of_not_keyed h, fromQueue_nil]

/-- Every visited node but the first is a successor of one that was visited before it.

**Proof sketch.** The invariant leaves the possibility that the node is the start. But the start was
visited first, and a second visit would repeat its key. -/
theorem exists_earlier_of_visit (g : Walk α κ) {start a : α} {i : Nat}
    (h : (g.visit start)[i + 1]? = some a) :
    ∃ j ≤ i, ∃ c, (g.visit start)[j]? = some c ∧ a ∈ g.next c := by
  obtain ⟨seen, ordered⟩ := exists_ordered_visit g start
  rcases ordered.visited (i + 1) a h with rfl | ⟨j, hj, c, hc, hac⟩
  · exfalso
    have keyed := (reach_of_mem_visit g (List.mem_of_getElem? h)).2
    obtain ⟨rest, first⟩ := exists_visit_eq_cons g keyed
    have nodup := nodup_keys_visit g a
    rw [first, List.map_cons, List.nodup_cons] at nodup
    rw [first, List.getElem?_cons_succ] at h
    exact nodup.1 (List.mem_map_of_mem (List.mem_of_getElem? h))
  · exact ⟨j, by omega, c, hc, hac⟩

end Walk

end ContainerLint
