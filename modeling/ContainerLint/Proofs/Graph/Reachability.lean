import ContainerLint.Graph.BreadthFirst
import Mathlib.Data.List.Basic
import Mathlib.Logic.Relation

/-!
# What a breadth-first walk visits

A walk visits nothing but what can be reached, and it misses nothing as far as keys are concerned:
the keys of the visited nodes are closed under successors. Where a key determines a reachable node,
the visited nodes are therefore exactly the reachable ones. Two walks whose graphs correspond to
each other visit corresponding nodes in the same order.

## Main definitions

* `Walk.keyed` — whether a node has a key, so that a walk can visit it.
* `Walk.Step`, `Walk.Reach` — one step along an edge of the graph, and any number of them.

## Main results

* `Walk.reach_of_mem_visit` — every visited node can be reached.
* `Walk.exists_mem_visit_of_next` — the keys of the visited nodes are closed under successors.
* `Walk.mem_visit_iff` — where a key determines a reachable node, a walk visits what can be reached.
* `Walk.fromQueue_map` — corresponding graphs have corresponding walks.
-/

set_option autoImplicit false

namespace ContainerLint

namespace Walk

variable {α β κ : Type}

/-- Whether a node has a key. A walk skips the nodes that have none. -/
def keyed (g : Walk α κ) (a : α) : Bool :=
  (g.key? a).isSome

/-- One step from a node that a walk can visit. -/
def Step (g : Walk α κ) (a b : α) : Prop :=
  g.keyed a = true ∧ b ∈ g.next a

/-- Any number of steps. -/
def Reach (g : Walk α κ) : α → α → Prop :=
  Relation.ReflTransGen g.Step

/-- A node with a key is keyed. -/
lemma keyed_of_key? {g : Walk α κ} {a : α} {k : κ} (h : g.key? a = some k) : g.keyed a = true := by
  simp [keyed, h]

variable [DecidableEq κ]

/-! ## One step of a walk -/

/-- A walk from an empty queue visits nothing. -/
@[simp] lemma fromQueue_nil (g : Walk α κ) (seen : List κ) : g.fromQueue seen [] = [] := by
  rw [fromQueue]

/-- A node without a key is skipped. -/
lemma fromQueue_cons_of_not_keyed {g : Walk α κ} {a : α} (h : g.keyed a = false) (seen : List κ)
    (queue : List α) : g.fromQueue seen (a :: queue) = g.fromQueue seen queue := by
  rw [fromQueue]
  split
  · rfl
  · next k hk => simp [keyed, hk] at h

/-- A node whose key has been seen is skipped. -/
lemma fromQueue_cons_of_mem {g : Walk α κ} {a : α} {k : κ} {seen : List κ}
    (hk : g.key? a = some k) (hs : k ∈ seen) (queue : List α) :
    g.fromQueue seen (a :: queue) = g.fromQueue seen queue := by
  rw [fromQueue]
  split
  · rfl
  · next j hj =>
    obtain rfl : k = j := by simpa [hk] using hj
    rw [if_pos hs]

/-- A node with a new key is visited, and its successors join the queue. -/
lemma fromQueue_cons_of_not_mem {g : Walk α κ} {a : α} {k : κ} {seen : List κ}
    (hk : g.key? a = some k) (hs : k ∉ seen) (queue : List α) :
    g.fromQueue seen (a :: queue) = a :: g.fromQueue (k :: seen) (queue ++ g.next a) := by
  rw [fromQueue]
  split
  · next h => simp [hk] at h
  · next j hj =>
    obtain rfl : k = j := by simpa [hk] using hj
    rw [if_neg hs]

/-! ## Visited nodes can be reached -/

/-- Every node visited from a queue has a key and can be reached from a member of the queue.

**Proof sketch.** Induction along the walk. A node that is visited later on is reached from the rest
of the queue or from a successor of the node visited now. -/
lemma reach_of_mem_fromQueue (g : Walk α κ) (seen : List κ) (queue : List α) {b : α}
    (hb : b ∈ g.fromQueue seen queue) : (∃ a ∈ queue, g.Reach a b) ∧ g.keyed b = true := by
  fun_induction fromQueue g seen queue with
  | case1 => simp at hb
  | case2 seen a queue hk ih =>
    obtain ⟨⟨c, hc, hr⟩, hkey⟩ := ih hb
    exact ⟨⟨c, List.mem_cons_of_mem _ hc, hr⟩, hkey⟩
  | case3 seen a queue k hk hs ih =>
    obtain ⟨⟨c, hc, hr⟩, hkey⟩ := ih hb
    exact ⟨⟨c, List.mem_cons_of_mem _ hc, hr⟩, hkey⟩
  | case4 seen a queue k hk hs ih =>
    have ha : g.keyed a = true := keyed_of_key? hk
    rcases List.mem_cons.1 hb with rfl | hb
    · exact ⟨⟨b, List.mem_cons_self, .refl⟩, ha⟩
    · obtain ⟨⟨c, hc, hr⟩, hkey⟩ := ih hb
      refine ⟨?_, hkey⟩
      rcases List.mem_append.1 hc with hc | hc
      · exact ⟨c, List.mem_cons_of_mem _ hc, hr⟩
      · exact ⟨a, List.mem_cons_self, .head ⟨ha, hc⟩ hr⟩

/-- Every visited node can be reached. -/
theorem reach_of_mem_visit (g : Walk α κ) {start b : α} (hb : b ∈ g.visit start) :
    g.Reach start b ∧ g.keyed b = true := by
  obtain ⟨⟨a, ha, hr⟩, hkey⟩ := reach_of_mem_fromQueue g [] [start] hb
  obtain rfl := List.mem_singleton.1 ha
  exact ⟨hr, hkey⟩

/-! ## The visited keys are closed under successors -/

/-- Every key in the queue has been seen before or is visited.

**Proof sketch.** By induction on the run. A node without a key or with a key that was seen is
dropped, and a node that is visited has its key seen from then on; the nodes behind it stay in the
queue. -/
lemma exists_mem_fromQueue_of_mem (g : Walk α κ) (seen : List κ) (queue : List α) {a : α} {k : κ}
    (ha : a ∈ queue) (hk : g.key? a = some k) :
    k ∈ seen ∨ ∃ b ∈ g.fromQueue seen queue, g.key? b = some k := by
  fun_induction fromQueue g seen queue with
  | case1 => simp at ha
  | case2 seen c queue hc ih =>
    rcases List.mem_cons.1 ha with rfl | ha
    · simp [hk] at hc
    · exact ih ha
  | case3 seen c queue j hj hs ih =>
    rcases List.mem_cons.1 ha with rfl | ha
    · obtain rfl : k = j := by simpa [hk] using hj
      exact .inl hs
    · exact ih ha
  | case4 seen c queue j hj hs ih =>
    by_cases eq : k = j
    · subst eq
      exact .inr ⟨c, List.mem_cons_self, hj⟩
    · rcases List.mem_cons.1 ha with rfl | ha
      · exact absurd (Option.some.inj (hk.symm.trans hj)) eq
      · rcases ih (List.mem_append_left _ ha) with hs' | ⟨b, hb, hkb⟩
        · exact .inl (by simpa [eq] using hs')
        · exact .inr ⟨b, List.mem_cons_of_mem _ hb, hkb⟩

/-- Every key of a successor of a visited node has been seen before or is visited.

**Proof sketch.** Induction along the walk. The successors of the node visited now are in the queue
of the walk that follows, so their keys are visited there. -/
lemma exists_mem_fromQueue_of_next (g : Walk α κ) (seen : List κ) (queue : List α) {a b : α} {k : κ}
    (ha : a ∈ g.fromQueue seen queue) (hb : b ∈ g.next a) (hk : g.key? b = some k) :
    k ∈ seen ∨ ∃ c ∈ g.fromQueue seen queue, g.key? c = some k := by
  fun_induction fromQueue g seen queue with
  | case1 => simp at ha
  | case2 seen c queue hc ih => exact ih ha
  | case3 seen c queue j hj hs ih => exact ih ha
  | case4 seen c queue j hj hs ih =>
    have found : k ∈ j :: seen ∨
        ∃ d ∈ g.fromQueue (j :: seen) (queue ++ g.next c), g.key? d = some k := by
      rcases List.mem_cons.1 ha with rfl | ha
      · exact exists_mem_fromQueue_of_mem g _ _ (List.mem_append_right _ hb) hk
      · exact ih ha
    rcases found with hs' | ⟨d, hd, hkd⟩
    · rcases List.mem_cons.1 hs' with rfl | hs'
      · exact .inr ⟨c, List.mem_cons_self, hj⟩
      · exact .inl hs'
    · exact .inr ⟨d, List.mem_cons_of_mem _ hd, hkd⟩

/-- A node with a key is the first one visited from itself. -/
lemma mem_visit_self (g : Walk α κ) {start : α} (h : g.keyed start = true) :
    start ∈ g.visit start := by
  obtain ⟨k, hk⟩ := Option.isSome_iff_exists.1 h
  rw [visit, fromQueue_cons_of_not_mem hk (by simp)]
  exact List.mem_cons_self

/-- The keys of the visited nodes are closed under successors. -/
theorem exists_mem_visit_of_next (g : Walk α κ) {start a b : α} {k : κ} (ha : a ∈ g.visit start)
    (hb : b ∈ g.next a) (hk : g.key? b = some k) : ∃ c ∈ g.visit start, g.key? c = some k := by
  rcases exists_mem_fromQueue_of_next g [] [start] ha hb hk with h | h
  · simp at h
  · exact h

/-- Where a key determines a reachable node, a walk visits exactly what can be reached.

**Proof sketch.** Along a path every node is visited: its key is, by closure, as the key of a
visited and hence reachable node, and the two are the same. -/
theorem mem_visit_iff (g : Walk α κ) {start : α}
    (coherent : ∀ {a b : α} {k : κ}, g.Reach start a → g.Reach start b →
      g.key? a = some k → g.key? b = some k → a = b) {b : α} :
    b ∈ g.visit start ↔ g.Reach start b ∧ g.keyed b = true := by
  refine ⟨reach_of_mem_visit g, ?_⟩
  rintro ⟨hr, hkey⟩
  induction hr with
  | refl => exact mem_visit_self g hkey
  | tail hr step ih =>
    obtain ⟨k, hk⟩ := Option.isSome_iff_exists.1 hkey
    obtain ⟨c, hc, hkc⟩ := exists_mem_visit_of_next g (ih step.1) step.2 hk
    obtain rfl := coherent (reach_of_mem_visit g hc).1 (hr.tail step) hkc hk
    exact hc

/-! ## Corresponding walks -/

/-- A queue of nodes without keys leads nowhere. -/
lemma fromQueue_eq_nil {g : Walk α κ} {queue : List α} (h : queue.filter g.keyed = [])
    (seen : List κ) : g.fromQueue seen queue = [] := by
  induction queue with
  | nil => exact fromQueue_nil g seen
  | cons a queue ih =>
    rw [List.filter_eq_nil_iff] at h
    have ha : g.keyed a = false := by simpa using h a List.mem_cons_self
    rw [fromQueue_cons_of_not_keyed ha]
    exact ih (List.filter_eq_nil_iff.2 fun b hb => h b (List.mem_cons_of_mem _ hb))

/-- A walk starts with the first node in the queue that has a key. -/
lemma exists_fromQueue_eq_cons {g : Walk α κ} {queue rest : List α} {a : α}
    (h : queue.filter g.keyed = a :: rest) (seen : List κ) :
    ∃ tail, tail.filter g.keyed = rest ∧ g.fromQueue seen queue = g.fromQueue seen (a :: tail) := by
  induction queue with
  | nil => simp at h
  | cons b queue ih =>
    by_cases hb : g.keyed b = true
    · rw [List.filter_cons_of_pos hb] at h
      obtain ⟨rfl, rfl⟩ := List.cons.inj h
      exact ⟨queue, rfl, rfl⟩
    · rw [List.filter_cons_of_neg hb] at h
      obtain ⟨tail, htail, eq⟩ := ih h
      refine ⟨tail, htail, ?_⟩
      rw [fromQueue_cons_of_not_keyed (by simpa using hb), eq]

/-- If a map of nodes keeps keys and takes the keyed successors of a node to those of its image, in
the same order, then it takes a walk to a walk. Nodes outside of `good` do not matter, provided that
the walk does not meet them.

**Proof sketch.** Induction along the first walk. The second queue may hold other nodes without
keys, but the first keyed node of both is the same up to the map, and so is what its visit adds. -/
theorem fromQueue_map {g : Walk α κ} {g' : Walk β κ} (f : α → β) (good : α → Prop)
    (key : ∀ a, good a → g'.key? (f a) = g.key? a)
    (closed : ∀ a, good a → ∀ b ∈ g.next a, g.keyed b = true → good b)
    (next : ∀ a, good a → g.keyed a = true →
      (g'.next (f a)).filter g'.keyed = ((g.next a).filter g.keyed).map f)
    (seen : List κ) (queue : List α) (queue' : List β)
    (hgood : ∀ a ∈ queue, g.keyed a = true → good a)
    (hqueue : queue'.filter g'.keyed = (queue.filter g.keyed).map f) :
    g'.fromQueue seen queue' = (g.fromQueue seen queue).map f := by
  fun_induction fromQueue g seen queue generalizing queue' with
  | case1 => exact fromQueue_eq_nil (by simpa using hqueue) _
  | case2 seen a queue hk ih =>
    rw [List.filter_cons_of_neg (by simp [keyed, hk])] at hqueue
    exact ih queue' (fun b hb => hgood b (List.mem_cons_of_mem _ hb)) hqueue
  | case3 seen a queue k hk hs ih =>
    have ha := keyed_of_key? hk
    have hkey := key a (hgood a List.mem_cons_self ha)
    rw [List.filter_cons_of_pos ha, List.map_cons] at hqueue
    obtain ⟨tail, htail, eq⟩ := exists_fromQueue_eq_cons hqueue seen
    rw [eq, fromQueue_cons_of_mem (hkey.trans hk) hs]
    exact ih tail (fun b hb => hgood b (List.mem_cons_of_mem _ hb)) htail
  | case4 seen a queue k hk hs ih =>
    have ha := keyed_of_key? hk
    have hga := hgood a List.mem_cons_self ha
    rw [List.filter_cons_of_pos ha, List.map_cons] at hqueue
    obtain ⟨tail, htail, eq⟩ := exists_fromQueue_eq_cons hqueue seen
    rw [eq, fromQueue_cons_of_not_mem ((key a hga).trans hk) hs, List.map_cons]
    congr 1
    refine ih _ (fun b hb hkb => ?_) ?_
    · rcases List.mem_append.1 hb with hb | hb
      · exact hgood b (List.mem_cons_of_mem _ hb) hkb
      · exact closed a hga b hb hkb
    · rw [List.filter_append, List.filter_append, List.map_append, htail, next a hga ha]

end Walk

end ContainerLint
