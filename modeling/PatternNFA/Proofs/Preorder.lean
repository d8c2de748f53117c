-- The order of the live states. The search works off a stack, on which a state may stand many times
-- and long after it has been visited. It lists what a recursive search lists that goes from a state
-- to its targets, one after the other, and takes no more turns than there are edges to try.
import Mathlib.Algebra.BigOperators.Group.Finset.Basic
import Mathlib.Algebra.Order.BigOperators.Group.Finset
import PatternNFA.Proofs.Liveness

namespace PatternNFA

namespace Automaton

variable {a : Automaton}

/-! ## The recursive search -/

/-- What there is to do while these states have been visited: to visit the others, and to try
their edges. -/
def load (a : Automaton) (visited : Finset Nat) : Nat :=
  ∑ s ∈ Finset.range a.size \ visited, ((a.edges s).length + 1)

theorem load_insert {visited : Finset Nat} {s : Nat} (hs : s < a.size) (hfresh : s ∉ visited) :
    (a.edges s).length + 1 + a.load (insert s visited) = a.load visited := by
  have hmem : s ∈ Finset.range a.size \ visited :=
    Finset.mem_sdiff.2 ⟨Finset.mem_range.2 hs, hfresh⟩
  unfold load
  rw [Finset.sdiff_insert]
  exact Finset.add_sum_erase _ (fun s => (a.edges s).length + 1) hmem

theorem load_le_of_subset {visited more : Finset Nat} (h : visited ⊆ more) :
    a.load more ≤ a.load visited :=
  Finset.sum_le_sum_of_subset (Finset.sdiff_subset_sdiff (Finset.Subset.refl _) h)

/-- Visits the states of a list one after the other. A state that has been visited is skipped. Any
other one is emitted, and then its targets are visited, before the rest of the list. -/
def preorder (a : Automaton) (visited : Finset Nat) : List Nat → List Nat
  | [] => []
  | s :: rest =>
    if _ : s < a.size ∧ s ∉ visited then
      let branch := s :: a.preorder (insert s visited) ((a.edges s).map (·.2))
      branch ++ a.preorder (visited ∪ branch.toFinset) rest
    else a.preorder visited rest
termination_by pending => a.load visited + pending.length
decreasing_by
  · rename_i hfresh
    have := load_insert hfresh.1 hfresh.2
    simp only [List.length_map, List.length_cons]
    omega
  · exact Nat.add_lt_add_of_le_of_lt (load_le_of_subset Finset.subset_union_left)
      (Nat.lt_succ_self rest.length)
  · exact Nat.add_lt_add_left (Nat.lt_succ_self rest.length) _

theorem preorder_nil (visited : Finset Nat) : a.preorder visited [] = [] := by
  rw [preorder]

/-- A state that has not been visited comes first, and then what its targets lead to. -/
theorem preorder_singleton {visited : Finset Nat} {s : Nat} (hs : s < a.size)
    (hfresh : s ∉ visited) : a.preorder visited [s]
      = s :: a.preorder (insert s visited) ((a.edges s).map (·.2)) := by
  rw [preorder, dif_pos ⟨hs, hfresh⟩]
  simp only [preorder_nil, List.append_nil]

theorem preorder_skip {visited : Finset Nat} {s : Nat} (h : ¬(s < a.size ∧ s ∉ visited))
    (rest : List Nat) : a.preorder visited (s :: rest) = a.preorder visited rest := by
  rw [preorder, dif_neg h]

theorem preorder_cons (visited : Finset Nat) (s : Nat) (rest : List Nat) :
    a.preorder visited (s :: rest) = a.preorder visited [s]
      ++ a.preorder (visited ∪ (a.preorder visited [s]).toFinset) rest := by
  by_cases h : s < a.size ∧ s ∉ visited
  · rw [preorder_singleton h.1 h.2, preorder, dif_pos h]
  · rw [preorder_skip h, preorder_skip h, preorder_nil, List.nil_append, List.toFinset_nil,
      Finset.union_empty]

/-- A visit to the states of a list that hands on what it has visited can be cut at any state. -/
theorem visit_append {visit : Finset Nat → List Nat → List Nat}
    (nil : ∀ visited, visit visited [] = [])
    (cons : ∀ visited s rest, visit visited (s :: rest)
      = visit visited [s] ++ visit (visited ∪ (visit visited [s]).toFinset) rest)
    (visited : Finset Nat) (first rest : List Nat) : visit visited (first ++ rest)
      = visit visited first ++ visit (visited ∪ (visit visited first).toFinset) rest := by
  induction first generalizing visited with
  | nil => rw [nil, List.nil_append, List.nil_append, List.toFinset_nil, Finset.union_empty]
  | cons s first ih =>
    rw [List.cons_append, cons, ih, cons visited s first, List.append_assoc,
      List.toFinset_append, Finset.union_assoc]

/-- What the first states of a list lead to has been visited when the others are. -/
theorem preorder_append (visited : Finset Nat) (first rest : List Nat) :
    a.preorder visited (first ++ rest) = a.preorder visited first
      ++ a.preorder (visited ∪ (a.preorder visited first).toFinset) rest :=
  visit_append preorder_nil preorder_cons visited first rest

/-! ## The stack -/

/-- A state is marked if it has been found. -/
def Marks (a : Automaton) (visited : Array Bool) (found : Array Nat) : Prop :=
  ∀ s, visited[s]? = some false ↔ s < a.size ∧ s ∉ found.toList

theorem marks_start (a : Automaton) : a.Marks (Array.replicate a.size false) #[] := by
  intro s
  simp [Array.getElem?_replicate]

theorem Marks.push {visited : Array Bool} {found : Array Nat} (h : a.Marks visited found) {s : Nat}
    (hs : s < visited.size) : a.Marks (visited.set s true) (found.push s) := by
  intro t
  rw [Array.getElem?_set, Array.toList_push, List.mem_append, List.mem_singleton]
  by_cases hst : s = t
  · simp [hst]
  · have hne : ¬ t = s := fun heq => hst heq.symm
    rw [if_neg hst, h t, or_iff_left hne]

theorem ne_of_visited {visited : Array Bool} {s : Nat} (hs : s < visited.size)
    (hvisited : ¬ visited[s] = false) : visited[s]? ≠ some false := by
  rw [Array.getElem?_eq_getElem hs]
  exact fun heq => hvisited (Option.some.inj heq)

theorem ne_of_out_of_range {visited : Array Bool} {s : Nat} (hs : ¬ s < visited.size) :
    visited[s]? ≠ some false := by
  rw [Array.getElem?_eq_none (Nat.le_of_not_lt hs)]
  exact fun hnone => nomatch hnone

theorem Marks.not_fresh {visited : Array Bool} {found : Array Nat} (h : a.Marks visited found)
    {s : Nat} (hs : visited[s]? ≠ some false) :
    ¬(s < a.size ∧ s ∉ found.toList.toFinset) := by
  rw [List.mem_toFinset, ← h s]
  exact hs

/-- What the search adds to the states that it has found is what the recursive search emits. -/
theorem toList_explore {visited : Array Bool} {found : Array Nat} (h : a.Marks visited found)
    (pending : List Nat) :
    (a.explore visited found pending).toList
      = found.toList ++ a.preorder found.toList.toFinset pending := by
  fun_induction Automaton.explore a visited found pending with
  | case1 visited found => rw [preorder_nil, List.append_nil]
  | case2 visited found s pending hs hfresh ih =>
    have hnew := (h s).1 (by rw [Array.getElem?_eq_getElem hs, hfresh])
    have hlisted : s ∉ found.toList.toFinset := fun hmem => hnew.2 (List.mem_toFinset.1 hmem)
    have hvisited : (found.push s).toList.toFinset = insert s found.toList.toFinset := by
      rw [Array.toList_push, List.toFinset_append, List.toFinset_cons, List.toFinset_nil,
        Finset.union_insert, Finset.union_empty]
    -- The targets are pending before the rest, as the recursive search takes them.
    rw [ih (h.push hs), hvisited, preorder_append, preorder_cons, preorder_singleton hnew.1 hlisted,
      Array.toList_push, List.toFinset_cons, Finset.insert_union, Finset.union_insert,
      List.append_assoc, List.singleton_append, List.cons_append]
  | case3 visited found s pending hs hvisited ih =>
    rw [ih h, preorder_skip (h.not_fresh (ne_of_visited hs hvisited))]
  | case4 visited found s pending hs ih =>
    rw [ih h, preorder_skip (h.not_fresh (ne_of_out_of_range hs))]

theorem live_eq_preorder (a : Automaton) : a.live = a.preorder ∅ [a.start] :=
  toList_explore a.marks_start [a.start]

/-! ## The turns of the search -/

/-- What the search holds between two turns. -/
structure Search where
  visited : Array Bool
  found : Array Nat
  pending : List Nat

namespace Search

/-- Takes the first pending state. -/
def turn (a : Automaton) : Search → Search
  | { visited, found, pending := s :: pending } =>
    if visited[s]? = some false then
      { visited := visited.setIfInBounds s true, found := found.push s
        pending := (a.edges s).map (·.2) ++ pending }
    else { visited, found, pending }
  | search => search

def start (a : Automaton) : Search :=
  { visited := Array.replicate a.size false, found := #[], pending := [a.start] }

theorem turn_fresh {visited : Array Bool} {s : Nat} (hs : s < visited.size)
    (hfresh : visited[s] = false) (found : Array Nat) (pending : List Nat) :
    turn a { visited, found, pending := s :: pending }
      = { visited := visited.set s true, found := found.push s
          pending := (a.edges s).map (·.2) ++ pending } := by
  have hnew : visited[s]? = some false := by rw [Array.getElem?_eq_getElem hs, hfresh]
  simp only [turn, if_pos hnew, Array.setIfInBounds_def, dif_pos hs]

theorem turn_skip {visited : Array Bool} {s : Nat} (h : visited[s]? ≠ some false)
    (found : Array Nat) (pending : List Nat) :
    turn a { visited, found, pending := s :: pending } = { visited, found, pending } := by
  simp only [turn, if_neg h]

/-- After so many turns nothing is pending, and these are the states that have been found. -/
def EndsAfter (a : Automaton) (search : Search) (turns : Nat) (found : List Nat) : Prop :=
  ((turn a)^[turns] search).pending = [] ∧ ((turn a)^[turns] search).found.toList = found

theorem EndsAfter.succ {search : Search} {turns : Nat} {found : List Nat}
    (h : EndsAfter a (turn a search) turns found) : EndsAfter a search (turns + 1) found := by
  unfold EndsAfter
  rw [Function.iterate_succ_apply]
  exact h

theorem EndsAfter.skip {visited : Array Bool} {s : Nat} {found : Array Nat}
    {pending last : List Nat} {turns : Nat} (h : EndsAfter a { visited, found, pending } turns last)
    (hs : visited[s]? ≠ some false) :
    EndsAfter a { visited, found, pending := s :: pending } (turns + 1) last := by
  rw [← turn_skip hs] at h
  exact h.succ

/-- There is a turn for each state that is pending, and for each edge of the states that are found
on the way. -/
theorem exists_endsAfter (visited : Array Bool) (found : Array Nat) (pending : List Nat) :
    ∃ new, (a.explore visited found pending).toList = found.toList ++ new
      ∧ EndsAfter a { visited, found, pending } (pending.length + (new.flatMap a.edges).length)
          (a.explore visited found pending).toList := by
  fun_induction Automaton.explore a visited found pending with
  | case1 visited found => exact ⟨[], (List.append_nil _).symm, rfl, rfl⟩
  | case2 visited found s pending hs hfresh ih =>
    obtain ⟨new, hnew, hend⟩ := ih
    rw [← turn_fresh hs hfresh] at hend
    refine ⟨s :: new, ?_, ?_⟩
    · rw [hnew, Array.toList_push, List.append_assoc, List.singleton_append]
    · have hturns : (s :: pending).length + ((s :: new).flatMap a.edges).length
          = ((a.edges s).map (·.2) ++ pending).length + (new.flatMap a.edges).length + 1 := by
        simp only [List.length_cons, List.flatMap_cons, List.length_append, List.length_map]
        omega
      rw [hturns]
      exact hend.succ
  | case3 visited found s pending hs hvisited ih =>
    obtain ⟨new, hnew, hend⟩ := ih
    refine ⟨new, hnew, ?_⟩
    rw [List.length_cons, Nat.add_right_comm]
    exact hend.skip (ne_of_visited hs hvisited)
  | case4 visited found s pending hs ih =>
    obtain ⟨new, hnew, hend⟩ := ih
    refine ⟨new, hnew, ?_⟩
    rw [List.length_cons, Nat.add_right_comm]
    exact hend.skip (ne_of_out_of_range hs)

end Search

end Automaton

/-! ## The law -/

/-- The live states are those that a recursive search emits from the start, in the same order, and
they are the states that can be reached. The search over a stack comes to its end: it takes one turn
for the start, and one for each edge of a live state. -/
theorem the_live_states_come_in_preorder {a : Automaton} (hrange : a.InRange) :
    a.live = a.preorder ∅ [a.start]
    ∧ (∀ q, q ∈ a.live ↔ a.Reaches a.start q)
    ∧ Automaton.Search.EndsAfter a (.start a) (a.edgeCount + 1) a.live := by
  refine ⟨a.live_eq_preorder, fun q => Automaton.mem_live hrange, ?_⟩
  obtain ⟨new, hnew, hend⟩ :=
    Automaton.Search.exists_endsAfter (a := a) (Array.replicate a.size false) #[] [a.start]
  have hlive : a.live = new := hnew
  rw [← hlive, Nat.add_comm] at hend
  exact hend

/-- The root has an edge to itself and three to one state, and two states lead back to it. Edges
that bear the same letter stand together, so the state 3 is found before the state 2. -/
theorem a_state_is_found_with_its_letter :
    ∃ a, compile "*a??)b)a+" = .ok a ∧ a.InRange
      ∧ (a.edges 0).map (·.2) = [0, 1, 1, 1, 3, 2]
      ∧ a.live = [0, 1, 3, 2]
      ∧ (∀ q, q ∈ a.live ↔ a.Reaches a.start q)
      ∧ a.edgeCount = 9 ∧ Automaton.Search.EndsAfter a (.start a) (a.edgeCount + 1) a.live := by
  have ha : compile "*a??)b)a+" = .ok _ := rfl
  have hrange := compile_inRange ha
  obtain ⟨hpreorder, hreaches, hend⟩ := the_live_states_come_in_preorder hrange
  have hlive := hpreorder.trans (by decide +kernel : _ = [0, 1, 3, 2])
  refine ⟨_, ha, hrange, by decide +kernel, hlive, hreaches, ?_, hend⟩
  rw [Automaton.edgeCount, Automaton.liveEdges, hlive]
  decide +kernel

end PatternNFA
