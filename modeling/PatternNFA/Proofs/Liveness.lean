-- Every state that a pattern makes is of use: the search from the start finds
-- all of them, and each simulation can be led into any of them.
import Mathlib.Data.List.Perm.Basic
import PatternNFA.Automaton.Live
import PatternNFA.Proofs.Simulations

namespace PatternNFA

namespace Automaton

variable {a : Automaton}

/-! ## The search -/

theorem mem_map_edges {s t : Nat} : t ∈ (a.edges s).map (·.2) ↔ a.Adjacent s t := by
  unfold Adjacent
  rw [List.mem_map]
  constructor
  · rintro ⟨⟨symbol, t⟩, hmem, rfl⟩
    exact ⟨symbol, mem_edges.1 hmem⟩
  · rintro ⟨symbol, ht⟩
    exact ⟨(symbol, t), mem_edges.2 ht, rfl⟩

/-- The search is under way. The targets of a state that is found are found or pending. -/
structure Explored (a : Automaton) (visited : Array Bool) (found : Array Nat)
    (pending : List Nat) : Prop where
  size_eq : visited.size = a.size
  nodup : found.toList.Nodup
  visited_iff : ∀ s (h : s < visited.size), visited[s] = true ↔ s ∈ found.toList
  expanded : ∀ s ∈ found.toList, ∀ t, a.Adjacent s t → t ∈ found.toList ++ pending
  start_mem : a.start ∈ found.toList ++ pending
  reached : ∀ s ∈ found.toList ++ pending, a.Reaches a.start s

theorem explored_start (a : Automaton) :
    Explored a (Array.replicate a.size false) #[] [a.start] where
  size_eq := by simp
  nodup := by simp
  visited_iff := by simp
  expanded := by simp
  start_mem := by simp
  reached := by
    intro s hs
    simp only [List.nil_append, List.mem_singleton] at hs
    exact hs ▸ .refl

variable {visited : Array Bool} {found : Array Nat} {s : Nat} {pending : List Nat}

/-- What was found or pending is so still when the first pending state has been listed. -/
theorem mem_push_of_mem (targets : List Nat) {t : Nat} (ht : t ∈ found.toList ++ s :: pending) :
    t ∈ (found.push s).toList ++ (targets ++ pending) := by
  rw [List.append_cons, ← Array.toList_push] at ht
  rcases List.mem_append.1 ht with ht | ht
  · exact List.mem_append_left _ ht
  · exact List.mem_append_right _ (List.mem_append_right _ ht)

theorem mem_skip_of_mem (hs : s ∈ found.toList) {t : Nat}
    (ht : t ∈ found.toList ++ s :: pending) : t ∈ found.toList ++ pending := by
  simp only [List.mem_append, List.mem_cons] at ht ⊢
  rcases ht with ht | rfl | ht
  · exact Or.inl ht
  · exact Or.inl hs
  · exact Or.inr ht

/-- To list a state that had not been visited keeps the invariant. -/
theorem Explored.push (h : Explored a visited found (s :: pending)) (hs : s < visited.size)
    (hfresh : visited[s] = false) :
    Explored a (visited.set s true) (found.push s) ((a.edges s).map (·.2) ++ pending) where
  size_eq := by simpa using h.size_eq
  nodup := by
    have hnot : s ∉ found.toList := fun hmem => by
      simp [(h.visited_iff s hs).2 hmem] at hfresh
    rw [Array.toList_push, List.nodup_append]
    refine ⟨h.nodup, List.nodup_singleton s, ?_⟩
    rintro u hu v hv rfl
    exact hnot (List.mem_singleton.1 hv ▸ hu)
  visited_iff := by
    intro u hu
    have hu' : u < visited.size := by simpa using hu
    rw [Array.getElem_set, Array.toList_push, List.mem_append, List.mem_singleton]
    by_cases hsu : s = u
    · simp [hsu]
    · have hne : ¬ u = s := fun he => hsu he.symm
      simp [hsu, hne, h.visited_iff u hu']
  expanded := by
    intro u hu t ht
    rw [Array.toList_push, List.mem_append, List.mem_singleton] at hu
    cases hu with
    | inl hu => exact mem_push_of_mem _ (h.expanded u hu t ht)
    | inr hu =>
      subst hu
      exact List.mem_append_right _ (List.mem_append_left _ (mem_map_edges.2 ht))
  start_mem := mem_push_of_mem _ h.start_mem
  reached := by
    intro u hu
    have hreached : a.Reaches a.start s := h.reached s (by simp)
    simp only [Array.toList_push, List.mem_append, List.mem_singleton, mem_map_edges] at hu
    rcases hu with (hu | rfl) | hu | hu
    · exact h.reached u (by simp [hu])
    · exact hreached
    · exact hreached.tail hu
    · exact h.reached u (by simp [hu])

/-- To pass over a state that has been found keeps the invariant. -/
theorem Explored.skip (h : Explored a visited found (s :: pending)) (hs : s ∈ found.toList) :
    Explored a visited found pending where
  size_eq := h.size_eq
  nodup := h.nodup
  visited_iff := h.visited_iff
  expanded := by
    intro u hu t ht
    exact mem_skip_of_mem hs (h.expanded u hu t ht)
  start_mem := mem_skip_of_mem hs h.start_mem
  reached := by
    intro u hu
    apply h.reached
    rcases List.mem_append.1 hu with hu | hu
    · exact List.mem_append_left _ hu
    · exact List.mem_append_right _ (List.mem_cons_of_mem _ hu)

/-- The search ends with nothing pending, and it only adds to what it has found. -/
theorem Explored.explore (hrange : a.InRange) (h : Explored a visited found pending) :
    (∃ visited', Explored a visited' (a.explore visited found pending) [])
      ∧ found.toList <+: (a.explore visited found pending).toList := by
  fun_induction Automaton.explore a visited found pending with
  | case1 visited found => exact ⟨⟨visited, h⟩, List.prefix_refl _⟩
  | case2 visited found s pending hs hfresh ih =>
    obtain ⟨hend, hprefix⟩ := ih (h.push hs hfresh)
    rw [Array.toList_push] at hprefix
    exact ⟨hend, (List.prefix_append _ _).trans hprefix⟩
  | case3 visited found s pending hs hvisited ih =>
    have hfound := (h.visited_iff s hs).1 (by simpa using hvisited)
    exact ih (h.skip hfound)
  | case4 visited found s pending hs ih =>
    -- No edge leads to a number without a state.
    have hlt := hrange.reaches_lt hrange.start_lt (h.reached s (by simp))
    exact absurd (h.size_eq ▸ hlt) hs

theorem explored_live (hrange : a.InRange) :
    ∃ visited, Explored a visited a.live.toArray [] := by
  simpa [live] using ((explored_start a).explore hrange).1

/-- The live states are the states that can be reached from the start. -/
theorem mem_live (hrange : a.InRange) {q : Nat} : q ∈ a.live ↔ a.Reaches a.start q := by
  obtain ⟨visited, hlive⟩ := explored_live hrange
  constructor
  · intro hq
    exact hlive.reached q (by simpa using hq)
  · intro hq
    induction hq with
    | refl => simpa using hlive.start_mem
    | tail _ hadj ih => simpa using hlive.expanded _ (by simpa using ih) _ hadj

theorem nodup_live (hrange : a.InRange) : a.live.Nodup := by
  obtain ⟨visited, hlive⟩ := explored_live hrange
  simpa using hlive.nodup

/-- The first state that the search lists is the start. -/
theorem head?_live (hrange : a.InRange) : a.live.head? = some a.start := by
  have hs : a.start < (Array.replicate a.size false).size := by simpa using hrange.start_lt
  have hfresh : (Array.replicate a.size false)[a.start] = false := by simp
  have hprefix := (((explored_start a).push hs hfresh).explore hrange).2
  unfold live
  rw [Automaton.explore, dif_pos hs, dif_pos hfresh]
  obtain ⟨rest, hrest⟩ := hprefix
  rw [← hrest]
  rfl

/-! ## What the search looks at -/

/-- The search looks at nothing but the targets of the states. -/
theorem explore_congr {b : Automaton} (visited : Array Bool) (found : Array Nat)
    (pending : List Nat)
    (hsame : ∀ s < visited.size, (a.edges s).map (·.2) = (b.edges s).map (·.2)) :
    a.explore visited found pending = b.explore visited found pending := by
  fun_induction explore a visited found pending with
  | case1 visited found => rw [explore]
  | case2 visited found s pending hs hfresh ih =>
    rw [ih (by simpa using hsame), hsame s hs, explore.eq_2 b, dif_pos hs, dif_pos hfresh]
  | case3 visited found s pending hs hvisited ih =>
    rw [ih hsame, explore.eq_2 b, dif_pos hs, dif_neg hvisited]
  | case4 visited found s pending hs ih =>
    rw [ih hsame, explore.eq_2 b, dif_neg hs]

theorem live_congr {b : Automaton} (hstart : a.start = b.start) (hsize : a.size = b.size)
    (hsame : ∀ s < a.size, (a.edges s).map (·.2) = (b.edges s).map (·.2)) : a.live = b.live := by
  unfold live
  rw [explore_congr (b := b), hsize, hstart]
  simpa using hsame

/-! ## Leading a run into a state -/

/-- A state that can be reached stands in the frontier after some input. -/
theorem Reaches.exists_input (hrange : a.InRange) {q : Nat} (hq : a.Reaches a.start q) :
    ∃ cs, q ∈ ((Matcher.start a).run cs).frontier := by
  obtain ⟨es, hwalk⟩ := hq.exists_walk
  have hmem : ∀ cs, a.simulation.Spells es cs → q ∈ ((Matcher.start a).run cs).frontier :=
    fun cs hspells => (Matcher.mem_frontier_iff hrange {} cs q).2 ⟨es, hwalk, hspells⟩
  cases h : a.simulation with
  | closure =>
    rw [h] at hmem
    exact ⟨letters es, hmem _ rfl⟩
  | singleHop =>
    rw [h] at hmem
    exact ⟨padding 'a' es, hmem _ (takes_padding 'a' es)⟩

end Automaton

/-! ## The law -/

/-- The live states of a pattern are all its states, each once, and the start comes first. So
the log counts as many live states as states. Under either simulation, every state stands in
the frontier after some input. -/
theorem every_state_of_a_pattern_is_live {pattern : String} {simulation : Simulation}
    {a : Automaton} (h : compile pattern simulation = .ok a) :
    a.live.Perm (List.range a.size)
    ∧ a.live.head? = some a.start
    ∧ Event.ofAutomaton pattern a = .compiled pattern a.size a.size simulation
    ∧ ∀ other, ∃ b, compile pattern other = .ok b ∧ b.states = a.states ∧ b.start = a.start
        ∧ ∀ q < b.size, ∃ input, q ∈ ((Matcher.start b).run input).frontier := by
  have hrange := compile_inRange h
  have hperm : a.live.Perm (List.range a.size) := by
    refine (List.perm_ext_iff_of_nodup (Automaton.nodup_live hrange) List.nodup_range).2 ?_
    intro q
    rw [Automaton.mem_live hrange, List.mem_range]
    exact ⟨hrange.reaches_lt hrange.start_lt, compile_reaches h⟩
  refine ⟨hperm, Automaton.head?_live hrange, ?_, ?_⟩
  · have hlength : a.live.length = a.size := by simpa using hperm.length_eq
    rw [Event.ofAutomaton, hlength, (compile_eq_ok.1 h).2.2]
  · intro other
    have hother := compile_other h other
    refine ⟨_, hother, rfl, rfl, ?_⟩
    intro q hq
    exact (compile_reaches hother hq).exists_input (compile_inRange hother)

/-- A stray `)`, a negated class, a group left open and a class left open, in one pattern. -/
theorem the_states_of_an_unbalanced_pattern_are_live :
    ∃ a, compile ")[^ab](c|[d" .singleHop = .ok a ∧ a.size = 11 ∧ a.live.Perm (List.range 11) := by
  refine ⟨_, rfl, by decide +kernel, ?_⟩
  exact (every_state_of_a_pattern_is_live (rfl : compile ")[^ab](c|[d" .singleHop = .ok _)).1

end PatternNFA
