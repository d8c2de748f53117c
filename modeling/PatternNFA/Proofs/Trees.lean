-- Patterns without quantifiers. Every state is reached from the start, and there are as many edges
-- as states without the start. So one edge leads into each of them, and one walk. A single hop run
-- that stands in a state has taken that walk, so it stands there once, and after one number of
-- characters.
import PatternNFA.Proofs.Census
import PatternNFA.Proofs.Liveness

namespace PatternNFA

/-! ## Trees -/

/-- The edges form a tree that is rooted at the start and spans the states: they lead to states, and
one walk leads from the start to each of them. -/
structure Automaton.IsTree (a : Automaton) : Prop where
  inRange : a.InRange
  unique_walk : ∀ q, q < a.size → ∃! es, a.Walk a.start es q

namespace Automaton

variable {a : Automaton}

/-! ## The heads of the edges -/

/-- The edges of all the states, each with the state that it leaves. -/
def drawn (a : Automaton) : List (Nat × Edge) :=
  (List.range a.size).flatMap fun s => (a.edges s).zipIdx.map fun edge =>
    (s, { place := edge.2, symbol := edge.1.1, target := edge.1.2 })

theorem mem_drawn {s : Nat} {e : Edge} : (s, e) ∈ a.drawn ↔ a.HasEdge s e := by
  constructor
  · intro he
    obtain ⟨s, -, he⟩ := List.mem_flatMap.1 he
    obtain ⟨edge, hedge, heq⟩ := List.mem_map.1 he
    cases heq
    exact List.mem_zipIdx_iff_getElem?.1 hedge
  · intro he
    have hs := List.mem_range.2 (lt_size_of_mem_targets he.mem_targets)
    have hedge : ((e.symbol, e.target), e.place) ∈ (a.edges s).zipIdx :=
      List.mem_zipIdx_iff_getElem?.2 he
    exact List.mem_flatMap.2 ⟨s, hs, List.mem_map.2 ⟨((e.symbol, e.target), e.place), hedge, rfl⟩⟩

theorem length_drawn (a : Automaton) :
    a.drawn.length = ∑ s ∈ Finset.range a.size, (a.edges s).length := by
  rw [drawn, List.length_flatMap]
  simp only [List.length_map, List.length_zipIdx]
  rfl

/-- The states that the edges lead to, edge by edge. -/
def heads (a : Automaton) : List Nat := a.drawn.map fun edge => edge.2.target

theorem HasEdge.mem_heads {s : Nat} {e : Edge} (h : a.HasEdge s e) : e.target ∈ a.heads :=
  List.mem_map_of_mem (mem_drawn.2 h)

/-- Each state but the start is the head of an edge. If there are no more edges than that, each is
the head of one. -/
theorem heads_perm (hrange : a.InRange) (hreaches : ∀ q < a.size, a.Reaches a.start q)
    (hcount : ∑ s ∈ Finset.range a.size, (a.edges s).length + 1 = a.size) :
    a.heads.Perm ((List.range a.size).erase a.start) := by
  have hnodup : ((List.range a.size).erase a.start).Nodup := List.nodup_range.erase _
  have hsubset : (List.range a.size).erase a.start ⊆ a.heads := by
    intro q hq
    obtain ⟨hne, hlt⟩ := (List.Nodup.mem_erase_iff List.nodup_range).1 hq
    rcases (hreaches q (List.mem_range.1 hlt)).cases_tail with hstart | ⟨s, -, symbol, ht⟩
    · exact absurd hstart hne
    · obtain ⟨e, he, -, rfl⟩ := exists_hasEdge ht
      exact he.mem_heads
  have hlength : a.heads.length ≤ ((List.range a.size).erase a.start).length := by
    rw [List.length_erase_of_mem (List.mem_range.2 hrange.start_lt), List.length_range, heads,
      List.length_map, length_drawn]
    omega
  exact ((hnodup.subperm hsubset).perm_of_length_le hlength).symm

/-! ## One walk to each state -/

/-- The last edge of a walk. -/
theorem Walk.last {s q : Nat} {es : List Edge} {e : Edge} (h : a.Walk s (es ++ [e]) q) :
    ∃ t, a.Walk s es t ∧ a.HasEdge t e ∧ e.target = q := by
  obtain ⟨t, hfirst, hlast⟩ := h.exists_of_append
  cases hlast with
  | go he hrest =>
    cases hrest
    exact ⟨t, hfirst, he, rfl⟩

/-- Read from the end, a walk has no choice if each state is the head of one edge at most. -/
theorem Walk.eq_of_nodup_heads (hnodup : a.heads.Nodup) (hstart : a.start ∉ a.heads) {q : Nat}
    {es fs : List Edge} (h : a.Walk a.start es q) (h' : a.Walk a.start fs q) : es = fs := by
  induction es using List.reverseRecOn generalizing fs q with
  | nil =>
    cases h
    induction fs using List.reverseRecOn with
    | nil => rfl
    | append_singleton fs f _ =>
      obtain ⟨t, -, hf, htarget⟩ := h'.last
      exact absurd (htarget ▸ hf.mem_heads) hstart
  | append_singleton es e ih =>
    -- The two walks have the same last edge, and up to there they end in the same state.
    obtain ⟨s, hes, he, hq⟩ := h.last
    induction fs using List.reverseRecOn with
    | nil =>
      cases h'
      exact absurd (hq ▸ he.mem_heads) hstart
    | append_singleton fs f _ =>
      obtain ⟨t, hfs, hf, hq'⟩ := h'.last
      have hsame : (s, e) = (t, f) :=
        List.inj_on_of_nodup_map hnodup (mem_drawn.2 he) (mem_drawn.2 hf) (hq.trans hq'.symm)
      obtain ⟨rfl, rfl⟩ := Prod.mk.inj hsame
      rw [ih hes hfs]

theorem isTree_of_count (hrange : a.InRange) (hreaches : ∀ q < a.size, a.Reaches a.start q)
    (hcount : ∑ s ∈ Finset.range a.size, (a.edges s).length + 1 = a.size) : a.IsTree := by
  have hperm := heads_perm hrange hreaches hcount
  have hnodup : a.heads.Nodup := hperm.nodup_iff.2 (List.nodup_range.erase _)
  have hstart : a.start ∉ a.heads := by
    rw [hperm.mem_iff]
    exact List.Nodup.not_mem_erase List.nodup_range
  refine ⟨hrange, fun q hq => ?_⟩
  obtain ⟨es, hwalk⟩ := (hreaches q hq).exists_walk
  exact ⟨es, hwalk, fun fs hfs => hfs.eq_of_nodup_heads hnodup hstart hwalk⟩

/-! ## Single hops in a tree -/

/-- Two walks of a run that end in one state are one walk. -/
theorem IsTree.nodup_frontier (h : a.IsTree) (hsingle : a.simulation = .singleHop)
    (cs : List Char) : ((Matcher.start a).run cs).frontier.Nodup := by
  rw [Matcher.frontier_run_start_singleHop hsingle]
  apply List.Nodup.map_on _ (a.nodup_walksOver a.start cs)
  rintro ⟨es, q⟩ hes ⟨fs, _⟩ hfs rfl
  have hwalk := (mem_walksOver.1 hes).1
  have hlt := h.inRange.lt_size_of_walk h.inRange.start_lt hwalk
  rw [(h.unique_walk q hlt).unique hwalk (mem_walksOver.1 hfs).1]

/-- A run stands in a state after as many characters as the walk to it has edges. -/
theorem IsTree.length_eq_of_mem_frontier (h : a.IsTree) (hsingle : a.simulation = .singleHop)
    {cs : List Char} {q : Nat} (hq : q ∈ ((Matcher.start a).run cs).frontier) {es : List Edge}
    (hwalk : a.Walk a.start es q) : cs.length = es.length := by
  obtain ⟨fs, hfs, hspells⟩ := (Matcher.mem_frontier_iff h.inRange {} cs q).1 hq
  have hlt := h.inRange.lt_size_of_walk h.inRange.start_lt hwalk
  rw [hsingle] at hspells
  rw [(h.unique_walk q hlt).unique hwalk hfs]
  exact hspells.length_eq.symm

end Automaton

/-! ## The law -/

theorem compile_isTree {pattern : String} {simulation : Simulation} {a : Automaton}
    {ts : List Token} (h : compile pattern simulation = .ok a)
    (htokens : tokens pattern.toList = some ts) (hties : ∀ token ∈ ts, token.ties = 0) :
    a.IsTree := by
  apply Automaton.isTree_of_count (compile_inRange h) fun q => compile_reaches h
  have hnone : (ts.map Token.ties).sum = 0 := List.sum_eq_zero (by simpa using hties)
  rw [compile_sum_length_edges h htokens, hnone, Nat.add_zero]

/-- Without quantifiers the edges form a tree that is rooted at the start and spans the states. A
single hop frontier holds no state twice, and a state can be in it only after as many characters as
the one walk to the state has edges. -/
theorem without_quantifiers_the_edges_form_a_tree {pattern : String} {simulation : Simulation}
    {a : Automaton} {ts : List Token} (h : compile pattern simulation = .ok a)
    (htokens : tokens pattern.toList = some ts)
    (hfree : .optional ∉ ts ∧ .plus ∉ ts ∧ .star ∉ ts) :
    a.IsTree
    ∧ (simulation = .singleHop →
      (∀ input, ((Matcher.start a).run input).frontier.Nodup)
      ∧ ∀ q es, a.Walk a.start es q →
        (∀ input, q ∈ ((Matcher.start a).run input).frontier → input.length = es.length)
        ∧ ∃ input, q ∈ ((Matcher.start a).run input).frontier) := by
  have hties : ∀ token ∈ ts, token.ties = 0 := by
    intro token hmem
    obtain ⟨hoptional, hplus, hstar⟩ := hfree
    cases token with
    | optional => exact absurd hmem hoptional
    | plus => exact absurd hmem hplus
    | star => exact absurd hmem hstar
    | _ => rfl
  have htree := compile_isTree h htokens hties
  refine ⟨htree, ?_⟩
  rintro rfl
  have hsingle : a.simulation = .singleHop := (compile_eq_ok.1 h).2.2
  refine ⟨fun input => htree.nodup_frontier hsingle input, fun q es hwalk => ⟨?_, ?_⟩⟩
  · intro input hq
    exact htree.length_eq_of_mem_frontier hsingle hq hwalk
  · have hlt := htree.inRange.lt_size_of_walk htree.inRange.start_lt hwalk
    exact (compile_reaches h hlt).exists_input htree.inRange

/-- The quantifier characters of this pattern stand in classes and in an escape. The state of the
bar is four edges below the start. -/
theorem an_unbalanced_pattern_is_a_tree :
    ∃ a, compile "b)([^?]|b\\+c[*" .singleHop = .ok a ∧ a.IsTree
      ∧ 7 ∈ ((Matcher.start a).run "xx]x".toList).frontier
      ∧ ∀ input, 7 ∈ ((Matcher.start a).run input).frontier → input.length = 4 := by
  have hcompile : compile "b)([^?]|b\\+c[*" .singleHop = .ok _ := rfl
  have htokens : tokens "b)([^?]|b\\+c[*".toList = some [.literal 'b', .closeGroup, .openGroup,
      .charClass true ['?'], .literal ']', .bar, .literal 'b', .escape '+', .literal 'c',
      .charClass false ['*']] := by cbv
  obtain ⟨htree, hsingle⟩ := without_quantifiers_the_edges_form_a_tree hcompile htokens (by decide)
  obtain ⟨es, hwalk, -⟩ := htree.unique_walk 7 (by decide +kernel)
  obtain ⟨hdepth, -⟩ := (hsingle rfl).2 7 es hwalk
  have hlength := hdepth "xx]x".toList (by decide +kernel)
  refine ⟨_, hcompile, htree, by decide +kernel, ?_⟩
  intro input hq
  exact (hdepth input hq).trans hlength.symm

end PatternNFA
