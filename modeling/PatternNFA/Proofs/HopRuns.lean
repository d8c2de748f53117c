-- Runs of the single hop simulation. The frontier is the list of the ends of
-- all walks that take one edge for each character, each walk once, in the
-- order of the choices that it makes.
import Mathlib.Data.List.Lex
import Mathlib.Data.Set.Card
import PatternNFA.Matcher
import PatternNFA.Proofs.Drafts

namespace PatternNFA

namespace Automaton

variable {a : Automaton}

/-! ## The choices of one hop -/

/-- The edges of a state that bear the symbol, in their order. -/
def edgesOn (a : Automaton) (s : Nat) (symbol : Symbol) : List Edge :=
  ((a.edges s).zipIdx.filter (·.1.1 = symbol)).map fun edge =>
    { place := edge.2, symbol := edge.1.1, target := edge.1.2 }

/-- What one hop over the character tries at a state, in order. -/
def choices (a : Automaton) (s : Nat) (c : Char) : List Edge :=
  a.edgesOn s (.char c) ++ a.edgesOn s .epsilon

theorem mem_edgesOn {s : Nat} {symbol : Symbol} {e : Edge} :
    e ∈ a.edgesOn s symbol ↔ a.HasEdge s e ∧ e.symbol = symbol := by
  unfold edgesOn HasEdge
  simp only [List.mem_map, List.mem_filter, decide_eq_true_eq]
  constructor
  · rintro ⟨⟨edge, place⟩, ⟨hmem, hsymbol⟩, rfl⟩
    exact ⟨List.mem_zipIdx_iff_getElem?.1 hmem, hsymbol⟩
  · rintro ⟨hedge, hsymbol⟩
    exact ⟨((e.symbol, e.target), e.place),
      ⟨List.mem_zipIdx_iff_getElem?.2 hedge, hsymbol⟩, rfl⟩

theorem map_target_edgesOn (s : Nat) (symbol : Symbol) :
    (a.edgesOn s symbol).map (·.target) = a.targets s symbol := by
  have hfst : (a.edges s).zipIdx.map Prod.fst = a.edges s := List.zipIdx_map_fst 0 _
  rw [targets_eq, edgesOn, List.map_map]
  conv_rhs => rw [← hfst, List.filter_map, List.map_map]
  rfl

theorem pairwise_edgesOn (s : Nat) (symbol : Symbol) :
    (a.edgesOn s symbol).Pairwise Edge.Before := by
  have hplaces : (a.edges s).zipIdx.Pairwise fun u v => u.2 < v.2 := by
    rw [← List.pairwise_map (f := Prod.snd), List.zipIdx_map_snd]
    exact List.pairwise_lt_range'
  unfold edgesOn
  rw [List.pairwise_map]
  apply (hplaces.filter _).imp_of_mem
  intro u v hu hv hlt
  have hu' := of_decide_eq_true (List.mem_filter.1 hu).2
  have hv' := of_decide_eq_true (List.mem_filter.1 hv).2
  exact Or.inr ⟨hu'.trans hv'.symm, hlt⟩

theorem mem_choices {s : Nat} {c : Char} {e : Edge} :
    e ∈ a.choices s c ↔ a.HasEdge s e ∧ e.Takes c := by
  unfold choices Edge.Takes
  rw [List.mem_append, mem_edgesOn, mem_edgesOn, ← and_or_left]

theorem map_target_choices (s : Nat) (c : Char) :
    (a.choices s c).map (·.target) = a.hopTargets c s := by
  unfold choices hopTargets
  rw [List.map_append, map_target_edgesOn, map_target_edgesOn]

theorem pairwise_choices (s : Nat) (c : Char) : (a.choices s c).Pairwise Edge.Before := by
  refine List.pairwise_append.2 ⟨pairwise_edgesOn _ _, pairwise_edgesOn _ _, ?_⟩
  intro e he f hf
  have hchar := (mem_edgesOn.1 he).2
  exact Or.inl ⟨by simp [hchar], (mem_edgesOn.1 hf).2⟩

/-! ## The walks of one input -/

/-- The walks from a state that take one edge for each character, with their ends, in the
order of their choices. -/
def walksOver (a : Automaton) (s : Nat) : List Char → List (List Edge × Nat)
  | [] => [([], s)]
  | c :: cs => (a.choices s c).flatMap fun e =>
      (a.walksOver e.target cs).map fun walk => (e :: walk.1, walk.2)

theorem mem_walksOver {s : Nat} {cs : List Char} {es : List Edge} {q : Nat} :
    (es, q) ∈ a.walksOver s cs ↔ a.Walk s es q ∧ List.Forall₂ Edge.Takes es cs := by
  induction cs generalizing s es with
  | nil =>
    simp only [walksOver, List.mem_singleton, Prod.mk.injEq, List.forall₂_nil_right_iff]
    constructor
    · rintro ⟨rfl, rfl⟩
      exact ⟨.stay _, rfl⟩
    · rintro ⟨hwalk, rfl⟩
      cases hwalk
      exact ⟨rfl, rfl⟩
  | cons c cs ih =>
    simp only [walksOver, List.mem_flatMap, List.mem_map, Prod.mk.injEq, mem_choices]
    constructor
    · rintro ⟨e, ⟨hedge, htakes⟩, ⟨fs, t⟩, hrest, rfl, rfl⟩
      obtain ⟨hwalk, hall⟩ := ih.1 hrest
      exact ⟨.go hedge hwalk, .cons htakes hall⟩
    · rintro ⟨hwalk, hall⟩
      cases hall with
      | cons htakes hall =>
        cases hwalk with
        | go hedge hwalk => exact ⟨_, ⟨hedge, htakes⟩, (_, q), ih.2 ⟨hwalk, hall⟩, rfl, rfl⟩

/-- Walks that differ in their first choice are ordered by it, and all others by the rest. -/
theorem pairwise_walksOver (s : Nat) (cs : List Char) :
    (a.walksOver s cs).Pairwise fun u v => List.Lex Edge.Before u.1 v.1 := by
  induction cs generalizing s with
  | nil => exact List.pairwise_singleton _ _
  | cons c cs ih =>
    refine List.pairwise_flatMap.2 ⟨?_, ?_⟩
    · intro e _
      rw [List.pairwise_map]
      exact (ih e.target).imp .cons
    · apply (pairwise_choices s c).imp
      intro e f hbefore u hu v hv
      obtain ⟨u, -, rfl⟩ := List.mem_map.1 hu
      obtain ⟨v, -, rfl⟩ := List.mem_map.1 hv
      exact .rel hbefore

/-- The order is strict, so no walk is listed twice. -/
theorem nodup_walksOver (s : Nat) (cs : List Char) : (a.walksOver s cs).Nodup := by
  apply (pairwise_walksOver s cs).imp
  rintro u v hlex rfl
  have hirrefl : ∀ es : List Edge, ¬ List.Lex Edge.Before es es := by
    intro es
    induction es with
    | nil => exact fun h => nomatch h
    | cons e es ih =>
      rintro (_ | hbefore | hlex)
      · exact e.not_before_self hbefore
      · exact ih hlex
  exact hirrefl u.1 hlex

end Automaton

/-! ## The frontier -/

namespace Matcher

variable {a : Automaton}

theorem frontier_start_singleHop (h : a.simulation = .singleHop) (scratch : Scratch) :
    (start a scratch).frontier = [a.start] := by
  simp [start, h, frontier, Scratch.unused]

theorem frontier_step_singleHop {m : Matcher} (h : m.automaton.simulation = .singleHop)
    (c : Char) : (m.step c).frontier = m.frontier.flatMap (m.automaton.hopTargets c) := by
  obtain ⟨a, generation, scratch⟩ := m
  have h : a.simulation = .singleHop := h
  simp only [step, h, frontier, Scratch.current_swap, Scratch.next_hop]

/-- Each state of the frontier contributes the ends of the walks that begin in it. -/
theorem frontier_run_singleHop {m : Matcher} (h : m.automaton.simulation = .singleHop)
    (cs : List Char) :
    (m.run cs).frontier
      = m.frontier.flatMap fun s => (m.automaton.walksOver s cs).map (·.2) := by
  induction cs generalizing m with
  | nil => simp [Automaton.walksOver]
  | cons c cs ih =>
    rw [run_cons, ih (by simpa using h), frontier_step_singleHop h, automaton_step,
      List.flatMap_assoc]
    congr 1
    funext s
    rw [← Automaton.map_target_choices, Automaton.walksOver, List.map_flatMap,
      List.flatMap_map]
    simp only [List.map_map, Function.comp_def]

theorem frontier_run_start_singleHop (h : a.simulation = .singleHop) (scratch : Scratch)
    (cs : List Char) :
    ((start a scratch).run cs).frontier = (a.walksOver a.start cs).map (·.2) := by
  rw [frontier_run_singleHop (by simpa using h), frontier_start_singleHop h, automaton_start]
  simp

end Matcher

/-! ## The law -/

/-- The single hop frontier lists the ends of the walks from the start that take one edge for
each character of the input: an edge that reads the character, or an epsilon edge. Each walk
counts once, parallel edges make different walks, and the walks come in the lexicographic order
of their choices. So the length of the frontier is the number of these walks, and the input is
accepted if one of them ends in a state that accepts. -/
theorem a_single_hop_frontier_lists_the_walks_over_its_input {pattern : String} {a : Automaton}
    (h : compile pattern .singleHop = .ok a) (input : String) :
    let m := (Matcher.start a).run input.toList
    let allWalks := {walk : List Edge × Nat |
      a.Walk a.start walk.1 walk.2 ∧ List.Forall₂ Edge.Takes walk.1 input.toList}
    (∃ walks : List (List Edge × Nat),
      (∀ walk, walk ∈ walks ↔ walk ∈ allWalks)
        ∧ walks.Nodup
        ∧ walks.Pairwise (fun u v => List.Lex Edge.Before u.1 v.1)
        ∧ m.frontier = walks.map (·.2))
    ∧ m.frontier.length = allWalks.ncard
    ∧ (a.isMatch input = true ↔ ∃ walk ∈ allWalks, a.isAccepting walk.2 = true) := by
  intro m allWalks
  have hsingle : a.simulation = .singleHop := (compile_eq_ok.1 h).2.2
  have hmem : ∀ walk, walk ∈ a.walksOver a.start input.toList ↔ walk ∈ allWalks :=
    fun walk => Automaton.mem_walksOver
  have hnodup := a.nodup_walksOver a.start input.toList
  have hfrontier := Matcher.frontier_run_start_singleHop hsingle {} input.toList
  refine ⟨⟨_, hmem, hnodup, Automaton.pairwise_walksOver _ _, hfrontier⟩, ?_, ?_⟩
  · classical
    have hall : allWalks = ↑(a.walksOver a.start input.toList).toFinset := by
      ext walk
      simp [hmem]
    rw [hall, Set.ncard_coe_finset, List.toFinset_card_of_nodup hnodup, hfrontier,
      List.length_map]
  · rw [Automaton.isMatch_iff]
    constructor
    · rintro ⟨q, hq, haccepting⟩
      rw [hfrontier] at hq
      obtain ⟨walk, hwalk, rfl⟩ := List.mem_map.1 hq
      exact ⟨walk, (hmem walk).1 hwalk, haccepting⟩
    · rintro ⟨walk, hwalk, haccepting⟩
      refine ⟨walk.2, ?_, haccepting⟩
      rw [hfrontier]
      exact List.mem_map_of_mem ((hmem walk).2 hwalk)

/-- Two of the walks differ in nothing but which of two parallel edges they take. -/
theorem parallel_edges_make_walks_of_their_own : ∃ a, compile "a??" .singleHop = .ok a
    ∧ a.targets 0 .epsilon = [1, 1]
    ∧ ((Matcher.start a).run "b".toList).frontier = [1, 1]
    ∧ {walk : List Edge × Nat | a.Walk a.start walk.1 walk.2
        ∧ List.Forall₂ Edge.Takes walk.1 "b".toList}.ncard = 2 := by
  refine ⟨_, rfl, by decide +kernel, by decide +kernel, ?_⟩
  have hlaw := a_single_hop_frontier_lists_the_walks_over_its_input
    (rfl : compile "a??" .singleHop = .ok _) "b"
  exact hlaw.2.1.symm.trans (by decide +kernel)

end PatternNFA
