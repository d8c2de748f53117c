-- Patterns of literals, escapes and `)`. They draw no epsilon edge, so the two simulations do the
-- same. A `)` leads back to the root, so each segment between two of them is a branch of its own. A
-- literal goes on along the branch, and the state of an escape is a leaf beside it.
import PatternNFA.Proofs.Chains
import PatternNFA.Proofs.Trees

namespace PatternNFA

/-! ## Without epsilon edges -/

namespace Scratch

variable {a : Automaton} {generation : Nat}

/-- A state that has no epsilon edges is listed alone. -/
theorem next_addState {s : Nat} (hnone : a.targets s .epsilon = []) {scratch : Scratch}
    (hpending : scratch.pending = []) (hfree : isUnclaimed generation scratch s = true) :
    (addState a generation scratch s).next.toList = scratch.next.toList ++ [s] := by
  have hclaimed : (claim generation s scratch).pending = [s] := by
    rw [claim, if_pos hfree, hpending]
  have hturn := @turn_eq a generation _ s [] hclaimed
  rw [hnone, claimAll_nil] at hturn
  rw [addState, if_pos hfree, walk, if_neg (by simp [hclaimed]), hturn, walk, if_pos rfl,
    next_claim, Array.toList_push]

/-- States that differ are listed as they are added. -/
theorem Sweep.next_foldl_addState (hrange : a.InRange) (hnone : ∀ s, a.targets s .epsilon = [])
    {sources added : List Nat} {scratch : Scratch} (h : Sweep a generation sources scratch)
    (hpending : scratch.pending = []) (hadded : ∀ s ∈ added, s ∈ sources ∧ s < a.size)
    (hnodup : (scratch.next.toList ++ added).Nodup) :
    (added.foldl (Scratch.addState a generation) scratch).next.toList
      = scratch.next.toList ++ added := by
  induction added generalizing scratch with
  | nil => exact (List.append_nil _).symm
  | cons s rest ih =>
    obtain ⟨hs, hlt⟩ := hadded s List.mem_cons_self
    have hnew : s ∉ scratch.next.toList := by
      intro hmem
      exact (List.nodup_append.1 hnodup).2.2 s hmem s List.mem_cons_self rfl
    have hfree : isUnclaimed generation scratch s = true := by
      rw [h.unclaimed_iff, taken_of_pending_nil hpending]
      exact ⟨hlt, hnew⟩
    have hnext := next_addState (hnone s) hpending hfree
    rw [List.foldl_cons, ih (h.addState hrange hs) (pending_addState hpending s)
      (fun t ht => hadded t (List.mem_cons_of_mem s ht)), hnext, List.append_assoc,
      List.singleton_append]
    rw [hnext, List.append_assoc, List.singleton_append]
    exact hnodup

/-- A generation that has no epsilon edges to follow lists its sources. -/
theorem next_foldl_addState (hrange : a.InRange) (hnone : ∀ s, a.targets s .epsilon = [])
    {scratch : Scratch} (h : Ready a generation scratch) {sources : List Nat}
    (hsources : ∀ s ∈ sources, s < a.size) (hnodup : sources.Nodup) :
    (sources.foldl (addState a generation) scratch.clear).next.toList = sources := by
  have hempty : scratch.clear.next.toList = [] := by rw [next_clear]
  have hlisted := (h.sweep sources).next_foldl_addState hrange hnone h.pending_eq
    (fun s hs => ⟨hs, hsources s hs⟩) (by rwa [hempty, List.nil_append])
  rwa [hempty, List.nil_append] at hlisted

end Scratch

namespace Matcher

variable {a b : Automaton}

theorem frontier_start_of_no_epsilon (hrange : a.InRange) (hnone : ∀ s, a.targets s .epsilon = [])
    (hclosure : a.simulation = .closure) : (start a).frontier = [a.start] := by
  have hsources : ∀ s ∈ [a.start], s < a.size := by
    intro s hs
    rw [List.mem_singleton.1 hs]
    exact hrange.start_lt
  rw [start_closure hclosure, Scratch.prepare_eq]
  exact Scratch.next_foldl_addState hrange hnone (ready_unused a) hsources (List.nodup_singleton _)

theorem Settled.frontier_step_of_no_epsilon {m : Matcher} (h : m.Settled)
    (hautomaton : m.automaton = a) (hrange : a.InRange)
    (hnone : ∀ s, a.targets s .epsilon = []) {c : Char}
    (hnodup : (m.frontier.flatMap (a.targets · (.char c))).Nodup) :
    (m.step c).frontier = m.frontier.flatMap (a.targets · (.char c)) := by
  subst hautomaton
  have hsources : ∀ t ∈ m.frontier.flatMap (m.automaton.targets · (.char c)),
      t < m.automaton.size := by
    intro t ht
    obtain ⟨s, -, ht⟩ := List.mem_flatMap.1 ht
    exact hrange.target_lt ht
  have hlisted := Scratch.next_foldl_addState hrange hnone h.ready hsources hnodup
  rw [frontier, ← Scratch.gather_eq] at hlisted
  rw [step_closure h.closure]
  exact hlisted

/-- Where there is no epsilon edge a closure run lists what a single hop run lists, as long as that
holds no state twice. -/
theorem frontier_eq_of_no_epsilon (hrange : a.InRange) (hnone : ∀ s, a.targets s .epsilon = [])
    (hclosure : a.simulation = .closure) (hsingle : b.simulation = .singleHop)
    (hstates : b.states = a.states) (hstart : b.start = a.start)
    (hnodup : ∀ cs, ((start b).run cs).frontier.Nodup) (cs : List Char) :
    ((start a).run cs).frontier = ((start b).run cs).frontier := by
  induction cs using List.reverseRecOn with
  | nil =>
    rw [run_nil, run_nil, frontier_start_of_no_epsilon hrange hnone hclosure,
      frontier_start_singleHop hsingle, hstart]
  | append_singleton cs c ih =>
    have hsettled : ((start a).run cs).Settled :=
      (settled_start hrange hclosure {}).run (by simpa using hrange) cs
    have hhop : ((start b).run (cs ++ [c])).frontier
        = ((start a).run cs).frontier.flatMap (a.targets · (.char c)) := by
      rw [run_append, run_cons, run_nil, frontier_step_singleHop (by simpa using hsingle),
        automaton_run, automaton_start, ← ih]
      congr 1
      funext s
      rw [Automaton.hopTargets, Automaton.targets_of_states hstates, hnone, List.append_nil]
    have hlisted := hnodup (cs ++ [c])
    rw [hhop] at hlisted ⊢
    rw [run_append, run_cons, run_nil]
    exact hsettled.frontier_step_of_no_epsilon (by simp) hrange hnone hlisted

end Matcher

/-! ## Branches -/

/-- A literal, an escape or a `)`. -/
def Token.isSimple : Token → Bool
  | .literal _ | .escape _ | .closeGroup => true
  | _ => false

/-- The words of the states that such tokens make, in the order of their creation, from a state with
the word `u` on. An escape leaves the current state where it is, and a `)` goes back to the root. -/
def spelled (u : List Char) : List Token → List (List Char)
  | .literal c :: ts => (u ++ [c]) :: spelled (u ++ [c]) ts
  | .escape c :: ts => (u ++ [c]) :: spelled u ts
  | .closeGroup :: ts => spelled [] ts
  | _ => []

/-- Each state has its word, which the characters of the edges on the way to it spell. No group is
open. -/
structure Construction.Branches (k : Construction) (words : List (List Char)) : Prop where
  flags_eq : k.blueprint.flags = List.replicate words.length true
  word_root : words[0]? = some []
  top_eq : k.top = 0
  below_eq : k.below = []
  word_target : ∀ {s : Nat} {x t}, (x, t) ∈ k.blueprint.log s →
    ∃ c v, x = .char c ∧ words[s]? = some v ∧ words[t]? = some (v ++ [c])

namespace Construction

variable {k : Construction} {words : List (List Char)} {u : List Char}

theorem branches_empty : empty.Branches [[]] where
  flags_eq := rfl
  word_root := rfl
  top_eq := rfl
  below_eq := rfl
  word_target := fun hmem => absurd hmem List.not_mem_nil

theorem Branches.size_eq (h : k.Branches words) : k.blueprint.size = words.length := by
  rw [Blueprint.size, h.flags_eq, List.length_replicate]

theorem word_append {s : Nat} {v : List Char} (hv : words[s]? = some v) (w : List Char) :
    (words ++ [w])[s]? = some v := by
  obtain ⟨hlt, -⟩ := List.getElem?_eq_some_iff.1 hv
  rw [List.getElem?_append_left hlt]
  exact hv

/-- A new state, whose word is that of the current one and a character. -/
theorem Branches.grow (h : k.Branches words) (hu : words[k.current]? = some u) (c : Char)
    (current : Nat) :
    { k with blueprint := k.blueprint.grow k.current (.char c) true, current }.Branches
      (words ++ [u ++ [c]]) := by
  refine ⟨?_, word_append h.word_root _, h.top_eq, h.below_eq, ?_⟩
  · rw [List.length_append, List.length_singleton, List.replicate_succ', ← h.flags_eq]
    rfl
  · intro s x t hmem
    rw [Blueprint.grow] at hmem
    by_cases hs : s = k.current
    · subst hs
      rw [Blueprint.log_join_self, List.mem_append, List.mem_singleton] at hmem
      rcases hmem with hold | hnew
      · obtain ⟨d, v, hx, hv, ht⟩ := h.word_target hold
        exact ⟨d, v, hx, word_append hv _, word_append ht _⟩
      · cases hnew
        refine ⟨c, u, rfl, word_append hu _, ?_⟩
        rw [h.size_eq]
        exact List.getElem?_concat_length
    · rw [Blueprint.log_join_of_ne _ hs] at hmem
      obtain ⟨d, v, hx, hv, ht⟩ := h.word_target hmem
      exact ⟨d, v, hx, word_append hv _, word_append ht _⟩

theorem Branches.foldl_lay (h : k.Branches words) (hu : words[k.current]? = some u)
    {ts : List Token} (hsimple : ∀ token ∈ ts, token.isSimple = true) :
    (ts.foldl lay k).Branches (words ++ spelled u ts) := by
  induction ts generalizing k words u with
  | nil =>
    have hnone : spelled u [] = [] := rfl
    rwa [hnone, List.append_nil]
  | cons token ts ih =>
    have hrest : ∀ token ∈ ts, token.isSimple = true :=
      fun token hmem => hsimple token (List.mem_cons_of_mem _ hmem)
    have hfirst := hsimple token List.mem_cons_self
    cases token with
    | literal c =>
      have hnew : (words ++ [u ++ [c]])[k.blueprint.size]? = some (u ++ [c]) := by
        rw [h.size_eq]
        exact List.getElem?_concat_length
      have hlaid := ih (h.grow hu c k.blueprint.size) hnew hrest
      rwa [List.append_assoc] at hlaid
    | escape c =>
      have hlaid := ih (h.grow hu c k.current) (word_append hu _) hrest
      rwa [List.append_assoc] at hlaid
    | closeGroup =>
      have hclosed : k.lay .closeGroup = { k with current := 0 } := by
        rw [lay, h.below_eq, h.top_eq]
      rw [List.foldl_cons, hclosed]
      exact ih ⟨h.flags_eq, h.word_root, h.top_eq, h.below_eq, h.word_target⟩ h.word_root hrest
    | _ => cases hfirst

end Construction

/-! ## The automaton of such a pattern -/

section

variable {k : Construction} {words : List (List Char)} {a : Automaton}

theorem Construction.Branches.no_epsilon (h : k.Branches words)
    (hshows : k.blueprint.Shows a.states) (s : Nat) : a.targets s .epsilon = [] := by
  apply List.eq_nil_iff_forall_not_mem.2
  intro t ht
  obtain ⟨c, v, hx, -⟩ := h.word_target (hshows.mem_targets.1 ht)
  cases hx

theorem Construction.Branches.labelled (h : k.Branches words)
    (hshows : k.blueprint.Shows a.states) (hstart : a.start = 0) :
    a.Labelled fun s => words[s]?.getD [] := by
  refine ⟨?_, ?_⟩
  · rw [hstart, h.word_root]
    rfl
  · intro s e he
    obtain ⟨c, v, hx, hv, ht⟩ := h.word_target (hshows.mem_targets.1 he.mem_targets)
    rw [hv, ht, letters_cons_char hx, letters_nil]
    rfl

/-- A closure run accepts the words of the states. -/
theorem Construction.Branches.isMatch_iff (h : k.Branches words)
    (hshows : k.blueprint.Shows a.states) {pattern : String}
    (hcompile : compile pattern .closure = .ok a) {input : String} :
    a.isMatch input = true ↔ input.toList ∈ words := by
  have hsize : a.size = words.length := hshows.automaton_size.trans h.size_eq
  have hlabelled := h.labelled hshows (compile_eq_ok.1 hcompile).2.1
  rw [hlabelled.isMatch_iff hcompile, List.mem_iff_getElem?]
  constructor
  · rintro ⟨q, hq, hword⟩
    rw [hsize] at hq
    rw [List.getElem?_eq_getElem hq, Option.getD_some] at hword
    exact ⟨q, (List.getElem?_eq_getElem hq).trans (congrArg some hword)⟩
  · rintro ⟨q, hword⟩
    obtain ⟨hq, -⟩ := List.getElem?_eq_some_iff.1 hword
    refine ⟨q, hsize ▸ hq, ?_⟩
    rw [hword, Option.getD_some]

end

/-! ## The words of a segment -/

/-- The literals of a segment. An escape adds nothing. -/
def literals (segment : List Token) : List Char :=
  segment.filterMap fun
    | .literal c => some c
    | _ => none

/-- After the word `u` and some items of the segment, the word may end, or it may end in the escape
that comes next. -/
def Along (u : List Char) (segment : List Token) (word : List Char) : Prop :=
  ∃ j : Nat, word = u ++ literals (segment.take j)
    ∨ ∃ c, segment[j]? = some (.escape c) ∧ word = u ++ literals (segment.take j) ++ [c]

theorem along_nil {u word : List Char} : Along u [] word ↔ word = u := by
  constructor
  · rintro ⟨j, hword | ⟨c, hc, -⟩⟩
    · rw [hword, List.take_nil]
      exact List.append_nil u
    · cases hc
  · rintro rfl
    exact ⟨0, Or.inl (List.append_nil word).symm⟩

theorem along_cons {u word : List Char} {token : Token} {segment : List Token} :
    Along u (token :: segment) word
      ↔ word = u ∨ (∃ c, token = .escape c ∧ word = u ++ [c])
        ∨ Along (u ++ literals [token]) segment word := by
  have hliterals : ∀ j, u ++ literals ((token :: segment).take (j + 1))
      = u ++ literals [token] ++ literals (segment.take j) := by
    intro j
    rw [List.take_succ_cons, literals, literals, literals, List.append_assoc,
      ← List.filterMap_append, List.singleton_append]
  have hzero : u ++ literals ((token :: segment).take 0) = u := List.append_nil u
  constructor
  · rintro ⟨_ | j, hword | ⟨c, hc, hword⟩⟩
    · exact Or.inl (hword.trans hzero)
    · rw [hzero] at hword
      exact Or.inr (Or.inl ⟨c, Option.some.inj hc, hword⟩)
    · rw [hliterals] at hword
      exact Or.inr (Or.inr ⟨j, Or.inl hword⟩)
    · rw [hliterals] at hword
      exact Or.inr (Or.inr ⟨j, Or.inr ⟨c, hc, hword⟩⟩)
  · rintro (rfl | ⟨c, rfl, rfl⟩ | ⟨j, hword | ⟨c, hc, hword⟩⟩)
    · exact ⟨0, Or.inl hzero.symm⟩
    · exact ⟨0, Or.inr ⟨c, rfl, by rw [hzero]⟩⟩
    · exact ⟨j + 1, Or.inl (by rw [hliterals, hword])⟩
    · exact ⟨j + 1, Or.inr ⟨c, hc, by rw [hliterals, hword]⟩⟩

theorem along_literal {u word : List Char} {c : Char} {segment : List Token} :
    Along u (.literal c :: segment) word ↔ word = u ∨ Along (u ++ [c]) segment word := by
  have hnone : ¬ ∃ d, Token.literal c = .escape d ∧ word = u ++ [d] := by
    rintro ⟨d, hd, -⟩
    cases hd
  rw [along_cons, or_iff_right hnone]
  rfl

/-- To end before an escape is to end after it. -/
theorem along_escape {u word : List Char} {c : Char} {segment : List Token} :
    Along u (.escape c :: segment) word ↔ word = u ++ [c] ∨ Along u segment word := by
  have hescape : u ++ literals [.escape c] = u := List.append_nil u
  rw [along_cons, hescape]
  constructor
  · rintro (rfl | ⟨d, hd, hword⟩ | halong)
    · exact Or.inr ⟨0, Or.inl (List.append_nil word).symm⟩
    · cases hd
      exact Or.inl hword
    · exact Or.inr halong
  · rintro (hword | halong)
    · exact Or.inr (Or.inl ⟨c, rfl, hword⟩)
    · exact Or.inr (Or.inr halong)

/-- The words of the states are those that go along a segment. The first segment goes on from the
current state, and each of the others from the root, whose word is empty. -/
theorem mem_spelled_iff {ts first : List Token} {later : List (List Token)} {u word : List Char}
    (hsimple : ∀ token ∈ ts, token.isSimple = true)
    (hsplit : ts.splitOn .closeGroup = first :: later) :
    word = [] ∨ word = u ∨ word ∈ spelled u ts
      ↔ word = [] ∨ Along u first word ∨ ∃ segment ∈ later, Along [] segment word := by
  induction ts generalizing u first later with
  | nil =>
    rw [List.splitOn_nil] at hsplit
    cases hsplit
    rw [along_nil]
    simp [spelled]
  | cons token ts ih =>
    have hrest : ∀ token ∈ ts, token.isSimple = true :=
      fun token hmem => hsimple token (List.mem_cons_of_mem _ hmem)
    have hfirst := hsimple token List.mem_cons_self
    obtain ⟨segment, others, hsegments⟩ :=
      List.exists_cons_of_ne_nil (List.splitOn_ne_nil .closeGroup ts)
    rw [List.splitOn_cons_eq_if_modifyHead, hsegments] at hsplit
    -- A `)` puts an empty segment first, and what was the first segment becomes a later one.
    cases token with
    | literal c =>
      cases hsplit
      have hspelled : word ∈ spelled u (.literal c :: ts)
          ↔ word = u ++ [c] ∨ word ∈ spelled (u ++ [c]) ts := List.mem_cons
      rw [or_left_comm, hspelled, ih hrest hsegments, or_left_comm, along_literal, or_assoc]
    | escape c =>
      cases hsplit
      have hspelled : word ∈ spelled u (.escape c :: ts)
          ↔ word = u ++ [c] ∨ word ∈ spelled u ts := List.mem_cons
      rw [hspelled, or_left_comm (a := word = u), or_left_comm, ih hrest hsegments, or_left_comm,
        along_escape, or_assoc]
    | closeGroup =>
      cases hsplit
      have hspelled : spelled u (.closeGroup :: ts) = spelled [] ts := rfl
      have hroot := ih (u := []) hrest hsegments
      rw [← or_assoc, or_self] at hroot
      rw [or_left_comm, hspelled, hroot, or_left_comm, along_nil, List.exists_mem_cons_iff]
    | _ => cases hfirst

theorem mem_words_iff {ts : List Token} (hsimple : ∀ token ∈ ts, token.isSimple = true)
    {word : List Char} : word ∈ [] :: spelled [] ts
      ↔ ∃ segment ∈ ts.splitOn .closeGroup, Along [] segment word := by
  obtain ⟨first, later, hsplit⟩ := List.exists_cons_of_ne_nil (List.splitOn_ne_nil .closeGroup ts)
  have hwords : word = [] ∨ word = [] ∨ word ∈ spelled [] ts
      ↔ word = [] ∨ Along [] first word ∨ ∃ segment ∈ later, Along [] segment word :=
    mem_spelled_iff hsimple hsplit
  have hempty : word = [] → Along [] first word := by
    rintro rfl
    exact ⟨0, Or.inl rfl⟩
  rw [← or_assoc, or_self, or_iff_right_of_imp (Or.inl ∘ hempty)] at hwords
  rw [List.mem_cons, hwords, hsplit, List.exists_mem_cons_iff]

/-! ## The law -/

/-- Without epsilon edges both simulations list the same states in the same order after any input,
and no state twice. An input is accepted if it goes along one of the segments between the `)` of the
pattern: it is spelled by the literals of some first items of the segment, or by these and the
escape that comes next. -/
theorem without_epsilon_edges_the_simulations_agree {pattern : String} {ts : List Token}
    (htokens : tokens pattern.toList = some ts)
    (hsimple : ∀ token ∈ ts, token.isSimple = true) :
    ∃ a b, compile pattern .singleHop = .ok a ∧ compile pattern .closure = .ok b
      ∧ (∀ input, ((Matcher.start b).run input).frontier = ((Matcher.start a).run input).frontier
        ∧ ((Matcher.start a).run input).frontier.Nodup)
      ∧ ∀ input : String, b.isMatch input = a.isMatch input
        ∧ (a.isMatch input = true ↔ ∃ segment ∈ ts.splitOn .closeGroup, ∃ j : Nat,
          input.toList = literals (segment.take j)
          ∨ ∃ c, segment[j]? = some (.escape c)
            ∧ input.toList = literals (segment.take j) ++ [c]) := by
  obtain ⟨b, hb, hshows⟩ := exists_compile_of_tokens htokens .closure
  obtain ⟨a, ha, hstates, hstart⟩ : ∃ a, compile pattern .singleHop = .ok a
      ∧ a.states = b.states ∧ a.start = b.start := ⟨_, compile_other hb .singleHop, rfl, rfl⟩
  have hbranches : (Construction.ofTokens ts).Branches ([] :: spelled [] ts) :=
    Construction.branches_empty.foldl_lay rfl hsimple
  have hties : ∀ token ∈ ts, token.ties = 0 := by
    intro token hmem
    have htoken := hsimple token hmem
    cases token with
    | optional | plus | star => cases htoken
    | _ => rfl
  have hsingle : a.simulation = .singleHop := (compile_eq_ok.1 ha).2.2
  have hclosure : b.simulation = .closure := (compile_eq_ok.1 hb).2.2
  have hnodup := (compile_isTree ha htokens hties).nodup_frontier hsingle
  have hfrontier := Matcher.frontier_eq_of_no_epsilon (compile_inRange hb)
    (hbranches.no_epsilon hshows) hclosure hsingle hstates hstart hnodup
  refine ⟨a, b, ha, hb, fun input => ⟨hfrontier input, hnodup input⟩, fun input => ?_⟩
  have hsame : b.isMatch input = a.isMatch input := by
    rw [Bool.eq_iff_iff, Automaton.isMatch_iff, Automaton.isMatch_iff, hfrontier]
    simp only [Automaton.isAccepting, hstates]
  refine ⟨hsame, ?_⟩
  rw [← hsame, hbranches.isMatch_iff hshows hb, mem_words_iff hsimple]
  rfl

/-- Two segments begin alike, so a run stands in a state of each. The first one goes on past its
escape, and in the last one a `)` is escaped. -/
theorem three_segments_are_run_alike :
    ∃ a b, compile "ab\\cd)ab)\\)x" .singleHop = .ok a ∧ compile "ab\\cd)ab)\\)x" .closure = .ok b
      ∧ ((Matcher.start a).run "ab".toList).frontier = [2, 6]
      ∧ ((Matcher.start b).run "ab".toList).frontier = [2, 6]
      ∧ b.isMatch "abc" = true ∧ b.isMatch "abcd" = false ∧ a.isMatch ")" = true := by
  have htokens : tokens "ab\\cd)ab)\\)x".toList = some [.literal 'a', .literal 'b', .escape 'c',
      .literal 'd', .closeGroup, .literal 'a', .literal 'b', .closeGroup, .escape ')',
      .literal 'x'] := by cbv
  obtain ⟨a, b, ha, hb, hfrontiers, hmatch⟩ :=
    without_epsilon_edges_the_simulations_agree htokens (by decide)
  have hshape : compile "ab\\cd)ab)\\)x" .singleHop = .ok _ := rfl
  obtain rfl := Except.ok.inj (hshape.symm.trans ha)
  refine ⟨_, b, ha, hb, by decide +kernel, ?_, ?_, ?_, ?_⟩
  · rw [(hfrontiers _).1]
    decide +kernel
  · rw [(hmatch "abc").1, (hmatch "abc").2]
    exact ⟨_, List.mem_cons_self, 2, Or.inr ⟨'c', rfl, rfl⟩⟩
  · rw [(hmatch "abcd").1]
    decide +kernel
  · rw [(hmatch ")").2]
    exact ⟨_, List.mem_of_getLast? rfl, 0, Or.inr ⟨')', rfl, rfl⟩⟩

end PatternNFA
