-- Runs of the closure simulation. After any input the frontier holds the ends
-- of the walks that spell the input, each once, so the simulation accepts what
-- a nondeterministic automaton accepts by the book.
import PatternNFA.Matcher
import PatternNFA.Proofs.Closure
import PatternNFA.Proofs.Drafts

namespace PatternNFA

namespace Matcher

variable {a : Automaton}

/-! ## The invariant of a run -/

/-- Between two steps of the closure simulation: no state stands twice, and no epsilon edge
leads out of the frontier. -/
structure Settled (m : Matcher) : Prop where
  closure : m.automaton.simulation = .closure
  ready : Scratch.Ready m.automaton m.generation m.scratch
  nodup : m.frontier.Nodup
  glides : ∀ {s t}, s ∈ m.frontier → m.automaton.Glides s t → t ∈ m.frontier

theorem start_closure (h : a.simulation = .closure) (scratch : Scratch) :
    start a scratch
      = { automaton := a, generation := 2
          scratch := ((scratch.prepare a.size).addState a 1 a.start).swap } := by
  unfold start
  simp only [h]

theorem step_closure {m : Matcher} (h : m.automaton.simulation = .closure) (c : Char) :
    m.step c
      = { automaton := m.automaton, generation := m.generation + 1
          scratch := (m.scratch.gather m.automaton m.generation c).swap } := by
  obtain ⟨a, generation, scratch⟩ := m
  have h : a.simulation = .closure := h
  simp only [step, h]

/-- The frontier that a generation leaves is settled. -/
theorem settled_of_gathered {generation : Nat} {sources : List Nat} {scratch : Scratch}
    (hclosure : a.simulation = .closure)
    (h : Scratch.Gathered a generation sources scratch) :
    Settled { automaton := a, generation := generation + 1, scratch := scratch.swap } where
  closure := hclosure
  ready := ⟨h.ready.size_eq, h.ready.stamps_lt, h.ready.pending_eq⟩
  nodup := h.nodup
  glides := by
    intro s t hs hglides
    obtain ⟨source, hsource, hreach⟩ := (h.mem_next s).1 hs
    exact (h.mem_next t).2 ⟨source, hsource, hreach.trans hglides⟩

/-- No generation has claimed anything in a storage that is ready for its first run. -/
theorem ready_unused (a : Automaton) : Scratch.Ready a 1 (Scratch.unused a.size) := by
  refine ⟨by simp [Scratch.unused], ?_, rfl⟩
  intro x hx
  rw [Array.eq_of_mem_replicate hx]
  exact Nat.zero_lt_one

theorem gathered_start (hrange : a.InRange) (scratch : Scratch) :
    Scratch.Gathered a 1 [a.start] ((scratch.prepare a.size).addState a 1 a.start) := by
  have hsources : ∀ s ∈ [a.start], s < a.size := by
    intro s hs
    rw [List.mem_singleton.1 hs]
    exact hrange.start_lt
  rw [Scratch.prepare_eq]
  exact Scratch.gathered_foldl hrange (ready_unused a) hsources

theorem settled_start (hrange : a.InRange) (h : a.simulation = .closure) (scratch : Scratch) :
    (start a scratch).Settled := by
  rw [start_closure h]
  apply settled_of_gathered h
  exact gathered_start hrange scratch

theorem mem_frontier_start (hrange : a.InRange) (h : a.simulation = .closure)
    (scratch : Scratch) (q : Nat) :
    q ∈ (start a scratch).frontier ↔ a.Glides a.start q := by
  rw [start_closure h]
  apply ((gathered_start hrange scratch).mem_next q).trans
  simp

theorem Settled.step {m : Matcher} (h : m.Settled) (hrange : m.automaton.InRange) (c : Char) :
    (m.step c).Settled := by
  rw [step_closure h.closure]
  apply settled_of_gathered h.closure
  exact Scratch.gathered_gather hrange h.ready c

/-- A step follows an edge that reads the character, and then epsilon edges. -/
theorem Settled.mem_frontier_step {m : Matcher} (h : m.Settled) (hrange : m.automaton.InRange)
    (c : Char) (q : Nat) :
    q ∈ (m.step c).frontier
      ↔ ∃ s ∈ m.frontier, ∃ t ∈ m.automaton.targets s (.char c), m.automaton.Glides t q := by
  rw [step_closure h.closure]
  apply ((Scratch.gathered_gather hrange h.ready c).mem_next q).trans
  constructor
  · rintro ⟨t, ht, hglides⟩
    obtain ⟨s, hs, ht⟩ := List.mem_flatMap.1 ht
    exact ⟨s, hs, t, ht, hglides⟩
  · rintro ⟨s, hs, t, ht, hglides⟩
    exact ⟨t, List.mem_flatMap.2 ⟨s, hs, ht⟩, hglides⟩

theorem Settled.run {m : Matcher} (h : m.Settled) (hrange : m.automaton.InRange)
    (cs : List Char) : (m.run cs).Settled := by
  induction cs generalizing m with
  | nil => exact h
  | cons c cs ih => exact ih (h.step hrange c) (by simpa using hrange)

/-! ## Where a run ends -/

theorem Settled.mem_frontier_run {m : Matcher} (h : m.Settled) (hrange : m.automaton.InRange)
    (cs : List Char) (q : Nat) :
    q ∈ (m.run cs).frontier
      ↔ ∃ s ∈ m.frontier, ∃ es, m.automaton.Walk s es q ∧ letters es = cs := by
  induction cs generalizing m with
  | nil =>
    constructor
    · intro hq
      exact ⟨q, hq, [], .stay q, rfl⟩
    · rintro ⟨s, hs, es, hwalk, hes⟩
      exact h.glides hs (hwalk.glides hes)
  | cons c cs ih =>
    rw [run_cons, ih (h.step hrange c) (by simpa using hrange), automaton_step]
    constructor
    · rintro ⟨u, hu, fs, hwalk, hfs⟩
      obtain ⟨s, hs, t, ht, hglides⟩ := (h.mem_frontier_step hrange c u).1 hu
      obtain ⟨e, he, hsymbol, rfl⟩ := Automaton.exists_hasEdge ht
      obtain ⟨gs, hglide, hgs⟩ := hglides.exists_walk
      refine ⟨s, hs, e :: (gs ++ fs), .go he (hglide.append hwalk), ?_⟩
      rw [letters_cons_char hsymbol, letters_append, hgs, hfs, List.nil_append]
    · rintro ⟨s, hs, es, hwalk, hes⟩
      obtain ⟨t, u, fs, hglides, hu, hrest, hfs⟩ := hwalk.split_letter hes
      have ht : t ∈ m.frontier := h.glides hs hglides
      exact ⟨u, (h.mem_frontier_step hrange c u).2 ⟨t, ht, u, hu, .refl⟩, fs, hrest, hfs⟩

theorem mem_frontier_run_start (hrange : a.InRange) (h : a.simulation = .closure)
    (scratch : Scratch) (cs : List Char) (q : Nat) :
    q ∈ ((start a scratch).run cs).frontier ↔ ∃ es, a.Walk a.start es q ∧ letters es = cs := by
  have hsettled := settled_start hrange h scratch
  rw [hsettled.mem_frontier_run (by simpa using hrange), automaton_start]
  constructor
  · rintro ⟨s, hs, es, hwalk, hes⟩
    obtain ⟨gs, hglide, hgs⟩ := ((mem_frontier_start hrange h scratch s).1 hs).exists_walk
    exact ⟨gs ++ es, hglide.append hwalk, by rw [letters_append, hgs, hes, List.nil_append]⟩
  · rintro ⟨es, hwalk, hes⟩
    exact ⟨a.start, (mem_frontier_start hrange h scratch a.start).2 .refl, es, hwalk, hes⟩

/-- The first generation adds the start, and each character takes one more. -/
theorem generation_run_start (h : a.simulation = .closure) (scratch : Scratch)
    (cs : List Char) : ((start a scratch).run cs).generation = cs.length + 2 := by
  have hrun : ∀ m : Matcher, m.automaton.simulation = .closure →
      (m.run cs).generation = m.generation + cs.length := by
    induction cs with
    | nil => intro m _; rfl
    | cons c cs ih =>
      intro m hm
      have hstep : (m.step c).generation = m.generation + 1 := by rw [step_closure hm]
      rw [run_cons, ih (m.step c) (by simpa using hm), hstep, List.length_cons]
      omega
  have hstart : (start a scratch).generation = 2 := by rw [start_closure h]
  rw [hrun _ (by simpa using h), hstart]
  omega

end Matcher

/-! ## The law -/

/-- After any input, the closure frontier holds the ends of the walks from the start that spell
the input, each state once, and the input is accepted if one of them accepts. The generations
are counted up to the length of the input plus two, and no stamp of an earlier one is taken
for the current one. The walk over the epsilon edges ends, circles or not: within as many
turns as the table has stamps, and one for each state that was pending. -/
theorem a_closure_run_ends_where_the_walks_that_spell_its_input_end {pattern : String}
    {a : Automaton} (h : compile pattern .closure = .ok a) (input : String) :
    let m := (Matcher.start a).run input.toList
    (∀ q, q ∈ m.frontier ↔ ∃ es, a.Walk a.start es q ∧ letters es = input.toList)
    ∧ m.frontier.Nodup
    ∧ (a.isMatch input = true
        ↔ ∃ q es, a.Walk a.start es q ∧ letters es = input.toList ∧ a.isAccepting q = true)
    ∧ (m.generation = input.length + 2 ∧ ∀ x ∈ m.scratch.stamps, x < m.generation)
    ∧ ∀ generation scratch,
        let turns := scratch.stamps.size + scratch.pending.length
        (Scratch.turn a generation)^[turns] scratch = Scratch.walk a generation scratch
          ∧ (Scratch.walk a generation scratch).pending = [] := by
  intro m
  have hrange := compile_inRange h
  have hclosure : a.simulation = .closure := (compile_eq_ok.1 h).2.2
  have hsettled : m.Settled :=
    (Matcher.settled_start hrange hclosure {}).run (by simpa using hrange) input.toList
  have hmem := Matcher.mem_frontier_run_start hrange hclosure {} input.toList
  refine ⟨hmem, hsettled.nodup, ?_, ⟨?_, hsettled.ready.stamps_lt⟩, ?_⟩
  · rw [Automaton.isMatch_iff]
    constructor
    · rintro ⟨q, hq, haccepting⟩
      obtain ⟨es, hwalk, hes⟩ := (hmem q).1 hq
      exact ⟨q, es, hwalk, hes, haccepting⟩
    · rintro ⟨q, es, hwalk, hes, haccepting⟩
      exact ⟨q, (hmem q).2 ⟨es, hwalk, hes⟩, haccepting⟩
  · exact Matcher.generation_run_start hclosure {} input.toList
  · intro generation scratch turns
    refine ⟨Scratch.iterate_turn ?_, Scratch.pending_walk _ _ _⟩
    exact Nat.add_le_add_right Array.countP_le_size _

/-- Here the epsilon edges circle, two of them side by side, and one leads back to its state. -/
theorem a_circle_of_epsilon_edges_is_walked_once : ∃ a, compile "(a??)*+b" .closure = .ok a
    ∧ a.targets 0 .epsilon = [1, 2, 2, 0, 0] ∧ a.targets 2 .epsilon = [0, 0]
    ∧ ((Matcher.start a).run "a".toList).frontier.Nodup
    ∧ ∃ q es, a.Walk a.start es q ∧ letters es = "ab".toList ∧ a.isAccepting q = true := by
  refine ⟨_, rfl, by decide +kernel, by decide +kernel, ?_, ?_⟩
  · have hlaw := a_closure_run_ends_where_the_walks_that_spell_its_input_end
      (rfl : compile "(a??)*+b" .closure = .ok _) "a"
    exact hlaw.2.1
  · have hlaw := a_closure_run_ends_where_the_walks_that_spell_its_input_end
      (rfl : compile "(a??)*+b" .closure = .ok _) "ab"
    exact hlaw.2.2.1.1 (by decide +kernel)

end PatternNFA
