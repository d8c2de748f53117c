-- What a draft gains while it is read: states and edges, and none is ever lost. So
-- a longer pattern accepts what a shorter one accepts. The states of the shorter
-- one keep their numbers, but for one: the way past the members of a negated
-- class is added when the class ends, and in the longer pattern it may end later.
import PatternNFA.Proofs.Modes
import PatternNFA.Proofs.Simulations

namespace PatternNFA

/-! ## One automaton in another -/

namespace Automaton

/-- The map leads the first automaton into the second, where no edge is lost and every state
accepts that accepted in the first. -/
structure Embeds (a : Automaton) (f : Nat → Nat) (b : Automaton) : Prop where
  start_eq : f a.start = b.start
  mem_targets : ∀ {s x t}, t ∈ a.targets s x → f t ∈ b.targets (f s) x
  accepting : ∀ {s}, a.isAccepting s = true → b.isAccepting (f s) = true

variable {a b c : Automaton} {f g : Nat → Nat}

theorem Embeds.refl (a : Automaton) : a.Embeds id a := ⟨rfl, id, id⟩

theorem Embeds.trans (h : a.Embeds f b) (h' : b.Embeds g c) : a.Embeds (g ∘ f) c where
  start_eq := by
    rw [← h'.start_eq, ← h.start_eq]
    rfl
  mem_targets := fun ht => h'.mem_targets (h.mem_targets ht)
  accepting := fun hs => h'.accepting (h.accepting hs)

/-- Two walks side by side: a relation that every edge of the first automaton keeps, with an edge
of the second one that bears the same symbol. -/
theorem Walk.exists_alike {Q : Nat → Nat → Prop}
    (hstep : ∀ {s s' t x}, Q s s' → t ∈ a.targets s x → ∃ t' ∈ b.targets s' x, Q t t')
    {s s' q : Nat} {es : List Edge} (hwalk : a.Walk s es q) (hs : Q s s') :
    ∃ fs q', b.Walk s' fs q' ∧ Alike es fs ∧ Q q q' := by
  induction hwalk generalizing s' with
  | stay s => exact ⟨[], s', .stay s', .nil, hs⟩
  | @go s q e es he _ ih =>
    obtain ⟨t', ht', hQ⟩ := hstep hs he.mem_targets
    obtain ⟨e', he', hsymbol, rfl⟩ := exists_hasEdge ht'
    obtain ⟨fs, q', hrest, halike, hq⟩ := ih hQ
    exact ⟨e' :: fs, q', .go he' hrest, .cons hsymbol.symm halike, hq⟩

theorem Embeds.walk (h : a.Embeds f b) {s q : Nat} {es : List Edge} (hwalk : a.Walk s es q) :
    ∃ fs, b.Walk (f s) fs (f q) ∧ Alike es fs := by
  have hstep : ∀ {s s' t x}, f s = s' → t ∈ a.targets s x → ∃ t' ∈ b.targets s' x, f t = t' := by
    rintro s _ t x rfl ht
    exact ⟨f t, h.mem_targets ht, rfl⟩
  obtain ⟨fs, _, hwalk', halike, rfl⟩ := hwalk.exists_alike hstep rfl
  exact ⟨fs, hwalk', halike⟩

/-- An input is accepted if some walk from the start spells it and ends in a state that accepts. -/
theorem isMatch_iff_exists_walk (hrange : a.InRange) {input : String} :
    a.isMatch input = true
      ↔ ∃ es q, a.Walk a.start es q ∧ a.simulation.Spells es input.toList
        ∧ a.isAccepting q = true := by
  rw [isMatch_iff]
  constructor
  · rintro ⟨q, hq, haccepting⟩
    obtain ⟨es, hwalk, hspells⟩ := (Matcher.mem_frontier_iff hrange {} _ q).1 hq
    exact ⟨es, q, hwalk, hspells, haccepting⟩
  · rintro ⟨es, q, hwalk, hspells, haccepting⟩
    exact ⟨q, (Matcher.mem_frontier_iff hrange {} _ q).2 ⟨es, hwalk, hspells⟩, haccepting⟩

/-- What the first automaton accepts, the second accepts under the same simulation. -/
theorem Embeds.isMatch (h : a.Embeds f b) (hsame : a.simulation = b.simulation)
    (ha : a.InRange) (hb : b.InRange) {input : String} (hmatch : a.isMatch input = true) :
    b.isMatch input = true := by
  obtain ⟨es, q, hwalk, hspells, haccepting⟩ := (isMatch_iff_exists_walk ha).1 hmatch
  obtain ⟨fs, hwalk', halike⟩ := h.walk hwalk
  rw [h.start_eq] at hwalk'
  have hspells' := hsame ▸ hspells.of_alike halike
  exact (isMatch_iff_exists_walk hb).2 ⟨fs, f q, hwalk', hspells', h.accepting haccepting⟩

end Automaton

namespace Draft

variable {d e : Draft}

/-! ## Which states accept -/

theorem isAccepting_link (d : Draft) (source : Nat) (symbol : Symbol) (target s : Nat) :
    (d.link source symbol target).automaton.isAccepting s = d.automaton.isAccepting s := by
  unfold automaton Automaton.isAccepting link
  simp only [Array.getElem?_modify]
  by_cases hs : source = s
  · subst hs
    rw [if_pos rfl]
    cases d.states[source]? <;> rfl
  · rw [if_neg hs]

theorem isAccepting_sprout (d : Draft) (symbol : Symbol) (accepting : Bool) (s : Nat) :
    (d.sprout symbol accepting).automaton.isAccepting s
      = if s = d.states.size then accepting else d.automaton.isAccepting s := by
  unfold sprout
  rw [isAccepting_link]
  unfold automaton Automaton.isAccepting
  simp only [Array.getElem?_push]
  by_cases hs : s = d.states.size
  · rw [if_pos hs, if_pos hs]
  · rw [if_neg hs, if_neg hs]

theorem isAccepting_sprout_of_accepting {s : Nat} (h : d.automaton.isAccepting s = true)
    (symbol : Symbol) (accepting : Bool) :
    (d.sprout symbol accepting).automaton.isAccepting s = true := by
  have hold : s ≠ d.states.size := Nat.ne_of_lt (Automaton.lt_size_of_isAccepting h)
  rw [isAccepting_sprout, if_neg hold]
  exact h

/-! ## The changes that reading makes -/

/-- The second draft comes of the first by changes of three kinds: to stand elsewhere, to tie a
state to another by an epsilon edge, and to add a state that accepts. Only the head of a class is
a state that rejects, and is left out here. -/
inductive Thrives : Draft → Draft → Prop
  | move {d e : Draft} : e.states = d.states → Thrives d e
  | tie {d : Draft} {source target : Nat} :
      source < d.states.size → Thrives d (d.link source .epsilon target)
  | sprout {d : Draft} (symbol : Symbol) :
      d.current < d.states.size → Thrives d (d.sprout symbol true)
  | trans {d e f : Draft} : Thrives d e → Thrives e f → Thrives d f

theorem Sound.thrives_advance (h : d.Sound) (symbol : Symbol) : d.Thrives (d.advance symbol true) :=
  (Thrives.sprout symbol h.current_lt).trans (.move rfl)

theorem Sound.thrives_readPlain (h : d.Sound) {c : Char} (hc : c ≠ '[') :
    d.Thrives (d.readPlain c) := by
  unfold Draft.readPlain
  split
  · exact (h.thrives_advance .epsilon).trans (.move rfl)
  · exact .move rfl
  · exact h.thrives_advance .epsilon
  · have hcurrent : d.current < (d.link d.entry .epsilon d.current).states.size := by
      rw [size_link]
      exact h.current_lt
    exact (Thrives.tie h.entry_lt).trans (.tie hcurrent)
  · exact .tie h.current_lt
  · exact .tie h.entry_lt
  · exact absurd rfl hc
  · exact .move rfl
  · exact h.thrives_advance _

theorem Sound.thrives_endClass (h : d.Sound) (negated : Bool) : d.Thrives (d.endClass negated) := by
  unfold Draft.endClass
  split
  · exact (Thrives.sprout .epsilon h.current_lt).trans (.move rfl)
  · exact .move rfl

theorem Sound.thrives_readMember (h : d.Sound) (negated : Bool) (c : Char) :
    d.Thrives (d.readMember negated c) := by
  unfold Draft.readMember
  split
  · rename_i hc
    have hne : c ≠ '[' := by
      rw [hc]
      decide
    exact (h.thrives_endClass negated).trans ((h.endClass negated).thrives_readPlain hne)
  · exact (Thrives.sprout _ h.current_lt).trans (.move rfl)

theorem Sound.thrives_read (h : d.Sound) {c : Char} (hopen : ¬ (d.mode = .plain ∧ c = '[')) :
    d.Thrives (d.read c) := by
  have hinterpret : d.Thrives (d.interpret c) := by
    unfold Draft.interpret
    split
    · rename_i hmode
      exact h.thrives_readPlain fun hc => hopen ⟨hmode, hc⟩
    · exact (Thrives.sprout _ h.current_lt).trans (.move rfl)
    · split
      · exact .move rfl
      · exact h.thrives_readMember _ c
    · exact h.thrives_readMember _ c
  exact hinterpret.trans (.move rfl)

theorem Sound.thrives_settle (h : d.Sound) : d.Thrives d.settle := by
  unfold settle
  split
  · exact .move rfl
  · exact .move rfl
  · exact h.thrives_endClass false
  · exact h.thrives_endClass _

/-- What a character can do to a draft: open a class, whose head is a new state that rejects, at
the end of an epsilon edge, or let the draft thrive. -/
theorem Sound.read_cases (h : d.Sound) (c : Char) :
    (d.mode = .plain ∧ c = '[' ∧ (d.read c).states = (d.sprout .epsilon false).states)
      ∨ d.Thrives (d.read c) := by
  by_cases hopen : d.mode = .plain ∧ c = '['
  · obtain ⟨hmode, rfl⟩ := hopen
    refine Or.inl ⟨hmode, rfl, ?_⟩
    rw [read_open hmode]
    rfl
  · exact Or.inr (h.thrives_read hopen)

/-! ## Nothing is lost -/

theorem embeds_of_states (h : e.states = d.states) : d.automaton.Embeds id e.automaton := by
  rw [automaton_of_states h]
  exact .refl _

theorem embeds_link {source : Nat} (hs : source < d.states.size) (symbol : Symbol) (target : Nat) :
    d.automaton.Embeds id (d.link source symbol target).automaton where
  start_eq := rfl
  mem_targets := fun ht => (mem_targets_link hs).2 (Or.inl ht)
  accepting := fun hs => (isAccepting_link d source symbol target _).trans hs

theorem embeds_sprout (hc : d.current < d.states.size) (symbol : Symbol) (accepting : Bool) :
    d.automaton.Embeds id (d.sprout symbol accepting).automaton where
  start_eq := rfl
  mem_targets := fun ht => (mem_targets_sprout hc).2 (Or.inl ht)
  accepting := fun hs => isAccepting_sprout_of_accepting hs symbol accepting

theorem Thrives.embeds (h : d.Thrives e) : d.automaton.Embeds id e.automaton := by
  induction h with
  | move hstates => exact embeds_of_states hstates
  | tie hs => exact embeds_link hs _ _
  | sprout symbol hc => exact embeds_sprout hc symbol true
  | trans _ _ ih₁ ih₂ => exact ih₁.trans ih₂

theorem Sound.embeds_read (h : d.Sound) (c : Char) : d.automaton.Embeds id (d.read c).automaton := by
  rcases h.read_cases c with ⟨-, -, hopen⟩ | hthrives
  · exact (embeds_sprout h.current_lt .epsilon false).trans (embeds_of_states hopen)
  · exact hthrives.embeds

theorem Sound.embeds_readAll (h : d.Sound) (cs : List Char) :
    d.automaton.Embeds id (d.readAll cs).automaton := by
  induction cs generalizing d with
  | nil => exact .refl _
  | cons c cs ih => exact (h.embeds_read c).trans (ih (h.read c))

end Draft

/-! ## Two drafts that change alike -/

namespace Automaton

variable {d e : Draft} {f g : Nat → Nat}

/-- What the map does to numbers without a state does not matter. -/
theorem Embeds.congr (h : d.automaton.Embeds f e.automaton) (hd : d.Sound)
    (hg : ∀ s < d.states.size, g s = f s) : d.automaton.Embeds g e.automaton where
  start_eq := (hg Draft.root hd.root_lt).trans h.start_eq
  mem_targets := by
    intro s x t ht
    rw [hg s (lt_size_of_mem_targets ht), hg t (hd.target_lt ht)]
    exact h.mem_targets ht
  accepting := by
    intro s hs
    rw [hg s (lt_size_of_isAccepting hs)]
    exact h.accepting hs

theorem Embeds.link (h : d.automaton.Embeds f e.automaton) {source : Nat}
    (hd : source < d.states.size) (he : f source < e.states.size) (symbol : Symbol)
    (target : Nat) :
    (d.link source symbol target).automaton.Embeds f
      (e.link (f source) symbol (f target)).automaton where
  start_eq := h.start_eq
  mem_targets := by
    intro s x t ht
    rcases (Draft.mem_targets_link hd).1 ht with ht | ⟨rfl, rfl, rfl⟩
    · exact (Draft.mem_targets_link he).2 (Or.inl (h.mem_targets ht))
    · exact (Draft.mem_targets_link he).2 (Or.inr ⟨rfl, rfl, rfl⟩)
  accepting := by
    intro s hs
    rw [Draft.isAccepting_link] at hs ⊢
    exact h.accepting hs

theorem Embeds.sprout (h : d.automaton.Embeds f e.automaton) (hd : d.current < d.states.size)
    (he : e.current < e.states.size) (hcurrent : f d.current = e.current)
    (hnewest : f d.states.size = e.states.size) (symbol : Symbol) (accepting : Bool) :
    (d.sprout symbol accepting).automaton.Embeds f (e.sprout symbol accepting).automaton where
  start_eq := h.start_eq
  mem_targets := by
    intro s x t ht
    rcases (Draft.mem_targets_sprout hd).1 ht with ht | ⟨rfl, rfl, rfl⟩
    · exact (Draft.mem_targets_sprout he).2 (Or.inl (h.mem_targets ht))
    · exact (Draft.mem_targets_sprout he).2 (Or.inr ⟨hcurrent, rfl, hnewest⟩)
  accepting := by
    intro s hs
    rw [Draft.isAccepting_sprout] at hs
    split at hs
    · rename_i hnew
      rw [hnew, hnewest, Draft.isAccepting_sprout, if_pos rfl]
      exact hs
    · exact Draft.isAccepting_sprout_of_accepting (h.accepting hs) symbol accepting

end Automaton

/-! ## A pattern and its beginning -/

namespace Draft

variable {d : Draft}

theorem states_settle (h : d.mode ≠ .members true) : d.settle.states = d.states := by
  unfold settle
  split
  · rfl
  · rfl
  · rfl
  · rename_i negated hmode
    cases negated with
    | false => rfl
    | true => exact absurd hmode h

/-- Where a negated class is open, its way out gets the number of the state that is newest when
the class ends. -/
theorem Sound.embeds_settle_members (h : d.Sound) (hmode : d.mode = .members true)
    (cs : List Char) :
    ∃ f, d.settle.automaton.Embeds f (d.readAll cs).settle.automaton := by
  have hmembers := readAll_members hmode (ne_of_mem_takeWhile cs)
  have he := h.readAll (cs.takeWhile (· ≠ ']'))
  have hgrown := h.embeds_readAll (cs.takeWhile (· ≠ ']'))
  have hsplit := settle_readAll_class hmode cs
  generalize d.readAll (cs.takeWhile (· ≠ ']')) = e at hmembers he hgrown hsplit
  have hrest := (he.endClass true).readAll (cs.dropWhile (· ≠ ']'))
  -- The shorter pattern adds the way out now, the longer one after the rest of the members.
  let f := Function.update id d.states.size e.states.size
  have hkept : ∀ s < d.states.size, f s = s := fun s hs => Function.update_of_ne (Nat.ne_of_lt hs) ..
  have hbypass : (d.endClass true).automaton.Embeds f (e.endClass true).automaton := by
    apply (hgrown.congr h hkept).sprout h.current_lt he.current_lt _ _ .epsilon true
    · rw [hkept _ h.current_lt, hmembers.2.1]
    · exact Function.update_self ..
  rw [settle_of_members hmode, hsplit]
  exact ⟨_, hbypass.trans (((he.endClass true).embeds_readAll _).trans hrest.thrives_settle.embeds)⟩

/-- The automaton of a pattern lies in the one of every pattern that it begins. -/
theorem Sound.embeds_settle (h : d.Sound) (cs : List Char) :
    ∃ f, d.settle.automaton.Embeds f (d.readAll cs).settle.automaton := by
  by_cases hmode : d.mode = .members true
  · exact h.embeds_settle_members hmode cs
  · have hstart : d.settle.automaton.Embeds id d.automaton :=
      embeds_of_states (states_settle hmode).symm
    exact ⟨_, hstart.trans ((h.embeds_readAll cs).trans (h.readAll cs).thrives_settle.embeds)⟩

theorem states_of_finish {states : Array State} (h : d.finish = .ok states) :
    d.settle.states = states := by
  cases hmode : d.mode with
  | escaped offset => simp [finish, hmode] at h
  | _ => simpa [finish, settle, hmode] using h

end Draft

/-- What a pattern compiles to is the draft at its end, once the open class has ended. -/
theorem compile_eq_settle {pattern : String} {simulation : Simulation} {a : Automaton}
    (h : compile pattern simulation = .ok a) :
    a = { (Draft.fresh.readAll pattern.toList).settle.automaton with simulation } := by
  obtain ⟨states, start, other⟩ := a
  obtain ⟨hfinish, rfl, rfl⟩ := compile_eq_ok.1 h
  simp only [Draft.automaton, Draft.states_of_finish hfinish]

theorem exists_compile_eq_ok {pattern : String} {simulation : Simulation} :
    (∃ a, compile pattern simulation = .ok a) ↔ ¬ (Draft.fresh.readAll pattern.toList).Pending := by
  rw [← Draft.exists_finish_eq_ok]
  constructor
  · rintro ⟨a, ha⟩
    exact ⟨a.states, (compile_eq_ok.1 ha).1⟩
  · rintro ⟨states, hstates⟩
    exact ⟨{ states, start := Draft.root, simulation }, compile_eq_ok.2 ⟨hstates, rfl, rfl⟩⟩

/-- A pattern that leaves a reader where another one does compiles if the other one does. -/
theorem Draft.InStep.exists_compile {p q : String} {simulation : Simulation} {a : Automaton}
    (hstep : (Draft.fresh.readAll p.toList).InStep (Draft.fresh.readAll q.toList))
    (h : compile p simulation = .ok a) : ∃ b, compile q simulation = .ok b := by
  have hcompiles := exists_compile_eq_ok.1 ⟨a, h⟩
  rw [hstep.pending_iff] at hcompiles
  exact exists_compile_eq_ok.2 hcompiles

/-- If one draft leads into the other, all that the first pattern accepts the second one accepts. -/
theorem isMatch_of_embeds {p q : String} {simulation : Simulation} {a b : Automaton}
    (ha : compile p simulation = .ok a) (hb : compile q simulation = .ok b) {f : Nat → Nat}
    (h : (Draft.fresh.readAll p.toList).settle.automaton.Embeds f
      (Draft.fresh.readAll q.toList).settle.automaton) {input : String}
    (hmatch : a.isMatch input = true) : b.isMatch input = true := by
  have hembeds : a.Embeds f b := by
    rw [compile_eq_settle ha, compile_eq_settle hb]
    exact ⟨h.start_eq, h.mem_targets, h.accepting⟩
  have hsame := (compile_eq_ok.1 ha).2.2.trans (compile_eq_ok.1 hb).2.2.symm
  exact hembeds.isMatch hsame (compile_inRange ha) (compile_inRange hb) hmatch

/-! ## The law -/

/-- To write a pattern on loses no accepted input, under either simulation. The pattern may break
off anywhere it compiles, also inside a group or a class. -/
theorem a_longer_pattern_loses_no_accepted_input {p q : String} {simulation : Simulation}
    {a b : Automaton} (ha : compile p simulation = .ok a) (hb : compile (p ++ q) simulation = .ok b)
    (input : String) (hmatch : a.isMatch input = true) : b.isMatch input = true := by
  have hsound := Draft.sound_fresh.readAll p.toList
  obtain ⟨f, hembeds⟩ := hsound.embeds_settle q.toList
  rw [← Draft.readAll_append, ← String.toList_append] at hembeds
  exact isMatch_of_embeds ha hb hembeds hmatch

/-- The first pattern breaks off in a negated class, whose way out is the state 6 there and the
state 7 in the longer pattern. -/
theorem a_pattern_that_ends_in_a_negated_class_is_written_on :
    ∃ a b, compile "x(a[^b" .singleHop = .ok a ∧ compile ("x(a[^b" ++ "c]d") .singleHop = .ok b
      ∧ ((Matcher.start a).run "xzazz".toList).frontier = [6]
      ∧ ((Matcher.start b).run "xzazz".toList).frontier = [7]
      ∧ a.isMatch "xzazz" = true ∧ b.isMatch "xzazz" = true := by
  have ha : compile "x(a[^b" .singleHop = .ok _ := rfl
  have hb : compile ("x(a[^b" ++ "c]d") .singleHop = .ok _ := rfl
  refine ⟨_, _, ha, hb, by decide +kernel, by decide +kernel, by decide +kernel, ?_⟩
  exact a_longer_pattern_loses_no_accepted_input ha hb "xzazz" (by decide +kernel)

end PatternNFA
