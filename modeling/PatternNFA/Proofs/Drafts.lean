-- What a draft keeps while a pattern is read: its numbers name states that it
-- has, and every state can be reached from the root. So the automaton of each
-- pattern has no edge out of range and no state out of reach.
import PatternNFA.Pattern.Builder
import PatternNFA.Proofs.Walks

namespace PatternNFA

namespace Draft

/-! ## The automaton of a draft -/

/-- The automaton that a draft amounts to so far. No edge depends on the simulation. -/
def automaton (d : Draft) : Automaton :=
  { states := d.states, start := root, simulation := .singleHop }

theorem automaton_of_states {d e : Draft} (h : e.states = d.states) : e.automaton = d.automaton := by
  rw [automaton, h]
  rfl

theorem targets_link (d : Draft) {source : Nat} (hs : source < d.states.size) (symbol : Symbol)
    (target s : Nat) (x : Symbol) :
    (d.link source symbol target).automaton.targets s x
      = if s = source ∧ x = symbol then d.automaton.targets s x ++ [target]
        else d.automaton.targets s x := by
  unfold automaton Automaton.targets link
  simp only [Array.getElem?_modify]
  by_cases hss : source = s
  · subst hss
    simp only [if_true, Array.getElem?_eq_getElem hs, Option.map_some, Transitions.targets_add]
    by_cases hx : x = symbol
    · simp [hx]
    · simp [hx]
  · rw [if_neg hss, if_neg fun h => hss h.1.symm]

/-- A state that has just been added has no edges. -/
theorem targets_push (d e : Draft) {accepting : Bool}
    (he : e.states = d.states.push { accepting }) (s : Nat) (x : Symbol) :
    e.automaton.targets s x = d.automaton.targets s x := by
  unfold automaton Automaton.targets
  simp only [he, Array.getElem?_push]
  by_cases hs : s = d.states.size
  · subst hs
    simp
  · rw [if_neg hs]

theorem mem_targets_link {d : Draft} {source : Nat} (hs : source < d.states.size)
    {symbol : Symbol} {target s : Nat} {x : Symbol} {t : Nat} :
    t ∈ (d.link source symbol target).automaton.targets s x
      ↔ t ∈ d.automaton.targets s x ∨ (s = source ∧ x = symbol ∧ t = target) := by
  rw [targets_link d hs]
  split
  · simp [*]
  · rename_i hne
    constructor
    · exact Or.inl
    · rintro (ht | ⟨h1, h2, -⟩)
      · exact ht
      · exact absurd ⟨h1, h2⟩ hne

theorem mem_targets_sprout {d : Draft} (hc : d.current < d.states.size) {symbol : Symbol}
    {accepting : Bool} {s : Nat} {x : Symbol} {t : Nat} :
    t ∈ (d.sprout symbol accepting).automaton.targets s x
      ↔ t ∈ d.automaton.targets s x ∨ (s = d.current ∧ x = symbol ∧ t = d.states.size) := by
  unfold sprout
  rw [mem_targets_link (by simp; omega), targets_push d _ rfl]

/-! ## The invariant -/

structure Sound (d : Draft) : Prop where
  current_lt : d.current < d.states.size
  groups_lt : ∀ s ∈ d.groups, s < d.states.size
  target_lt : ∀ {s x t}, t ∈ d.automaton.targets s x → t < d.states.size
  reached : ∀ s < d.states.size, d.automaton.Reaches root s

/-- A draft begins with no edge. -/
theorem not_mem_targets_fresh {s t : Nat} {x : Symbol} : t ∉ fresh.automaton.targets s x := by
  unfold automaton Automaton.targets
  rcases s with _ | s
  · simp [fresh]
  · simp [fresh]

theorem sound_fresh : fresh.Sound where
  current_lt := by simp [fresh, root]
  groups_lt := by simp [fresh]
  target_lt := fun ht => absurd ht not_mem_targets_fresh
  reached := by
    intro s hs
    have hroot : s = root := by simpa [fresh, root] using hs
    exact hroot ▸ .refl

theorem Sound.root_lt {d : Draft} (h : d.Sound) : root < d.states.size :=
  Nat.lt_of_le_of_lt (Nat.zero_le _) h.current_lt

theorem Sound.entry_lt {d : Draft} (h : d.Sound) : d.entry < d.states.size := by
  unfold entry
  cases hg : d.groups with
  | nil => exact h.root_lt
  | cons s rest => exact h.groups_lt s (by simp [hg])

/-! ## What one change keeps -/

/-- To stand elsewhere changes no edge. -/
theorem Sound.move {d e : Draft} (h : d.Sound) (hstates : e.states = d.states)
    (hcurrent : e.current < d.states.size) (hgroups : ∀ s ∈ e.groups, s < d.states.size) :
    e.Sound := by
  have hsame := automaton_of_states hstates
  exact ⟨hstates ▸ hcurrent, hstates ▸ hgroups, hstates ▸ hsame ▸ h.target_lt,
    hstates ▸ hsame ▸ h.reached⟩

/-- An edge between two states keeps what is reached. -/
theorem Sound.link {d : Draft} (h : d.Sound) {source target : Nat}
    (hs : source < d.states.size) (symbol : Symbol) (ht : target < d.states.size) :
    (d.link source symbol target).Sound where
  current_lt := by simpa using h.current_lt
  groups_lt := by simpa using h.groups_lt
  target_lt := by
    intro s x t hmem
    rw [size_link]
    rcases (mem_targets_link hs).1 hmem with hmem | ⟨-, -, rfl⟩
    · exact h.target_lt hmem
    · exact ht
  reached := by
    intro s hlt
    rw [size_link] at hlt
    exact (h.reached s hlt).mono fun hmem => (mem_targets_link hs).2 (Or.inl hmem)

/-- A state that the current one leads to is reached through it. -/
theorem Sound.sprout {d : Draft} (h : d.Sound) (symbol : Symbol) (accepting : Bool) :
    (d.sprout symbol accepting).Sound where
  current_lt := by
    rw [current_sprout, size_sprout]
    exact Nat.lt_succ_of_lt h.current_lt
  groups_lt := by
    intro s hs
    rw [size_sprout]
    exact Nat.lt_succ_of_lt (h.groups_lt s hs)
  target_lt := by
    intro s x t hmem
    rw [size_sprout]
    rcases (mem_targets_sprout h.current_lt).1 hmem with hmem | ⟨-, -, rfl⟩
    · exact Nat.lt_succ_of_lt (h.target_lt hmem)
    · exact Nat.lt_succ_self _
  reached := by
    have hold : ∀ s < d.states.size, (d.sprout symbol accepting).automaton.Reaches root s :=
      fun s hlt => (h.reached s hlt).mono fun hmem =>
        (mem_targets_sprout h.current_lt).2 (Or.inl hmem)
    intro s hlt
    rw [size_sprout] at hlt
    by_cases hs : s < d.states.size
    · exact hold s hs
    · have hnew : s = d.states.size := by omega
      exact (hold d.current h.current_lt).tail
        ⟨symbol, (mem_targets_sprout h.current_lt).2 (Or.inr ⟨rfl, rfl, hnew⟩)⟩

theorem Sound.advance {d : Draft} (h : d.Sound) (symbol : Symbol) (accepting : Bool) :
    (d.advance symbol accepting).Sound := by
  have hs := h.sprout symbol accepting
  refine hs.move rfl ?_ hs.groups_lt
  simp

/-! ## What a character keeps -/

theorem Sound.readPlain {d : Draft} (h : d.Sound) (c : Char) : (d.readPlain c).Sound := by
  have hsize : ∀ x accepting, d.states.size < (d.advance x accepting).states.size := by simp
  unfold Draft.readPlain
  split
  · -- `(`: the group remembers the state in which it was opened.
    refine (h.advance .epsilon true).move rfl (h.advance .epsilon true).current_lt ?_
    intro s hs
    rcases List.mem_cons.1 hs with rfl | hs
    · exact Nat.lt_trans h.current_lt (hsize _ _)
    · exact Nat.lt_trans (h.groups_lt s hs) (hsize _ _)
  · exact h.move rfl h.entry_lt fun s hs => h.groups_lt s (List.mem_of_mem_tail hs)
  · exact h.advance _ _
  · refine (h.link h.entry_lt _ h.current_lt).link ?_ _ ?_
    · simpa using h.current_lt
    · simpa using h.entry_lt
  · exact h.link h.current_lt _ h.entry_lt
  · exact h.link h.entry_lt _ h.current_lt
  · exact (h.advance _ _).move rfl (h.advance _ _).current_lt (h.advance _ _).groups_lt
  · exact h.move rfl h.current_lt h.groups_lt
  · exact h.advance _ _

theorem Sound.endClass {d : Draft} (h : d.Sound) (negated : Bool) : (d.endClass negated).Sound := by
  unfold Draft.endClass
  split
  · exact (h.sprout _ _).move rfl (h.sprout _ _).current_lt (h.sprout _ _).groups_lt
  · exact h.move rfl h.current_lt h.groups_lt

theorem Sound.readMember {d : Draft} (h : d.Sound) (negated : Bool) (c : Char) :
    (d.readMember negated c).Sound := by
  unfold Draft.readMember
  split
  · exact (h.endClass negated).readPlain c
  · exact (h.sprout _ _).move rfl (h.sprout _ _).current_lt (h.sprout _ _).groups_lt

theorem Sound.interpret {d : Draft} (h : d.Sound) (c : Char) : (d.interpret c).Sound := by
  unfold Draft.interpret
  split
  · exact h.readPlain c
  · exact (h.sprout _ _).move rfl (h.sprout _ _).current_lt (h.sprout _ _).groups_lt
  · split
    · exact h.move rfl h.current_lt h.groups_lt
    · exact h.readMember _ c
  · exact h.readMember _ c

theorem Sound.read {d : Draft} (h : d.Sound) (c : Char) : (d.read c).Sound :=
  (h.interpret c).move rfl (h.interpret c).current_lt (h.interpret c).groups_lt

theorem Sound.readAll {d : Draft} (h : d.Sound) (cs : List Char) : (d.readAll cs).Sound := by
  induction cs generalizing d with
  | nil => exact h
  | cons c cs ih => exact ih (h.read c)

/-- The states at the end of the pattern are those of a sound draft. -/
theorem Sound.finish {d : Draft} (h : d.Sound) {states : Array State}
    (hfinish : d.finish = .ok states) : ∃ e : Draft, e.Sound ∧ e.states = states := by
  unfold Draft.finish at hfinish
  split at hfinish
  · exact ⟨d, h, Except.ok.inj hfinish⟩
  · cases hfinish
  · exact ⟨_, h.endClass false, Except.ok.inj hfinish⟩
  · exact ⟨_, h.endClass _, Except.ok.inj hfinish⟩

end Draft

/-! ## The automaton of a pattern -/

section

variable {pattern : String} {simulation : Simulation} {a : Automaton}

/-- What a pattern compiles to is the draft at its end, with the root for a start. -/
theorem compile_eq_ok :
    compile pattern simulation = .ok a
      ↔ (Draft.fresh.readAll pattern.toList).finish = .ok a.states
        ∧ a.start = Draft.root ∧ a.simulation = simulation :=
  Builder.build_eq_ok

theorem compile_sound (h : compile pattern simulation = .ok a) :
    ∃ d : Draft, d.Sound ∧ d.states = a.states :=
  (Draft.sound_fresh.readAll pattern.toList).finish (compile_eq_ok.1 h).1

/-- The targets of an automaton depend on nothing but its states. -/
theorem Automaton.targets_of_states {a b : Automaton} (h : a.states = b.states) :
    a.targets = b.targets := by
  funext s x
  simp only [Automaton.targets, h]

theorem compile_inRange (h : compile pattern simulation = .ok a) : a.InRange := by
  obtain ⟨d, hd, hstates⟩ := compile_sound h
  have hsize : a.size = d.states.size := congrArg Array.size hstates.symm
  refine ⟨?_, ?_⟩
  · rw [(compile_eq_ok.1 h).2.1, hsize]
    exact hd.root_lt
  · intro s x t ht
    rw [← Automaton.targets_of_states (a := d.automaton) hstates] at ht
    exact hsize ▸ hd.target_lt ht

/-- Every state of the automaton of a pattern can be reached. -/
theorem compile_reaches (h : compile pattern simulation = .ok a) {q : Nat} (hq : q < a.size) :
    a.Reaches a.start q := by
  obtain ⟨d, hd, hstates⟩ := compile_sound h
  have hsize : a.size = d.states.size := congrArg Array.size hstates.symm
  have hsame : d.automaton.Adjacent = a.Adjacent := by
    unfold Automaton.Adjacent
    rw [Automaton.targets_of_states (a := d.automaton) hstates]
  unfold Automaton.Reaches
  rw [← hsame, (compile_eq_ok.1 h).2.1]
  exact hd.reached q (hsize ▸ hq)

/-- A pattern compiles to the same states under either simulation. -/
theorem compile_other (h : compile pattern simulation = .ok a) (other : Simulation) :
    compile pattern other = .ok { a with simulation := other } := by
  obtain ⟨hfinish, hstart, -⟩ := compile_eq_ok.1 h
  exact compile_eq_ok.2 ⟨hfinish, hstart, rfl⟩

end

end PatternNFA
