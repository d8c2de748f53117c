-- The two simulations side by side. Each leaves in the frontier the ends of the
-- walks that spell the input, and they differ in what a walk spells: an epsilon
-- edge is free in the one, and takes a character in the other. So the one does
-- on an input what the other does on an input with more characters.
import PatternNFA.Proofs.ClosureRuns
import PatternNFA.Proofs.HopRuns

namespace PatternNFA

/-! ## What a walk spells -/

/-- A run may follow the edges while it reads the characters: one hop takes an edge for each of
them, and a closure takes an edge for each letter that the edges bear. -/
def Simulation.Spells : Simulation → List Edge → List Char → Prop
  | .singleHop, es, cs => List.Forall₂ Edge.Takes es cs
  | .closure, es, cs => letters es = cs

/-- Two walks that bear the same symbols, edge by edge. -/
def Alike (es fs : List Edge) : Prop := List.Forall₂ (fun e f => e.symbol = f.symbol) es fs

theorem Alike.letters_eq {es fs : List Edge} (h : Alike es fs) : letters es = letters fs := by
  induction h with
  | nil => rfl
  | @cons e f es fs hsymbol _ ih =>
    cases he : e.symbol with
    | char c =>
      rw [letters_cons_char he, letters_cons_char (hsymbol ▸ he), ih]
    | epsilon =>
      rw [letters_cons_epsilon he, letters_cons_epsilon (hsymbol ▸ he), ih]

theorem Alike.takes {es fs : List Edge} (h : Alike es fs) {cs : List Char}
    (htakes : List.Forall₂ Edge.Takes es cs) : List.Forall₂ Edge.Takes fs cs := by
  induction h generalizing cs with
  | nil => exact htakes
  | cons hsymbol _ ih =>
    cases htakes with
    | cons htake htakes =>
      unfold Edge.Takes at htake
      rw [hsymbol] at htake
      exact .cons htake (ih htakes)

/-- Of the edges, only the symbols matter. -/
theorem Simulation.Spells.of_alike {simulation : Simulation} {es fs : List Edge}
    {cs : List Char} (h : simulation.Spells es cs) (halike : Alike es fs) :
    simulation.Spells fs cs := by
  cases simulation with
  | singleHop => exact halike.takes h
  | closure => exact halike.letters_eq.symm.trans h

namespace Matcher

variable {a : Automaton}

/-- After any input, the frontier holds the ends of the walks from the start that spell it. -/
theorem mem_frontier_iff (hrange : a.InRange) (scratch : Scratch) (cs : List Char) (q : Nat) :
    q ∈ ((start a scratch).run cs).frontier
      ↔ ∃ es, a.Walk a.start es q ∧ a.simulation.Spells es cs := by
  cases h : a.simulation with
  | closure => exact mem_frontier_run_start hrange h scratch cs q
  | singleHop =>
    rw [frontier_run_start_singleHop h, List.mem_map]
    constructor
    · rintro ⟨⟨es, t⟩, hmem, rfl⟩
      exact ⟨es, Automaton.mem_walksOver.1 hmem⟩
    · rintro ⟨es, hwalk⟩
      exact ⟨(es, q), Automaton.mem_walksOver.2 hwalk, rfl⟩

end Matcher

/-! ## Padding an input -/

/-- The second word is the first one with copies of a filler put in. -/
inductive Padded (z : Char) : List Char → List Char → Prop
  | nil : Padded z [] []
  | keep (c : Char) {cs ds : List Char} : Padded z cs ds → Padded z (c :: cs) (c :: ds)
  | fill {cs ds : List Char} : Padded z cs ds → Padded z cs (z :: ds)

/-- A character for each edge: its letter, or the filler if it reads none. -/
def padding (z : Char) (es : List Edge) : List Char := es.map fun e => e.letter?.getD z

theorem padding_cons_char {e : Edge} {c : Char} (h : e.symbol = .char c) (z : Char)
    (es : List Edge) : padding z (e :: es) = c :: padding z es := by
  simp [padding, Edge.letter?, h]

theorem padding_cons_epsilon {e : Edge} (h : e.symbol = .epsilon) (z : Char) (es : List Edge) :
    padding z (e :: es) = z :: padding z es := by
  simp [padding, Edge.letter?, h]

theorem padded_padding (z : Char) (es : List Edge) : Padded z (letters es) (padding z es) := by
  induction es with
  | nil => exact .nil
  | cons e es ih =>
    cases hsymbol : e.symbol with
    | char c =>
      rw [letters_cons_char hsymbol, padding_cons_char hsymbol]
      exact .keep c ih
    | epsilon =>
      rw [letters_cons_epsilon hsymbol, padding_cons_epsilon hsymbol]
      exact .fill ih

/-- One hop can follow the edges over the padded word. -/
theorem takes_padding (z : Char) (es : List Edge) :
    List.Forall₂ Edge.Takes es (padding z es) := by
  induction es with
  | nil => exact .nil
  | cons e es ih =>
    cases hsymbol : e.symbol with
    | char c =>
      rw [padding_cons_char hsymbol]
      exact .cons (Or.inl hsymbol) ih
    | epsilon =>
      rw [padding_cons_epsilon hsymbol]
      exact .cons (Or.inr hsymbol) ih

/-- The characters that the epsilon edges have taken are left out. -/
theorem letters_sublist {es : List Edge} {cs : List Char} (h : List.Forall₂ Edge.Takes es cs) :
    (letters es).Sublist cs := by
  induction h with
  | nil => exact .slnil
  | @cons e c es cs htakes _ ih =>
    rcases htakes with hsymbol | hsymbol
    · rw [letters_cons_char hsymbol]
      exact .cons_cons c ih
    · rw [letters_cons_epsilon hsymbol]
      exact .cons c ih

/-! ## The law -/

/-- A state that a closure run stands in after an input, a single hop run stands in after some
padded form of it, whatever the filler. A state that a single hop run stands in after an input, a
closure run stands in after what is left of the input when some characters are dropped. -/
theorem the_simulations_agree_up_to_padding {pattern : String} {a b : Automaton}
    (ha : compile pattern .closure = .ok a) (hb : compile pattern .singleHop = .ok b)
    (q : Nat) (input : List Char) (z : Char) :
    (q ∈ ((Matcher.start a).run input).frontier →
      ∃ padded, Padded z input padded ∧ q ∈ ((Matcher.start b).run padded).frontier)
    ∧ (q ∈ ((Matcher.start b).run input).frontier →
      ∃ thinned : List Char, thinned.Sublist input
        ∧ q ∈ ((Matcher.start a).run thinned).frontier) := by
  obtain ⟨hafinish, hastart, hclosure⟩ := compile_eq_ok.1 ha
  obtain ⟨hbfinish, hbstart, hsingle⟩ := compile_eq_ok.1 hb
  have hstates : a.states = b.states := Except.ok.inj (hafinish.symm.trans hbfinish)
  have hstart : a.start = b.start := hastart.trans hbstart.symm
  have hmema := Matcher.mem_frontier_iff (compile_inRange ha) {}
  have hmemb := Matcher.mem_frontier_iff (compile_inRange hb) {}
  refine ⟨?_, ?_⟩
  · intro hq
    obtain ⟨es, hwalk, hspells⟩ := (hmema input q).1 hq
    rw [hclosure] at hspells
    obtain rfl : letters es = input := hspells
    refine ⟨padding z es, padded_padding z es, (hmemb _ q).2 ⟨es, ?_, ?_⟩⟩
    · exact hstart ▸ hwalk.of_states hstates
    · rw [hsingle]
      exact takes_padding z es
  · intro hq
    obtain ⟨es, hwalk, hspells⟩ := (hmemb input q).1 hq
    rw [hsingle] at hspells
    refine ⟨letters es, letters_sublist hspells, (hmema _ q).2 ⟨es, ?_, ?_⟩⟩
    · exact hstart ▸ hwalk.of_states hstates.symm
    · rw [hclosure]
      rfl

/-- On its way to state 4 a closure run takes two epsilon edges for nothing. A single hop run over
the same two letters does not get there, and over a padded form of them it does. -/
theorem a_padded_input_pays_for_the_epsilon_edges :
    ∃ a b, compile "(a|b)*" .closure = .ok a ∧ compile "(a|b)*" .singleHop = .ok b
      ∧ 4 ∉ ((Matcher.start b).run ['a', 'b']).frontier
      ∧ ∃ padded, Padded '-' ['a', 'b'] padded
        ∧ 4 ∈ ((Matcher.start b).run padded).frontier := by
  have ha : compile "(a|b)*" .closure = .ok _ := rfl
  have hb : compile "(a|b)*" .singleHop = .ok _ := rfl
  have hlaw := the_simulations_agree_up_to_padding ha hb 4 ['a', 'b'] '-'
  exact ⟨_, _, ha, hb, by decide +kernel, hlaw.1 (by decide +kernel)⟩

end PatternNFA
