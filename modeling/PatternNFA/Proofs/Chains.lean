-- Patterns of bars, open groups and literals. Such a pattern is laid as a chain: each state has one
-- edge, to the next state, and it is drawn for the character that has the number of the state as
-- its place in the pattern. A bar and an open group draw an epsilon edge, which takes any character
-- in a single hop and none in a closure.
import PatternNFA.Proofs.Acceptance
import PatternNFA.Proofs.Blueprints

namespace PatternNFA

/-! ## The word of a state -/

/-- Each state has a word, and what an edge reads is added to it. -/
structure Automaton.Labelled (a : Automaton) (word : Nat → List Char) : Prop where
  word_start : word a.start = []
  word_target : ∀ {s e}, a.HasEdge s e → word e.target = word s ++ letters [e]

namespace Automaton

variable {a : Automaton} {word : Nat → List Char}

theorem Labelled.word_eq (h : a.Labelled word) {s q : Nat} {es : List Edge}
    (hwalk : a.Walk s es q) : word q = word s ++ letters es := by
  induction hwalk with
  | stay s => exact (List.append_nil _).symm
  | @go s q e es he _ ih =>
    rw [ih, h.word_target he, List.append_assoc, ← letters_append, List.singleton_append]

/-- A closure run accepts the words of the states. -/
theorem Labelled.isMatch_iff (h : a.Labelled word) {pattern : String}
    (hcompile : compile pattern .closure = .ok a) {input : String} :
    a.isMatch input = true ↔ ∃ q < a.size, word q = input.toList := by
  rw [compile_isMatch_closure hcompile]
  constructor
  · rintro ⟨es, q, hwalk, hes⟩
    have hrange := compile_inRange hcompile
    refine ⟨q, hrange.lt_size_of_walk hrange.start_lt hwalk, ?_⟩
    rw [h.word_eq hwalk, h.word_start, List.nil_append, hes]
  · rintro ⟨q, hq, hword⟩
    obtain ⟨es, hwalk⟩ := (compile_reaches hcompile hq).exists_walk
    refine ⟨es, q, hwalk, ?_⟩
    rw [← hword, h.word_eq hwalk, h.word_start, List.nil_append]

end Automaton

/-! ## Laying a chain -/

/-- What the edge of a character reads. -/
def rung (c : Char) : Symbol := if c = '|' ∨ c = '(' then .epsilon else .char c

/-- The characters that a closure has to read. -/
def solid (cs : List Char) : List Char := cs.filter fun c => c ≠ '|' ∧ c ≠ '('

/-- The characters that are not those of a chain. -/
def offChain : List Char := [')', '?', '+', '*', '[', '\\']

/-- The states stand in a row, each with an edge to the next one. -/
structure Construction.Chain (k : Construction) (cs : List Char) : Prop where
  current_eq : k.current = cs.length
  flags_eq : k.blueprint.flags = List.replicate (cs.length + 1) true
  log_eq : ∀ s, k.blueprint.log s = (cs[s]?.map fun c => (rung c, s + 1)).toList

namespace Construction

variable {k : Construction} {cs : List Char} {c : Char}

theorem lay_rung (hc : c ∉ offChain) (k : Construction) :
    (k.lay (.ofChar c)).blueprint = k.blueprint.grow k.current (rung c) true
    ∧ (k.lay (.ofChar c)).current = k.blueprint.size := by
  unfold Token.ofChar
  split
  · exact ⟨rfl, rfl⟩
  · exact absurd (by decide) hc
  · exact ⟨rfl, rfl⟩
  · exact absurd (by decide) hc
  · exact absurd (by decide) hc
  · exact absurd (by decide) hc
  · have hliteral : rung c = .char c := if_neg (by simp_all)
    rw [hliteral]
    exact ⟨rfl, rfl⟩

theorem Chain.size_eq (h : k.Chain cs) : k.blueprint.size = cs.length + 1 := by
  rw [Blueprint.size, h.flags_eq, List.length_replicate]

theorem Chain.lay (h : k.Chain cs) (hc : c ∉ offChain) :
    (k.lay (.ofChar c)).Chain (cs ++ [c]) := by
  obtain ⟨hblueprint, hcurrent⟩ := lay_rung hc k
  refine ⟨?_, ?_, ?_⟩
  · rw [hcurrent, h.size_eq, List.length_append, List.length_singleton]
  · rw [hblueprint, List.length_append, List.length_singleton, List.replicate_succ', ← h.flags_eq]
    rfl
  · intro s
    -- The last state of the chain gets its edge, and the new one has none.
    rw [hblueprint, Blueprint.grow, h.size_eq, h.current_eq]
    rcases Nat.lt_trichotomy s cs.length with hlt | rfl | hgt
    · rw [Blueprint.log_join_of_ne _ (Nat.ne_of_lt hlt), List.getElem?_append_left hlt]
      exact h.log_eq s
    · have hnone : (k.blueprint.add true).log cs.length = [] := by
        rw [Blueprint.add, h.log_eq, List.getElem?_eq_none (Nat.le_refl _)]
        rfl
      rw [Blueprint.log_join_self, hnone, List.getElem?_concat_length]
      rfl
    · rw [Blueprint.log_join_of_ne _ (Nat.ne_of_gt hgt), Blueprint.add, h.log_eq,
        List.getElem?_eq_none (Nat.le_of_lt hgt), List.getElem?_eq_none]
      rw [List.length_append, List.length_singleton]
      exact hgt

theorem chain_ofTokens (hcs : ∀ c ∈ cs, c ∉ offChain) : (ofTokens (cs.map .ofChar)).Chain cs := by
  induction cs using List.reverseRecOn with
  | nil =>
    refine ⟨rfl, rfl, fun s => ?_⟩
    rw [List.getElem?_nil]
    rfl
  | append_singleton cs c ih =>
    have hfirst := ih fun d hd => hcs d (List.mem_append_left _ hd)
    have hlast : c ∉ offChain := hcs c (List.mem_append_right _ (List.mem_singleton_self c))
    have hlaid := hfirst.lay hlast
    rw [ofTokens, List.map_append, List.foldl_append]
    exact hlaid

end Construction

/-! ## The automaton of a chain -/

/-- All states accept, and each but the last has one edge, to the next one. -/
structure Automaton.IsChain (a : Automaton) (cs : List Char) : Prop where
  start_eq : a.start = 0
  size_eq : a.size = cs.length + 1
  accepts : ∀ s ≤ cs.length, a.isAccepting s = true
  targets_eq : ∀ s x, a.targets s x = if cs[s]?.map rung = some x then [s + 1] else []

theorem exists_compile_of_chain {pattern : String} (h : ∀ c ∈ pattern.toList, c ∉ offChain)
    (simulation : Simulation) :
    ∃ a, compile pattern simulation = .ok a ∧ a.IsChain pattern.toList := by
  have htokens : tokens pattern.toList = some (pattern.toList.map .ofChar) := by
    apply tokens_eq_map
    intro c hc
    refine ⟨?_, ?_⟩
    · rintro rfl
      exact h _ hc (by decide)
    · rintro rfl
      exact h _ hc (by decide)
  obtain ⟨a, ha, hshows⟩ := exists_compile_of_tokens htokens simulation
  have hchain := Construction.chain_ofTokens h
  refine ⟨a, ha, (compile_eq_ok.1 ha).2.1, ?_, ?_, ?_⟩
  · rw [hshows.automaton_size, hchain.size_eq]
  · intro s hs
    have hlt := Nat.lt_succ_of_le hs
    rw [hshows.isAccepting_eq, hchain.flags_eq, List.getElem?_replicate_of_lt hlt]
    rfl
  · intro s x
    rw [hshows.targets_eq, hchain.log_eq]
    cases pattern.toList[s]? with
    | none => rfl
    | some d => by_cases hd : rung d = x <;> simp [hd]

/-! ## Single hops on a chain -/

/-- The character of the pattern lets the character of the input pass: it is a bar or an open group,
or it is the same. -/
def Admits (d c : Char) : Prop := d = '|' ∨ d = '(' ∨ d = c

/-- At each place of the input the pattern has a character that lets the one of the input pass. -/
def Fits (cs input : List Char) : Prop :=
  ∀ (i : Nat) c, input[i]? = some c → ∃ d, cs[i]? = some d ∧ Admits d c

theorem fits_concat {cs input : List Char} {c : Char} :
    Fits cs (input ++ [c]) ↔ Fits cs input ∧ ∃ d, cs[input.length]? = some d ∧ Admits d c := by
  constructor
  · intro h
    refine ⟨fun i x hx => h i x ?_, h input.length c List.getElem?_concat_length⟩
    obtain ⟨hlt, -⟩ := List.getElem?_eq_some_iff.1 hx
    rw [List.getElem?_append_left hlt]
    exact hx
  · rintro ⟨hinput, hlast⟩ i x hx
    rcases Nat.lt_trichotomy i input.length with hlt | rfl | hgt
    · rw [List.getElem?_append_left hlt] at hx
      exact hinput i x hx
    · rw [List.getElem?_concat_length] at hx
      obtain rfl := Option.some.inj hx
      exact hlast
    · rw [List.getElem?_eq_none] at hx
      · cases hx
      · rw [List.length_append, List.length_singleton]
        exact hgt

theorem Fits.length_le {cs input : List Char} (h : Fits cs input) : input.length ≤ cs.length := by
  cases input using List.reverseRecOn with
  | nil => exact Nat.zero_le _
  | append_singleton input c =>
    obtain ⟨-, d, hd, -⟩ := fits_concat.1 h
    obtain ⟨hlt, -⟩ := List.getElem?_eq_some_iff.1 hd
    rw [List.length_append, List.length_singleton]
    exact hlt

namespace Automaton

variable {a : Automaton} {cs : List Char}

theorem IsChain.hopTargets_of_admits (h : a.IsChain cs) {s : Nat} {c d : Char}
    (hd : cs[s]? = some d) (hadmits : Admits d c) : a.hopTargets c s = [s + 1] := by
  rw [hopTargets, h.targets_eq, h.targets_eq, hd, Option.map_some]
  by_cases hwild : d = '|' ∨ d = '('
  · have hrung : rung d = .epsilon := if_pos hwild
    rw [hrung, if_neg (by simp), if_pos rfl, List.nil_append]
  · have hrung : rung d = .char c := by
      rw [rung, if_neg hwild, (or_assoc.2 hadmits).resolve_left hwild]
    rw [hrung, if_pos rfl, if_neg (by simp), List.append_nil]

theorem IsChain.hopTargets_of_not_admits (h : a.IsChain cs) {s : Nat} {c : Char}
    (hnone : ¬ ∃ d, cs[s]? = some d ∧ Admits d c) : a.hopTargets c s = [] := by
  have hno : ∀ x, x = .char c ∨ x = .epsilon → cs[s]?.map rung ≠ some x := by
    intro x hx hmap
    obtain ⟨d, hd, hrung⟩ := Option.map_eq_some_iff.1 hmap
    apply hnone
    refine ⟨d, hd, ?_⟩
    by_contra hadmits
    rw [Admits, ← or_assoc, not_or] at hadmits
    rw [rung, if_neg hadmits.1] at hrung
    rcases hx with rfl | rfl
    · exact hadmits.2 (Symbol.char.inj hrung)
    · cases hrung
  rw [hopTargets, h.targets_eq, h.targets_eq, if_neg (hno _ (Or.inl rfl)),
    if_neg (hno _ (Or.inr rfl)), List.nil_append]

/-- A run has gone as far as the input is long, or it is dead. -/
theorem IsChain.frontier_run (h : a.IsChain cs) (hsingle : a.simulation = .singleHop)
    (input : List Char) :
    (Fits cs input ∧ ((Matcher.start a).run input).frontier = [input.length])
    ∨ (¬ Fits cs input ∧ ((Matcher.start a).run input).frontier = []) := by
  induction input using List.reverseRecOn with
  | nil =>
    have hfits : Fits cs [] := fun i c hc => by simp at hc
    refine Or.inl ⟨hfits, ?_⟩
    rw [Matcher.run_nil, Matcher.frontier_start_singleHop hsingle, h.start_eq]
    rfl
  | append_singleton input c ih =>
    rw [Matcher.run_append, Matcher.run_cons, Matcher.run_nil,
      Matcher.frontier_step_singleHop (by simpa using hsingle), Matcher.automaton_run,
      Matcher.automaton_start, fits_concat, List.length_append, List.length_singleton]
    rcases ih with ⟨hfits, hfrontier⟩ | ⟨hnot, hfrontier⟩
    · rw [hfrontier, List.flatMap_singleton]
      by_cases hlast : ∃ d, cs[input.length]? = some d ∧ Admits d c
      · obtain ⟨d, hd, hadmits⟩ := hlast
        exact Or.inl ⟨⟨hfits, d, hd, hadmits⟩, h.hopTargets_of_admits hd hadmits⟩
      · exact Or.inr ⟨fun hboth => hlast hboth.2, h.hopTargets_of_not_admits hlast⟩
    · rw [hfrontier]
      exact Or.inr ⟨fun hboth => hnot hboth.1, rfl⟩

/-! ## Closures on a chain -/

theorem IsChain.labelled (h : a.IsChain cs) : a.Labelled fun s => solid (cs.take s) := by
  refine ⟨?_, ?_⟩
  · rw [h.start_eq]
    rfl
  · intro s e he
    have ht := he.mem_targets
    rw [h.targets_eq, List.mem_ite_nil_right, List.mem_singleton] at ht
    obtain ⟨hrung, htarget⟩ := ht
    obtain ⟨d, hd, hsymbol⟩ := Option.map_eq_some_iff.1 hrung
    have hletter : solid [d] = letters [e] := by
      by_cases hwild : d = '|' ∨ d = '('
      · rw [rung, if_pos hwild] at hsymbol
        rw [letters_cons_epsilon hsymbol.symm, solid, List.filter_singleton]
        simp [not_or.symm, hwild]
      · rw [rung, if_neg hwild] at hsymbol
        rw [letters_cons_char hsymbol.symm, solid, List.filter_singleton]
        simp [not_or.1 hwild]
    rw [htarget, List.take_add_one, hd, ← hletter, solid, List.filter_append]
    rfl

end Automaton

/-! ## The law -/

/-- A bar and an open group let any character pass under single hops, and are not there for a
closure. Take a pattern of these two and of literals. A single hop run accepts an input that is no
longer than the pattern if at each place the pattern has one of the two or the character of the
input. It then stands in the state that has the length of the input as its number, and otherwise it
is dead. A closure run accepts the prefixes of what the pattern is without the two. -/
theorem a_bar_passes_any_character_or_none {pattern : String}
    (h : ∀ c ∈ pattern.toList, c ∉ offChain) :
    (∃ a, compile pattern .singleHop = .ok a ∧ ∀ input : String,
      (a.isMatch input = true
        ↔ input.length ≤ pattern.length ∧ Fits pattern.toList input.toList)
      ∧ ((Matcher.start a).run input.toList).frontier
        = if a.isMatch input then [input.length] else [])
    ∧ ∃ b, compile pattern .closure = .ok b ∧ ∀ input : String,
      (b.isMatch input = true ↔ input.toList <+: solid pattern.toList) := by
  refine ⟨?_, ?_⟩
  · obtain ⟨a, ha, hchain⟩ := exists_compile_of_chain h .singleHop
    have hsingle : a.simulation = .singleHop := (compile_eq_ok.1 ha).2.2
    refine ⟨a, ha, fun input => ?_⟩
    rcases hchain.frontier_run hsingle input.toList with ⟨hfits, hfrontier⟩ | ⟨hnot, hfrontier⟩
    · have hlength := hfits.length_le
      have hmatch : a.isMatch input = true := by
        rw [Automaton.isMatch_iff, hfrontier]
        exact ⟨_, List.mem_singleton_self _, hchain.accepts _ hlength⟩
      rw [hmatch, hfrontier, if_pos rfl, String.length_toList]
      exact ⟨⟨fun _ => ⟨hlength, hfits⟩, fun _ => rfl⟩, rfl⟩
    · have hmatch : ¬ a.isMatch input = true := by
        rw [Automaton.isMatch_iff, hfrontier]
        rintro ⟨q, hq, -⟩
        cases hq
      rw [hfrontier, if_neg hmatch]
      exact ⟨⟨fun hyes => absurd hyes hmatch, fun hfits => absurd hfits.2 hnot⟩, rfl⟩
  · obtain ⟨b, hb, hchain⟩ := exists_compile_of_chain h .closure
    refine ⟨b, hb, fun input => ?_⟩
    rw [hchain.labelled.isMatch_iff hb, solid, List.prefix_filter_iff]
    constructor
    · rintro ⟨q, -, hword⟩
      exact ⟨pattern.toList.take q, List.take_prefix q _, hword.symm⟩
    · rintro ⟨before, hbefore, hinput⟩
      refine ⟨before.length, ?_, ?_⟩
      · rw [hchain.size_eq]
        exact Nat.lt_succ_of_le hbefore.length_le
      · rw [← List.prefix_iff_eq_take.1 hbefore]
        exact hinput.symm

/-- The input of the one simulation is refused by the other. -/
theorem a_bar_is_passed_and_skipped :
    (∃ a, compile "(a||b^" .singleHop = .ok a ∧ Fits "(a||b^".toList "xa-+b".toList
      ∧ ((Matcher.start a).run "xa-+b".toList).frontier = [5] ∧ a.isMatch "ab" = false)
    ∧ ∃ b, compile "(a||b^" .closure = .ok b ∧ b.isMatch "ab" = true
      ∧ b.isMatch "xa-+b" = false := by
  obtain ⟨⟨a, ha, hhops⟩, b, hb, hclosure⟩ :=
    @a_bar_passes_any_character_or_none "(a||b^" (by simp [offChain])
  refine ⟨⟨a, ha, ?_⟩, b, hb, ?_⟩
  · have hshape : compile "(a||b^" .singleHop = .ok _ := rfl
    obtain rfl := Except.ok.inj (hshape.symm.trans ha)
    obtain ⟨hmatch, hfrontier⟩ := hhops "xa-+b"
    have haccepts := hmatch.1 (by decide +kernel)
    rw [if_pos (hmatch.2 haccepts)] at hfrontier
    exact ⟨haccepts.2, hfrontier, by decide +kernel⟩
  · refine ⟨(hclosure "ab").2 (by decide), ?_⟩
    rw [Bool.eq_false_iff, Ne, hclosure]
    decide

end PatternNFA
