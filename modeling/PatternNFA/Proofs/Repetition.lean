-- What a pattern without `+` and `?` can repeat. A `*` ties the entry of a group to a later state,
-- so it lets a run skip something and never lets it come back. The edges all lead upwards, and no
-- input as long as the automaton has states is accepted. The one exception is a `*` at the root,
-- which ties the root to itself: there a single hop run waits for ever.
import PatternNFA.Proofs.Acceptance
import PatternNFA.Proofs.Origins
import PatternNFA.Proofs.Quantifiers

namespace PatternNFA

/-! ## Edges that lead upwards -/

namespace Automaton

variable {a : Automaton}

/-- A walk climbs by a state for each edge. -/
theorem Walk.add_length_le (hup : ∀ {s x t}, t ∈ a.targets s x → s < t) {s q : Nat}
    {es : List Edge} (hwalk : a.Walk s es q) : s + es.length ≤ q := by
  induction hwalk with
  | stay s => exact Nat.le_refl s
  | @go s q e es he _ ih =>
    have hlt := hup he.mem_targets
    rw [List.length_cons]
    omega

/-- Where epsilon edges do not lead down, a walk climbs by a state for each letter. -/
theorem Walk.add_length_letters_le
    (hup : ∀ {s x t}, t ∈ a.targets s x → s < t ∨ (x = .epsilon ∧ s = t)) {s q : Nat}
    {es : List Edge} (hwalk : a.Walk s es q) : s + (letters es).length ≤ q := by
  induction hwalk with
  | stay s => exact Nat.le_refl s
  | @go s q e es he _ ih =>
    have hcases := hup he.mem_targets
    cases hsymbol : e.symbol with
    | char c =>
      have hlt := hcases.resolve_right fun hloop => Symbol.noConfusion (hsymbol.symm.trans hloop.1)
      rw [letters_cons_char hsymbol, List.length_cons]
      omega
    | epsilon =>
      rw [letters_cons_epsilon hsymbol]
      omega

/-- No input is accepted that is too long for a walk to spell within the states. -/
theorem isMatch_eq_false (hrange : a.InRange) {input : String} (hlong : a.size ≤ input.length)
    (hfar : ∀ {es q}, a.Walk a.start es q → a.simulation.Spells es input.toList →
      input.length ≤ q) : a.isMatch input = false := by
  rw [← Bool.not_eq_true, isMatch_iff_exists_walk hrange]
  rintro ⟨es, q, hwalk, hspells, haccepting⟩
  have hlt := lt_size_of_isAccepting haccepting
  have hle := hfar hwalk hspells
  omega

/-- Where the start leads to itself over an epsilon edge, a single hop run may stay there. -/
theorem exists_walk_of_loop (hloop : a.start ∈ a.targets a.start .epsilon) (cs : List Char) :
    ∃ es, a.Walk a.start es a.start ∧ List.Forall₂ Edge.Takes es cs := by
  obtain ⟨e, he, hsymbol, htarget⟩ := exists_hasEdge hloop
  induction cs with
  | nil => exact ⟨[], .stay a.start, .nil⟩
  | cons c cs ih =>
    obtain ⟨es, hwalk, htakes⟩ := ih
    exact ⟨e :: es, .go he (htarget.symm ▸ hwalk), .cons (Or.inr hsymbol) htakes⟩

theorem isMatch_of_loop (hrange : a.InRange) (hsimulation : a.simulation = .singleHop)
    (hloop : a.start ∈ a.targets a.start .epsilon) (haccepting : a.isAccepting a.start = true)
    (input : String) : a.isMatch input = true := by
  obtain ⟨es, hwalk, htakes⟩ := exists_walk_of_loop hloop input.toList
  have hspells : a.simulation.Spells es input.toList := by
    rw [hsimulation]
    exact htakes
  exact (isMatch_iff_exists_walk hrange).2 ⟨es, a.start, hwalk, hspells, haccepting⟩

end Automaton

/-! ## The root -/

namespace Draft

/-- A `*` is read while the root is the current state. -/
def StarsRoot (cs : List Char) : Prop :=
  ∃ before, Occurs '*' cs before ∧ (fresh.readAll before).current = root

/-- A quantifier ties the root to itself where the root is both the current state and the entry. -/
theorem mem_targets_root {cs before : List Char} {c : Char} (hoccurs : Occurs c cs before)
    (hc : c ∈ ['?', '+', '*']) (hcurrent : (fresh.readAll before).current = root) :
    root ∈ (fresh.readAll cs).automaton.targets root .epsilon := by
  obtain ⟨⟨after, rfl⟩, houtside⟩ := hoccurs
  have hsound := sound_fresh.readAll before
  have hentry := (nested_readAll before).entry_eq_root hcurrent
  have htied := hsound.tied_read ((mode_readAll_iff before).2 houtside) hc
  have hties : (fresh.readAll before).Ties [c] root .epsilon root := by
    rcases ties_cases hc with hforth | hback
    · exact Or.inl ⟨hforth, hentry.symm, rfl, hcurrent.symm⟩
    · exact Or.inr ⟨hback, hcurrent.symm, rfl, hentry.symm⟩
  rw [readAll_append, readAll_cons]
  exact ((hsound.read c).embeds_readAll after).mem_targets (htied.mem_targets.2 (Or.inr hties))

theorem StarsRoot.mem_targets {cs : List Char} (h : StarsRoot cs) :
    root ∈ (fresh.readAll cs).automaton.targets root .epsilon := by
  obtain ⟨before, hoccurs, hcurrent⟩ := h
  exact mem_targets_root hoccurs (by decide) hcurrent

end Draft

section

variable {pattern : String} {simulation : Simulation} {a : Automaton}

/-- Without `+` and `?`, an edge leads upwards, or it is the loop of a `*` at the root. -/
theorem compile_climbs (h : compile pattern simulation = .ok a)
    (hplus : ∀ before, ¬ Occurs '+' pattern.toList before)
    (hoptional : ∀ before, ¬ Occurs '?' pattern.toList before) {s t : Nat} {x : Symbol}
    (ht : t ∈ a.targets s x) :
    s < t ∨ ((x = .epsilon ∧ s = t) ∧ Draft.StarsRoot pattern.toList) := by
  by_cases hback : t ≤ s
  · obtain ⟨hepsilon, c, before, hoccurs, hc, hcurrent, -⟩ := compile_tiedBack h ht hback
    rcases hc with rfl | rfl | ⟨rfl, hs⟩
    · exact absurd hoccurs (hplus before)
    · exact absurd hoccurs (hoptional before)
    · have ht : t = s := Nat.le_antisymm hback (hs ▸ Nat.zero_le t)
      exact Or.inr ⟨⟨hepsilon, ht.symm⟩, before, hoccurs, hcurrent.trans hs⟩
  · exact Or.inl (Nat.lt_of_not_le hback)

/-- A root that has been tied to itself stays so to the end of the pattern. -/
theorem compile_loop (h : compile pattern simulation = .ok a)
    (hloop : Draft.root ∈
      (Draft.fresh.readAll pattern.toList).automaton.targets Draft.root .epsilon) :
    a.start ∈ a.targets a.start .epsilon := by
  have hsound := Draft.sound_fresh.readAll pattern.toList
  rw [compile_eq_settle h]
  exact hsound.thrives_settle.embeds.mem_targets hloop

theorem compile_mem_targets_start (h : compile pattern simulation = .ok a)
    (hstar : Draft.StarsRoot pattern.toList) : a.start ∈ a.targets a.start .epsilon :=
  compile_loop h hstar.mem_targets

end

/-! ## The law -/

/-- A pattern without `+` and `?` repeats nothing. A closure run rejects every input that has as
many characters as the automaton has states. So does a single hop run, unless a `*` was read while
the root was the current state, and then it accepts every input. -/
theorem nothing_repeats_without_plus_and_optional {pattern : String} {simulation : Simulation}
    {a : Automaton} (h : compile pattern simulation = .ok a)
    (hplus : ∀ before, ¬ Occurs '+' pattern.toList before)
    (hoptional : ∀ before, ¬ Occurs '?' pattern.toList before) :
    (simulation = .closure → ∀ input : String, a.size ≤ input.length → a.isMatch input = false)
    ∧ (simulation = .singleHop →
        (Draft.StarsRoot pattern.toList → ∀ input, a.isMatch input = true)
        ∧ (¬ Draft.StarsRoot pattern.toList →
            ∀ input : String, a.size ≤ input.length → a.isMatch input = false)) := by
  have hrange := compile_inRange h
  have hclimbs := @compile_climbs pattern simulation a h hplus hoptional
  have hsimulation : a.simulation = simulation := by rw [compile_eq_settle h]
  refine ⟨?_, ?_⟩
  · rintro rfl input hlong
    apply Automaton.isMatch_eq_false hrange hlong
    intro es q hwalk hspells
    rw [hsimulation] at hspells
    have hletters : letters es = input.toList := hspells
    have hle := hwalk.add_length_letters_le fun ht => (hclimbs ht).imp_right And.left
    rw [hletters, String.length_toList] at hle
    omega
  · rintro rfl
    refine ⟨?_, ?_⟩
    · intro hstar
      exact Automaton.isMatch_of_loop hrange hsimulation (compile_mem_targets_start h hstar)
        (compile_isAccepting_start h)
    · intro hstar input hlong
      apply Automaton.isMatch_eq_false hrange hlong
      intro es q hwalk hspells
      rw [hsimulation] at hspells
      have hlength : es.length = input.toList.length := List.Forall₂.length_eq hspells
      have hle := hwalk.add_length_le fun ht =>
        (hclimbs ht).resolve_right fun hloop => hstar hloop.2
      rw [hlength, String.length_toList] at hle
      omega

/-- In the first pattern a `*` follows a letter and another one a group, neither at the root, and
the `+` and the `?` are literals. In the second pattern the group is left at the root. -/
theorem a_star_after_a_group_waits_at_the_root :
    (∃ a, compile "a(b*)*\\?[+]" .closure = .ok a ∧ a.size = 8 ∧ a.isMatch "ab" = true
      ∧ ∀ input : String, a.size ≤ input.length → a.isMatch input = false)
    ∧ (∃ a, compile "a(b*)*\\?[+]" .singleHop = .ok a ∧ a.size = 8 ∧ a.isMatch "ab" = true
      ∧ ∀ input : String, a.size ≤ input.length → a.isMatch input = false)
    ∧ ∃ a, compile "(b)*[+?]" .singleHop = .ok a ∧ ∀ input, a.isMatch input = true := by
  have hplus : ∀ before, ¬ Occurs '+' "a(b*)*\\?[+]".toList before :=
    not_occurs_iff.2 (by decide +kernel)
  have hoptional : ∀ before, ¬ Occurs '?' "a(b*)*\\?[+]".toList before :=
    not_occurs_iff.2 (by decide +kernel)
  have ha : compile "a(b*)*\\?[+]" .closure = .ok _ := rfl
  have hb : compile "a(b*)*\\?[+]" .singleHop = .ok _ := rfl
  have hc : compile "(b)*[+?]" .singleHop = .ok _ := rfl
  refine ⟨⟨_, ha, by decide +kernel, by decide +kernel, ?_⟩,
    ⟨_, hb, by decide +kernel, by decide +kernel, ?_⟩, _, hc, ?_⟩
  · exact (nothing_repeats_without_plus_and_optional ha hplus hoptional).1 rfl
  · apply ((nothing_repeats_without_plus_and_optional hb hplus hoptional).2 rfl).2
    rintro ⟨before, hoccurs, hcurrent⟩
    obtain ⟨i, hi, rfl, hstar, -⟩ := occurs_iff.1 hoccurs
    clear hoccurs
    revert i
    decide +kernel
  · apply ((nothing_repeats_without_plus_and_optional hc (not_occurs_iff.2 (by decide +kernel))
      (not_occurs_iff.2 (by decide +kernel))).2 rfl).1
    exact ⟨['(', 'b', ')'], occurs_iff.2 ⟨3, by decide +kernel, rfl, rfl, by decide +kernel⟩,
      by decide +kernel⟩

end PatternNFA
