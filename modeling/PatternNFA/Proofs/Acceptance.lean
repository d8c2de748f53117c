-- When a run accepts. Every state accepts but the head of a class, and no edge that
-- reads a character leads to a head. So a closure run accepts as long as it lives,
-- and a single hop run does too, unless it stands in heads alone.
import PatternNFA.Proofs.Growth

namespace PatternNFA

/-! ## The heads of classes -/

/-- A class is opened after these characters: they end outside a class, and `[` comes next. -/
def OpensClass (cs before : List Char) : Prop :=
  (∃ after, cs = before ++ '[' :: after) ∧ EndsOutside before

/-- The state is the head of a class: the one that is added when the class is opened. -/
def ClassHead (cs : List Char) (q : Nat) : Prop :=
  ∃ before, OpensClass cs before ∧ q = (Draft.fresh.readAll before).states.size

theorem ClassHead.append {cs : List Char} {q : Nat} (h : ClassHead cs q) (more : List Char) :
    ClassHead (cs ++ more) q := by
  obtain ⟨before, ⟨⟨after, rfl⟩, houtside⟩, hq⟩ := h
  refine ⟨before, ⟨⟨after ++ more, ?_⟩, houtside⟩, hq⟩
  rw [List.append_assoc, List.cons_append]

namespace Draft

variable {d e : Draft}

/-- A state of the draft that does not accept. -/
def Rejects (d : Draft) (s : Nat) : Prop :=
  s < d.states.size ∧ d.automaton.isAccepting s = false

theorem rejects_sprout {symbol : Symbol} {accepting : Bool} {s : Nat}
    (h : (d.sprout symbol accepting).Rejects s) :
    d.Rejects s ∨ (s = d.states.size ∧ accepting = false) := by
  obtain ⟨hs, hrejects⟩ := h
  rw [size_sprout] at hs
  rw [isAccepting_sprout] at hrejects
  by_cases hnew : s = d.states.size
  · rw [if_pos hnew] at hrejects
    exact Or.inr ⟨hnew, hrejects⟩
  · rw [if_neg hnew] at hrejects
    exact Or.inl ⟨by omega, hrejects⟩

theorem rejects_of_states (h : e.states = d.states) {s : Nat} (hs : e.Rejects s) : d.Rejects s := by
  unfold Rejects at hs ⊢
  rw [h, automaton_of_states h] at hs
  exact hs

/-- To thrive is to get no state that rejects. -/
theorem Thrives.rejects (h : d.Thrives e) {s : Nat} (hs : e.Rejects s) : d.Rejects s := by
  induction h with
  | move hstates => exact rejects_of_states hstates hs
  | tie _ =>
    unfold Rejects at hs ⊢
    rw [size_link, isAccepting_link] at hs
    exact hs
  | sprout symbol _ => exact (rejects_sprout hs).resolve_right fun hnew => Bool.noConfusion hnew.2
  | trans _ _ ih₁ ih₂ => exact ih₁ (ih₂ hs)

theorem not_rejects_fresh (s : Nat) : ¬ fresh.Rejects s := by
  rintro ⟨hs, hrejects⟩
  obtain rfl : s = root := by simpa [fresh, root] using hs
  cases hrejects

/-- Only the heads of classes reject. -/
theorem classHead_of_rejects {cs : List Char} {s : Nat} (h : (fresh.readAll cs).Rejects s) :
    ClassHead cs s := by
  induction cs using List.reverseRecOn with
  | nil => exact absurd h (not_rejects_fresh s)
  | append_singleton init c ih =>
    rw [readAll_append, readAll_cons, readAll_nil] at h
    rcases (sound_fresh.readAll init).read_cases c with ⟨hmode, rfl, hopen⟩ | hthrives
    · rcases rejects_sprout (rejects_of_states hopen h) with hold | hnew
      · exact (ih hold).append ['[']
      · exact ⟨init, ⟨⟨[], rfl⟩, (mode_readAll_iff init).1 hmode⟩, hnew.1⟩
    · exact (ih (hthrives.rejects h)).append [c]

/-! ## The targets of characters -/

/-- Every edge that reads a character leads to a state that accepts. -/
def LettersAccept (d : Draft) : Prop :=
  ∀ s c t, t ∈ d.automaton.targets s (.char c) → d.automaton.isAccepting t = true

theorem LettersAccept.of_states (h : d.LettersAccept) (hstates : e.states = d.states) :
    e.LettersAccept := by
  unfold LettersAccept
  rw [automaton_of_states hstates]
  exact h

theorem LettersAccept.sprout (h : d.LettersAccept) (hc : d.current < d.states.size)
    {symbol : Symbol} {accepting : Bool} (hsymbol : symbol = .epsilon ∨ accepting = true) :
    (d.sprout symbol accepting).LettersAccept := by
  intro s c t ht
  rcases (mem_targets_sprout hc).1 ht with ht | ⟨-, rfl, rfl⟩
  · exact (embeds_sprout hc symbol accepting).accepting (h s c t ht)
  · rw [isAccepting_sprout, if_pos rfl]
    exact hsymbol.resolve_left Symbol.noConfusion

theorem Thrives.lettersAccept (h : d.Thrives e) (hd : d.LettersAccept) : e.LettersAccept := by
  induction h with
  | move hstates => exact hd.of_states hstates
  | tie hs =>
    intro s c t ht
    rcases (mem_targets_link hs).1 ht with ht | ⟨-, hsymbol, -⟩
    · rw [isAccepting_link]
      exact hd s c t ht
    · cases hsymbol
  | sprout symbol hc => exact hd.sprout hc (Or.inr rfl)
  | trans _ _ ih₁ ih₂ => exact ih₂ (ih₁ hd)

theorem lettersAccept_fresh : fresh.LettersAccept :=
  fun _ _ _ ht => absurd ht not_mem_targets_fresh

theorem Sound.lettersAccept_readAll (h : d.Sound) (hd : d.LettersAccept) (cs : List Char) :
    (d.readAll cs).LettersAccept := by
  induction cs generalizing d with
  | nil => exact hd
  | cons c cs ih =>
    apply ih (h.read c)
    rcases h.read_cases c with ⟨-, -, hopen⟩ | hthrives
    · exact (hd.sprout h.current_lt (Or.inl rfl)).of_states hopen
    · exact hthrives.lettersAccept hd

end Draft

section

variable {pattern : String} {simulation : Simulation} {a : Automaton}

theorem compile_lettersAccept (h : compile pattern simulation = .ok a) {s t : Nat} {c : Char}
    (ht : t ∈ a.targets s (.char c)) : a.isAccepting t = true := by
  have hsound := Draft.sound_fresh.readAll pattern.toList
  have hletters := Draft.sound_fresh.lettersAccept_readAll Draft.lettersAccept_fresh pattern.toList
  rw [compile_eq_settle h] at ht ⊢
  exact hsound.thrives_settle.lettersAccept hletters s c t ht

theorem compile_classHead (h : compile pattern simulation = .ok a) {q : Nat} (hq : q < a.size)
    (hrejects : a.isAccepting q = false) : ClassHead pattern.toList q := by
  have hsound := Draft.sound_fresh.readAll pattern.toList
  rw [compile_eq_settle h] at hq hrejects
  exact Draft.classHead_of_rejects (hsound.thrives_settle.rejects ⟨hq, hrejects⟩)

theorem compile_isAccepting_start (h : compile pattern simulation = .ok a) :
    a.isAccepting a.start = true := by
  have hsound := Draft.sound_fresh.readAll pattern.toList
  have hroot : Draft.fresh.automaton.isAccepting Draft.root = true := rfl
  have hkept := (Draft.sound_fresh.embeds_readAll pattern.toList).accepting hroot
  rw [compile_eq_settle h]
  exact hsound.thrives_settle.embeds.accepting hkept

end

/-! ## Runs that live -/

namespace Matcher

variable {a : Automaton}

theorem isAccepting_iff (m : Matcher) :
    m.isAccepting = true ↔ ∃ q ∈ m.frontier, m.automaton.isAccepting q = true := by
  unfold isAccepting
  rw [List.any_eq_true]

theorem isDead_eq_false_of_mem {m : Matcher} {q : Nat} (hq : q ∈ m.frontier) : m.isDead = false := by
  rw [Bool.eq_false_iff, Ne, isDead_iff]
  exact List.ne_nil_of_mem hq

/-- Where a closure run lives, the target of the last character accepts. -/
theorem isAccepting_of_closure (hrange : a.InRange) (hclosure : a.simulation = .closure)
    (hstart : a.isAccepting a.start = true)
    (hletters : ∀ {s t c}, t ∈ a.targets s (.char c) → a.isAccepting t = true)
    (scratch : Scratch) {cs : List Char} (halive : ((start a scratch).run cs).isDead = false) :
    ((start a scratch).run cs).isAccepting = true := by
  rw [isAccepting_iff, automaton_run, automaton_start]
  cases cs using List.reverseRecOn with
  | nil => exact ⟨a.start, (mem_frontier_start hrange hclosure scratch a.start).2 .refl, hstart⟩
  | append_singleton init c =>
    have hsettled := (settled_start hrange hclosure scratch).run (by simpa using hrange) init
    have hmem := hsettled.mem_frontier_step (by simpa using hrange) c
    rw [run_append, run_cons, run_nil] at halive ⊢
    rw [Bool.eq_false_iff, Ne, isDead_iff] at halive
    obtain ⟨q, hq⟩ := List.exists_mem_of_ne_nil _ halive
    obtain ⟨s, hs, t, ht, -⟩ := (hmem q).1 hq
    refine ⟨t, (hmem t).2 ⟨s, hs, t, ht, .refl⟩, ?_⟩
    rw [automaton_run, automaton_start] at ht
    exact hletters ht

/-- What is accepted is accepted at every point before, if the run accepts as long as it lives. -/
theorem isMatch_of_append
    (h : ∀ cs, ((start a).run cs).isDead = false → ((start a).run cs).isAccepting = true)
    {input more : String} (hmatch : a.isMatch (input ++ more) = true) : a.isMatch input = true := by
  rw [a.isMatch_eq, String.toList_append, run_append, isAccepting_iff] at hmatch
  obtain ⟨q, hq, -⟩ := hmatch
  rw [a.isMatch_eq]
  apply h
  rw [Bool.eq_false_iff, Ne, isDead_iff]
  intro hdead
  rw [frontier_run_of_dead hdead] at hq
  cases hq

end Matcher

/-- A run that lives and does not accept is a single hop run, and stands in heads alone. -/
theorem compile_stands_in_heads {pattern : String} {simulation : Simulation} {a : Automaton}
    (h : compile pattern simulation = .ok a) {cs : List Char}
    (halive : ((Matcher.start a).run cs).isDead = false)
    (hrejects : ((Matcher.start a).run cs).isAccepting = false) :
    simulation = .singleHop ∧ ∀ q ∈ ((Matcher.start a).run cs).frontier,
      ClassHead pattern.toList q := by
  have hrange := compile_inRange h
  have hsimulation := (compile_eq_ok.1 h).2.2
  rw [Bool.eq_false_iff] at hrejects
  cases simulation with
  | closure =>
    have haccepts := Matcher.isAccepting_of_closure hrange hsimulation
      (compile_isAccepting_start h) (compile_lettersAccept h) {} halive
    exact absurd haccepts hrejects
  | singleHop =>
    refine ⟨rfl, ?_⟩
    intro q hq
    obtain ⟨es, hwalk, -⟩ := (Matcher.mem_frontier_iff hrange {} cs q).1 hq
    apply compile_classHead h (hrange.lt_size_of_walk hrange.start_lt hwalk)
    rw [Bool.eq_false_iff]
    intro haccepting
    apply hrejects
    rw [Matcher.isAccepting_iff, Matcher.automaton_run, Matcher.automaton_start]
    exact ⟨q, hq, haccepting⟩

/-- A closure run accepts an input if some walk spells it, wherever the walk ends. -/
theorem compile_isMatch_closure {pattern : String} {a : Automaton}
    (h : compile pattern .closure = .ok a) {input : String} :
    a.isMatch input = true ↔ ∃ es q, a.Walk a.start es q ∧ letters es = input.toList := by
  have hrange := compile_inRange h
  have hclosure : a.simulation = .closure := (compile_eq_ok.1 h).2.2
  constructor
  · intro hmatch
    obtain ⟨es, q, hwalk, hspells, -⟩ := (Automaton.isMatch_iff_exists_walk hrange).1 hmatch
    rw [hclosure] at hspells
    exact ⟨es, q, hwalk, hspells⟩
  · rintro ⟨es, q, hwalk, hes⟩
    have hq := (Matcher.mem_frontier_run_start hrange hclosure {} input.toList q).2 ⟨es, hwalk, hes⟩
    have haccepts := Matcher.isAccepting_of_closure hrange hclosure (compile_isAccepting_start h)
      (compile_lettersAccept h) {} (Matcher.isDead_eq_false_of_mem hq)
    exact (a.isMatch_eq input).trans haccepts

/-! ## The law -/

/-- A run that lives and does not accept is a single hop run that stands in heads of classes
alone. So under closure, and under single hops if no class is opened, a run accepts as long as it
lives, and with an input all its beginnings are accepted. -/
theorem a_run_accepts_as_long_as_it_lives {pattern : String} {simulation : Simulation}
    {a : Automaton} (h : compile pattern simulation = .ok a) :
    let m := Matcher.start a
    (∀ input, (m.run input).isDead = false → (m.run input).isAccepting = false →
      simulation = .singleHop ∧ ∀ q ∈ (m.run input).frontier, ClassHead pattern.toList q)
    ∧ (simulation = .closure ∨ (∀ before, ¬ OpensClass pattern.toList before) →
      (∀ input, (m.run input).isAccepting = true ↔ (m.run input).isDead = false)
      ∧ ∀ input more, a.isMatch (input ++ more) = true → a.isMatch input = true) := by
  intro m
  refine ⟨fun input => compile_stands_in_heads h, ?_⟩
  intro hcase
  have hlives : ∀ input, (m.run input).isDead = false → (m.run input).isAccepting = true := by
    intro input halive
    by_contra hrejects
    obtain ⟨hsingle, hheads⟩ := compile_stands_in_heads h halive (Bool.eq_false_iff.2 hrejects)
    rcases hcase with hclosure | hnone
    · rw [hclosure] at hsingle
      cases hsingle
    · rw [Bool.eq_false_iff, Ne, Matcher.isDead_iff] at halive
      obtain ⟨q, hq⟩ := List.exists_mem_of_ne_nil _ halive
      obtain ⟨before, hopens, -⟩ := hheads q hq
      exact hnone before hopens
  refine ⟨?_, fun input more => Matcher.isMatch_of_append hlives⟩
  intro input
  refine ⟨?_, hlives input⟩
  intro haccepting
  obtain ⟨q, hq, -⟩ := (Matcher.isAccepting_iff _).1 haccepting
  exact Matcher.isDead_eq_false_of_mem hq

/-- In the head of a class a single hop run lives and does not accept, and it may accept again
later. A closure run over the same pattern accepts until it dies. -/
theorem a_single_hop_run_waits_in_a_class_head :
    ∃ a b, compile "[^ab]c" .singleHop = .ok a ∧ compile "[^ab]c" .closure = .ok b
      ∧ a.isMatch "x" = false ∧ a.isMatch "xa" = true ∧ ClassHead "[^ab]c".toList 1
      ∧ b.isMatch "]c" = true ∧ b.isMatch "]" = true := by
  have ha : compile "[^ab]c" .singleHop = .ok _ := rfl
  have hb : compile "[^ab]c" .closure = .ok _ := rfl
  have hhop := (a_run_accepts_as_long_as_it_lives ha).1 ['x'] (by decide +kernel)
    (by decide +kernel)
  have hclosure := (a_run_accepts_as_long_as_it_lives hb).2 (Or.inl rfl)
  refine ⟨_, _, ha, hb, by decide +kernel, by decide +kernel, ?_, by decide +kernel, ?_⟩
  · exact hhop.2 1 (by decide +kernel)
  · exact hclosure.2 "]" "c" (by decide +kernel)

end PatternNFA
