-- Runs of quantifiers. A quantifier ties the entry of a group to the current state, or this state
-- to the entry, or both, and moves the reader nowhere. So of a run of them it matters which of the
-- two ties it makes, and not how often: more of the same are parallel edges, and no verdict shows
-- them.
import PatternNFA.Proofs.Insertion

namespace PatternNFA

/-- The characters are all quantifiers. -/
def QuantifierRun (cs : List Char) : Prop := ∀ c ∈ cs, c ∈ ['?', '+', '*']

instance (cs : List Char) : Decidable (QuantifierRun cs) :=
  List.decidableBAll (· ∈ ['?', '+', '*']) cs

/-- One quantifier that ties what a run of quantifiers ties. -/
def normalQuantifier (run : List Char) : Char :=
  if '?' ∈ run ∨ ('*' ∈ run ∧ '+' ∈ run) then '?' else if run.all (· == '*') then '*' else '+'

theorem quantifierRun_normalQuantifier (run : List Char) :
    QuantifierRun [normalQuantifier run] := by
  unfold normalQuantifier
  split
  · decide
  · split <;> decide

namespace Draft

variable {d e f : Draft} {run more : List Char} {s t : Nat} {x : Symbol}

/-! ## What quantifiers tie -/

/-- The run ties the entry of the group to the current state. -/
def TiesForth (run : List Char) : Prop := '?' ∈ run ∨ '*' ∈ run

/-- The run ties the current state to the entry of the group. -/
def TiesBack (run : List Char) : Prop := '?' ∈ run ∨ '+' ∈ run

theorem tiesForth_append : TiesForth (run ++ more) ↔ TiesForth run ∨ TiesForth more := by
  simp only [TiesForth, List.mem_append]
  exact or_or_or_comm

theorem tiesBack_append : TiesBack (run ++ more) ↔ TiesBack run ∨ TiesBack more := by
  simp only [TiesBack, List.mem_append]
  exact or_or_or_comm

theorem ties_cases {c : Char} (hc : c ∈ ['?', '+', '*']) : TiesForth [c] ∨ TiesBack [c] := by
  simp only [List.mem_cons, List.not_mem_nil, or_false] at hc
  rcases hc with rfl | rfl | rfl
  · exact Or.inl (by simp [TiesForth])
  · exact Or.inr (by simp [TiesBack])
  · exact Or.inl (by simp [TiesForth])

/-- The edges that a run of quantifiers makes. -/
def Ties (d : Draft) (run : List Char) (s : Nat) (x : Symbol) (t : Nat) : Prop :=
  (TiesForth run ∧ s = d.entry ∧ x = .epsilon ∧ t = d.current)
    ∨ (TiesBack run ∧ s = d.current ∧ x = .epsilon ∧ t = d.entry)

theorem ties_append : d.Ties (run ++ more) s x t ↔ d.Ties run s x t ∨ d.Ties more s x t := by
  unfold Ties
  rw [tiesForth_append, tiesBack_append, or_and_right, or_and_right]
  exact or_or_or_comm

/-- The normal form ties the same as the run. -/
theorem ties_normalQuantifier (hrun : QuantifierRun run) (hne : run ≠ []) :
    (TiesForth [normalQuantifier run] ↔ TiesForth run)
    ∧ (TiesBack [normalQuantifier run] ↔ TiesBack run) := by
  have hkind : '?' ∈ run ∨ '+' ∈ run ∨ '*' ∈ run := by
    obtain ⟨c, hc⟩ := List.exists_mem_of_ne_nil run hne
    have hquantifier := hrun c hc
    grind
  have hstars : run.all (· == '*') = true ↔ ¬ '?' ∈ run ∧ ¬ '+' ∈ run := by
    unfold QuantifierRun at hrun
    rw [List.all_eq_true]
    grind
  unfold normalQuantifier TiesForth TiesBack
  simp only [hstars]
  split
  · grind
  · split <;> grind

/-- The second draft is the first one with the edges of the run, and stands where it stands. -/
structure Tied (d : Draft) (run : List Char) (e : Draft) : Prop where
  returns : d.Returns e
  size_eq : e.states.size = d.states.size
  accepting_eq (s : Nat) : e.automaton.isAccepting s = d.automaton.isAccepting s
  mem_targets {s t : Nat} {x : Symbol} :
    t ∈ e.automaton.targets s x ↔ t ∈ d.automaton.targets s x ∨ d.Ties run s x t

theorem Returns.entry_eq (h : d.Returns e) : e.entry = d.entry := by
  rw [entry, entry, h.groups_eq]

theorem Returns.ties_iff (h : d.Returns e) : e.Ties run s x t ↔ d.Ties run s x t := by
  unfold Ties
  rw [h.entry_eq, h.current_eq]

theorem tied_nil (h : d.mode = .plain) : d.Tied [] d :=
  ⟨⟨h, rfl, rfl⟩, rfl, fun _ => rfl, by simp [Ties, TiesForth, TiesBack]⟩

theorem Tied.append (h : d.Tied run e) (h' : e.Tied more f) : d.Tied (run ++ more) f where
  returns := ⟨h'.returns.mode_eq, h'.returns.current_eq.trans h.returns.current_eq,
    h'.returns.groups_eq.trans h.returns.groups_eq⟩
  size_eq := h'.size_eq.trans h.size_eq
  accepting_eq := fun s => (h'.accepting_eq s).trans (h.accepting_eq s)
  mem_targets := by
    intro s t x
    rw [h'.mem_targets, h.mem_targets, h.returns.ties_iff, ties_append, or_assoc]

/-! ## Reading a run -/

theorem states_read_optional (h : d.mode = .plain) : (d.read '?').states
    = ((d.link d.entry .epsilon d.current).link d.current .epsilon d.entry).states := by
  simp only [Draft.read, interpret, h, readPlain]

theorem states_read_plus (h : d.mode = .plain) :
    (d.read '+').states = (d.link d.current .epsilon d.entry).states := by
  simp only [Draft.read, interpret, h, readPlain]

theorem states_read_star (h : d.mode = .plain) :
    (d.read '*').states = (d.link d.entry .epsilon d.current).states := by
  simp only [Draft.read, interpret, h, readPlain]

theorem Sound.tied_read (h : d.Sound) (hmode : d.mode = .plain) {c : Char}
    (hc : c ∈ ['?', '+', '*']) : d.Tied [c] (d.read c) := by
  have hreturns := returns_quantifier hmode hc
  have hcurrent : d.current < (d.link d.entry .epsilon d.current).states.size := by
    rw [size_link]
    exact h.current_lt
  simp only [List.mem_cons, List.not_mem_nil, or_false] at hc
  rcases hc with rfl | rfl | rfl
  · have hstates := states_read_optional hmode
    refine ⟨hreturns, ?_, ?_, ?_⟩
    · rw [hstates, size_link, size_link]
    · intro s
      rw [automaton_of_states hstates, isAccepting_link, isAccepting_link]
    · intro s t x
      rw [automaton_of_states hstates, mem_targets_link hcurrent, mem_targets_link h.entry_lt,
        or_assoc]
      simp [Ties, TiesForth, TiesBack]
  · have hstates := states_read_plus hmode
    refine ⟨hreturns, ?_, ?_, ?_⟩
    · rw [hstates, size_link]
    · intro s
      rw [automaton_of_states hstates, isAccepting_link]
    · intro s t x
      rw [automaton_of_states hstates, mem_targets_link h.current_lt]
      simp [Ties, TiesForth, TiesBack]
  · have hstates := states_read_star hmode
    refine ⟨hreturns, ?_, ?_, ?_⟩
    · rw [hstates, size_link]
    · intro s
      rw [automaton_of_states hstates, isAccepting_link]
    · intro s t x
      rw [automaton_of_states hstates, mem_targets_link h.entry_lt]
      simp [Ties, TiesForth, TiesBack]

theorem Sound.tied_readAll (h : d.Sound) (hmode : d.mode = .plain)
    (hrun : QuantifierRun run) : d.Tied run (d.readAll run) := by
  induction run generalizing d with
  | nil => exact tied_nil hmode
  | cons c rest ih =>
    have hfirst := h.tied_read hmode (hrun c List.mem_cons_self)
    have hrest := ih (h.read c) hfirst.returns.mode_eq fun c hc =>
      hrun c (List.mem_cons_of_mem _ hc)
    exact hfirst.append hrest

/-- Where the one run ties nothing that the other does not, the map that moves no state leads the
first draft into the second. -/
theorem Tied.beside (h : d.Tied run e) (h' : d.Tied more f)
    (hforth : TiesForth run → TiesForth more) (hback : TiesBack run → TiesBack more) :
    Beside id e f where
  embeds := by
    refine ⟨rfl, ?_, ?_⟩
    · intro s x t ht
      refine h'.mem_targets.2 ((h.mem_targets.1 ht).imp_right ?_)
      exact Or.imp (And.imp_left hforth) (And.imp_left hback)
    · intro s hs
      exact (h'.accepting_eq s).trans ((h.accepting_eq s).symm.trans hs)
  current_eq := h.returns.current_eq.trans h'.returns.current_eq.symm
  groups_eq := by
    rw [List.map_id, h.returns.groups_eq, h'.returns.groups_eq]
  newest_eq := by
    intro i
    rw [h.size_eq, h'.size_eq]
    rfl

/-! ## Ties in either order -/

/-- The ties of two states, one way and the other, are two groups of edges, or one edge twice. -/
theorem states_link_comm (d : Draft) (s t : Nat) :
    ((d.link s .epsilon t).link t .epsilon s).states
      = ((d.link t .epsilon s).link s .epsilon t).states := by
  by_cases hst : s = t
  · rw [hst]
  · apply Array.ext_getElem?
    intro i
    simp only [link, Array.getElem?_modify]
    by_cases hs : s = i
    · have ht : ¬ t = i := fun ht => hst (hs.trans ht.symm)
      simp only [if_pos hs, if_neg ht]
    · simp only [if_neg hs]

theorem states_link_congr (h : e.states = d.states) (s : Nat) (x : Symbol) (t : Nat) :
    (e.link s x t).states = (d.link s x t).states := by
  simp only [link, h]

/-- A `?` ties both ways, and so do a `*` and a `+` together, whichever comes first. -/
theorem Sound.agrees_optional (h : d.Sound) (hmode : d.mode = .plain) :
    (d.readAll ['?']).Agrees (d.readAll ['*', '+'])
    ∧ (d.readAll ['?']).Agrees (d.readAll ['+', '*']) := by
  have hoptional := (h.tied_readAll hmode (by decide : QuantifierRun ['?'])).returns
  have hstar := (h.tied_readAll hmode (by decide : QuantifierRun ['*'])).returns
  have hplus := (h.tied_readAll hmode (by decide : QuantifierRun ['+'])).returns
  have hstarplus := (h.tied_readAll hmode (by decide : QuantifierRun ['*', '+'])).returns
  have hplusstar := (h.tied_readAll hmode (by decide : QuantifierRun ['+', '*'])).returns
  simp only [readAll_cons, readAll_nil] at *
  constructor
  · apply agrees_of_eq
    · rw [states_read_plus hstar.mode_eq, hstar.current_eq, hstar.entry_eq,
        states_link_congr (states_read_star hmode), states_read_optional hmode]
    · rw [hstarplus.current_eq, hoptional.current_eq]
    · rw [hstarplus.groups_eq, hoptional.groups_eq]
  · apply agrees_of_eq
    · rw [states_read_star hplus.mode_eq, hplus.current_eq, hplus.entry_eq,
        states_link_congr (states_read_plus hmode), states_read_optional hmode, states_link_comm]
    · rw [hplusstar.current_eq, hoptional.current_eq]
    · rw [hplusstar.groups_eq, hoptional.groups_eq]

end Draft

/-! ## What follows a run -/

section

variable {u r w v : String} {simulation : Simulation} {a b : Automaton}
variable (hu : EndsOutside u.toList) (hr : QuantifierRun r.toList) (hw : QuantifierRun w.toList)

include hu hr hw

/-- The rest of a pattern is read alike after one run and after another. -/
theorem inStep_runs :
    (Draft.fresh.readAll (u ++ r).toList).InStep (Draft.fresh.readAll (u ++ w).toList) := by
  have hmode := (Draft.mode_readAll_iff u.toList).2 hu
  have hsound := Draft.sound_fresh.readAll u.toList
  have hleft := (hsound.tied_readAll hmode hr).returns
  have hright := (hsound.tied_readAll hmode hw).returns
  rw [Draft.readAll_toList_append, Draft.readAll_toList_append]
  exact Or.inl (hleft.mode_eq.trans hright.mode_eq.symm)

theorem exists_compile_runs (h : compile (u ++ r ++ v) simulation = .ok a) :
    ∃ b, compile (u ++ w ++ v) simulation = .ok b :=
  ((inStep_runs hu hr hw).append v).exists_compile h

/-- A run that ties no more than another one accepts no more. -/
theorem isMatch_of_runs (hforth : Draft.TiesForth r.toList → Draft.TiesForth w.toList)
    (hback : Draft.TiesBack r.toList → Draft.TiesBack w.toList)
    (ha : compile (u ++ r ++ v) simulation = .ok a) (hb : compile (u ++ w ++ v) simulation = .ok b)
    {input : String} (hmatch : a.isMatch input = true) : b.isMatch input = true := by
  have hmode := (Draft.mode_readAll_iff u.toList).2 hu
  have hsound := Draft.sound_fresh.readAll u.toList
  have hbeside := (hsound.tied_readAll hmode hr).beside (hsound.tied_readAll hmode hw) hforth hback
  rw [← Draft.readAll_toList_append, ← Draft.readAll_toList_append] at hbeside
  have hsettled := (Draft.lockstep_beside id).settle_append (inStep_runs hu hr hw) hbeside v
  exact isMatch_of_embeds ha hb hsettled.embeds hmatch

/-- Two runs that leave one draft make one automaton. -/
theorem compile_of_agrees
    (hagrees : ((Draft.fresh.readAll u.toList).readAll r.toList).Agrees
      ((Draft.fresh.readAll u.toList).readAll w.toList))
    (h : compile (u ++ r ++ v) simulation = .ok a) : compile (u ++ w ++ v) simulation = .ok a := by
  obtain ⟨b, hb⟩ := exists_compile_runs hu hr hw h
  rw [← Draft.readAll_toList_append, ← Draft.readAll_toList_append] at hagrees
  have hsettled := Draft.lockstep_agrees.settle_append (inStep_runs hu hr hw) hagrees v
  have hsame : b = a := by
    rw [compile_eq_settle h, compile_eq_settle hb, Draft.automaton_of_states hsettled.states_eq]
  rw [hb, hsame]

end

/-! ## The law -/

/-- A run of quantifiers can be replaced by one of them, and no verdict changes: by a `?` if the run
ties both ways, and else by the one quantifier that it repeats. A `?` makes the very automaton that
a `*` and a `+` make together, in either order. -/
theorem a_run_of_quantifiers_has_a_normal_form {u r v : String} {simulation : Simulation}
    {a : Automaton} (hu : EndsOutside u.toList) (hr : QuantifierRun r.toList) (hne : r ≠ "")
    (h : compile (u ++ r ++ v) simulation = .ok a) :
    (∃ b, compile (u ++ String.singleton (normalQuantifier r.toList) ++ v) simulation = .ok b
      ∧ ∀ input, b.isMatch input = a.isMatch input)
    ∧ ∃ c, compile (u ++ "?" ++ v) simulation = .ok c
      ∧ compile (u ++ "*+" ++ v) simulation = .ok c
      ∧ compile (u ++ "+*" ++ v) simulation = .ok c := by
  have hnormal := quantifierRun_normalQuantifier r.toList
  have hties := Draft.ties_normalQuantifier hr fun hnil => hne (String.toList_eq_nil_iff.1 hnil)
  rw [← String.toList_singleton] at hnormal hties
  refine ⟨?_, ?_⟩
  · obtain ⟨b, hb⟩ := exists_compile_runs hu hr hnormal h
    refine ⟨b, hb, ?_⟩
    intro input
    rw [Bool.eq_iff_iff]
    exact ⟨isMatch_of_runs hu hnormal hr hties.1.1 hties.2.1 hb h,
      isMatch_of_runs hu hr hnormal hties.1.2 hties.2.2 h hb⟩
  · have hmode := (Draft.mode_readAll_iff u.toList).2 hu
    have hagrees := (Draft.sound_fresh.readAll u.toList).agrees_optional hmode
    obtain ⟨c, hc⟩ := exists_compile_runs (w := "?") hu hr (by decide) h
    exact ⟨c, hc, compile_of_agrees (r := "?") (w := "*+") hu (by decide) (by decide) hagrees.1 hc,
      compile_of_agrees (r := "?") (w := "+*") hu (by decide) (by decide) hagrees.2 hc⟩

/-- After a letter in a group, the run of the first pattern makes three edges one way and two the
other, and a `?` one each way. The frontiers differ by that, and no verdict does. -/
theorem a_run_in_a_group_leaves_parallel_edges :
    ∃ a b, compile ("x(a" ++ "*+*?" ++ "b)+c") .singleHop = .ok a
      ∧ compile ("x(a" ++ "?" ++ "b)+c") .singleHop = .ok b
      ∧ a.targets 1 .epsilon = [2, 3, 3, 3, 0] ∧ b.targets 1 .epsilon = [2, 3, 0]
      ∧ ((Matcher.start a).run "x-".toList).frontier = [2, 3, 3, 3, 0]
      ∧ ((Matcher.start b).run "x-".toList).frontier = [2, 3, 0]
      ∧ (∀ input, b.isMatch input = a.isMatch input)
      ∧ compile ("x(a" ++ "*+" ++ "b)+c") .singleHop = .ok b := by
  have hu : EndsOutside "x(a".toList := (Draft.mode_readAll_iff _).1 rfl
  have ha : compile ("x(a" ++ "*+*?" ++ "b)+c") .singleHop = .ok _ := rfl
  have hlaw := a_run_of_quantifiers_has_a_normal_form hu (by decide) (by decide) ha
  obtain ⟨⟨b, hb, hverdicts⟩, c, hc, hstarplus, -⟩ := hlaw
  have hsame : c = b := Except.ok.inj (hc.symm.trans hb)
  have hshape : compile ("x(a" ++ "?" ++ "b)+c") .singleHop = .ok _ := rfl
  obtain rfl := Except.ok.inj (hshape.symm.trans hb)
  exact ⟨_, _, ha, hb, by decide +kernel, by decide +kernel, by decide +kernel, by decide +kernel,
    hverdicts, hsame ▸ hstarplus⟩

end PatternNFA
