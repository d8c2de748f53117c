-- Circles: epsilon edges that lead from a state to itself. A quantifier that is read at the root
-- makes one or two. A single hop run may go round them for ever, so it never leaves the root and
-- accepts every input. A closure run never sees them: when it looks at the edges of a state, it has
-- claimed the state.
import PatternNFA.Proofs.Repetition

namespace PatternNFA

/-! ## The other edges -/

namespace Automaton

/-- The targets of a state on a symbol, but for the ends of its circles. -/
def onward (a : Automaton) (s : Nat) (x : Symbol) : List Nat :=
  (a.targets s x).filter fun t => ¬(x = .epsilon ∧ t = s)

theorem onward_char (a : Automaton) (s : Nat) (c : Char) :
    a.onward s (.char c) = a.targets s (.char c) := by
  simp [onward]

theorem onward_epsilon (a : Automaton) (s : Nat) :
    a.onward s .epsilon = (a.targets s .epsilon).filter (· ≠ s) := by
  simp [onward]

/-- The automata have as many states, and on each symbol the same targets, in the same order, but
for the ends of circles. -/
structure UpToCircles (a b : Automaton) : Prop where
  size_eq : b.size = a.size
  start_eq : b.start = a.start
  simulation_eq : b.simulation = a.simulation
  onward_eq (s : Nat) (x : Symbol) : b.onward s x = a.onward s x

end Automaton

/-! ## Closure runs -/

namespace Scratch

variable {a : Automaton} {generation : Nat} {scratch : Scratch}

/-- A state that is claimed already can be left out of the targets. -/
theorem claimAll_filter_ne {s : Nat} (h : ¬ isUnclaimed generation scratch s = true)
    (targets : List Nat) :
    claimAll generation (targets.filter (· ≠ s)) scratch = claimAll generation targets scratch := by
  induction targets with
  | nil => rfl
  | cons t rest ih =>
    by_cases ht : t = s
    · have hclaimed : ¬ isUnclaimed generation (claimAll generation rest scratch) t = true :=
        fun hfree => h (ht ▸ ((isUnclaimed_claimAll _ _ _ _).1 hfree).1)
      rw [List.filter_cons_of_neg (by simpa using ht), ih, claimAll_cons, claim, if_neg hclaimed]
    · rw [List.filter_cons_of_pos (by simpa using ht), claimAll_cons, claimAll_cons, ih]

/-- The generation has claimed all that is pending. -/
def Covered (generation : Nat) (scratch : Scratch) : Prop :=
  ∀ t ∈ scratch.pending, ¬ isUnclaimed generation scratch t = true

theorem Covered.claimAll (h : Covered generation scratch) (targets : List Nat) :
    Covered generation (claimAll generation targets scratch) := by
  intro t ht
  rw [isUnclaimed_claimAll]
  rw [pending_claimAll, List.mem_append, List.mem_dedup, List.mem_filter] at ht
  rcases ht with ht | ht
  · exact fun hfree => hfree.2 ht.1
  · exact fun hfree => h t ht hfree.1

theorem Covered.turn (h : Covered generation scratch) :
    Covered generation (turn a generation scratch) := by
  obtain ⟨current, next, stamps, pending⟩ := scratch
  cases pending with
  | nil => exact h
  | cons s rest =>
    have hrest : Covered generation { current, next := next.push s, stamps, pending := rest } :=
      fun t ht => h t (List.mem_cons_of_mem s ht)
    exact hrest.claimAll (a.targets s .epsilon)

end Scratch

namespace Automaton.UpToCircles

open Scratch

variable {a b : Automaton} {generation : Nat} {scratch : Scratch}

/-- A turn claims the targets of a state that has been claimed, so its circles claim nothing. -/
theorem turn_eq (h : a.UpToCircles b) (hcovered : Covered generation scratch) :
    turn b generation scratch = turn a generation scratch := by
  obtain ⟨current, next, stamps, pending⟩ := scratch
  cases pending with
  | nil => rfl
  | cons s rest =>
    have hclaimed : ¬ isUnclaimed generation
        { current, next := next.push s, stamps, pending := rest } s = true :=
      hcovered s List.mem_cons_self
    have honward := h.onward_eq s .epsilon
    rw [onward_epsilon, onward_epsilon] at honward
    simp only [turn]
    rw [← claimAll_filter_ne hclaimed (b.targets s .epsilon), honward, claimAll_filter_ne hclaimed]

theorem walk_eq (h : a.UpToCircles b) (hcovered : Covered generation scratch) :
    walk b generation scratch = walk a generation scratch := by
  fun_induction walk a generation scratch with
  | case1 scratch hpending => rw [walk, if_pos hpending]
  | case2 scratch hpending ih => rw [walk, if_neg hpending, h.turn_eq hcovered, ih hcovered.turn]

theorem addState_eq (h : a.UpToCircles b) (hpending : scratch.pending = []) (s : Nat) :
    addState b generation scratch s = addState a generation scratch s := by
  have hcovered : Covered generation scratch := by
    intro t ht
    rw [hpending] at ht
    exact absurd ht List.not_mem_nil
  have hwalk := h.walk_eq (hcovered.claimAll [s])
  rw [claimAll_cons, claimAll_nil] at hwalk
  rw [addState, addState, hwalk]

theorem foldl_addState_eq (h : a.UpToCircles b) (hpending : scratch.pending = [])
    (sources : List Nat) : sources.foldl (addState b generation) scratch
      = sources.foldl (addState a generation) scratch := by
  induction sources generalizing scratch with
  | nil => rfl
  | cons s rest ih =>
    rw [List.foldl_cons, List.foldl_cons, h.addState_eq hpending, ih (pending_addState hpending s)]

theorem gather_eq (h : a.UpToCircles b) (hpending : scratch.pending = []) (c : Char) :
    gather b generation c scratch = gather a generation c scratch := by
  have htargets : (b.targets · (.char c)) = (a.targets · (.char c)) := by
    funext s
    rw [← onward_char, ← onward_char, h.onward_eq]
  have hclear : scratch.clear.pending = [] := hpending
  rw [Scratch.gather_eq, Scratch.gather_eq, htargets, h.foldl_addState_eq hclear]

end Automaton.UpToCircles

namespace Matcher

open Automaton

variable {a b : Automaton} {m : Matcher}

theorem start_upToCircles (h : a.UpToCircles b) (hclosure : a.simulation = .closure) :
    start b = { start a with automaton := b } := by
  have hclosure' := h.simulation_eq.trans hclosure
  rw [start_closure hclosure, start_closure hclosure', h.size_eq, h.start_eq,
    h.addState_eq (Scratch.prepare_eq {} a.size ▸ rfl)]

theorem Settled.step_upToCircles (hm : m.Settled) (h : m.automaton.UpToCircles b) (c : Char) :
    { m with automaton := b }.step c = { m.step c with automaton := b } := by
  have hclosure' := h.simulation_eq.trans hm.closure
  rw [step_closure hm.closure, step_closure hclosure', h.gather_eq hm.ready.pending_eq]

/-- The two runs do the same, step by step, in the same storage. -/
theorem Settled.run_upToCircles (hm : m.Settled) (hrange : m.automaton.InRange)
    (h : m.automaton.UpToCircles b) (cs : List Char) :
    { m with automaton := b }.run cs = { m.run cs with automaton := b } := by
  induction cs generalizing m with
  | nil => rfl
  | cons c cs ih =>
    rw [run_cons, run_cons, hm.step_upToCircles h,
      ih (hm.step hrange c) (by simpa using hrange) (by simpa using h)]

theorem frontier_run_upToCircles (hrange : a.InRange) (h : a.UpToCircles b)
    (hclosure : a.simulation = .closure) (cs : List Char) :
    ((start b).run cs).frontier = ((start a).run cs).frontier := by
  have hsettled := settled_start hrange hclosure {}
  rw [start_upToCircles h hclosure,
    hsettled.run_upToCircles (by simpa using hrange) (by simpa using h)]
  rfl

end Matcher

/-! ## Two readers -/

namespace Draft

variable {d e : Draft}

theorem onward_link (d : Draft) {source : Nat} (hs : source < d.states.size) (symbol : Symbol)
    (target s : Nat) (x : Symbol) :
    (d.link source symbol target).automaton.onward s x
      = if s = source ∧ x = symbol ∧ ¬(x = .epsilon ∧ target = s)
        then d.automaton.onward s x ++ [target] else d.automaton.onward s x := by
  unfold Automaton.onward
  rw [targets_link d hs]
  by_cases hsource : s = source ∧ x = symbol
  · rw [if_pos hsource, List.filter_append, List.filter_singleton]
    by_cases hcircle : x = .epsilon ∧ target = s
    · rw [if_neg fun hall => hall.2.2 hcircle, decide_eq_false (not_not_intro hcircle), cond_false,
        List.append_nil]
    · rw [if_pos ⟨hsource.1, hsource.2, hcircle⟩, decide_eq_true hcircle, cond_true]
  · rw [if_neg hsource, if_neg fun hall => hsource ⟨hall.1, hall.2.1⟩]

/-- The drafts stand in the same place, and differ in circles at most. -/
structure UpToCircles (d e : Draft) : Prop where
  size_eq : e.states.size = d.states.size
  current_eq : e.current = d.current
  groups_eq : e.groups = d.groups
  onward_eq (s : Nat) (x : Symbol) : e.automaton.onward s x = d.automaton.onward s x

theorem UpToCircles.entry_eq (h : d.UpToCircles e) : e.entry = d.entry := by
  rw [entry, entry, h.groups_eq]

theorem UpToCircles.link (h : d.UpToCircles e) {s s' t t' : Nat} (hs : s < d.states.size)
    (hsource : s' = s) (htarget : t' = t) (x : Symbol) :
    (d.link s x t).UpToCircles (e.link s' x t') where
  size_eq := by rw [size_link, size_link, h.size_eq]
  current_eq := h.current_eq
  groups_eq := h.groups_eq
  onward_eq := by
    intro i y
    obtain rfl := hsource
    obtain rfl := htarget
    rw [onward_link d hs, onward_link e (h.size_eq ▸ hs), h.onward_eq]

theorem UpToCircles.push (h : d.UpToCircles e) (accepting : Bool) :
    { d with states := d.states.push { accepting } }.UpToCircles
      { e with states := e.states.push { accepting } } where
  size_eq := by rw [Array.size_push, Array.size_push, h.size_eq]
  current_eq := h.current_eq
  groups_eq := h.groups_eq
  onward_eq := by
    intro s x
    have hd := targets_push d { d with states := d.states.push { accepting } } rfl s x
    have he := targets_push e { e with states := e.states.push { accepting } } rfl s x
    unfold Automaton.onward
    rw [hd, he]
    exact h.onward_eq s x

theorem UpToCircles.sprout (h : d.UpToCircles e) (hd : d.Sound) (x : Symbol) (accepting : Bool) :
    (d.sprout x accepting).UpToCircles (e.sprout x accepting) := by
  have hcurrent : d.current < (d.states.push { accepting }).size := by
    rw [Array.size_push]
    exact Nat.lt_succ_of_lt hd.current_lt
  exact (h.push accepting).link hcurrent h.current_eq h.size_eq x

theorem UpToCircles.advance (h : d.UpToCircles e) (hd : d.Sound) (x : Symbol) (accepting : Bool) :
    (d.advance x accepting).UpToCircles (e.advance x accepting) :=
  ⟨(h.sprout hd x accepting).size_eq, h.size_eq, h.groups_eq, (h.sprout hd x accepting).onward_eq⟩

theorem lockstep_upToCircles : Lockstep UpToCircles where
  turn h := ⟨h.size_eq, h.current_eq, h.groups_eq, h.onward_eq⟩
  sprout x accepting hd _ h := h.sprout hd x accepting
  advance x accepting hd _ h := h.advance hd x accepting
  openGroup hd _ h :=
    ⟨(h.advance hd .epsilon true).size_eq, h.size_eq,
      by rw [h.current_eq, h.groups_eq], (h.advance hd .epsilon true).onward_eq⟩
  closeGroup _ _ h :=
    ⟨h.size_eq, h.entry_eq, congrArg List.tail h.groups_eq, h.onward_eq⟩
  forth hd _ h := h.link hd.entry_lt h.entry_eq h.current_eq .epsilon
  back hd _ h := h.link hd.current_lt h.current_eq h.entry_eq .epsilon

/-! ## The quantifier -/

/-- An edge from a state to itself is a circle. -/
theorem onward_link_self (d : Draft) {source : Nat} (hs : source < d.states.size) (s : Nat)
    (x : Symbol) :
    (d.link source .epsilon source).automaton.onward s x = d.automaton.onward s x := by
  rw [onward_link d hs, if_neg]
  rintro ⟨rfl, rfl, hne⟩
  exact hne ⟨rfl, rfl⟩

/-- Where the current state is the entry of the group, a quantifier makes circles. -/
theorem Sound.upToCircles_read (h : d.Sound) (hmode : d.mode = .plain)
    (hentry : d.entry = d.current) {c : Char} (hc : c ∈ ['?', '+', '*']) :
    d.UpToCircles (d.read c) := by
  have htied := h.tied_read hmode hc
  refine ⟨htied.size_eq, htied.returns.current_eq, htied.returns.groups_eq, ?_⟩
  intro s x
  simp only [List.mem_cons, List.not_mem_nil, or_false] at hc
  rcases hc with rfl | rfl | rfl
  · rw [automaton_of_states (states_read_optional hmode), hentry, onward_link_self,
      onward_link_self d h.current_lt]
    rw [size_link]
    exact h.current_lt
  · rw [automaton_of_states (states_read_plus hmode), hentry, onward_link_self d h.current_lt]
  · rw [automaton_of_states (states_read_star hmode), hentry, onward_link_self d h.current_lt]

end Draft

section

variable {u v : String} {x : Char} {a b : Automaton}
variable (hu : EndsOutside u.toList) (hx : x ∈ ['?', '+', '*'])
variable (hcurrent : (Draft.fresh.readAll u.toList).current = Draft.root)

include hu hx

theorem inStep_quantifier : (Draft.fresh.readAll u.toList).InStep
    (Draft.fresh.readAll (u ++ String.singleton x).toList) := by
  have hrun : QuantifierRun (String.singleton x).toList := by simpa [QuantifierRun] using hx
  have hstep := inStep_runs (r := "") (w := String.singleton x) hu (by decide) hrun
  rwa [String.append_empty] at hstep

include hcurrent

theorem compile_upToCircles {simulation : Simulation} (ha : compile (u ++ v) simulation = .ok a)
    (hb : compile (u ++ String.singleton x ++ v) simulation = .ok b) : a.UpToCircles b := by
  have hentry := (Draft.nested_readAll u.toList).entry_eq_root hcurrent
  have hread := (Draft.sound_fresh.readAll u.toList).upToCircles_read
    ((Draft.mode_readAll_iff u.toList).2 hu) (hentry.trans hcurrent.symm) hx
  have hstart : (Draft.fresh.readAll u.toList).UpToCircles
      (Draft.fresh.readAll (u ++ String.singleton x).toList) := by
    rw [Draft.readAll_toList_append, String.toList_singleton]
    exact hread
  have hsettled :=
    Draft.lockstep_upToCircles.settle_append (inStep_quantifier hu hx) hstart v
  rw [compile_eq_settle ha, compile_eq_settle hb]
  exact ⟨hsettled.size_eq, rfl, rfl, hsettled.onward_eq⟩

theorem isMatch_of_quantifier_at_root
    (hb : compile (u ++ String.singleton x ++ v) .singleHop = .ok b) (input : String) :
    b.isMatch input = true := by
  have hoccurs : Occurs x (u ++ String.singleton x ++ v).toList u.toList := by
    refine ⟨⟨v.toList, ?_⟩, hu⟩
    rw [String.toList_append, String.toList_append, String.toList_singleton, List.append_assoc]
    rfl
  have hloop := compile_loop hb (Draft.mem_targets_root hoccurs hx hcurrent)
  have hsimulation : b.simulation = .singleHop := (compile_eq_ok.1 hb).2.2
  exact Automaton.isMatch_of_loop (compile_inRange hb) hsimulation hloop
    (compile_isAccepting_start hb) input

end

/-! ## The law -/

/-- A quantifier may be put into a pattern wherever the root is the current state, and the pattern
compiles as before. A single hop run accepts every input then. A closure run cannot tell: after any
characters it stands in the same states, in the same order. -/
theorem a_quantifier_at_the_root_accepts_all_or_does_nothing {u v : String} {x : Char}
    {simulation : Simulation} {a : Automaton} (hu : EndsOutside u.toList)
    (hcurrent : (Draft.fresh.readAll u.toList).current = Draft.root) (hx : x ∈ ['?', '+', '*'])
    (h : compile (u ++ v) simulation = .ok a) :
    ∃ b, compile (u ++ String.singleton x ++ v) simulation = .ok b
      ∧ (simulation = .singleHop → ∀ input, b.isMatch input = true)
      ∧ (simulation = .closure → ∀ cs : List Char,
          ((Matcher.start b).run cs).frontier = ((Matcher.start a).run cs).frontier) := by
  obtain ⟨b, hb⟩ := ((inStep_quantifier hu hx).append v).exists_compile h
  refine ⟨b, hb, ?_, ?_⟩
  · rintro rfl
    exact isMatch_of_quantifier_at_root hu hx hcurrent hb
  · rintro rfl
    exact Matcher.frontier_run_upToCircles (compile_inRange h)
      (compile_upToCircles hu hx hcurrent h hb) (compile_eq_ok.1 h).2.2

/-- The first `)` closes nothing, and the second one a group that was opened at the root. The rest
of the pattern ties the root to itself once more, and to other states. -/
theorem a_question_mark_after_a_group_at_the_root :
    (∃ b, compile ("a)(b)" ++ String.singleton '?' ++ "+(c*d") .singleHop = .ok b
      ∧ b.targets 0 .epsilon = [2, 0, 0, 0, 4, 5] ∧ ∀ input, b.isMatch input = true)
    ∧ ∃ a b, compile ("a)(b)" ++ "+(c*d") .closure = .ok a
      ∧ compile ("a)(b)" ++ String.singleton '?' ++ "+(c*d") .closure = .ok b
      ∧ a.targets 0 .epsilon = [2, 0, 4, 5] ∧ b.targets 0 .epsilon = [2, 0, 0, 0, 4, 5]
      ∧ a.isMatch "z" = false
      ∧ ∀ cs : List Char,
          ((Matcher.start b).run cs).frontier = ((Matcher.start a).run cs).frontier := by
  have hu : EndsOutside "a)(b)".toList := (Draft.mode_readAll_iff _).1 rfl
  have hlaw := @a_quantifier_at_the_root_accepts_all_or_does_nothing "a)(b)" "+(c*d" '?'
  refine ⟨?_, ?_⟩
  · have ha : compile ("a)(b)" ++ "+(c*d") .singleHop = .ok _ := rfl
    obtain ⟨b, hb, hall, -⟩ := hlaw hu (by decide +kernel) (by decide) ha
    have hshape : compile ("a)(b)" ++ String.singleton '?' ++ "+(c*d") .singleHop = .ok _ := rfl
    obtain rfl := Except.ok.inj (hshape.symm.trans hb)
    exact ⟨_, hb, by decide +kernel, hall rfl⟩
  · have ha : compile ("a)(b)" ++ "+(c*d") .closure = .ok _ := rfl
    obtain ⟨b, hb, -, hsame⟩ := hlaw hu (by decide +kernel) (by decide) ha
    have hshape : compile ("a)(b)" ++ String.singleton '?' ++ "+(c*d") .closure = .ok _ := rfl
    obtain rfl := Except.ok.inj (hshape.symm.trans hb)
    exact ⟨_, _, ha, hb, by decide +kernel, by decide +kernel, by decide +kernel, hsame rfl⟩

end PatternNFA
