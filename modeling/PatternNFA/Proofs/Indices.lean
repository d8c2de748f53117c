-- Looking up states. A search and a run that stop at a number with no state behind it, or with no
-- place in the table of stamps, never stop: in the frontier, on the worklist and at the ends of the
-- edges there are nothing but states. What the storage has served for before makes no difference.
import PatternNFA.Proofs.ClosureRuns
import PatternNFA.Proofs.HopRuns
import PatternNFA.Proofs.Liveness
import PatternNFA.Proofs.Numbers

namespace PatternNFA

/-! ## Folds that may stop -/

/-- A fold does not stop if an invariant keeps each of its steps from stopping. -/
theorem foldlM_eq_some {α β : Type} {step? : β → α → Option β} {step : β → α → β} {P : β → Prop}
    {l : List α} {b : β} (hb : P b)
    (hstep : ∀ x ∈ l, ∀ b, P b → step? b x = some (step b x) ∧ P (step b x)) :
    l.foldlM step? b = some (l.foldl step b) := by
  induction l generalizing b with
  | nil => rfl
  | cons x l ih =>
    obtain ⟨hfirst, hnext⟩ := hstep x List.mem_cons_self b hb
    rw [List.foldlM_cons, hfirst, List.foldl_cons]
    exact ih hnext fun y hy => hstep y (List.mem_cons_of_mem x hy)

theorem anyM_eq_some {α : Type} {p? : α → Option Bool} {p : α → Bool} {l : List α}
    (h : ∀ x ∈ l, p? x = some (p x)) : l.anyM p? = some (l.any p) := by
  induction l with
  | nil => rfl
  | cons x l ih =>
    have hrest := ih fun y hy => h y (List.mem_cons_of_mem x hy)
    rw [List.anyM, h x List.mem_cons_self, List.any_cons]
    cases p x with
    | true => rfl
    | false => exact hrest

namespace Automaton

variable {a : Automaton}

/-! ## States that may not be there -/

def edges? (a : Automaton) (s : Nat) : Option (List (Symbol × Nat)) :=
  a.states[s]?.map fun state => state.transitions.edges

def targets? (a : Automaton) (s : Nat) (symbol : Symbol) : Option (List Nat) :=
  a.states[s]?.map fun state => (state.transitions.targets symbol).toList

def isAccepting? (a : Automaton) (s : Nat) : Option Bool :=
  a.states[s]?.map fun state => state.accepting

theorem edges?_eq {s : Nat} (h : s < a.size) : a.edges? s = some (a.edges s) := by
  have hstate : a.states[s]? = some a.states[s] := Array.getElem?_eq_getElem h
  simp only [edges?, edges, hstate, Option.map_some]

theorem targets?_eq {s : Nat} (h : s < a.size) (symbol : Symbol) :
    a.targets? s symbol = some (a.targets s symbol) := by
  have hstate : a.states[s]? = some a.states[s] := Array.getElem?_eq_getElem h
  simp only [targets?, targets, hstate, Option.map_some]

theorem eq_targets_of_targets? {s : Nat} {symbol : Symbol} {found : List Nat}
    (h : a.targets? s symbol = some found) : found = a.targets s symbol := by
  obtain ⟨state, hstate, rfl⟩ := Option.map_eq_some_iff.1 h
  simp only [targets, hstate]

theorem isAccepting?_eq {s : Nat} (h : s < a.size) :
    a.isAccepting? s = some (a.isAccepting s) := by
  have hstate : a.states[s]? = some a.states[s] := Array.getElem?_eq_getElem h
  simp only [isAccepting?, isAccepting, hstate, Option.map_some]

def hopTargets? (a : Automaton) (c : Char) (s : Nat) : Option (List Nat) :=
  (a.targets? s (.char c)).bind fun onChar =>
    (a.targets? s .epsilon).map fun onEpsilon => onChar ++ onEpsilon

theorem hopTargets?_eq {s : Nat} (h : s < a.size) (c : Char) :
    a.hopTargets? c s = some (a.hopTargets c s) := by
  rw [hopTargets?, targets?_eq h, targets?_eq h, Option.bind_some, Option.map_some, hopTargets]

/-! ## The search -/

/-- Stops at a number that has no mark, or no state behind it. -/
def explore? (a : Automaton) (visited : Array Bool) (found : Array Nat) :
    List Nat → Option (Array Nat)
  | [] => some found
  | s :: pending =>
    if h : s < visited.size then
      if hs : visited[s] = false then
        (a.edges? s).bind fun edges =>
          explore? a (visited.set s true) (found.push s) (edges.map (·.2) ++ pending)
      else explore? a visited found pending
    else none
termination_by pending => (visited.count false, pending.length)
decreasing_by
  · exact Prod.Lex.left _ _ (count_visit_lt h hs)
  · exact Prod.Lex.right _ (by simp)

def live? (a : Automaton) : Option (List Nat) :=
  (a.explore? (Array.replicate a.size false) #[] [a.start]).map fun found => found.toList

theorem Explored.explore?_eq {visited : Array Bool} {found : Array Nat} {pending : List Nat}
    (hrange : a.InRange) (h : Explored a visited found pending) :
    a.explore? visited found pending = some (a.explore visited found pending) := by
  fun_induction Automaton.explore a visited found pending with
  | case1 visited found => rw [explore?]
  | case2 visited found s pending hs hfresh ih =>
    have hedges := edges?_eq (h.size_eq ▸ hs)
    rw [explore?, dif_pos hs, dif_pos hfresh, hedges, Option.bind_some, ih (h.push hs hfresh)]
  | case3 visited found s pending hs hvisited ih =>
    have hfound := (h.visited_iff s hs).1 (by simpa using hvisited)
    rw [explore?, dif_pos hs, dif_neg hvisited, ih (h.skip hfound)]
  | case4 visited found s pending hs ih =>
    have hlt := hrange.reaches_lt hrange.start_lt (h.reached s (by simp))
    exact absurd (h.size_eq ▸ hlt) hs

theorem live?_eq (hrange : a.InRange) : a.live? = some a.live := by
  rw [live?, (explored_start a).explore?_eq hrange, Option.map_some, live]

end Automaton

namespace Scratch

variable {a : Automaton} {generation : Nat} {scratch : Scratch}

/-! ## One generation of the closure simulation -/

/-- Stops if the table has no stamp for the state. -/
def claim? (generation s : Nat) (scratch : Scratch) : Option Scratch :=
  if s < scratch.stamps.size then some (claim generation s scratch) else none

def claimAll? (generation : Nat) (targets : List Nat) (scratch : Scratch) : Option Scratch :=
  targets.foldrM (claim? generation) scratch

def turn? (a : Automaton) (generation : Nat) (scratch : Scratch) : Option Scratch :=
  match scratch with
  | { current, next, stamps, pending := s :: pending } =>
    (a.targets? s .epsilon).bind fun targets =>
      claimAll? generation targets { current, next := next.push s, stamps, pending }
  | scratch => some scratch

theorem claimAll?_cons (generation t : Nat) (rest : List Nat) (scratch : Scratch) :
    claimAll? generation (t :: rest) scratch
      = (claimAll? generation rest scratch).bind (claim? generation t) := List.foldrM_cons

theorem claimAll?_eq {targets : List Nat} (h : ∀ t ∈ targets, t < scratch.stamps.size) :
    claimAll? generation targets scratch = some (claimAll generation targets scratch) := by
  induction targets with
  | nil => rfl
  | cons t rest ih =>
    have ht : t < (claimAll generation rest scratch).stamps.size := by
      rw [size_stamps_claimAll]
      exact h t List.mem_cons_self
    rw [claimAll?_cons, ih fun u hu => h u (List.mem_cons_of_mem t hu), Option.bind_some, claim?,
      if_pos ht, claimAll_cons]

/-- If the claims do not stop, they do what they should. -/
theorem eq_claimAll_of_claimAll? {targets : List Nat} {found : Scratch}
    (h : claimAll? generation targets scratch = some found) :
    found = claimAll generation targets scratch := by
  induction targets generalizing found with
  | nil => exact (Option.some.inj h).symm
  | cons t rest ih =>
    rw [claimAll?_cons] at h
    obtain ⟨between, hrest, hfirst⟩ := Option.bind_eq_some_iff.1 h
    rw [claim?] at hfirst
    split at hfirst
    · rw [claimAll_cons, ← ih hrest]
      exact (Option.some.inj hfirst).symm
    · cases hfirst

theorem eq_turn_of_turn? {found : Scratch} (h : turn? a generation scratch = some found) :
    found = turn a generation scratch := by
  obtain ⟨current, next, stamps, pending⟩ := scratch
  cases pending with
  | nil => exact (Option.some.inj h).symm
  | cons s pending =>
    obtain ⟨targets, htargets, hclaims⟩ := Option.bind_eq_some_iff.1 h
    rw [eq_claimAll_of_claimAll? hclaims, Automaton.eq_targets_of_targets? htargets, turn]

/-- Takes turns until nothing is pending, or one of them stops. -/
def walk? (a : Automaton) (generation : Nat) (scratch : Scratch) : Option Scratch :=
  if scratch.pending = [] then some scratch
  else
    match _ : turn? a generation scratch with
    | some next => walk? a generation next
    | none => none
termination_by turnsLeft generation scratch
decreasing_by
  have hturn := turnsLeft_turn a generation ‹_›
  rw [← eq_turn_of_turn? ‹_›] at hturn
  omega

def addState? (a : Automaton) (generation : Nat) (scratch : Scratch) (s : Nat) : Option Scratch :=
  if s < scratch.stamps.size then
    if isUnclaimed generation scratch s then walk? a generation (claim generation s scratch)
    else some scratch
  else none

def gather? (a : Automaton) (generation : Nat) (c : Char) (scratch : Scratch) : Option Scratch :=
  scratch.current.toList.foldlM
    (fun scratch s =>
      (a.targets? s (.char c)).bind fun targets => targets.foldlM (addState? a generation) scratch)
    scratch.clear

theorem Sweep.turn?_eq (hrange : a.InRange) {sources : List Nat}
    (h : Sweep a generation sources scratch) :
    turn? a generation scratch = some (Scratch.turn a generation scratch) := by
  have hsize := h.size_eq
  have htaken := h.taken_lt
  obtain ⟨current, next, stamps, pending⟩ := scratch
  cases pending with
  | nil => rfl
  | cons s pending =>
    have hs : s < a.size := htaken s (List.mem_append_right _ List.mem_cons_self)
    have hclaims : ∀ t ∈ a.targets s .epsilon, t < stamps.size :=
      fun t ht => Nat.lt_of_lt_of_eq (hrange.target_lt ht) hsize.symm
    rw [turn?, Automaton.targets?_eq hs, Option.bind_some, claimAll?_eq hclaims, Scratch.turn]

/-- The worklist holds nothing but states, and the table has a stamp for each. -/
theorem Sweep.walk?_eq (hrange : a.InRange) {sources : List Nat}
    (h : Sweep a generation sources scratch) :
    walk? a generation scratch = some (walk a generation scratch) := by
  fun_induction walk a generation scratch with
  | case1 scratch hpending => rw [walk?, if_pos hpending]
  | case2 scratch hpending ih =>
    have hturn := h.turn?_eq hrange
    rw [walk?, if_neg hpending]
    split
    · rename_i next hnext
      obtain rfl := Option.some.inj (hturn.symm.trans hnext)
      exact ih (h.turn hrange hpending)
    · rename_i hstop
      rw [hturn] at hstop
      cases hstop

theorem Sweep.addState?_eq (hrange : a.InRange) {sources : List Nat}
    (h : Sweep a generation sources scratch) {s : Nat} (hs : s ∈ sources) (hlt : s < a.size) :
    addState? a generation scratch s = some (Scratch.addState a generation scratch s) := by
  unfold addState? Scratch.addState
  rw [if_pos (h.size_eq ▸ hlt)]
  split
  · rename_i hfree
    exact (h.claim hfree ⟨s, hs, .refl⟩).walk?_eq hrange
  · rfl

/-- A step meets the states of the frontier, and what their edges lead to. -/
theorem Ready.gather?_eq (hrange : a.InRange) (h : Ready a generation scratch)
    (hcurrent : ∀ s ∈ scratch.current.toList, s < a.size) (c : Char) :
    gather? a generation c scratch = some (gather a generation c scratch) := by
  have hsweep := h.sweep (scratch.current.toList.flatMap (a.targets · (.char c)))
  rw [gather?, gather, ← Array.foldl_toList]
  apply foldlM_eq_some hsweep
  intro s hs scratch' hsweep'
  have hadded : ∀ t ∈ a.targets s (.char c),
      t ∈ scratch.current.toList.flatMap (a.targets · (.char c)) ∧ t < a.size :=
    fun t ht => ⟨List.mem_flatMap.2 ⟨s, hs, ht⟩, hrange.target_lt ht⟩
  refine ⟨?_, (hsweep'.foldl_addState hrange hadded).1⟩
  rw [Automaton.targets?_eq (hcurrent s hs), Option.bind_some]
  apply foldlM_eq_some hsweep'
  intro t ht scratch'' hsweep''
  obtain ⟨hsource, hlt⟩ := hadded t ht
  exact ⟨hsweep''.addState?_eq hrange hsource hlt, hsweep''.addState hrange hsource⟩

/-! ## One hop -/

/-- Stops if there is no state behind a number of the frontier. -/
def hop? (a : Automaton) (c : Char) (scratch : Scratch) : Option Scratch :=
  (scratch.current.toList.foldlM
    (fun (next : Array Nat) s =>
      (a.hopTargets? c s).map fun (targets : List Nat) => next ++ targets)
    scratch.clear.next).map fun next => { scratch with next }

theorem hop?_eq (hcurrent : ∀ s ∈ scratch.current.toList, s < a.size) (c : Char) :
    scratch.hop? a c = some (scratch.hop a c) := by
  have hfold : scratch.current.toList.foldlM
      (fun (next : Array Nat) s =>
      (a.hopTargets? c s).map fun (targets : List Nat) => next ++ targets)
      scratch.clear.next
      = some (scratch.current.toList.foldl (fun (next : Array Nat) s => next ++ a.hopTargets c s)
          scratch.clear.next) := by
    apply foldlM_eq_some (P := fun _ => True) trivial
    intro s hs next _
    rw [Automaton.hopTargets?_eq (hcurrent s hs), Option.map_some]
    exact ⟨rfl, trivial⟩
  rw [hop?, hfold, Option.map_some, hop, ← Array.foldl_toList]

end Scratch

namespace Matcher

variable {a : Automaton} {m : Matcher}

/-! ## A run -/

def start? (a : Automaton) (scratch : Scratch) : Option Matcher :=
  let scratch := scratch.prepare a.size
  match a.simulation with
  | .singleHop => some
    { automaton := a, generation := 1
      scratch := { scratch with current := scratch.current.push a.start } }
  | .closure => (scratch.addState? a 1 a.start).map fun filled =>
    { automaton := a, generation := 2, scratch := filled.swap }

def step? : Matcher → Char → Option Matcher
  | { automaton := a, generation, scratch }, c =>
    match a.simulation with
    | .singleHop => (scratch.hop? a c).map fun filled =>
      { automaton := a, generation, scratch := filled.swap }
    | .closure => (scratch.gather? a generation c).map fun filled =>
      { automaton := a, generation := generation + 1, scratch := filled.swap }

def run? (m : Matcher) (cs : List Char) : Option Matcher := cs.foldlM step? m

/-- Looks at the states of the frontier up to the first that accepts. -/
def isAccepting? (m : Matcher) : Option Bool := m.frontier.anyM m.automaton.isAccepting?

/-- The matcher stands in states of its automaton, and has a stamp for each state. -/
structure InRange (m : Matcher) : Prop where
  automaton : m.automaton.InRange
  frontier_lt : ∀ s ∈ m.frontier, s < m.automaton.size
  size_stamps : m.scratch.stamps.size = m.automaton.size
  settled : m.automaton.simulation = .closure → m.Settled

theorem inRange_start (hrange : a.InRange) (scratch : Scratch) : (start a scratch).InRange := by
  have hautomaton := automaton_start a scratch
  cases h : a.simulation with
  | singleHop =>
    refine ⟨by rwa [hautomaton], ?_, ?_, ?_⟩
    · rw [frontier_start_singleHop h scratch, hautomaton]
      intro s hs
      exact List.mem_singleton.1 hs ▸ hrange.start_lt
    · simp [start, h, Scratch.unused, Automaton.size]
    · rw [hautomaton, h]
      intro hclosure
      cases hclosure
  | closure =>
    have hsettled := settled_start hrange h scratch
    refine ⟨by rwa [hautomaton], ?_, hsettled.ready.size_eq, fun _ => hsettled⟩
    intro s hs
    rw [hautomaton]
    exact hrange.glides_lt hrange.start_lt ((mem_frontier_start hrange h scratch s).1 hs)

theorem InRange.step (h : m.InRange) (c : Char) : (m.step c).InRange := by
  have hautomaton := automaton_step m c
  cases hsimulation : m.automaton.simulation with
  | singleHop =>
    refine ⟨hautomaton.symm ▸ h.automaton, ?_, ?_, ?_⟩
    · rw [frontier_step_singleHop hsimulation, hautomaton]
      intro t ht
      obtain ⟨s, -, ht⟩ := List.mem_flatMap.1 ht
      rcases List.mem_append.1 ht with ht | ht
      · exact h.automaton.target_lt ht
      · exact h.automaton.target_lt ht
    · have hsize := h.size_stamps
      obtain ⟨a, generation, scratch⟩ := m
      have hsimulation : a.simulation = .singleHop := hsimulation
      simp only [Matcher.step, hsimulation]
      exact hsize
    · rw [hautomaton, hsimulation]
      intro hclosure
      cases hclosure
  | closure =>
    have hsettled := h.settled hsimulation
    have hnext := hsettled.step h.automaton c
    refine ⟨hautomaton.symm ▸ h.automaton, ?_, hnext.ready.size_eq, fun _ => hnext⟩
    intro q hq
    obtain ⟨s, -, t, ht, hglides⟩ := (hsettled.mem_frontier_step h.automaton c q).1 hq
    rw [hautomaton]
    exact h.automaton.glides_lt (h.automaton.target_lt ht) hglides

theorem InRange.run (h : m.InRange) (cs : List Char) : (m.run cs).InRange := by
  induction cs generalizing m with
  | nil => exact h
  | cons c cs ih => exact ih (h.step c)

/-! ## The run does not stop -/

theorem start?_eq (hrange : a.InRange) (scratch : Scratch) :
    start? a scratch = some (start a scratch) := by
  cases hsimulation : a.simulation with
  | singleHop => simp only [start?, start, hsimulation]
  | closure =>
    have hready := ready_unused a
    have hsweep : Scratch.Sweep a 1 [a.start] (Scratch.unused a.size) := hready.sweep [a.start]
    have hadd := hsweep.addState?_eq hrange List.mem_cons_self hrange.start_lt
    simp only [start?, start, hsimulation, Scratch.prepare_eq, hadd, Option.map_some]

theorem InRange.step?_eq (h : m.InRange) (c : Char) : m.step? c = some (m.step c) := by
  obtain ⟨a, generation, scratch⟩ := m
  cases hsimulation : a.simulation with
  | singleHop =>
    have hhop := Scratch.hop?_eq h.frontier_lt c
    simp only [step?, Matcher.step, hsimulation, hhop, Option.map_some]
  | closure =>
    have hgather := (h.settled hsimulation).ready.gather?_eq h.automaton h.frontier_lt c
    simp only [step?, Matcher.step, hsimulation, hgather, Option.map_some]

theorem InRange.run?_eq (h : m.InRange) (cs : List Char) : m.run? cs = some (m.run cs) :=
  foldlM_eq_some h fun c _ _ hm => ⟨hm.step?_eq c, hm.step c⟩

theorem InRange.isAccepting?_eq (h : m.InRange) : m.isAccepting? = some m.isAccepting :=
  anyM_eq_some fun s hs => Automaton.isAccepting?_eq (h.frontier_lt s hs)

end Matcher

/-! ## The law -/

/-- Let a pattern be no longer than the largest word. Then each state has a number that a word can
hold, and at any time while the pattern is read, all that refers to a state refers to one that is
there. So the builder does not stop, and neither does the search for the live states, nor a run over
any input, in any storage. -/
theorem every_number_is_that_of_a_state {pattern : String} (h : pattern.length ≤ 2 ^ 32 - 1) :
    (∀ before, before <+: pattern.toList →
      let d := Draft.fresh.readAll before
      Draft.fresh.readAll? before = some d
      ∧ (∀ q < d.states.size, word q = q)
      ∧ d.current < d.states.size
      ∧ (∀ q ∈ d.groups, q < d.states.size)
      ∧ ∀ {q symbol t}, t ∈ d.automaton.targets q symbol → t < d.states.size)
    ∧ (∀ b : Builder, b.build? pattern = some (b.build pattern))
    ∧ ∀ {simulation a}, compile pattern simulation = .ok a →
      a.InRange
      ∧ (∀ q < a.size, word q = q)
      ∧ a.live? = some a.live
      ∧ ∀ (scratch : Scratch) (cs : List Char),
        let m := (Matcher.start a scratch).run cs
        ((Matcher.start? a scratch).bind fun m => m.run? cs) = some m
        ∧ m.isAccepting? = some m.isAccepting
        ∧ (∀ q ∈ m.frontier, q < a.size)
        ∧ m.scratch.stamps.size = a.size := by
  refine ⟨?_, build?_eq h, ?_⟩
  · rintro before hbefore d
    have hsound := Draft.sound_fresh.readAll before
    have hsize := Nat.le_trans d.size_le_pledged (pledged_readAll_fresh h hbefore)
    exact ⟨readAll?_fresh h hbefore, fun q hq => word_eq (by omega), hsound.current_lt,
      hsound.groups_lt, hsound.target_lt⟩
  · intro simulation a ha
    have hrange := compile_inRange ha
    have hsize := compile_size_le h ha
    refine ⟨hrange, fun q hq => word_eq (by omega), Automaton.live?_eq hrange, ?_⟩
    intro scratch cs m
    have hstart := Matcher.inRange_start hrange scratch
    have hm : m.InRange := hstart.run cs
    have hautomaton : m.automaton = a := by simp [m]
    refine ⟨?_, hm.isAccepting?_eq, ?_, ?_⟩
    · rw [Matcher.start?_eq hrange, Option.bind_some, hstart.run?_eq]
    · exact hautomaton ▸ hm.frontier_lt
    · exact hautomaton ▸ hm.size_stamps

/-- A run in what a longer pattern has left behind. The table had nine stamps, and has seven now. -/
theorem a_run_in_the_storage_of_a_larger_automaton :
    ∃ a b, compile "(a|[^b" .closure = .ok a ∧ compile "abcdefgh" .closure = .ok b
      ∧ a.live? = some a.live
      ∧ let left := ((Matcher.start b).run ['a', 'b']).release
        let outcome := (Matcher.start? a left).bind fun m => m.run? ['a', 'b']
        left.stamps.size = 9
        ∧ (outcome.map fun m => m.scratch.stamps.size) = some 7
        ∧ outcome.map Matcher.frontier = some [5]
        ∧ (outcome.bind Matcher.isAccepting?) = some true := by
  have hlength : "(a|[^b".length ≤ 2 ^ 32 - 1 := by decide
  obtain ⟨-, -, hruns⟩ := every_number_is_that_of_a_state hlength
  have ha : compile "(a|[^b" .closure = .ok _ := rfl
  have hb : compile "abcdefgh" .closure = .ok _ := rfl
  obtain ⟨-, -, hlive, hrun⟩ := hruns ha
  refine ⟨_, _, ha, hb, hlive, ?_⟩
  intro left outcome
  obtain ⟨houtcome, haccepting, -, hstamps⟩ := hrun left ['a', 'b']
  have houtcome : outcome = some _ := houtcome
  refine ⟨by decide +kernel, ?_, ?_, ?_⟩
  · rw [houtcome, Option.map_some, hstamps]
    rfl
  · rw [houtcome, Option.map_some]
    decide +kernel
  · rw [houtcome, Option.bind_some, haccepting]
    decide +kernel

end PatternNFA
