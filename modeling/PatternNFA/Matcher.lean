-- Running an automaton over an input, one character at a time. The frontier is
-- the list of the states that the run stands in. An input is accepted if a
-- state of the last frontier accepts. The scratch storage is handed from one
-- run to the next, and no run can tell.
import PatternNFA.Matcher.Closure
import PatternNFA.Log

namespace PatternNFA

/-! ## One hop -/

/-- The targets of one hop from a state: those on the character, then the epsilon targets. -/
def Automaton.hopTargets (a : Automaton) (c : Char) (s : Nat) : List Nat :=
  a.targets s (.char c) ++ a.targets s .epsilon

/-- Each state of the frontier gives its targets, in order, and duplicates stay. -/
def Scratch.hop (a : Automaton) (c : Char) (scratch : Scratch) : Scratch :=
  { scratch with
    next := scratch.current.foldl (fun next s => next ++ a.hopTargets c s) scratch.clear.next }

theorem Scratch.next_hop (a : Automaton) (c : Char) (scratch : Scratch) :
    (scratch.hop a c).next.toList = scratch.current.toList.flatMap (a.hopTargets c) := by
  have hlist : scratch.current.toList.foldl (fun next s => next ++ a.hopTargets c s) []
      = (scratch.current.toList.foldl
          (fun (next : Array Nat) s => next ++ a.hopTargets c s) #[]).toList :=
    List.foldl_hom Array.toList fun _ _ => Array.toList_appendList.symm
  simp only [hop, next_clear, ← Array.foldl_toList]
  rw [← hlist, List.foldl_append_eq_append, List.flatMap_def, List.nil_append]

/-! ## The matcher -/

structure Matcher where
  automaton : Automaton
  /-- The number of the next closure step. Stamps are 0 before the first, which is 1. -/
  generation : Nat
  scratch : Scratch

namespace Matcher

/-- The states that the run stands in, in the order in which they were added. -/
def frontier (m : Matcher) : List Nat := m.scratch.current.toList

/-- A matcher that has read nothing yet. -/
def start (a : Automaton) (scratch : Scratch := {}) : Matcher :=
  let scratch := scratch.prepare a.size
  match a.simulation with
  | .singleHop =>
    { automaton := a, generation := 1
      scratch := { scratch with current := scratch.current.push a.start } }
  | .closure =>
    { automaton := a, generation := 2, scratch := (scratch.addState a 1 a.start).swap }

def step : Matcher → Char → Matcher
  | { automaton := a, generation, scratch }, c =>
    match a.simulation with
    | .singleHop => { automaton := a, generation, scratch := (scratch.hop a c).swap }
    | .closure =>
      { automaton := a, generation := generation + 1
        scratch := (scratch.gather a generation c).swap }

/-- Reads all the characters, also those after the frontier has died. -/
def run (m : Matcher) (cs : List Char) : Matcher := cs.foldl step m

/-- No state is left, and no further input can be accepted. -/
def isDead (m : Matcher) : Bool := m.scratch.current.isEmpty

/-- What has been read so far is accepted. -/
def isAccepting (m : Matcher) : Bool := m.frontier.any m.automaton.isAccepting

/-- What the run leaves for the next, wherever it has stopped. -/
def release (m : Matcher) : Scratch := m.scratch

@[simp]
theorem run_nil (m : Matcher) : m.run [] = m := rfl

@[simp]
theorem run_cons (m : Matcher) (c : Char) (cs : List Char) : m.run (c :: cs) = (m.step c).run cs :=
  rfl

theorem run_append (m : Matcher) (cs rest : List Char) :
    m.run (cs ++ rest) = (m.run cs).run rest := List.foldl_append

@[simp]
theorem automaton_start (a : Automaton) (scratch : Scratch) :
    (start a scratch).automaton = a := by
  simp only [start]
  split <;> rfl

@[simp]
theorem automaton_step (m : Matcher) (c : Char) : (m.step c).automaton = m.automaton := by
  cases m
  simp only [step]
  split <;> rfl

@[simp]
theorem automaton_run (m : Matcher) (cs : List Char) : (m.run cs).automaton = m.automaton := by
  induction cs generalizing m with
  | nil => rfl
  | cons c cs ih => rw [run_cons, ih, automaton_step]

theorem isDead_iff (m : Matcher) : m.isDead = true ↔ m.frontier = [] := by
  simp [isDead, frontier]

/-- A dead frontier stays dead. -/
theorem frontier_step_of_dead {m : Matcher} (h : m.frontier = []) (c : Char) :
    (m.step c).frontier = [] := by
  obtain ⟨a, generation, scratch⟩ := m
  have hnone : scratch.current = #[] := by simpa [frontier] using h
  simp only [step]
  split
  · simp [frontier, Scratch.next_hop, hnone]
  · simp [frontier, Scratch.gather, hnone]

theorem frontier_run_of_dead {m : Matcher} (h : m.frontier = []) (cs : List Char) :
    (m.run cs).frontier = [] := by
  induction cs generalizing m with
  | nil => exact h
  | cons c cs ih => exact ih (frontier_step_of_dead h c)

/-! ## The verdict -/

/-- Reads on until the frontier is dead or the input ends, and notes each step. -/
def verdict (m : Matcher) (log : Array Event) : List Char → Bool × Array Event
  | [] => (m.isAccepting, log)
  | c :: rest =>
    if m.isDead then (false, log)
    else
      let next := m.step c
      next.verdict (log.push (.stepped c next.scratch.current.size)) rest

/-- To stop at a dead frontier changes no verdict. -/
theorem verdict_eq (m : Matcher) (log : Array Event) (cs : List Char) :
    (m.verdict log cs).1 = (m.run cs).isAccepting := by
  induction cs generalizing m log with
  | nil => rfl
  | cons c rest ih =>
    simp only [verdict]
    split
    · rename_i hdead
      have hend := frontier_run_of_dead ((isDead_iff m).1 hdead) (c :: rest)
      simp only [isAccepting, hend, List.any_nil]
    · exact ih _ _

end Matcher

namespace Automaton

/-- The verdict on an input, and the steps taken to reach it. -/
def isMatchLogged (a : Automaton) (input : String) : Bool × Array Event :=
  (Matcher.start a).verdict #[] input.toList

def isMatch (a : Automaton) (input : String) : Bool := (a.isMatchLogged input).1

theorem isMatch_eq (a : Automaton) (input : String) :
    a.isMatch input = ((Matcher.start a).run input.toList).isAccepting := Matcher.verdict_eq _ _ _

/-- An input matches if a state of the last frontier accepts. -/
theorem isMatch_iff (a : Automaton) (input : String) :
    a.isMatch input = true
      ↔ ∃ q ∈ ((Matcher.start a).run input.toList).frontier, a.isAccepting q = true := by
  simp [isMatch_eq, Matcher.isAccepting]

end Automaton

end PatternNFA
