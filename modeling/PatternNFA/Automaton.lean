-- The automaton: states numbered in the order of their creation, a start
-- state, and the way in which it is to be simulated. A number with no state
-- behind it has no edges and does not accept.
import PatternNFA.Transitions

namespace PatternNFA

structure State where
  accepting : Bool
  transitions : Transitions := .empty

/-- How a frontier moves over one character. -/
inductive Simulation where
  /-- Each state gives its targets on the character, then its epsilon targets. Epsilon
  edges are followed one hop deep, in the same step, and duplicates stay. -/
  | singleHop
  /-- The frontier is closed under epsilon edges and holds no state twice. -/
  | closure
  deriving DecidableEq

def Simulation.name : Simulation → String
  | .singleHop => "SingleHop"
  | .closure => "Closure"

structure Automaton where
  states : Array State
  start : Nat
  simulation : Simulation

namespace Automaton

def size (a : Automaton) : Nat := a.states.size

/-- The edges that leave a state, in the order of its transitions. -/
def edges (a : Automaton) (s : Nat) : List (Symbol × Nat) :=
  match a.states[s]? with
  | some state => state.transitions.edges
  | none => []

/-- The targets of a state on a symbol, oldest first. -/
def targets (a : Automaton) (s : Nat) (symbol : Symbol) : List Nat :=
  match a.states[s]? with
  | some state => (state.transitions.targets symbol).toList
  | none => []

def isAccepting (a : Automaton) (s : Nat) : Bool :=
  match a.states[s]? with
  | some state => state.accepting
  | none => false

/-- The targets on a symbol are those of the edges that bear it, in the same order. -/
theorem targets_eq (a : Automaton) (s : Nat) (symbol : Symbol) :
    a.targets s symbol = ((a.edges s).filter (·.1 = symbol)).map (·.2) := by
  unfold targets edges
  split
  · exact Transitions.toList_targets _ _
  · rfl

theorem mem_edges {a : Automaton} {s : Nat} {symbol : Symbol} {t : Nat} :
    (symbol, t) ∈ a.edges s ↔ t ∈ a.targets s symbol := by
  rw [targets_eq]
  simp

end Automaton

end PatternNFA
