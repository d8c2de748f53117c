-- The live states: those that can be reached from the start along any edges,
-- listed in the order of a depth-first search that tries the edges of a state
-- in order. No other state can ever enter a frontier.
import PatternNFA.Automaton

namespace PatternNFA

namespace Automaton

/-! ## The search -/

/-- Visiting a state that had not been visited leaves one fewer to visit. -/
theorem count_visit_lt {visited : Array Bool} {s : Nat} (h : s < visited.size)
    (hs : visited[s] = false) :
    (visited.set s true).count false < visited.count false := by
  have hpos : 0 < visited.count false := Array.count_pos_iff.2 (hs ▸ Array.getElem_mem h)
  have hne : ¬(true == false) = true := by decide
  rw [Array.count_set h, hs, if_pos (beq_self_eq_true false), if_neg hne]
  omega

/-- Takes the pending states one by one. A state met for the first time is listed, and its
targets are tried before the states that were pending already. -/
def explore (a : Automaton) (visited : Array Bool) (found : Array Nat) : List Nat → Array Nat
  | [] => found
  | s :: pending =>
    if h : s < visited.size then
      if hs : visited[s] = false then
        explore a (visited.set s true) (found.push s) ((a.edges s).map (·.2) ++ pending)
      else explore a visited found pending
    else explore a visited found pending
termination_by pending => (visited.count false, pending.length)
decreasing_by
  · exact Prod.Lex.left _ _ (count_visit_lt h hs)
  · exact Prod.Lex.right _ (by simp)
  · exact Prod.Lex.right _ (by simp)

def live (a : Automaton) : List Nat :=
  (a.explore (Array.replicate a.size false) #[] [a.start]).toList

/-! ## What the live states hold -/

/-- A live state by its number; a number that is not live names none. -/
def liveState? (a : Automaton) (s : Nat) : Option State :=
  if a.live.contains s then a.states[s]? else none

/-- How many live states accept. -/
def acceptingCount (a : Automaton) : Nat := a.live.countP a.isAccepting

/-- The edges of the live states, in live order. -/
def liveEdges (a : Automaton) : List (Symbol × Nat) := a.live.flatMap a.edges

/-- How many edges leave the live states, parallel edges counted. -/
def edgeCount (a : Automaton) : Nat := a.liveEdges.length

/-- The symbols on the edges of the live states, each once, in the order of an alphabet. -/
def alphabet (a : Automaton) : List Symbol :=
  ((a.liveEdges.map (·.1)).mergeSort Symbol.le).eraseReps

end Automaton

end PatternNFA
