-- What the library logs: each pattern that compiles, and each character that a
-- matcher reads on the way to a verdict.
import PatternNFA.Automaton.Live
import PatternNFA.Text.Quoted

namespace PatternNFA

inductive Level where
  | debug
  | trace
  deriving DecidableEq

def Level.name : Level → String
  | .debug => "DEBUG"
  | .trace => "TRACE"

inductive Event where
  /-- A pattern has been compiled, to so many states, so many of them live. -/
  | compiled (pattern : String) (states live : Nat) (simulation : Simulation)
  /-- A character has been read, and so many states stand in the frontier after it. -/
  | stepped (c : Char) (frontier : Nat)
  deriving DecidableEq

namespace Event

def ofAutomaton (pattern : String) (a : Automaton) : Event :=
  .compiled pattern a.size a.live.length a.simulation

def level : Event → Level
  | .compiled .. => .debug
  | .stepped .. => .trace

def message : Event → String
  | .compiled pattern states live simulation =>
    s!"compiled {Text.quote pattern}: {states} states ({live} live), {simulation.name}"
  | .stepped c frontier => s!"step {Text.quoteChar c}: frontier holds {frontier} states"

end Event

end PatternNFA
