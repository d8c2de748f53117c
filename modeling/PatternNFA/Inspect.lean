-- The debugging text of an automaton and of a compile error: every field by
-- name, every state by number, reachable or not.
import PatternNFA.Pattern.Builder
import PatternNFA.Text.Quoted

namespace PatternNFA

/-- Named fields between braces, after the name of what they make up. -/
def inspectRecord (name : String) (fields : List (String × String)) : String :=
  name ++ " \x7b " ++ ", ".intercalate (fields.map fun (field, value) => field ++ ": " ++ value)
    ++ " \x7d"

/-- Keys and values between braces. -/
def inspectMap (entries : List (String × String)) : String :=
  "\x7b" ++ ", ".intercalate (entries.map fun (key, value) => key ++ ": " ++ value) ++ "\x7d"

def inspectNumber (s : Nat) : String := s!"StateIdx({s})"

def Symbol.inspect : Symbol → String
  | .char c => s!"Char({Text.quoteChar c})"
  | .epsilon => "Epsilon"

def Transitions.inspect (ts : Transitions) : String :=
  inspectMap <| ts.groups.map fun (symbol, targets) =>
    (symbol.inspect, "[" ++ ", ".intercalate (targets.toList.map inspectNumber) ++ "]")

def State.inspect (state : State) : String :=
  inspectRecord "State"
    [("accepting", toString state.accepting), ("transitions", state.transitions.inspect)]

def Automaton.inspect (a : Automaton) : String :=
  let states := a.states.toList.zipIdx.map fun (state, s) => (toString s, state.inspect)
  inspectRecord "Regex"
    [("states", inspectMap states), ("start", inspectNumber a.start),
      ("simulation", a.simulation.name)]

def CompileError.inspect : CompileError → String
  | .unterminatedEscape offset => inspectRecord "UnterminatedEscape" [("offset", toString offset)]

end PatternNFA
