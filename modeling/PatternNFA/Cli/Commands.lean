-- The commands: to prompt for a pattern and an input, to run a pattern over
-- inputs, and to draw an automaton. An input that is rejected gives exit code
-- 1 where inputs are arguments, and 0 where the user types one.
import PatternNFA.Cli.Arguments
import PatternNFA.Cli.Dialogue
import PatternNFA.Drawing
import PatternNFA.Matcher
import PatternNFA.Pattern.Builder
import PatternNFA.Text.Quoted

namespace PatternNFA.Cli

/-! ## Texts -/

def helpText : String := "\n".intercalate [
  "renfa - compile a pattern to an NFA and run its frontier simulation",
  "",
  "usage:",
  "  renfa [--closure] [--debug]                      prompt for a pattern and an input",
  "  renfa [--closure] [--debug] match PATTERN INPUT...",
  "  renfa dot PATTERN                                Graphviz source of the automaton",
  "",
  "flags:",
  "  --closure   follow epsilon edges to a fixed point, deduplicating the frontier",
  "  --debug     trace the frontier on stderr after every input character",
  "  -h, --help  show this text",
  "",
  "RUST_LOG=debug or RUST_LOG=trace enables library logging."]

def failure (message : String) : Outcome :=
  { exitCode := 1, stderr := s!"Error: {message}\n" }

def Refusal.outcome : Refusal → Outcome
  | .help => { stdout := helpText ++ "\n" }
  | .usage error => { exitCode := 2, stderr := s!"Error: {error.message}\n\n{helpText}\n" }

/-- Compiles the pattern and goes on with the automaton. -/
def withAutomaton (pattern : String) (simulation : Simulation) (next : Automaton → Outcome) :
    Outcome :=
  match compile pattern simulation with
  | .ok a => next a
  | .error error => failure error.message

/-! ## Running one input -/

/-- One line of a trace: the label, aligned to the right in eight columns, and the frontier. -/
def traceLine (label : String) (m : Matcher) : String :=
  String.ofList (List.replicate (8 - label.length) ' ') ++ label ++ " | "
    ++ " ".intercalate (m.frontier.map toString) ++ "\n"

/-- Reads all the characters, and adds a line to the trace after each. -/
def runTraced (m : Matcher) (trace : String) : List Char → Matcher × String
  | [] => (m, trace)
  | c :: rest =>
    let next := m.step c
    runTraced next (trace ++ traceLine (Text.quoteChar c) next) rest

/-- The matcher after the whole input, and the trace of the run if one is asked for. -/
def runInput (a : Automaton) (scratch : Scratch) (traced : Bool) (input : String) :
    Matcher × String :=
  let m := Matcher.start a scratch
  if traced then runTraced m (traceLine "start" m) input.toList
  else (m.run input.toList, "")

/-! ## Running many inputs -/

/-- What stands after some of the inputs. -/
structure Tally where
  scratch : Scratch := {}
  stdout : String := ""
  stderr : String := ""
  rejected : Nat := 0

def verdictLine (m : Matcher) (input : String) : String :=
  let verdict := if m.isAccepting then "accept" else "reject"
  s!"{verdict} {Text.quote input} (frontier {m.frontier.length})\n"

def Tally.test (a : Automaton) (traced : Bool) (t : Tally) (input : String) : Tally :=
  let (m, trace) := runInput a t.scratch traced input
  { scratch := m.release
    stdout := t.stdout ++ verdictLine m input
    stderr := t.stderr ++ trace
    rejected := if m.isAccepting then t.rejected else t.rejected + 1 }

/-- One line for each input. The exit code tells whether one was rejected. -/
def test (pattern : String) (inputs : List String) (simulation : Simulation) (traced : Bool) :
    Outcome :=
  withAutomaton pattern simulation fun a =>
    let t := inputs.foldl (Tally.test a traced) {}
    { exitCode := if t.rejected = 0 then 0 else 1, stdout := t.stdout, stderr := t.stderr }

/-! ## Drawing -/

def draw (pattern : String) : Outcome :=
  withAutomaton pattern .singleHop fun a => { stdout := a.drawing }

/-! ## Prompting -/

/-- What the prompt says once it has both lines. Empty ones are refused before the pattern is
compiled. -/
def respond (simulation : Simulation) (traced : Bool) (pattern input : String) : Outcome :=
  if pattern.isEmpty || input.isEmpty then
    failure "Invalid input. Both regex and input string are required."
  else
    withAutomaton pattern simulation fun a =>
      let (m, trace) := runInput a {} traced input
      { stdout := s!"Matching result for '{input}' with regex '{pattern}': {m.isAccepting}\n"
        stderr := trace }

/-- Asks a question and goes on with the answer. A line that cannot be read ends the run. -/
def askFor (question : String) (next : String → Dialogue) : Dialogue :=
  .ask question fun
    | .ok answer => next answer
    | .error error => .done (failure s!"cannot read stdin: {error.message}")

def prompt (simulation : Simulation) (traced : Bool) : Dialogue :=
  askFor "Enter the regular expression: " fun pattern =>
    askFor "Enter the input string: " fun input =>
      .done (respond simulation traced pattern input)

/-! ## The whole command line -/

def Invocation.dialogue (i : Invocation) : Dialogue :=
  match i.command with
  | .prompt => prompt i.simulation i.traced
  | .draw pattern => .done (draw pattern)
  | .test pattern inputs => .done (test pattern inputs i.simulation i.traced)

/-- What the program does with its arguments. -/
def dialogue (arguments : List String) : Dialogue :=
  match parse arguments with
  | .ok invocation => invocation.dialogue
  | .error refusal => .done refusal.outcome

/-- A run of the program, from its arguments and the bytes of its input. -/
def run (arguments : List String) (stdin : List UInt8) : Outcome := (dialogue arguments).run stdin

end PatternNFA.Cli
