-- The arguments of the command line. Flags and words may stand in any order.
-- The first argument that asks for help, or is no flag that is known, decides;
-- only then do the words count.
import PatternNFA.Automaton

namespace PatternNFA.Cli

/-! ## What is asked for -/

inductive Command where
  /-- Ask for a pattern and an input. -/
  | prompt
  /-- Draw the automaton of a pattern. -/
  | draw (pattern : String)
  /-- Run a pattern over inputs. -/
  | test (pattern : String) (inputs : List String)
  deriving DecidableEq

structure Invocation where
  command : Command
  simulation : Simulation
  /-- Show the frontier after every character. -/
  traced : Bool
  deriving DecidableEq

inductive UsageError where
  | unknownFlag (flag : String)
  | unknownCommand (word : String)
  /-- A drawing shows no run, so no flag applies to it. -/
  | flagsOnDrawing
  | drawingOperands
  | testOperands
  deriving DecidableEq

def UsageError.message : UsageError → String
  | .unknownFlag flag => s!"unrecognized flag `{flag}`"
  | .unknownCommand word => s!"no such command `{word}`"
  | .flagsOnDrawing =>
    "`dot` draws the automaton only; --closure and --debug do not apply"
  | .drawingOperands => "`dot` expects one PATTERN"
  | .testOperands => "`match` expects a PATTERN and at least one INPUT"

/-- Why no command is run. -/
inductive Refusal where
  | help
  | usage (error : UsageError)
  deriving DecidableEq

/-! ## One argument -/

inductive Argument where
  | help
  | closure
  | trace
  | unknown
  | word
  deriving DecidableEq

/-- A lone hyphen is a word, and so is the empty argument. -/
def Argument.of (text : String) : Argument :=
  if text = "-h" ∨ text = "--help" then .help
  else if text = "--closure" then .closure
  else if text = "--debug" then .trace
  else if text.utf8ByteSize > 1 ∧ text.toList.head? = some '-' then .unknown
  else .word

/-! ## All arguments -/

/-- The flags that are set, and the words in their order. -/
structure Request where
  simulation : Simulation := .singleHop
  traced : Bool := false
  words : List String := []

def Request.ofArguments : List String → Except Refusal Request
  | [] => .ok {}
  | text :: rest =>
    match Argument.of text with
    | .help => .error .help
    | .unknown => .error (.usage (.unknownFlag text))
    | .closure => (ofArguments rest).map fun r => { r with simulation := .closure }
    | .trace => (ofArguments rest).map fun r => { r with traced := true }
    | .word => (ofArguments rest).map fun r => { r with words := text :: r.words }

/-- The command that the words name. The flags of a drawing are refused before its operands
are counted. -/
def Request.command (r : Request) : Except UsageError Command :=
  match r.words with
  | [] => .ok .prompt
  | "dot" :: operands =>
    if r.simulation ≠ .singleHop ∨ r.traced then .error .flagsOnDrawing
    else
      match operands with
      | [pattern] => .ok (.draw pattern)
      | _ => .error .drawingOperands
  | "match" :: operands =>
    match operands with
    | pattern :: input :: inputs => .ok (.test pattern (input :: inputs))
    | _ => .error .testOperands
  | word :: _ => .error (.unknownCommand word)

def parse (arguments : List String) : Except Refusal Invocation :=
  match Request.ofArguments arguments with
  | .error refusal => .error refusal
  | .ok r =>
    match r.command with
    | .error error => .error (.usage error)
    | .ok command => .ok { command, simulation := r.simulation, traced := r.traced }

end PatternNFA.Cli
