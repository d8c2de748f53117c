-- The live automaton as a drawing in the DOT language of Graphviz. The drawing
-- is a list of lines. They may be joined to a text, or written one by one to a
-- sink that holds a limited number of bytes.
import PatternNFA.Automaton.Live

namespace PatternNFA

/-! ## The lines -/

/-- The label of an edge. Only what would end the quotes is escaped. -/
def Symbol.label : Symbol → String
  | .char '\x22' => "\\\""
  | .char '\\' => "\\\\"
  | symbol => symbol.text

namespace Automaton

/-- The lines of one state: a second border if it accepts, then its edges in order. -/
def stateLines (a : Automaton) (s : Nat) : List String :=
  (if a.isAccepting s then [s!"\t{s} [peripheries=2];\n"] else [])
    ++ (a.edges s).map fun (symbol, target) => s!"\t{s} -> {target} [label=\"{symbol.label}\"];\n"

/-- The drawing, line by line. The start state stands in a box. -/
def drawingLines (a : Automaton) : List String :=
  ["digraph nfa \x7b\n", "\trankdir=LR;\n", s!"\t{a.start} [shape=box];\n"]
    ++ a.live.flatMap a.stateLines ++ ["\x7d\n"]

def drawing (a : Automaton) : String := String.join a.drawingLines

end Automaton

/-! ## Writing to a limited sink -/

inductive WriteError where
  /-- The sink is full, and a part of the text did not fit. -/
  | full
  deriving DecidableEq

def WriteError.message : WriteError → String
  | .full => "failed to write whole buffer"

structure Sink where
  limit : Nat
  bytes : ByteArray := .empty

namespace Sink

def room (sink : Sink) : Nat := sink.limit - sink.bytes.size

/-- Stores as much of the text as fits. -/
def store (sink : Sink) (text : String) : Sink :=
  { sink with bytes := sink.bytes ++ text.toUTF8.extract 0 sink.room }

/-- Writes the texts in order, up to the first that does not fit whole. -/
def write (sink : Sink) : List String → Sink × Except WriteError Unit
  | [] => (sink, .ok ())
  | text :: rest =>
    if text.utf8ByteSize ≤ sink.room then (sink.store text).write rest
    else (sink.store text, .error .full)

end Sink

/-- Writes the drawing to an empty sink of so many bytes. -/
def Automaton.drawInto (a : Automaton) (limit : Nat) : Sink × Except WriteError Unit :=
  Sink.write { limit } a.drawingLines

end PatternNFA
