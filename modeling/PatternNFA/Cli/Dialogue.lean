-- What a command does, seen from outside: it may ask questions, and reads one
-- line for each, and it ends with an exit code and what it has written. The
-- answers come from a list of bytes, so that a whole run is a value.

namespace PatternNFA.Cli

structure Outcome where
  exitCode : UInt32 := 0
  stdout : String := ""
  stderr : String := ""
  deriving DecidableEq

inductive ReadError where
  /-- The line is no text in UTF-8. -/
  | invalidText
  deriving DecidableEq

def ReadError.message : ReadError → String
  | .invalidText => "stream did not contain valid UTF-8"

inductive Dialogue where
  | done (outcome : Outcome)
  | ask (question : String) (resume : Except ReadError String → Dialogue)

/-! ## Lines -/

def lineFeed : UInt8 := 10

/-- The bytes before the first line feed, and those after it. -/
def takeLine (bytes : List UInt8) : List UInt8 × List UInt8 :=
  let (line, rest) := bytes.span (· != lineFeed)
  (line, rest.drop 1)

/-- The text without the carriage returns and line feeds at its end. -/
def trimLineEnd (text : String) : String :=
  String.ofList (text.toList.reverse.dropWhile fun c => c = '\r' ∨ c = '\n').reverse

def decodeLine (line : List UInt8) : Except ReadError String :=
  match String.fromUTF8? ⟨line.toArray⟩ with
  | some text => .ok (trimLineEnd text)
  | none => .error .invalidText

/-! ## A whole run -/

/-- Answers each question with the next line. After the last line come empty ones. -/
def Dialogue.run : Dialogue → List UInt8 → Outcome
  | .done outcome, _ => outcome
  | .ask question resume, bytes =>
    let (line, rest) := takeLine bytes
    let outcome := (resume (decodeLine line)).run rest
    { outcome with stdout := question ++ outcome.stdout }

end PatternNFA.Cli
