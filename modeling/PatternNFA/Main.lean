-- The program: it holds the dialogue of its arguments with the terminal.
import PatternNFA.Cli.Commands

namespace PatternNFA.Cli

/-- Reads up to a line feed, which it drops, or up to the end of the input. -/
partial def readLine (stdin : IO.FS.Stream) (line : Array UInt8) : IO (List UInt8) := do
  let bytes ← stdin.read 1
  match bytes.data[0]? with
  | none => return line.toList
  | some byte => if byte = lineFeed then return line.toList else readLine stdin (line.push byte)

def converse (stdin stdout : IO.FS.Stream) : Dialogue → IO Outcome
  | .done outcome => return outcome
  | .ask question resume => do
    stdout.putStr question
    stdout.flush
    let line ← readLine stdin #[]
    converse stdin stdout (resume (decodeLine line))

end PatternNFA.Cli

open PatternNFA.Cli in
def main (arguments : List String) : IO UInt32 := do
  let stdin ← IO.getStdin
  let stdout ← IO.getStdout
  let stderr ← IO.getStderr
  let outcome ← converse stdin stdout (dialogue arguments)
  stderr.putStr outcome.stderr
  stdout.putStr outcome.stdout
  stdout.flush
  return outcome.exitCode
