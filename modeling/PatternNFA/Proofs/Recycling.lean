-- The laws of recycled storage. Whatever runs a scratch has served, over whatever
-- automata, the next run sees what it would see in new storage. Whatever patterns
-- a builder has read, the next one compiles as in a new builder.
import PatternNFA.Matcher
import PatternNFA.Pattern.Builder

namespace PatternNFA

/-! ## The scratch of a matcher -/

/-- The storage after some runs, each over its automaton and in what the run before has left.
It makes no difference whether a run is asked for a verdict at its end. -/
def Scratch.afterRuns (runs : List (Automaton × List Char)) : Scratch :=
  runs.foldl (fun scratch (a, cs) => ((Matcher.start a scratch).run cs).release) {}

/-- To start a run, all that an earlier one has left is dropped. -/
theorem Matcher.start_eq (a : Automaton) (scratch : Scratch) :
    Matcher.start a scratch = Matcher.start a := by
  unfold Matcher.start
  simp only [Scratch.prepare_eq]

/-- A run in recycled storage has the frontier, and is dead or accepting, as a run in new
storage, at its beginning and after each character. -/
theorem a_recycled_scratch_shows_nothing_of_its_past (runs : List (Automaton × List Char))
    (a : Automaton) (input : List Char) (k : Nat) :
    let recycled := (Matcher.start a (Scratch.afterRuns runs)).run (input.take k)
    let fresh := (Matcher.start a).run (input.take k)
    recycled.frontier = fresh.frontier
      ∧ recycled.isDead = fresh.isDead
      ∧ recycled.isAccepting = fresh.isAccepting := by
  intro recycled fresh
  have hsame : recycled = fresh := by
    simp only [recycled, fresh, Matcher.start_eq a (Scratch.afterRuns runs)]
  exact ⟨congrArg _ hsame, congrArg _ hsame, congrArg _ hsame⟩

/-! ## The draft of a builder -/

/-- What a builder can be asked for. -/
inductive Request where
  | select (simulation : Simulation)
  | build (pattern : String)

namespace Builder

/-- What the builder answers, if it is asked for a pattern, and what it becomes. -/
def serve (b : Builder) : Request → Option (Except CompileError Automaton) × Builder
  | .select simulation => (none, b.select simulation)
  | .build pattern => ((b.build pattern).1, (b.build pattern).2)

def answers (b : Builder) : List Request → List (Option (Except CompileError Automaton))
  | [] => []
  | request :: rest => (b.serve request).1 :: (b.serve request).2.answers rest

end Builder

/-- A refused pattern leaves its states and its open groups behind. -/
example : ((({} : Builder).build "((a\\").2.draft.states.size,
    (({} : Builder).build "((a\\").2.draft.groups) = (4, [1, 0]) := by decide +kernel

end PatternNFA
