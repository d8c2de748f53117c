-- Compiling a pattern. Only a dangling escape is refused: unbalanced groups,
-- open classes, leading quantifiers and empty branches all give an automaton.
-- A builder is recycled from one pattern to the next, and what it gives for a
-- pattern depends only on the simulation chosen last.
import PatternNFA.Pattern.Draft

namespace PatternNFA

/-! ## The builder -/

structure Builder where
  simulation : Simulation := .singleHop
  /-- What is left of the last pattern. Its storage serves the next one. -/
  draft : Draft := .fresh

namespace Builder

/-- Chooses the simulation of every automaton built from now on. -/
def select (b : Builder) (simulation : Simulation) : Builder := { b with simulation }

/-- Reads the pattern from its first character to its last, with nothing left of an earlier one. -/
def build (b : Builder) (pattern : String) : Except CompileError Automaton × Builder :=
  let simulation := b.simulation
  let draft := b.draft.restart.readAll pattern.toList
  match draft.finish with
  | .ok states =>
    (.ok { states, start := Draft.root, simulation },
      { simulation, draft := { draft with states := #[] } })
  | .error e => (.error e, { simulation, draft })

end Builder

def compile (pattern : String) (simulation : Simulation := .singleHop) :
    Except CompileError Automaton :=
  ((Builder.mk simulation .fresh).build pattern).1

namespace Builder

variable {b : Builder} {pattern : String}

/-- The answer is read off the draft at the end of the pattern, with the root for a start. -/
theorem build_fst :
    (b.build pattern).1 = (Draft.fresh.readAll pattern.toList).finish.map fun states =>
      { states, start := Draft.root, simulation := b.simulation } := by
  simp only [build, Draft.restart_eq]
  split
  · rename_i hok
    simp only [hok, Except.map]
  · rename_i herror
    simp only [herror, Except.map]

theorem build_eq_ok {a : Automaton} :
    (b.build pattern).1 = .ok a
      ↔ (Draft.fresh.readAll pattern.toList).finish = .ok a.states
        ∧ a.start = Draft.root ∧ a.simulation = b.simulation := by
  obtain ⟨states, start, simulation⟩ := a
  rw [build_fst]
  cases (Draft.fresh.readAll pattern.toList).finish with
  | error e => simp [Except.map]
  | ok found =>
    simp only [Except.map, Except.ok.injEq, Automaton.mk.injEq, eq_comm]

theorem build_eq_error {e : CompileError} :
    (b.build pattern).1 = .error e
      ↔ (Draft.fresh.readAll pattern.toList).finish = .error e := by
  rw [build_fst]
  cases (Draft.fresh.readAll pattern.toList).finish with
  | error found => simp [Except.map]
  | ok states => simp [Except.map]

end Builder

end PatternNFA
