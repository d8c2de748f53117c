-- The storage that a run works in and leaves to the next one: two frontiers
-- that change places at each step, a table of stamps and a worklist. Whatever
-- a run leaves there, the next one finds nothing of it.
import PatternNFA.Automaton

namespace PatternNFA

structure Scratch where
  /-- The frontier of the run. -/
  current : Array Nat := #[]
  /-- The frontier that a step fills. Between two steps, the frontier before the last one. -/
  next : Array Nat := #[]
  /-- For each state, the generation that claimed it last, and 0 if none has. -/
  stamps : Array Nat := #[]
  /-- The states that a walk has claimed and not listed yet. -/
  pending : List Nat := []

namespace Scratch

/-! ## Between two runs -/

/-- A table of `size` stamps that no generation has used, in the storage of the old one. -/
def blank (scratch : Scratch) (size : Nat) : Array Nat :=
  let kept := (scratch.stamps.shrink size).map fun _ => 0
  kept ++ Array.replicate (size - kept.size) 0

/-- Makes the storage ready for a run over so many states. -/
def prepare (scratch : Scratch) (size : Nat) : Scratch :=
  { current := scratch.current.shrink 0, next := scratch.next.shrink 0
    stamps := scratch.blank size, pending := [] }

/-- The storage of a first run over so many states. -/
def unused (size : Nat) : Scratch := { stamps := Array.replicate size 0 }

theorem blank_eq (scratch : Scratch) (size : Nat) :
    scratch.blank size = Array.replicate size 0 := by
  apply Array.ext
  · simp only [blank, Array.size_append, Array.size_map, Array.size_shrink, Array.size_replicate]
    omega
  · intro i h1 h2
    simp [blank, Array.getElem_append]

@[simp]
theorem prepare_eq (scratch : Scratch) (size : Nat) : scratch.prepare size = unused size := by
  simp [prepare, unused, blank_eq]

/-! ## Between two steps -/

/-- Empties the frontier that the next step fills. -/
def clear (scratch : Scratch) : Scratch := { scratch with next := scratch.next.shrink 0 }

/-- The frontier that a step has filled becomes the one of the run. -/
def swap (scratch : Scratch) : Scratch :=
  { scratch with current := scratch.next, next := scratch.current }

@[simp]
theorem next_clear (scratch : Scratch) : scratch.clear.next = #[] := by simp [clear]

@[simp]
theorem stamps_clear (scratch : Scratch) : scratch.clear.stamps = scratch.stamps := rfl

@[simp]
theorem pending_clear (scratch : Scratch) : scratch.clear.pending = scratch.pending := rfl

@[simp]
theorem current_swap (scratch : Scratch) : scratch.swap.current = scratch.next := rfl

end Scratch

end PatternNFA
