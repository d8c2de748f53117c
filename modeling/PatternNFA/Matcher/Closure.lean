-- One step of the closure simulation. A table holds, for each state, the
-- generation that claimed it last, so that a generation takes each state once
-- and nothing has to be wiped between two steps. The epsilon edges may run in
-- circles: each turn of the walk either claims a state or lists one.
import PatternNFA.Matcher.Scratch

namespace PatternNFA

namespace Scratch

/-! ## Claiming states -/

/-- The generation has not claimed the state. A number with no place in the table counts as
claimed, so that no walk ever takes it. -/
def isUnclaimed (generation : Nat) (scratch : Scratch) (s : Nat) : Bool :=
  scratch.stamps.getD s generation != generation

/-- A state that is not claimed yet is claimed, and comes before the pending ones. -/
def claim (generation s : Nat) (scratch : Scratch) : Scratch :=
  if isUnclaimed generation scratch s then
    { scratch with
      stamps := scratch.stamps.setIfInBounds s generation, pending := s :: scratch.pending }
  else scratch

/-- Claims the targets from the last to the first, so they are pending in their own order; of
a repeated target, the last occurrence counts. -/
def claimAll (generation : Nat) (targets : List Nat) (scratch : Scratch) : Scratch :=
  targets.foldr (claim generation) scratch

@[simp]
theorem claimAll_nil (generation : Nat) (scratch : Scratch) :
    claimAll generation [] scratch = scratch := rfl

@[simp]
theorem claimAll_cons (generation t : Nat) (rest : List Nat) (scratch : Scratch) :
    claimAll generation (t :: rest) scratch
      = claim generation t (claimAll generation rest scratch) := rfl

/-! ## Why the walk ends -/

/-- How many states the generation may still claim. -/
def unclaimed (generation : Nat) (scratch : Scratch) : Nat :=
  scratch.stamps.countP (· != generation)

/-- How many turns a walk may still take: it lists each pending state, and each state that it
claims on the way. -/
def turnsLeft (generation : Nat) (scratch : Scratch) : Nat :=
  unclaimed generation scratch + scratch.pending.length

theorem lt_size_of_isUnclaimed {generation s : Nat} {scratch : Scratch}
    (h : isUnclaimed generation scratch s = true) : s < scratch.stamps.size := by
  rcases Nat.lt_or_ge s scratch.stamps.size with hs | hs
  · exact hs
  · simp [isUnclaimed, Array.getD_eq_getD_getElem?, Array.getElem?_eq_none hs] at h

/-- Claiming moves a state from the unclaimed ones to the pending ones. -/
theorem turnsLeft_claim (generation s : Nat) (scratch : Scratch) :
    turnsLeft generation (claim generation s scratch) = turnsLeft generation scratch := by
  by_cases h : isUnclaimed generation scratch s = true
  · have hs := lt_size_of_isUnclaimed h
    have hne : (scratch.stamps[s] != generation) = true := by
      simpa [isUnclaimed, Array.getD_eq_getD_getElem?, hs] using h
    have hpos : 0 < scratch.stamps.countP (· != generation) :=
      Array.countP_pos_iff.2 ⟨scratch.stamps[s], Array.getElem_mem hs, hne⟩
    simp only [turnsLeft, unclaimed, claim, if_pos h, List.length_cons,
      Array.setIfInBounds_def, dif_pos hs, Array.countP_set hs, hne, if_true,
      bne_self_eq_false, Bool.false_eq_true, if_false]
    omega
  · simp [claim, h]

theorem turnsLeft_claimAll (generation : Nat) (targets : List Nat) (scratch : Scratch) :
    turnsLeft generation (claimAll generation targets scratch)
      = turnsLeft generation scratch := by
  induction targets with
  | nil => rfl
  | cons t rest ih => rw [claimAll_cons, turnsLeft_claim, ih]

/-! ## The walk -/

/-- Lists the first pending state, and claims its epsilon targets. -/
def turn (a : Automaton) (generation : Nat) (scratch : Scratch) : Scratch :=
  match scratch with
  | { current, next, stamps, pending := s :: pending } =>
    claimAll generation (a.targets s .epsilon) { current, next := next.push s, stamps, pending }
  | scratch => scratch

theorem turnsLeft_turn (a : Automaton) (generation : Nat) {scratch : Scratch}
    (h : scratch.pending ≠ []) :
    turnsLeft generation (turn a generation scratch) + 1 = turnsLeft generation scratch := by
  obtain ⟨current, next, stamps, pending⟩ := scratch
  cases pending with
  | nil => exact absurd rfl h
  | cons s pending =>
    simp only [turn, turnsLeft_claimAll]
    simp only [turnsLeft, unclaimed, List.length_cons]
    omega

/-- Takes turns until nothing is pending. -/
def walk (a : Automaton) (generation : Nat) (scratch : Scratch) : Scratch :=
  if scratch.pending = [] then scratch else walk a generation (turn a generation scratch)
termination_by turnsLeft generation scratch
decreasing_by
  have := turnsLeft_turn a generation ‹_›
  omega

/-- Adds a state and all that it reaches over epsilon edges through states not yet claimed.
A state that is claimed already adds nothing. -/
def addState (a : Automaton) (generation : Nat) (scratch : Scratch) (s : Nat) : Scratch :=
  if isUnclaimed generation scratch s then walk a generation (claim generation s scratch)
  else scratch

/-- The closure of the targets of the frontier on the symbol, taken state by state. -/
def gather (a : Automaton) (generation : Nat) (c : Char) (scratch : Scratch) : Scratch :=
  scratch.current.foldl
    (fun scratch s => (a.targets s (.char c)).foldl (addState a generation) scratch)
    scratch.clear

end Scratch

end PatternNFA
