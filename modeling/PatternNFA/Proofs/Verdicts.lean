-- A verdict stops at a dead frontier. It is the verdict of the run that reads on
-- to the end of the input, and its log is the beginning of the log of that run.
import PatternNFA.Proofs.ClosureRuns
import PatternNFA.Proofs.HopRuns
import PatternNFA.Proofs.Recycling

namespace PatternNFA

namespace Matcher

/-! ## The run that reads on -/

/-- What a run logs that reads all the characters, also after the frontier has died. -/
def events (m : Matcher) : List Char → List Event
  | [] => []
  | c :: rest => .stepped c (m.step c).frontier.length :: (m.step c).events rest

/-- How many characters there are up to the first that leaves no state, this one included; all
of them, if each leaves some. -/
def lifetime (m : Matcher) (cs : List Char) : Nat :=
  ((List.range' 1 cs.length).find? fun n => (m.run (cs.take n)).isDead).getD cs.length

theorem length_events (m : Matcher) (cs : List Char) : (m.events cs).length = cs.length := by
  induction cs generalizing m with
  | nil => rfl
  | cons c rest ih => rw [events, List.length_cons, ih, List.length_cons]

/-- The event of a character tells how many states stand in the frontier after it. -/
theorem frontier_of_getElem?_events {m : Matcher} {cs : List Char} {i n : Nat} {c : Char}
    (h : (m.events cs)[i]? = some (.stepped c n)) :
    (m.run (cs.take (i + 1))).frontier.length = n := by
  induction cs generalizing m i with
  | nil => cases h
  | cons d rest ih =>
    cases i with
    | zero =>
      simp only [events, List.getElem?_cons_zero, Option.some.injEq, Event.stepped.injEq] at h
      exact h.2
    | succ i =>
      rw [events, List.getElem?_cons_succ] at h
      rw [List.take_succ_cons, run_cons]
      exact ih h

theorem lifetime_cons (m : Matcher) (c : Char) (cs : List Char) :
    m.lifetime (c :: cs) = if (m.step c).isDead then 1 else (m.step c).lifetime cs + 1 := by
  -- From the second character on, the run is the one that starts after the first.
  have hshift : ∀ n, (m.run ((c :: cs).take (n + 1))).isDead = ((m.step c).run (cs.take n)).isDead :=
    fun n => by rw [List.take_succ_cons, run_cons]
  unfold lifetime
  rw [List.length_cons, List.range'_succ, List.find?_cons, hshift 0, List.range'_succ_left,
    List.find?_map]
  simp only [Function.comp_def, hshift]
  rw [List.take_zero, run_nil]
  cases (m.step c).isDead with
  | true => rfl
  | false =>
    rw [if_neg Bool.false_ne_true]
    exact Option.getD_map ..

/-- No run outlives a character that leaves no state. -/
theorem lifetime_le {m : Matcher} {cs : List Char} {n : Nat} (hpos : 0 < n) (hle : n ≤ cs.length)
    (hdead : (m.run (cs.take n)).isDead = true) : m.lifetime cs ≤ n := by
  unfold lifetime
  cases hfind : (List.range' 1 cs.length).find? fun n => (m.run (cs.take n)).isDead with
  | none =>
    have hnone := List.find?_eq_none.1 hfind n (List.mem_range'_1.2 ⟨hpos, by omega⟩)
    exact absurd hdead hnone
  | some first =>
    rw [Option.getD_some]
    by_contra hlt
    have hfirst := (List.find?_range'_eq_some.1 hfind).2.2 n hpos (Nat.lt_of_not_le hlt)
    rw [hdead] at hfirst
    cases hfirst

/-! ## The run that stops -/

theorem verdict_of_dead {m : Matcher} (h : m.isDead = true) (log : Array Event)
    (cs : List Char) : (m.verdict log cs).2 = log := by
  cases cs with
  | nil => rfl
  | cons c rest => rw [verdict, if_pos h]

/-- As long as the frontier lives, a verdict logs what the run that reads on logs. -/
theorem log_verdict {m : Matcher} (h : m.isDead = false) (log : Array Event) (cs : List Char) :
    (m.verdict log cs).2.toList = log.toList ++ (m.events cs).take (m.lifetime cs) := by
  induction cs generalizing m log with
  | nil => simp [verdict, events]
  | cons c rest ih =>
    rw [verdict, if_neg (Bool.eq_false_iff.1 h), lifetime_cons, events]
    cases hnext : (m.step c).isDead with
    | true =>
      rw [verdict_of_dead hnext, if_pos rfl, List.take_succ_cons, List.take_zero,
        Array.toList_push]
      rfl
    | false =>
      rw [ih hnext, if_neg Bool.false_ne_true, List.take_succ_cons, Array.toList_push,
        List.append_assoc]
      rfl

/-- At its beginning a run stands in the start, whatever the simulation. -/
theorem isDead_start {a : Automaton} (hrange : a.InRange) (scratch : Scratch) :
    (start a scratch).isDead = false := by
  have hmem : a.start ∈ (start a scratch).frontier := by
    cases h : a.simulation with
    | singleHop => simp [frontier_start_singleHop h]
    | closure => exact (mem_frontier_start hrange h scratch a.start).2 .refl
  rw [Bool.eq_false_iff, Ne, isDead_iff]
  exact List.ne_nil_of_mem hmem

end Matcher

/-! ## The law -/

/-- A frontier that has died stays empty, and accepts nothing. So the verdict, which stops
there, is the one of a run that reads every character. The log is the one of that run, up to
the first character that leaves no state, and no other one leaves none. -/
theorem a_verdict_is_the_one_of_the_run_that_reads_on {pattern : String}
    {simulation : Simulation} {a : Automaton} (h : compile pattern simulation = .ok a)
    (scratch : Scratch) (input : String) :
    let m := Matcher.start a scratch
    let log := (a.isMatchLogged input).2.toList
    (∀ cs more, (m.run cs).isDead = true →
      ((m.run cs).run more).frontier = [] ∧ ((m.run cs).run more).isAccepting = false)
    ∧ a.isMatch input = (m.run input.toList).isAccepting
    ∧ log = (m.events input.toList).take (m.lifetime input.toList)
    ∧ ∀ i c, log[i]? = some (.stepped c 0) → i + 1 = log.length := by
  intro m log
  have hstart : m = Matcher.start a := Matcher.start_eq a scratch
  have hlog : log = (m.events input.toList).take (m.lifetime input.toList) := by
    have halive := Matcher.isDead_start (compile_inRange h) scratch
    have hverdict := Matcher.log_verdict halive #[] input.toList
    rw [Matcher.start_eq] at hverdict
    rw [hstart]
    exact hverdict
  refine ⟨?_, ?_, hlog, ?_⟩
  · intro cs more hdead
    have hempty := Matcher.frontier_run_of_dead ((Matcher.isDead_iff _).1 hdead) more
    exact ⟨hempty, by rw [Matcher.isAccepting, hempty, List.any_nil]⟩
  · rw [hstart]
    exact Matcher.verdict_eq _ _ _
  · intro i c hi
    obtain ⟨hlt, -⟩ := List.getElem?_eq_some_iff.1 hi
    have hlength : log.length = min (m.lifetime input.toList) input.toList.length := by
      rw [hlog, List.length_take, Matcher.length_events]
    rw [hlog, List.getElem?_take_of_lt (by omega)] at hi
    have hdead := List.length_eq_zero_iff.1 (Matcher.frontier_of_getElem?_events hi)
    have hle := Matcher.lifetime_le (Nat.succ_pos i) (by omega) ((Matcher.isDead_iff _).2 hdead)
    omega

/-- The frontier has died of the second character, and the third one is left unread. -/
theorem a_verdict_leaves_the_rest_of_a_lost_input_unread :
    ∃ a, compile "(a|b)c" .closure = .ok a
      ∧ a.isMatch "axc" = ((Matcher.start a).run "axc".toList).isAccepting
      ∧ (a.isMatchLogged "axc").2.toList = [.stepped 'a' 2, .stepped 'x' 0] := by
  have hcompile : compile "(a|b)c" .closure = .ok _ := rfl
  have hlaw := a_verdict_is_the_one_of_the_run_that_reads_on hcompile {} "axc"
  exact ⟨_, hcompile, hlaw.2.1, hlaw.2.2.1.trans (by decide +kernel)⟩

end PatternNFA
