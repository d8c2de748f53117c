-- What the command says that runs a pattern over inputs. Each input gets a line of its own, which
-- the inputs before it cannot change, though all the runs share one storage. The verdict on the
-- line is the one of a matcher that stops early. A trace goes elsewhere, line by line as well.
import Mathlib.Tactic.SplitIfs
import PatternNFA.Cli.Commands
import PatternNFA.Proofs.Recycling
import PatternNFA.Proofs.Texts

namespace PatternNFA

/-! ## What is quoted -/

namespace Text

theorem lineFeed_notMem_hexadecimal (n : Nat) : '\n' ∉ Nat.toDigits 16 n := by
  have hdigit : ∀ d < 16, '\n' ≠ Nat.digitChar d := by decide
  induction n using Nat.strongRecOn with
  | ind n ih =>
    rw [Nat.toDigits_eq_if (by decide)]
    split
    · rename_i hn
      rw [List.mem_singleton]
      exact hdigit n hn
    · rw [List.mem_append, List.mem_singleton, not_or]
      exact ⟨ih (n / 16) (by omega), hdigit (n % 16) (Nat.mod_lt _ (by decide))⟩

/-- A line feed is escaped, so that no escaped character breaks a line. -/
theorem unbroken_escape {delimiter : Char} (h : delimiter ≠ '\n') (c : Char) :
    Unbroken (escape delimiter c) := by
  have hshown : ∀ d : Char, d ≠ '\n' → Unbroken d.toString := by
    intro d hd
    simpa [Unbroken] using hd.symm
  unfold escape
  split_ifs with _ _ _ hfeed _ hdelimiter
  · decide
  · decide
  · decide
  · decide
  · decide
  · rw [unbroken_append, hdelimiter]
    exact ⟨by decide, hshown delimiter h⟩
  · unfold codePoint
    rw [unbroken_append, unbroken_append]
    refine ⟨⟨by decide, ?_⟩, by decide⟩
    simpa [Unbroken] using lineFeed_notMem_hexadecimal c.toNat
  · exact hshown c hfeed

theorem unbroken_quote (text : String) : Unbroken (quote text) := by
  unfold quote
  rw [unbroken_append, unbroken_append]
  refine ⟨⟨by decide, unbroken_join ?_⟩, by decide⟩
  intro escaped hescaped
  obtain ⟨c, -, rfl⟩ := List.mem_map.1 hescaped
  exact unbroken_escape (by decide) c

theorem unbroken_quoteChar (c : Char) : Unbroken (quoteChar c) := by
  unfold quoteChar
  rw [unbroken_append, unbroken_append]
  exact ⟨⟨by decide, unbroken_escape (by decide) c⟩, by decide⟩

end Text

namespace Cli

/-! ## The report on one input -/

/-- The line on an input: the verdict of the library, and how many states stand in the frontier
of a new matcher that has read the whole input. -/
def report (a : Automaton) (input : String) : String :=
  let verdict := if a.isMatch input then "accept" else "reject"
  s!"{verdict} {Text.quote input} (frontier {((Matcher.start a).run input.toList).frontier.length})\n"

/-- The lines of a trace after its first one: the frontier after each character. -/
def frontierLines (m : Matcher) : List Char → List String
  | [] => []
  | c :: rest => traceLine (Text.quoteChar c) (m.step c) :: frontierLines (m.step c) rest

/-- The trace of a new matcher over an input, line by line. -/
def traceLines (a : Automaton) (input : String) : List String :=
  traceLine "start" (Matcher.start a) :: frontierLines (Matcher.start a) input.toList

theorem isLine_report (a : Automaton) (input : String) : IsLine (report a input) := by
  let verdict := if a.isMatch input then "accept" else "reject"
  let count := toString ((Matcher.start a).run input.toList).frontier.length
  refine ⟨verdict ++ " " ++ Text.quote input ++ " (frontier " ++ count ++ ")", ?_, ?_⟩
  · simp only [unbroken_append]
    refine ⟨⟨⟨⟨⟨?_, by decide⟩, Text.unbroken_quote input⟩, by decide⟩, unbroken_toString _⟩,
      by decide⟩
    simp only [verdict]
    split <;> decide
  · rw [String.append_assoc]
    rfl

theorem isLine_traceLine {label : String} (h : Unbroken label) (m : Matcher) :
    IsLine (traceLine label m) := by
  refine ⟨_, ?_, rfl⟩
  rw [unbroken_append, unbroken_append, unbroken_append]
  refine ⟨⟨⟨?_, h⟩, by decide⟩, unbroken_intercalate (by decide) ?_⟩
  · simp [Unbroken]
  · intro text htext
    obtain ⟨s, -, rfl⟩ := List.mem_map.1 htext
    exact unbroken_toString s

theorem isLine_of_mem_frontierLines {m : Matcher} {cs : List Char} {line : String}
    (h : line ∈ frontierLines m cs) : IsLine line := by
  induction cs generalizing m with
  | nil => cases h
  | cons c rest ih =>
    rcases List.mem_cons.1 h with rfl | h
    · exact isLine_traceLine (Text.unbroken_quoteChar c) _
    · exact ih h

theorem isLine_of_mem_traceLines {a : Automaton} {input line : String}
    (h : line ∈ traceLines a input) : IsLine line := by
  rcases List.mem_cons.1 h with rfl | h
  · exact isLine_traceLine (by decide) _
  · exact isLine_of_mem_frontierLines h

theorem length_frontierLines (m : Matcher) (cs : List Char) :
    (frontierLines m cs).length = cs.length := by
  induction cs generalizing m with
  | nil => rfl
  | cons c rest ih => rw [frontierLines, List.length_cons, ih, List.length_cons]

theorem length_traceLines (a : Automaton) (input : String) :
    (traceLines a input).length = 1 + input.length := by
  rw [traceLines, List.length_cons, length_frontierLines, String.length_toList, Nat.add_comm]

/-! ## Running one input -/

theorem runTraced_eq (m : Matcher) (trace : String) (cs : List Char) :
    runTraced m trace cs = (m.run cs, trace ++ String.join (frontierLines m cs)) := by
  induction cs generalizing m trace with
  | nil => simp [runTraced, frontierLines]
  | cons c rest ih =>
    rw [runTraced, ih, frontierLines, String.join_cons, String.append_assoc]
    rfl

/-- Storage that has served other runs makes no difference to a run, and neither does a trace. -/
theorem runInput_eq (a : Automaton) (scratch : Scratch) (traced : Bool) (input : String) :
    runInput a scratch traced input
      = ((Matcher.start a).run input.toList,
          if traced then String.join (traceLines a input) else "") := by
  unfold runInput
  rw [Matcher.start_eq a scratch]
  cases traced with
  | false => rfl
  | true => simp only [runTraced_eq, traceLines, String.join_cons, if_true]

theorem verdictLine_eq_report (a : Automaton) (input : String) :
    verdictLine ((Matcher.start a).run input.toList) input = report a input := by
  rw [verdictLine, report, a.isMatch_eq]

/-! ## Running them all -/

/-- What has been said of the inputs so far stays, and what is said of the next one does not
depend on it. -/
theorem test_eq (a : Automaton) (traced : Bool) (t : Tally) (input : String) :
    t.test a traced input =
      { scratch := ((Matcher.start a).run input.toList).release
        stdout := t.stdout ++ report a input
        stderr := t.stderr ++ if traced then String.join (traceLines a input) else ""
        rejected := if a.isMatch input then t.rejected else t.rejected + 1 } := by
  simp only [Tally.test, runInput_eq, verdictLine_eq_report, a.isMatch_eq]

theorem foldl_test (a : Automaton) (traced : Bool) (t : Tally) (inputs : List String) :
    let after := inputs.foldl (Tally.test a traced) t
    after.stdout = t.stdout ++ String.join (inputs.map (report a))
    ∧ after.stderr
        = t.stderr ++ (if traced then String.join (inputs.flatMap (traceLines a)) else "")
    ∧ after.rejected = t.rejected + inputs.countP (a.isMatch · = false) := by
  induction inputs generalizing t with
  | nil => simp
  | cons input rest ih =>
    obtain ⟨hstdout, hstderr, hrejected⟩ := ih (t.test a traced input)
    rw [List.foldl_cons]
    refine ⟨?_, ?_, ?_⟩
    · rw [hstdout, test_eq, List.map_cons, String.join_cons, String.append_assoc]
    · rw [hstderr, test_eq, List.flatMap_cons, String.join_append]
      cases traced with
      | false => simp
      | true => simp only [if_true, String.append_assoc]
    · rw [hrejected, test_eq, List.countP_cons]
      cases a.isMatch input with
      | false => simp; omega
      | true => simp

/-! ## Asking for a trace -/

theorem Argument.of_trace : Argument.of "--debug" = .trace := by decide

/-- Wherever the flag stands, it sets the trace and nothing else. -/
theorem ofArguments_trace (before after : List String) :
    Request.ofArguments (before ++ "--debug" :: after)
      = (Request.ofArguments (before ++ after)).map fun r => { r with traced := true } := by
  induction before with
  | nil => simp only [List.nil_append, Request.ofArguments, Argument.of_trace]
  | cons text rest ih =>
    simp only [List.cons_append, Request.ofArguments, ih]
    cases Argument.of text <;> cases Request.ofArguments (rest ++ after) <;> rfl

theorem command_eq_test_iff {r : Request} {pattern : String} {inputs : List String} :
    r.command = .ok (.test pattern inputs)
      ↔ r.words = "match" :: pattern :: inputs ∧ inputs ≠ [] := by
  unfold Request.command
  split
  · rename_i hwords
    simp [hwords]
  · rename_i operands hwords
    simp only [hwords, List.cons.injEq, String.reduceEq, false_and, iff_false]
    split
    · simp
    · split <;> simp
  · rename_i operands hwords
    simp only [hwords, List.cons.injEq, true_and]
    split
    · rename_i first second others
      simp only [Except.ok.injEq, Command.test.injEq, List.cons.injEq]
      constructor
      · rintro ⟨rfl, rfl⟩
        exact ⟨⟨rfl, rfl⟩, List.cons_ne_nil _ _⟩
      · rintro ⟨⟨rfl, rfl⟩, -⟩
        exact ⟨rfl, rfl⟩
    · rename_i hshort
      simp only [reduceCtorEq, false_iff, not_and, Classical.not_not]
      rintro rfl
      cases inputs with
      | nil => rfl
      | cons input rest => exact (hshort pattern input rest rfl).elim
  · rename_i word operands hdraw htest hwords
    simp only [hwords, reduceCtorEq, List.cons.injEq, false_iff, not_and]
    rintro ⟨rfl, -⟩
    exact (htest rfl).elim

theorem parse_trace {before after : List String} {pattern : String} {inputs : List String}
    {simulation : Simulation} {traced : Bool}
    (h : parse (before ++ after) = .ok { command := .test pattern inputs, simulation, traced }) :
    parse (before ++ "--debug" :: after)
      = .ok { command := .test pattern inputs, simulation, traced := true } := by
  unfold parse at h ⊢
  rw [ofArguments_trace]
  cases hrequest : Request.ofArguments (before ++ after) with
  | error refusal => simp [hrequest] at h
  | ok r =>
    rw [hrequest] at h
    simp only [Except.map]
    cases hcommand : r.command with
    | error error => simp [hcommand] at h
    | ok command =>
      simp only [hcommand, Except.ok.injEq, Invocation.mk.injEq] at h
      obtain ⟨rfl, rfl, -⟩ := h
      have hwords := command_eq_test_iff.1 hcommand
      have htraced : Request.command { r with traced := true } = .ok (.test pattern inputs) :=
        command_eq_test_iff.2 hwords
      simp only [htraced]

/-! ## The outcome -/

theorem test_eq_ok {pattern : String} {simulation : Simulation} {a : Automaton}
    (h : compile pattern simulation = .ok a) (inputs : List String) (traced : Bool) :
    test pattern inputs simulation traced =
      { exitCode := if ∃ input ∈ inputs, a.isMatch input = false then 1 else 0
        stdout := String.join (inputs.map (report a))
        stderr := if traced then String.join (inputs.flatMap (traceLines a)) else "" } := by
  obtain ⟨hstdout, hstderr, hrejected⟩ := foldl_test a traced {} inputs
  have hexit : (inputs.foldl (Tally.test a traced) {}).rejected = 0
      ↔ ¬ ∃ input ∈ inputs, a.isMatch input = false := by
    rw [hrejected]
    simp [List.countP_eq_zero]
  simp only [test, withAutomaton, h, hstdout, hstderr, hexit, ite_not, String.empty_append]

/-! ## The law -/

/-- The command says of each input, in order, what it says of that input alone: the verdict of the
library, and the size of the frontier of a new matcher after it. The exit code tells whether an
input is rejected. A pattern that does not compile leaves nothing to say. A trace may be asked for
anywhere among the arguments. It changes neither of the two, and has a line for the beginning of
each input and one for each of its characters. -/
theorem each_input_gets_a_line_of_its_own (pattern : String) (inputs : List String)
    (simulation : Simulation) :
    let outcome := test pattern inputs simulation
    (∀ before after stdin traced,
      parse (before ++ after) = .ok { command := .test pattern inputs, simulation, traced } →
        run (before ++ after) stdin = outcome traced
        ∧ run (before ++ "--debug" :: after) stdin = outcome true)
    ∧ ((outcome true).stdout = (outcome false).stdout
      ∧ (outcome true).exitCode = (outcome false).exitCode)
    ∧ (∀ e, compile pattern simulation = .error e →
      (outcome false).stdout = "" ∧ (outcome false).exitCode = 1)
    ∧ ∀ a, compile pattern simulation = .ok a →
      outcome false
          = { exitCode := if ∃ input ∈ inputs, a.isMatch input = false then 1 else 0
              stdout := String.join (inputs.map (report a)) }
      ∧ (outcome true).stderr = String.join (inputs.flatMap (traceLines a))
      ∧ ∀ input, IsLine (report a input)
        ∧ (traceLines a input).length = 1 + input.length
        ∧ ∀ line ∈ traceLines a input, IsLine line := by
  intro outcome
  refine ⟨?_, ?_, ?_, ?_⟩
  · intro before after stdin traced h
    refine ⟨?_, ?_⟩
    · simp only [run, dialogue, h]
      rfl
    · simp only [run, dialogue, parse_trace h]
      rfl
  · cases hcompile : compile pattern simulation with
    | error e => simp only [outcome, test, withAutomaton, hcompile, and_self]
    | ok a => simp only [outcome, test_eq_ok hcompile, and_self]
  · intro e he
    simp only [outcome, test, withAutomaton, he]
    exact ⟨rfl, rfl⟩
  · intro a ha
    refine ⟨test_eq_ok ha inputs false, ?_, ?_⟩
    · simp only [outcome, test_eq_ok ha, if_true]
    · intro input
      exact ⟨isLine_report a input, length_traceLines a input, fun _ => isLine_of_mem_traceLines⟩

/-- The second input is rejected and leaves an empty frontier behind, of which the third one sees
nothing. -/
theorem a_rejected_input_leaves_the_next_one_alone :
    let outcome := run ["match", "a?b", "--debug", "ab", "c", "--closure", "b"] []
    outcome.stdout
        = "accept \"ab\" (frontier 1)\nreject \"c\" (frontier 0)\naccept \"b\" (frontier 1)\n"
      ∧ outcome.exitCode = 1
      ∧ outcome.stderr = "   start | 0 1\n     'a' | 1 0\n     'b' | 2\n"
        ++ "   start | 0 1\n     'c' | \n" ++ "   start | 0 1\n     'b' | 2\n" := by
  intro outcome
  have hcompile : compile "a?b" .closure = .ok _ := rfl
  obtain ⟨hrun, ⟨hstdout, hexit⟩, -, hok⟩ :=
    each_input_gets_a_line_of_its_own "a?b" ["ab", "c", "b"] .closure
  obtain ⟨houtcome, hstderr, -⟩ := hok _ hcompile
  have hsame : outcome = test "a?b" ["ab", "c", "b"] .closure true :=
    (hrun ["match", "a?b"] ["ab", "c", "--closure", "b"] [] false rfl).2
  rw [hsame, hstdout, hexit, hstderr, houtcome]
  refine ⟨?_, ?_, ?_⟩
  · decide +kernel
  · decide +kernel
  · decide +kernel

end Cli

end PatternNFA
