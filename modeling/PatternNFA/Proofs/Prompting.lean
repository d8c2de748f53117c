-- What the prompt makes of the bytes that it is given. It reads two lines, each up to a line feed or
-- to the end, and looks at nothing after them. What ends a line is cut off, carriage returns
-- included. An empty line is refused before the pattern is compiled; two others get the verdict of
-- the library.
import Mathlib.Data.List.TakeDrop
import Mathlib.Data.List.TakeWhile
import PatternNFA.Proofs.Interleaving

namespace PatternNFA

namespace Cli

/-! ## The bytes of a text -/

/-- The text in UTF-8. -/
def bytes (text : String) : List UInt8 := text.toUTF8.data.toList

theorem bytes_append (s t : String) : bytes (s ++ t) = bytes s ++ bytes t := by
  have hparts : (s ++ t).toUTF8 = s.toUTF8 ++ t.toUTF8 := String.toByteArray_append
  rw [bytes, hparts, ByteArray.data_append, Array.toList_append, bytes, bytes]

theorem bytes_eq_flatMap (text : String) :
    bytes text = text.toList.flatMap String.utf8EncodeChar := by
  rw [bytes, String.toUTF8_eq_toByteArray, ← String.utf8Encode_toList]
  exact List.toList_data_toByteArray

/-- In the encoding of a longer character every byte is above those of the short ones. -/
theorem eq_lineFeed_of_mem {c : Char} (h : lineFeed ∈ String.utf8EncodeChar c) : c = '\n' := by
  have hcode : ∀ {n}, lineFeed = UInt8.ofNat n → n % 256 = 10 := by
    intro n hn
    simpa [lineFeed] using (congrArg UInt8.toNat hn).symm
  simp only [String.utf8EncodeChar] at h
  split_ifs at h with hone htwo hthree
  · have hfeed := hcode (List.mem_singleton.1 h)
    rw [Nat.mod_eq_of_lt (by omega)] at hfeed
    exact Char.ext (UInt32.toNat_inj.1 hfeed)
  · simp only [List.mem_cons, List.not_mem_nil, or_false] at h
    rcases h with h | h <;> have := hcode h <;> omega
  · simp only [List.mem_cons, List.not_mem_nil, or_false] at h
    rcases h with h | h | h <;> have := hcode h <;> omega
  · simp only [List.mem_cons, List.not_mem_nil, or_false] at h
    rcases h with h | h | h | h <;> have := hcode h <;> omega

theorem lineFeed_notMem_bytes_iff {text : String} : lineFeed ∉ bytes text ↔ Unbroken text := by
  rw [bytes_eq_flatMap, List.mem_flatMap, Unbroken, not_iff_not]
  constructor
  · rintro ⟨c, hc, hfeed⟩
    exact eq_lineFeed_of_mem hfeed ▸ hc
  · intro hfeed
    exact ⟨'\n', hfeed, by decide⟩

/-! ## One line -/

/-- The next line of the input is the text, and the rest comes after its line feed. The last line
may lack the line feed, and once nothing is left, the lines are empty. -/
inductive NextLine (text : String) : List UInt8 → List UInt8 → Prop
  | fed (rest : List UInt8) : Unbroken text → NextLine text (bytes text ++ lineFeed :: rest) rest
  | ended : Unbroken text → NextLine text (bytes text) []

theorem takeLine_eq (stdin : List UInt8) : takeLine stdin
    = (stdin.takeWhile (· != lineFeed), (stdin.dropWhile (· != lineFeed)).tail) := by
  simp only [takeLine, List.span_eq_takeWhile_dropWhile, List.drop_one]

theorem takeLine_eq_iff {stdin line rest : List UInt8} : takeLine stdin = (line, rest)
    ↔ lineFeed ∉ line ∧ (stdin = line ++ lineFeed :: rest ∨ stdin = line ∧ rest = []) := by
  rw [takeLine_eq, Prod.mk.injEq]
  constructor
  · rintro ⟨rfl, rfl⟩
    refine ⟨fun hfeed => ?_, ?_⟩
    · exact bne_iff_ne.1 (List.mem_takeWhile_imp (p := (· != lineFeed)) hfeed) rfl
    · have hparts := List.takeWhile_append_dropWhile (p := (· != lineFeed)) (l := stdin)
      cases hdrop : stdin.dropWhile (· != lineFeed) with
      | nil =>
        rw [hdrop, List.append_nil] at hparts
        exact .inr ⟨hparts.symm, rfl⟩
      | cons byte rest =>
        have hbyte : byte = lineFeed := by
          have hhead := List.head?_dropWhile_not (· != lineFeed) stdin
          rw [hdrop] at hhead
          simpa using hhead
        rw [hdrop, hbyte] at hparts
        exact .inl hparts.symm
  · rintro ⟨hline, hstdin⟩
    have hline : ∀ byte ∈ line, (byte != lineFeed) = true := fun byte hbyte =>
      bne_iff_ne.2 fun heq => hline (heq ▸ hbyte)
    rcases hstdin with rfl | ⟨rfl, rfl⟩
    · rw [List.takeWhile_append_of_pos hline, List.dropWhile_append_of_pos hline]
      simp
    · rw [List.takeWhile_eq_self_iff.2 hline, List.dropWhile_eq_nil_iff.2 hline]
      exact ⟨rfl, rfl⟩

/-- Every line that is a text is read so. -/
theorem nextLine_iff {text : String} {stdin rest : List UInt8} :
    NextLine text stdin rest ↔ takeLine stdin = (bytes text, rest) := by
  rw [takeLine_eq_iff, lineFeed_notMem_bytes_iff]
  constructor
  · intro h
    cases h with
    | fed _ hunbroken => exact ⟨hunbroken, .inl rfl⟩
    | ended hunbroken => exact ⟨hunbroken, .inr ⟨rfl, rfl⟩⟩
  · rintro ⟨hunbroken, rfl | ⟨rfl, rfl⟩⟩
    · exact .fed rest hunbroken
    · exact .ended hunbroken

theorem decodeLine_bytes (text : String) : decodeLine (bytes text) = .ok (trimLineEnd text) := by
  have harray : (⟨(bytes text).toArray⟩ : ByteArray) = text.toByteArray := by
    rw [bytes, Array.toArray_toList]
    rfl
  have hdecode : String.fromUTF8? text.toByteArray = some text := by
    rw [String.fromUTF8?, dif_pos text.isValidUTF8]
    rfl
  simp only [decodeLine, harray, hdecode]

/-- A question is answered by the next line, and the rest is left for the questions after it. -/
theorem run_askFor {text : String} {stdin rest : List UInt8} (h : NextLine text stdin rest)
    (question : String) (next : String → Dialogue) : (askFor question next).run stdin
      = let outcome := (next (trimLineEnd text)).run rest
        { outcome with stdout := question ++ outcome.stdout } := by
  simp only [askFor, Dialogue.run, nextLine_iff.1 h, decodeLine_bytes]

/-! ## What is cut off -/

def lineEnds : List String := ["\n", "\r\n"]

/-- The text can be typed on a line, and nothing of it is cut off there. -/
structure IsTyped (text : String) : Prop where
  ne_empty : text ≠ ""
  unbroken : Unbroken text
  not_return : text.toList.getLast? ≠ some '\r'

/-- Nothing but carriage returns stands on the line, or nothing at all. -/
def OnlyReturns (text : String) : Prop := ∀ c ∈ text.toList, c = '\r'

instance (text : String) : Decidable (OnlyReturns text) :=
  List.decidableBAll (· = '\r') text.toList

theorem trimLineEnd_append_return (text : String) :
    trimLineEnd (text ++ "\r") = trimLineEnd text := by
  have hreturn : (text ++ "\r").toList = text.toList ++ ['\r'] := String.toList_append
  rw [trimLineEnd, hreturn, List.reverse_append, List.reverse_singleton, List.singleton_append,
    List.dropWhile_cons_of_pos (by decide), trimLineEnd]

theorem trimLineEnd_eq_empty {text : String} (h : OnlyReturns text) : trimLineEnd text = "" := by
  have hall : ∀ c ∈ text.toList.reverse, decide (c = '\r' ∨ c = '\n') = true := by
    intro c hc
    exact decide_eq_true (.inl (h c (List.mem_reverse.1 hc)))
  rw [trimLineEnd, List.dropWhile_eq_nil_iff.2 hall]
  rfl

theorem IsTyped.trimLineEnd_eq {text : String} (h : IsTyped text) : trimLineEnd text = text := by
  have hhead : text.toList.reverse.dropWhile (fun c => c = '\r' ∨ c = '\n')
      = text.toList.reverse := by
    cases hlist : text.toList.reverse with
    | nil => rfl
    | cons c before =>
      have hlast : text.toList.getLast? = some c := by
        rw [List.getLast?_eq_head?_reverse, hlist, List.head?_cons]
      have hreturn : c ≠ '\r' := fun heq => h.not_return (heq ▸ hlast)
      have hfeed : c ≠ '\n' := fun heq => h.unbroken (heq ▸ List.mem_of_getLast? hlast)
      rw [List.dropWhile_cons_of_neg (by simp [hreturn, hfeed])]
  rw [trimLineEnd, hhead, List.reverse_reverse, String.ofList_toList]

/-- Either line end is read with the text, and is cut off from it. -/
theorem IsTyped.exists_nextLine {text lineEnd : String} (h : IsTyped text)
    (hend : lineEnd ∈ lineEnds) (rest : List UInt8) :
    ∃ line, NextLine line (bytes text ++ (bytes lineEnd ++ rest)) rest
      ∧ trimLineEnd line = text := by
  simp only [lineEnds, List.mem_cons, List.not_mem_nil, or_false] at hend
  rcases hend with rfl | rfl
  · exact ⟨text, .fed rest h.unbroken, h.trimLineEnd_eq⟩
  · refine ⟨text ++ "\r", ?_, ?_⟩
    · have hreturn : Unbroken (text ++ "\r") := unbroken_append.2 ⟨h.unbroken, by decide⟩
      have hline := NextLine.fed rest hreturn
      rw [bytes_append, List.append_assoc] at hline
      exact hline
    · rw [trimLineEnd_append_return, h.trimLineEnd_eq]

theorem IsTyped.exists_nextLine_of_tail {text : String} (h : IsTyped text) {tail : List UInt8}
    (htail : tail = [] ∨ ∃ lineEnd ∈ lineEnds, ∃ unread, tail = bytes lineEnd ++ unread) :
    ∃ line rest, NextLine line (bytes text ++ tail) rest ∧ trimLineEnd line = text := by
  rcases htail with rfl | ⟨lineEnd, hend, unread, rfl⟩
  · rw [List.append_nil]
    exact ⟨text, [], .ended h.unbroken, h.trimLineEnd_eq⟩
  · obtain ⟨line, hline, htrim⟩ := h.exists_nextLine hend unread
    exact ⟨line, unread, hline, htrim⟩

/-! ## What is said of two lines -/

def questions : String := "Enter the regular expression: " ++ "Enter the input string: "

theorem questions_append (text : String) : questions ++ text
    = "Enter the regular expression: " ++ ("Enter the input string: " ++ text) :=
  String.append_assoc

/-- The line that names the two texts, with the verdict of the library. -/
def resultLine (a : Automaton) (pattern input : String) : String :=
  let verdict := if a.isMatch input then "true" else "false"
  s!"Matching result for '{input}' with regex '{pattern}': {verdict}\n"

theorem toString_bool (b : Bool) : toString b = toString (if b then "true" else "false") := by
  cases b with
  | true => rfl
  | false => rfl

section

variable {pattern input : String} {simulation : Simulation}

theorem respond_of_empty (h : pattern = "" ∨ input = "") (traced : Bool) :
    respond simulation traced pattern input
      = failure "Invalid input. Both regex and input string are required." := by
  have hempty : (pattern.isEmpty || input.isEmpty) = true := by
    rw [Bool.or_eq_true, String.isEmpty_iff, String.isEmpty_iff]
    exact h
  rw [respond, if_pos hempty]

theorem respond_of_ne_empty (hpattern : pattern ≠ "") (hinput : input ≠ "") (traced : Bool) :
    respond simulation traced pattern input = withAutomaton pattern simulation fun a =>
      { stdout := resultLine a pattern input
        stderr := if traced then String.join (traceLines a input) else "" } := by
  have hfilled : ¬ (pattern.isEmpty || input.isEmpty) = true := by
    rw [Bool.or_eq_true, String.isEmpty_iff, String.isEmpty_iff, not_or]
    exact ⟨hpattern, hinput⟩
  rw [respond, if_neg hfilled]
  refine congrArg (withAutomaton pattern simulation) (funext fun a => ?_)
  rw [runInput_eq]
  unfold resultLine
  simp only [a.isMatch_eq, toString_bool]

/-- The two lines are read, with what ends them cut off, and nothing else is. -/
theorem run_prompt {first second : String} {stdin rest after : List UInt8}
    (hfirst : NextLine first stdin rest) (hsecond : NextLine second rest after) (traced : Bool) :
    (prompt simulation traced).run stdin
      = let outcome := respond simulation traced (trimLineEnd first) (trimLineEnd second)
        { outcome with stdout := questions ++ outcome.stdout } := by
  rw [prompt, run_askFor hfirst, run_askFor hsecond, Dialogue.run]
  dsimp only
  rw [questions_append]

end

/-! ## The flags -/

/-- Where the arguments are flags, they choose the simulation and the trace of the prompt. -/
theorem dialogue_eq_prompt {flags : List String} (h : ∀ flag ∈ flags, flag ∈ knownFlags) :
    dialogue flags
      = prompt (if "--closure" ∈ flags then .closure else .singleHop) ("--debug" ∈ flags) := by
  have hwords : flags.filter (· ∉ knownFlags) = [] := by simpa using h
  have hrequest := ofArguments_of_not_stops fun flag hflag =>
    not_stops_of_mem_knownFlags (h flag hflag)
  rw [hwords] at hrequest
  have hparse : parse flags = .ok
      { command := .prompt
        simulation := if "--closure" ∈ flags then .closure else .singleHop
        traced := "--debug" ∈ flags } :=
    parse_eq_ok_iff.2 ⟨hrequest, trivial⟩
  rw [dialogue, hparse]
  rfl

theorem run_of_flags {flags : List String} (h : ∀ flag ∈ flags, flag ∈ knownFlags)
    {first second : String} {stdin rest after : List UInt8} (hfirst : NextLine first stdin rest)
    (hsecond : NextLine second rest after) : run flags stdin
      = let outcome := respond (if "--closure" ∈ flags then .closure else .singleHop)
          ("--debug" ∈ flags) (trimLineEnd first) (trimLineEnd second)
        { outcome with stdout := questions ++ outcome.stdout } := by
  rw [run, dialogue_eq_prompt h, run_prompt hfirst hsecond]

/-! ## The law -/

/-- Where two lines are typed, each of them not empty, the prompt names them and gives the verdict of
the library, under the simulation that the flags choose. It makes no difference which of the two line
ends follows the first line, whether one follows the second, and what comes after that. Either
verdict gives exit code 0, and a pattern that does not compile gives its error alone. If one of the
two lines holds nothing but carriage returns, or is missing, the prompt says that it needs both,
whatever the pattern. -/
theorem two_lines_typed_get_the_verdict_of_the_library (flags : List String)
    (hflags : ∀ flag ∈ flags, flag ∈ knownFlags) :
    let simulation : Simulation := if "--closure" ∈ flags then .closure else .singleHop
    (∀ pattern input firstEnd tail, IsTyped pattern → IsTyped input → firstEnd ∈ lineEnds →
      (tail = [] ∨ ∃ lineEnd ∈ lineEnds, ∃ unread, tail = bytes lineEnd ++ unread) →
      let outcome := run flags (bytes pattern ++ bytes firstEnd ++ bytes input ++ tail)
      (∀ a, compile pattern simulation = .ok a → outcome =
        { exitCode := 0
          stdout := questions ++ resultLine a pattern input
          stderr := if "--debug" ∈ flags then String.join (traceLines a input) else "" })
      ∧ ∀ e, compile pattern simulation = .error e → outcome =
        { exitCode := 1, stdout := questions, stderr := s!"Error: {e.message}\n" })
    ∧ ∀ stdin first rest second after, NextLine first stdin rest → NextLine second rest after →
      OnlyReturns first ∨ OnlyReturns second → run flags stdin =
        { exitCode := 1
          stdout := questions
          stderr := "Error: Invalid input. Both regex and input string are required.\n" } := by
  intro simulation
  refine ⟨?_, ?_⟩
  · intro pattern input firstEnd tail hpattern hinput hfirstEnd htail outcome
    obtain ⟨second, after, hsecond, htrimSecond⟩ := hinput.exists_nextLine_of_tail htail
    obtain ⟨first, hfirst, htrimFirst⟩ :=
      hpattern.exists_nextLine hfirstEnd (bytes input ++ tail)
    rw [← List.append_assoc, ← List.append_assoc] at hfirst
    have houtcome := run_of_flags hflags hfirst hsecond
    rw [htrimFirst, htrimSecond, respond_of_ne_empty hpattern.ne_empty hinput.ne_empty] at houtcome
    refine ⟨?_, ?_⟩
    · intro a ha
      rw [withAutomaton, ha] at houtcome
      exact houtcome.trans (by simp)
    · intro e he
      rw [withAutomaton, he] at houtcome
      exact houtcome.trans (by simp [failure])
  · intro stdin first rest second after hfirst hsecond hreturns
    have hempty : trimLineEnd first = "" ∨ trimLineEnd second = "" :=
      hreturns.imp trimLineEnd_eq_empty trimLineEnd_eq_empty
    rw [run_of_flags hflags hfirst hsecond, respond_of_empty hempty]
    rfl

/-- Bytes that are no text follow the second line and stay unread. A pattern that does not compile is
not looked at where the second line holds nothing. After a single line the second one is missing. -/
theorem an_answer_takes_two_lines :
    run ["--debug", "--closure", "--debug"] (bytes "a?b\r\nab\n" ++ [0xFF, 0x0A])
        = { stdout := "Enter the regular expression: Enter the input string: "
              ++ "Matching result for 'ab' with regex 'a?b': true\n"
            stderr := "   start | 0 1\n     'a' | 1 0\n     'b' | 2\n" }
    ∧ run [] (bytes "a\\\nab")
        = { exitCode := 1
            stdout := "Enter the regular expression: Enter the input string: "
            stderr := "Error: invalid escape sequence at the end of the pattern (offset 1)\n" }
    ∧ run ["--closure"] (bytes "\\\r\n\r\r")
        = { exitCode := 1
            stdout := "Enter the regular expression: Enter the input string: "
            stderr := "Error: Invalid input. Both regex and input string are required.\n" }
    ∧ run [] (bytes "a")
        = { exitCode := 1
            stdout := "Enter the regular expression: Enter the input string: "
            stderr := "Error: Invalid input. Both regex and input string are required.\n" } := by
  have hcompile : compile "a?b" .closure = .ok _ := rfl
  have herror : compile "a\\" = .error (.unterminatedEscape 1) := rfl
  have hpattern : IsTyped "a?b" := ⟨by decide, by decide, by decide⟩
  have hescape : IsTyped "a\\" := ⟨by decide, by decide, by decide⟩
  have hinput : IsTyped "ab" := ⟨by decide, by decide, by decide⟩
  refine ⟨?_, ?_, ?_, ?_⟩
  · have hlaw := two_lines_typed_get_the_verdict_of_the_library
      ["--debug", "--closure", "--debug"] (by decide)
    have hanswer := (hlaw.1 "a?b" "ab" "\r\n" (bytes "\n" ++ [0xFF, 0x0A]) hpattern hinput
      (by decide) (.inr ⟨"\n", by decide, _, rfl⟩)).1 _ hcompile
    exact hanswer.trans (by decide +kernel)
  · have hlaw := two_lines_typed_get_the_verdict_of_the_library [] (by decide)
    exact (hlaw.1 "a\\" "ab" "\n" [] hescape hinput (by decide) (.inl rfl)).2 _ herror
  · have hlaw := two_lines_typed_get_the_verdict_of_the_library ["--closure"] (by decide)
    exact hlaw.2 (bytes "\\\r\n\r\r") "\\\r" (bytes "\r\r") "\r\r" []
      (.fed _ (by decide)) (.ended (by decide)) (.inr (by decide))
  · have hlaw := two_lines_typed_get_the_verdict_of_the_library [] (by decide)
    exact hlaw.2 (bytes "a") "a" [] "" [] (.ended (by decide)) (.ended (by decide))
      (.inr (by decide))

end Cli

end PatternNFA
