-- What the arguments come to. The first one that asks for help, or is an unknown flag, decides
-- alone. Where there is none, flags and words may be mixed in any way: it counts which flags are
-- set, and what the words are, in their order.
import PatternNFA.Proofs.Reports

namespace PatternNFA

/-! ## Mixing two lists -/

/-- The last list holds the elements of the other two, those of each in their order. -/
inductive Interleaves {α : Type} : List α → List α → List α → Prop
  | nil : Interleaves [] [] []
  | left {x : α} {xs ys zs : List α} : Interleaves xs ys zs → Interleaves (x :: xs) ys (x :: zs)
  | right {y : α} {xs ys zs : List α} : Interleaves xs ys zs → Interleaves xs (y :: ys) (y :: zs)

section

variable {α : Type} {xs ys zs : List α}

theorem Interleaves.mem_iff (h : Interleaves xs ys zs) {z : α} : z ∈ zs ↔ z ∈ xs ∨ z ∈ ys := by
  induction h with
  | nil => simp
  | left _ ih => rw [List.mem_cons, List.mem_cons, ih, or_assoc]
  | right _ ih => rw [List.mem_cons, List.mem_cons, ih, or_left_comm]

/-- A test that tells the two lists apart picks the one out of the mixture. -/
theorem Interleaves.filter_eq (h : Interleaves xs ys zs) {p : α → Bool}
    (hleft : ∀ x ∈ xs, ¬ p x = true) (hright : ∀ y ∈ ys, p y = true) : zs.filter p = ys := by
  induction h with
  | nil => rfl
  | @left x _ _ _ _ ih =>
    rw [List.filter_cons_of_neg (hleft x List.mem_cons_self)]
    exact ih (fun t ht => hleft t (List.mem_cons_of_mem x ht)) hright
  | @right y _ _ _ _ ih =>
    rw [List.filter_cons_of_pos (hright y List.mem_cons_self)]
    exact congrArg _ (ih hleft fun t ht => hright t (List.mem_cons_of_mem y ht))

theorem interleaves_filter (p : α → Bool) (zs : List α) :
    Interleaves (zs.filter fun z => !p z) (zs.filter p) zs := by
  induction zs with
  | nil => exact .nil
  | cons z rest ih =>
    by_cases hz : p z = true
    · rw [List.filter_cons_of_neg (by simpa using hz), List.filter_cons_of_pos hz]
      exact ih.right
    · rw [List.filter_cons_of_pos (by simpa using hz), List.filter_cons_of_neg hz]
      exact ih.left

end

namespace Cli

/-! ## One argument -/

def knownFlags : List String := ["--closure", "--debug"]

def AsksForHelp (text : String) : Prop := text = "-h" ∨ text = "--help"

/-- The argument begins like a flag, and is none. A lone hyphen does not begin one. -/
def IsUnknownFlag (text : String) : Prop :=
  1 < text.utf8ByteSize ∧ text.toList.head? = some '-' ∧ ¬ AsksForHelp text ∧ text ∉ knownFlags

/-- The argument decides alone what comes of all of them. -/
def Stops (text : String) : Prop := AsksForHelp text ∨ IsUnknownFlag text

def IsWord (text : String) : Prop :=
  text = "" ∨ text = "-" ∨ text.toList.head? ≠ some '-'

instance (text : String) : Decidable (AsksForHelp text) :=
  inferInstanceAs (Decidable (text = "-h" ∨ text = "--help"))

instance (text : String) : Decidable (IsUnknownFlag text) :=
  inferInstanceAs (Decidable (1 < text.utf8ByteSize ∧ text.toList.head? = some '-'
    ∧ ¬ AsksForHelp text ∧ text ∉ knownFlags))

instance (text : String) : Decidable (Stops text) :=
  inferInstanceAs (Decidable (AsksForHelp text ∨ IsUnknownFlag text))

instance (text : String) : Decidable (IsWord text) :=
  inferInstanceAs (Decidable (text = "" ∨ text = "-" ∨ text.toList.head? ≠ some '-'))

variable {text : String}

theorem eq_hyphen (h : text.toList.head? = some '-') (hsize : ¬ 1 < text.utf8ByteSize) :
    text = "-" := by
  obtain ⟨rest, hrest⟩ := List.head?_eq_some_iff.1 h
  have htext : text = String.singleton '-' ++ String.ofList rest := by
    rw [← String.ofList_cons, ← hrest, String.ofList_toList]
  have hrest : (String.ofList rest).utf8ByteSize = 0 := by
    have hhyphen : '-'.utf8Size = 1 := rfl
    rw [htext, String.utf8ByteSize_append, String.utf8ByteSize_singleton] at hsize
    omega
  rw [htext, String.utf8ByteSize_eq_zero_iff.1 hrest]
  rfl

/-- An argument stops the reading, or it is a flag that is known, or a word. -/
theorem Argument.of_cases (text : String) :
    (of text = .help ∧ AsksForHelp text) ∨ (of text = .unknown ∧ IsUnknownFlag text)
    ∨ (of text = .closure ∧ text = "--closure") ∨ (of text = .trace ∧ text = "--debug")
    ∨ (of text = .word ∧ IsWord text) := by
  unfold of
  split
  · exact .inl ⟨rfl, ‹_›⟩
  · rename_i hhelp
    split
    · exact .inr (.inr (.inl ⟨rfl, ‹_›⟩))
    · rename_i hclosure
      split
      · exact .inr (.inr (.inr (.inl ⟨rfl, ‹_›⟩)))
      · rename_i hdebug
        split
        · rename_i hflag
          have hknown : text ∉ knownFlags := by simp [knownFlags, hclosure, hdebug]
          exact .inr (.inl ⟨rfl, hflag.1, hflag.2, hhelp, hknown⟩)
        · rename_i hflag
          refine .inr (.inr (.inr (.inr ⟨rfl, ?_⟩)))
          by_cases hhead : text.toList.head? = some '-'
          · exact .inr (.inl (eq_hyphen hhead fun hsize => hflag ⟨hsize, hhead⟩))
          · exact .inr (.inr hhead)

theorem not_stops_of_mem_knownFlags (h : text ∈ knownFlags) : ¬ Stops text := by
  rintro (hhelp | hunknown)
  · rcases hhelp with rfl | rfl <;> simp [knownFlags] at h
  · exact hunknown.2.2.2 h

theorem notMem_knownFlags_of_isWord (h : IsWord text) : text ∉ knownFlags := by
  rintro hknown
  simp only [knownFlags, List.mem_cons, List.not_mem_nil, or_false] at hknown
  rcases hknown with rfl | rfl <;> simp [IsWord] at h

theorem not_stops_of_isWord (h : IsWord text) : ¬ Stops text := by
  rintro (hhelp | ⟨hsize, hhead, -, -⟩)
  · rcases hhelp with rfl | rfl <;> simp [IsWord] at h
  · rcases h with rfl | rfl | hword
    · exact absurd hsize (by decide)
    · exact absurd hsize (by decide)
    · exact hword hhead

theorem isWord_of_not_stops (h : ¬ Stops text) (hknown : text ∉ knownFlags) : IsWord text := by
  rcases Argument.of_cases text with ⟨-, hhelp⟩ | ⟨-, hunknown⟩ | ⟨-, rfl⟩ | ⟨-, rfl⟩ | ⟨-, hword⟩
  · exact absurd (.inl hhelp) h
  · exact absurd (.inr hunknown) h
  · simp [knownFlags] at hknown
  · simp [knownFlags] at hknown
  · exact hword

theorem Argument.of_eq_help (h : AsksForHelp text) : of text = .help := by
  rcases h with rfl | rfl <;> decide

theorem Argument.of_eq_unknown (h : IsUnknownFlag text) : of text = .unknown := by
  rcases of_cases text with ⟨-, hhelp⟩ | ⟨hof, -⟩ | ⟨-, rfl⟩ | ⟨-, rfl⟩ | ⟨-, hword⟩
  · exact absurd hhelp h.2.2.1
  · exact hof
  · exact absurd (.inr h) (not_stops_of_mem_knownFlags (by decide))
  · exact absurd (.inr h) (not_stops_of_mem_knownFlags (by decide))
  · exact absurd (.inr h) (not_stops_of_isWord hword)

/-! ## All arguments -/

/-- The first argument that stops the reading decides, whatever comes after it. -/
theorem ofArguments_of_stops {refusal : Refusal} (h : AsksForHelp text ∧ refusal = .help
      ∨ IsUnknownFlag text ∧ refusal = .usage (.unknownFlag text)) {before : List String}
    (hbefore : ∀ t ∈ before, ¬ Stops t) (after : List String) :
    Request.ofArguments (before ++ text :: after) = .error refusal := by
  induction before with
  | nil =>
    rw [List.nil_append, Request.ofArguments]
    rcases h with ⟨hhelp, rfl⟩ | ⟨hunknown, rfl⟩
    · rw [Argument.of_eq_help hhelp]
    · rw [Argument.of_eq_unknown hunknown]
  | cons t rest ih =>
    have hrest := ih fun u hu => hbefore u (List.mem_cons_of_mem t hu)
    have ht := hbefore t List.mem_cons_self
    rw [List.cons_append, Request.ofArguments, hrest]
    rcases Argument.of_cases t with ⟨-, hhelp⟩ | ⟨-, hunknown⟩ | ⟨hof, -⟩ | ⟨hof, -⟩ | ⟨hof, -⟩
    · exact absurd (.inl hhelp) ht
    · exact absurd (.inr hunknown) ht
    · rw [hof]
      rfl
    · rw [hof]
      rfl
    · rw [hof]
      rfl

/-- Where no argument stops the reading, it counts which flags occur, and what is left without
them. -/
theorem ofArguments_of_not_stops {arguments : List String} (h : ∀ t ∈ arguments, ¬ Stops t) :
    Request.ofArguments arguments = .ok
      { simulation := if "--closure" ∈ arguments then .closure else .singleHop
        traced := "--debug" ∈ arguments
        words := arguments.filter (· ∉ knownFlags) } := by
  induction arguments with
  | nil => rfl
  | cons t rest ih =>
    have hrest := ih fun u hu => h u (List.mem_cons_of_mem t hu)
    have ht := h t List.mem_cons_self
    rw [Request.ofArguments, hrest]
    rcases Argument.of_cases t
      with ⟨-, hhelp⟩ | ⟨-, hunknown⟩ | ⟨hof, rfl⟩ | ⟨hof, rfl⟩ | ⟨hof, hword⟩
    · exact absurd (.inl hhelp) ht
    · exact absurd (.inr hunknown) ht
    · rw [hof]
      simp [Except.map, knownFlags]
    · rw [hof]
      simp [Except.map, knownFlags]
    · have hknown := notMem_knownFlags_of_isWord hword
      have hclosure : "--closure" ≠ t := fun he => hknown (he ▸ List.mem_cons_self)
      have hdebug : "--debug" ≠ t := fun he => hknown (he ▸ by decide)
      rw [hof, List.filter_cons_of_pos (by simpa using hknown)]
      simp [Except.map, hclosure, hdebug]

theorem not_stops_of_ofArguments {arguments : List String} {r : Request}
    (h : Request.ofArguments arguments = .ok r) : ∀ t ∈ arguments, ¬ Stops t := by
  induction arguments generalizing r with
  | nil => exact fun t ht => absurd ht List.not_mem_nil
  | cons text rest ih =>
    cases hrest : Request.ofArguments rest with
    | error refusal =>
      rw [Request.ofArguments, hrest] at h
      cases hof : Argument.of text <;> rw [hof] at h <;> cases h
    | ok request =>
      have htext : ¬ Stops text := by
        rintro (hhelp | hunknown)
        · rw [Request.ofArguments, Argument.of_eq_help hhelp] at h
          cases h
        · rw [Request.ofArguments, Argument.of_eq_unknown hunknown] at h
          cases h
      exact List.forall_mem_cons.2 ⟨htext, ih hrest⟩

/-! ## The words of a command -/

def Command.words : Command → List String
  | .prompt => []
  | .draw pattern => ["dot", pattern]
  | .test pattern inputs => "match" :: pattern :: inputs

/-- What no drawing and no test can do without: a drawing takes no flag, and a test has an input. -/
def Invocation.IsProper (i : Invocation) : Prop :=
  match i.command with
  | .prompt => True
  | .draw _ => i.simulation = .singleHop ∧ i.traced = false
  | .test _ inputs => inputs ≠ []

theorem command_eq_prompt_iff {r : Request} : r.command = .ok .prompt ↔ r.words = [] := by
  unfold Request.command
  split
  · simp [*]
  · simp only [*]
    split
    · simp
    · split <;> simp
  · simp only [*]
    split <;> simp
  · simp [*]

theorem command_eq_draw_iff {r : Request} {pattern : String} :
    r.command = .ok (.draw pattern)
      ↔ r.words = ["dot", pattern] ∧ r.simulation = .singleHop ∧ r.traced = false := by
  unfold Request.command
  split
  · simp [*]
  · rename_i operands hwords
    simp only [hwords, List.cons.injEq, true_and]
    by_cases hflags : r.simulation = .singleHop ∧ r.traced = false
    · rw [if_neg (by simpa using hflags)]
      split
      · simp [hflags]
      · rename_i hoperands
        simp only [reduceCtorEq, hflags, and_self, and_true, false_iff]
        exact hoperands pattern
    · rw [if_pos (by simpa [Decidable.imp_iff_not_or] using hflags)]
      simp [hflags]
  · simp only [*]
    split <;> simp
  · rename_i word operands hdraw htest hwords
    simp only [hwords, reduceCtorEq, List.cons.injEq, false_iff, not_and]
    rintro ⟨rfl, -⟩
    exact (hdraw rfl).elim

theorem command_eq_ok_iff {r : Request} {command : Command} : r.command = .ok command
    ↔ r.words = command.words ∧ Invocation.IsProper ⟨command, r.simulation, r.traced⟩ := by
  cases command with
  | prompt => simpa [Invocation.IsProper, Command.words] using command_eq_prompt_iff
  | draw pattern => exact command_eq_draw_iff
  | test pattern inputs => exact command_eq_test_iff

theorem parse_eq_ok_iff {arguments : List String} {i : Invocation} : parse arguments = .ok i
    ↔ Request.ofArguments arguments = .ok ⟨i.simulation, i.traced, i.command.words⟩
      ∧ i.IsProper := by
  obtain ⟨command, simulation, traced⟩ := i
  unfold parse
  cases Request.ofArguments arguments with
  | error refusal => simp
  | ok r =>
    constructor
    · intro h
      cases hcommand : r.command with
      | error error => simp [hcommand] at h
      | ok found =>
        simp only [hcommand, Except.ok.injEq, Invocation.mk.injEq] at h
        obtain ⟨rfl, rfl, rfl⟩ := h
        obtain ⟨hwords, hproper⟩ := command_eq_ok_iff.1 hcommand
        exact ⟨by rw [← hwords], hproper⟩
    · rintro ⟨hr, hproper⟩
      obtain rfl := Except.ok.inj hr
      have hcommand : Request.command ⟨simulation, traced, command.words⟩ = .ok command :=
        command_eq_ok_iff.2 ⟨rfl, hproper⟩
      simp only [hcommand]

/-! ## The flags of an invocation -/

/-- The flags are those that the invocation asks for, each of them once or more. -/
structure Invocation.FlaggedBy (i : Invocation) (flags : List String) : Prop where
  known : ∀ flag ∈ flags, flag ∈ knownFlags
  closure_iff : "--closure" ∈ flags ↔ i.simulation = .closure
  debug_iff : "--debug" ∈ flags ↔ i.traced = true

variable {i : Invocation} {arguments : List String}

theorem ofArguments_of_interleaves {flags : List String} (hflags : i.FlaggedBy flags)
    (hwords : ∀ word ∈ i.command.words, IsWord word)
    (hmixed : Interleaves flags i.command.words arguments) :
    Request.ofArguments arguments = .ok ⟨i.simulation, i.traced, i.command.words⟩ := by
  have hgo : ∀ t ∈ arguments, ¬ Stops t := by
    intro t ht
    rcases hmixed.mem_iff.1 ht with hflag | hword
    · exact not_stops_of_mem_knownFlags (hflags.known t hflag)
    · exact not_stops_of_isWord (hwords t hword)
  have hoccurs : ∀ flag ∈ knownFlags, (flag ∈ arguments ↔ flag ∈ flags) := by
    intro flag hknown
    rw [hmixed.mem_iff, or_iff_left]
    exact fun hword => notMem_knownFlags_of_isWord (hwords flag hword) hknown
  have hfilter : arguments.filter (· ∉ knownFlags) = i.command.words := by
    apply hmixed.filter_eq
    · intro flag hflag
      simpa using hflags.known flag hflag
    · intro word hword
      simpa using notMem_knownFlags_of_isWord (hwords word hword)
  have hclosure := (hoccurs "--closure" (by decide)).trans hflags.closure_iff
  have hdebug := (hoccurs "--debug" (by decide)).trans hflags.debug_iff
  rw [ofArguments_of_not_stops hgo, hfilter]
  simp only [hclosure, hdebug]
  cases i.simulation <;> simp

/-- The flags of an argument list are mixed with its words. -/
theorem interleaves_of_ofArguments
    (h : Request.ofArguments arguments = .ok ⟨i.simulation, i.traced, i.command.words⟩) :
    (∀ word ∈ i.command.words, IsWord word)
    ∧ ∃ flags, i.FlaggedBy flags ∧ Interleaves flags i.command.words arguments := by
  have hgo := not_stops_of_ofArguments h
  rw [ofArguments_of_not_stops hgo] at h
  simp only [Except.ok.injEq, Request.mk.injEq] at h
  obtain ⟨hsimulation, htraced, hwords⟩ := h
  refine ⟨?_, arguments.filter (· ∈ knownFlags), ⟨?_, ?_, ?_⟩, ?_⟩
  · intro word hword
    rw [← hwords, List.mem_filter, decide_eq_true_eq] at hword
    exact isWord_of_not_stops (hgo word hword.1) hword.2
  · intro flag hflag
    simpa using (List.mem_filter.1 hflag).2
  · rw [← hsimulation]
    simp [knownFlags]
  · rw [← htraced]
    simp [knownFlags]
  · rw [← hwords]
    simpa using interleaves_filter (· ∉ knownFlags) arguments

/-! ## The law -/

/-- The first argument that asks for help, or is an unknown flag, decides, whatever stands around
it. Where there is none, it counts which flags occur and which words are left without them. An
invocation is what an argument list stands for if and only if the list mixes its flags, each once or
more, with its words, in any way. -/
theorem flags_and_words_may_be_mixed :
    (∀ before text after, (∀ t ∈ before, ¬ Stops t) →
      (AsksForHelp text → parse (before ++ text :: after) = .error .help)
      ∧ (IsUnknownFlag text →
        parse (before ++ text :: after) = .error (.usage (.unknownFlag text))))
    ∧ (∀ arguments others, (∀ t ∈ arguments, ¬ Stops t) → (∀ t ∈ others, ¬ Stops t) →
      ("--closure" ∈ arguments ↔ "--closure" ∈ others) →
      ("--debug" ∈ arguments ↔ "--debug" ∈ others) →
      arguments.filter (· ∉ knownFlags) = others.filter (· ∉ knownFlags) →
        parse arguments = parse others)
    ∧ ∀ (i : Invocation) (arguments : List String), parse arguments = .ok i
      ↔ i.IsProper ∧ (∀ word ∈ i.command.words, IsWord word)
        ∧ ∃ flags, i.FlaggedBy flags ∧ Interleaves flags i.command.words arguments := by
  refine ⟨?_, ?_, ?_⟩
  · intro before text after hbefore
    refine ⟨?_, ?_⟩
    · intro hhelp
      rw [parse, ofArguments_of_stops (.inl ⟨hhelp, rfl⟩) hbefore]
    · intro hunknown
      rw [parse, ofArguments_of_stops (.inr ⟨hunknown, rfl⟩) hbefore]
  · intro arguments others harguments hothers hclosure hdebug hwords
    rw [parse, parse, ofArguments_of_not_stops harguments, ofArguments_of_not_stops hothers]
    simp only [hclosure, hdebug, hwords]
  · intro i arguments
    rw [parse_eq_ok_iff]
    constructor
    · rintro ⟨hrequest, hproper⟩
      exact ⟨hproper, interleaves_of_ofArguments hrequest⟩
    · rintro ⟨hproper, hwords, flags, hflags, hmixed⟩
      exact ⟨ofArguments_of_interleaves hflags hwords hmixed, hproper⟩

/-- A flag stands between a command and its words, one is set twice, one word is a lone hyphen and
another one is empty. The unknown flag comes before the call for help. -/
theorem a_flag_between_a_command_and_its_words :
    parse ["--debug", "match", "--closure", "-", "", "--debug", "a"]
        = .ok { command := .test "-" ["", "a"], simulation := .closure, traced := true }
    ∧ parse ["match", "-", "", "--closure", "a"]
        = parse ["--closure", "--closure", "match", "-", "", "a"]
    ∧ parse ["dot", "--debug", "-x", "a", "--help"] = .error (.usage (.unknownFlag "-x"))
    ∧ parse ["dot", "--debug", "-h", "a", "-x"] = .error .help := by
  obtain ⟨hstops, hsame, hmixed⟩ := flags_and_words_may_be_mixed
  refine ⟨(hmixed _ _).2 ⟨?_, ?_, ["--debug", "--closure", "--debug"], ?_, ?_⟩, ?_, ?_, ?_⟩
  · exact List.cons_ne_nil _ _
  · decide
  · exact ⟨by decide, by decide, by decide⟩
  · exact .left (.right (.left (.right (.right (.left (.right .nil))))))
  · exact hsame _ _ (by decide) (by decide) (by decide) (by decide) (by decide)
  · exact (hstops ["dot", "--debug"] "-x" ["a", "--help"] (by decide)).2 (by decide)
  · exact (hstops ["dot", "--debug"] "-h" ["a", "-x"] (by decide)).1 (by decide)

end Cli

end PatternNFA
