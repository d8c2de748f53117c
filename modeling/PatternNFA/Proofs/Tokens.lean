-- The tokens of a pattern. A class is one token, and the `]` after it is a
-- literal of its own, so the tokens spell the pattern. Reading a pattern one
-- character at a time is reading it one token at a time.
import PatternNFA.Proofs.Modes

namespace PatternNFA

/-! ## Splitting a pattern -/

inductive Token where
  | openGroup
  | closeGroup
  | bar
  | optional
  | plus
  | star
  /-- A class, up to its `]` or to the end of the pattern. -/
  | charClass (negated : Bool) (members : List Char)
  | escape (c : Char)
  | literal (c : Char)
  deriving DecidableEq

namespace Token

/-- The token that one character makes. -/
def ofChar : Char → Token
  | '(' => .openGroup
  | ')' => .closeGroup
  | '|' => .bar
  | '?' => .optional
  | '+' => .plus
  | '*' => .star
  | c => .literal c

def spelling : Token → List Char
  | .openGroup => ['(']
  | .closeGroup => [')']
  | .bar => ['|']
  | .optional => ['?']
  | .plus => ['+']
  | .star => ['*']
  | .charClass negated members => '[' :: (if negated then '^' :: members else members)
  | .escape c => ['\\', c]
  | .literal c => [c]

/-- The first token of some characters, and what is left of them. A backslash at the end
makes no token. -/
def next? : Char → List Char → Option (Token × List Char)
  | '\\', cs =>
    match cs with
    | [] => none
    | c :: rest => some (.escape c, rest)
  | '[', cs =>
    match cs with
    | '^' :: cs => some (.charClass true (cs.takeWhile (· ≠ ']')), cs.dropWhile (· ≠ ']'))
    | cs => some (.charClass false (cs.takeWhile (· ≠ ']')), cs.dropWhile (· ≠ ']'))
  | c, cs => some (ofChar c, cs)

theorem next?_eq_none_iff {c : Char} {cs : List Char} :
    next? c cs = none ↔ c = '\\' ∧ cs = [] := by
  unfold next?
  split
  · split <;> simp
  · split <;> simp
  · rename_i hescape _
    simp only [reduceCtorEq, false_iff, not_and]
    exact fun he => absurd he hescape

theorem next?_of_ne {c : Char} (hopen : c ≠ '[') (hescape : c ≠ '\\') (cs : List Char) :
    next? c cs = some (ofChar c, cs) := by
  unfold next?
  split
  · exact absurd rfl hescape
  · exact absurd rfl hopen
  · rfl

theorem spelling_ofChar (c : Char) : (ofChar c).spelling = [c] := by
  unfold ofChar
  split <;> rfl

theorem spelling_next? {c : Char} {cs rest : List Char} {token : Token}
    (h : next? c cs = some (token, rest)) : token.spelling ++ rest = c :: cs := by
  unfold next? at h
  split at h
  · split at h
    · cases h
    · cases h
      rfl
  · split at h
    · cases h
      simp [spelling, List.takeWhile_append_dropWhile]
    · cases h
      simp [spelling, List.takeWhile_append_dropWhile]
  · cases h
    rw [spelling_ofChar, List.singleton_append]

theorem length_spelling_pos (token : Token) : 0 < token.spelling.length := by
  cases token <;> simp [spelling]

theorem length_next?_le {c : Char} {cs rest : List Char} {token : Token}
    (h : next? c cs = some (token, rest)) : rest.length ≤ cs.length := by
  have hlength := congrArg List.length (spelling_next? h)
  have hpos := length_spelling_pos token
  simp only [List.length_append, List.length_cons] at hlength
  omega

end Token

/-- The tokens of a pattern, unless it ends in a dangling escape. -/
def tokens : List Char → Option (List Token)
  | [] => some []
  | c :: cs =>
    match _ : Token.next? c cs with
    | none => none
    | some (token, rest) => (tokens rest).map (token :: ·)
termination_by cs => cs.length
decreasing_by
  have := Token.length_next?_le ‹_›
  simp only [List.length_cons]
  omega

/-- Where no class opens and nothing is escaped, each character is a token. -/
theorem tokens_eq_map {cs : List Char} (h : ∀ c ∈ cs, c ≠ '[' ∧ c ≠ '\\') :
    tokens cs = some (cs.map .ofChar) := by
  induction cs with
  | nil => rw [tokens, List.map_nil]
  | cons c cs ih =>
    obtain ⟨hopen, hescape⟩ := h c List.mem_cons_self
    have hnext := Token.next?_of_ne hopen hescape cs
    have hrest := ih fun d hd => h d (List.mem_cons_of_mem c hd)
    rw [tokens]
    split
    · rename_i hnone
      rw [hnext] at hnone
      cases hnone
    · rename_i hsome
      rw [hnext] at hsome
      cases hsome
      rw [hrest]
      rfl

/-- The tokens lose no character, and take none twice. -/
theorem spelling_tokens {cs : List Char} {ts : List Token} (h : tokens cs = some ts) :
    ts.flatMap Token.spelling = cs := by
  fun_induction tokens cs generalizing ts with
  | case1 =>
    cases h
    rfl
  | case2 c cs hnext => cases h
  | case3 c cs token rest hnext ih =>
    obtain ⟨more, hmore, rfl⟩ := Option.map_eq_some_iff.1 h
    rw [List.flatMap_cons, ih hmore, Token.spelling_next? hnext]

end PatternNFA
