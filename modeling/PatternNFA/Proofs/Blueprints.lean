-- What a blueprint tells of the automaton that it shows: the edges of each state, and the states
-- that accept. The tokens of a pattern tell the flags of its blueprint one token after the other.
import PatternNFA.Proofs.Construction

namespace PatternNFA

/-! ## Reading an automaton off a blueprint -/

namespace Blueprint

variable {b : Blueprint} {a : Automaton}

theorem Shows.automaton_size (h : b.Shows a.states) : a.size = b.size := h.size_eq

/-- The transitions of a state are those of its log, and a number without a state has none. -/
theorem Shows.transitions_eq (h : b.Shows a.states) (s : Nat) :
    ((a.states[s]?).map State.transitions).getD .empty = .ofLog (b.log s) := by
  rw [h.state_eq, state?]
  rcases Nat.lt_or_ge s b.size with hs | hs
  · rw [List.getElem?_eq_getElem (show s < b.flags.length from hs)]
    rfl
  · rw [List.getElem?_eq_none (show b.flags.length ≤ s from hs), h.log_eq s hs]
    rfl

theorem Shows.edges_eq (h : b.Shows a.states) (s : Nat) : a.edges s = grouped (b.log s) := by
  have hedges : a.edges s = (((a.states[s]?).map State.transitions).getD .empty).edges := by
    unfold Automaton.edges
    cases a.states[s]? <;> rfl
  rw [hedges, h.transitions_eq, Transitions.edges_ofLog]

theorem Shows.targets_eq (h : b.Shows a.states) (s : Nat) (x : Symbol) :
    a.targets s x = ((b.log s).filter (·.1 = x)).map (·.2) := by
  have htargets : a.targets s x
      = ((((a.states[s]?).map State.transitions).getD .empty).targets x).toList := by
    unfold Automaton.targets
    cases a.states[s]? <;> rfl
  rw [htargets, h.transitions_eq, Transitions.targets_ofLog]

theorem Shows.mem_targets (h : b.Shows a.states) {s t : Nat} {x : Symbol} :
    t ∈ a.targets s x ↔ (x, t) ∈ b.log s := by
  rw [h.targets_eq]
  simp

theorem Shows.isAccepting_eq (h : b.Shows a.states) (s : Nat) :
    a.isAccepting s = (b.flags[s]?).getD false := by
  unfold Automaton.isAccepting
  rw [h.state_eq, state?]
  cases b.flags[s]? <;> rfl

end Blueprint

/-! ## The blueprint of a pattern -/

theorem exists_compile_of_tokens {pattern : String} {ts : List Token}
    (h : tokens pattern.toList = some ts) (simulation : Simulation) :
    ∃ a, compile pattern simulation = .ok a
      ∧ (Construction.ofTokens ts).blueprint.Shows a.states := by
  have hlaid := Draft.follows_fresh.finish_readAll pattern.toList
  rw [h] at hlaid
  obtain ⟨states, hfinish, hshows⟩ := hlaid
  let a : Automaton := { states, start := Draft.root, simulation }
  exact ⟨a, compile_eq_ok.2 ⟨hfinish, rfl, rfl⟩, hshows⟩

theorem compile_shows {pattern : String} {simulation : Simulation} {a : Automaton}
    (h : compile pattern simulation = .ok a) : ∃ ts, tokens pattern.toList = some ts
      ∧ (Construction.ofTokens ts).blueprint.Shows a.states := by
  cases htokens : tokens pattern.toList with
  | none =>
    obtain ⟨e, herror⟩ := Draft.follows_fresh.finish_eq_error htokens
    rw [(compile_eq_ok.1 h).1] at herror
    cases herror
  | some ts =>
    obtain ⟨b, hb, hshows⟩ := exists_compile_of_tokens htokens simulation
    obtain rfl : b = a := Except.ok.inj (hb.symm.trans h)
    exact ⟨ts, rfl, hshows⟩

/-! ## The flags -/

/-- Whether the states that a token makes accept, in the order of their creation. -/
def Token.flags : Token → List Bool
  | .openGroup | .bar | .escape _ | .literal _ => [true]
  | .closeGroup | .optional | .plus | .star => []
  | .charClass negated members => false :: List.replicate (members.length + negated.toNat) true

namespace Blueprint

theorem flags_foldl_grow (b : Blueprint) (head : Nat) (members : List Char) :
    (members.foldl (fun b c => b.grow head (.char c) true) b).flags
      = b.flags ++ List.replicate members.length true := by
  induction members generalizing b with
  | nil => exact (List.append_nil b.flags).symm
  | cons c rest ih =>
    rw [List.foldl_cons, ih, List.length_cons, List.replicate_succ, ← List.singleton_append,
      ← List.append_assoc]
    rfl

theorem flags_fill (b : Blueprint) (head : Nat) (negated : Bool) (members : List Char) :
    (b.fill head negated members).flags
      = b.flags ++ List.replicate (members.length + negated.toNat) true := by
  have hmembers := flags_foldl_grow b head members
  unfold fill
  cases negated with
  | false => exact hmembers
  | true =>
    have hbypass := congrArg (· ++ [true]) hmembers
    rw [List.append_assoc, ← List.replicate_succ'] at hbypass
    exact hbypass

end Blueprint

namespace Construction

/-- To close a group makes no state and draws no edge. -/
theorem blueprint_lay_closeGroup (k : Construction) :
    (k.lay .closeGroup).blueprint = k.blueprint := by
  simp only [lay]
  split <;> rfl

theorem flags_lay (k : Construction) (token : Token) :
    (k.lay token).blueprint.flags = k.blueprint.flags ++ token.flags := by
  cases token with
  | closeGroup =>
    rw [blueprint_lay_closeGroup]
    exact (List.append_nil _).symm
  | charClass negated members =>
    have hfilled := (k.blueprint.add false).flags_fill k.blueprint.size negated members
    rw [Blueprint.add, List.append_assoc, List.singleton_append] at hfilled
    exact hfilled
  | optional | plus | star => exact (List.append_nil _).symm
  | _ => rfl

theorem flags_foldl_lay (k : Construction) (ts : List Token) :
    (ts.foldl lay k).blueprint.flags = k.blueprint.flags ++ ts.flatMap Token.flags := by
  induction ts generalizing k with
  | nil => exact (List.append_nil _).symm
  | cons token ts ih =>
    rw [List.foldl_cons, ih, flags_lay, List.flatMap_cons, List.append_assoc]

/-- The root accepts, and so do the states of the tokens but for the heads of classes. -/
theorem flags_ofTokens (ts : List Token) :
    (ofTokens ts).blueprint.flags = true :: ts.flatMap Token.flags :=
  flags_foldl_lay empty ts

end Construction

end PatternNFA
