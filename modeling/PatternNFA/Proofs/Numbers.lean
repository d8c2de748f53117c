-- The numbers of the states. A reader that keeps them in words of 32 bits, and stops at a number
-- with no state behind it, never stops and never loses a bit, unless the pattern is longer than a
-- word can count: there is never more than one state for each character read, beside the root.
import PatternNFA.Proofs.Growth

namespace PatternNFA

/-- What is left of a number that is kept in a word of 32 bits. -/
def word (n : Nat) : Nat := n.toUInt32.toNat

theorem word_eq {n : Nat} (h : n < 2 ^ 32) : word n = n := by
  rw [word, Nat.toUInt32_eq, UInt32.toNat_ofNat_of_lt' h]

namespace Draft

variable {d : Draft}

/-! ## The reader that may stop -/

/-- Stops if one of the two states is not there. -/
def link? (d : Draft) (source : Nat) (symbol : Symbol) (target : Nat) : Option Draft :=
  if source < d.states.size ∧ target < d.states.size then some (d.link source symbol target)
  else none

def sprout? (d : Draft) (symbol : Symbol) (accepting : Bool) : Option Draft :=
  let source := d.current
  let newest := word d.states.size
  { d with states := d.states.push { accepting } }.link? source symbol newest

def advance? (d : Draft) (symbol : Symbol) (accepting : Bool) : Option Draft :=
  let source := d.current
  let newest := word d.states.size
  { d with states := d.states.push { accepting }, current := newest }.link? source symbol newest

def readPlain? (d : Draft) (c : Char) : Option Draft :=
  let current := d.current
  let entry := d.entry
  let groups := d.groups
  match c with
  | '(' => (d.advance? .epsilon true).map fun e => { e with groups := current :: groups }
  | ')' => some { d with current := entry, groups := groups.tail }
  | '|' => d.advance? .epsilon true
  | '?' => (d.link? entry .epsilon current).bind fun e => e.link? current .epsilon entry
  | '+' => d.link? current .epsilon entry
  | '*' => d.link? entry .epsilon current
  | '[' => (d.advance? .epsilon false).map fun e => { e with mode := .classStart }
  | '\\' => some { d with mode := .escaped d.offset }
  | c => d.advance? (.char c) true

def endClass? (d : Draft) (negated : Bool) : Option Draft :=
  if negated then (d.sprout? .epsilon true).map fun e => { e with mode := .plain }
  else some { d with mode := .plain }

def readMember? (d : Draft) (negated : Bool) (c : Char) : Option Draft :=
  if c = ']' then (d.endClass? negated).bind fun e => e.readPlain? c
  else (d.sprout? (.char c) true).map fun e => { e with mode := .members negated }

def interpret? (d : Draft) (c : Char) : Option Draft :=
  match d.mode with
  | .plain => d.readPlain? c
  | .escaped _ => (d.sprout? (.char c) true).map fun e => { e with mode := .plain }
  | .classStart =>
    if c = '^' then some { d with mode := .members true } else d.readMember? false c
  | .members negated => d.readMember? negated c

def read? (d : Draft) (c : Char) : Option Draft :=
  let next := d.offset + c.utf8Size
  (d.interpret? c).map fun e => { e with offset := next }

def readAll? (d : Draft) (cs : List Char) : Option Draft := cs.foldlM read? d

def finish? (d : Draft) : Option (Except CompileError (Array State)) :=
  match d.mode with
  | .plain => some (.ok d.states)
  | .escaped offset => some (.error (.unterminatedEscape offset))
  | .classStart => (d.endClass? false).map fun e => .ok e.states
  | .members negated => (d.endClass? negated).map fun e => .ok e.states

/-! ## How many states there are -/

/-- The states that there are, with the one that a negated class will add at its end. -/
def pledged (d : Draft) : Nat := d.states.size + if d.mode = .members true then 1 else 0

theorem size_le_pledged (d : Draft) : d.states.size ≤ d.pledged := Nat.le_add_right _ _

theorem pledged_eq (h : d.mode ≠ .members true) : d.pledged = d.states.size := by
  rw [pledged, if_neg h, Nat.add_zero]

theorem pledged_of_members {negated : Bool} (h : d.mode = .members negated) :
    d.pledged = d.states.size + if negated then 1 else 0 := by
  simp [pledged, h]

/-- The end of a class adds what was pledged. -/
theorem size_endClass (d : Draft) (negated : Bool) :
    (d.endClass negated).states.size = d.states.size + if negated then 1 else 0 := by
  cases negated with
  | false => rfl
  | true => exact size_sprout d .epsilon true

theorem size_settle (d : Draft) : d.settle.states.size = d.pledged := by
  cases hmode : d.mode with
  | plain => simp [settle, pledged, hmode]
  | escaped offset => simp [settle, pledged, hmode]
  | classStart => simp [settle, pledged, hmode, size_endClass]
  | members negated => simp [settle, pledged, hmode, size_endClass]

theorem pledged_readPlain_le (h : d.mode = .plain) (c : Char) :
    (d.readPlain c).pledged ≤ d.states.size + 1 := by
  have hmode : (d.readPlain c).mode ≠ .members true := by
    rw [mode_readPlain h]
    split
    · exact nofun
    · split <;> exact nofun
  rw [pledged_eq hmode]
  unfold readPlain
  split
  all_goals simp

theorem pledged_readMember_le (d : Draft) (negated : Bool) (c : Char) :
    (d.readMember negated c).pledged ≤ d.states.size + (if negated then 1 else 0) + 1 := by
  unfold readMember
  split
  · have hplain := pledged_readPlain_le (mode_endClass (d := d) negated) c
    rwa [size_endClass] at hplain
  · have hmode : { d.sprout (.char c) true with mode := .members negated }.mode
        = .members negated := rfl
    rw [pledged_of_members hmode, size_sprout]
    omega

/-- A character adds a state, or pledges one, or does neither. -/
theorem pledged_read_le (d : Draft) (c : Char) : (d.read c).pledged ≤ d.pledged + 1 := by
  have hread : (d.read c).pledged = (d.interpret c).pledged := rfl
  have hle := d.size_le_pledged
  rw [hread]
  cases hmode : d.mode with
  | plain =>
    have hplain := pledged_readPlain_le hmode c
    simp only [interpret, hmode]
    omega
  | escaped offset =>
    simp only [interpret, hmode]
    rw [pledged_eq (by simp)]
    simpa using hle
  | classStart =>
    simp only [interpret, hmode]
    split
    · exact Nat.succ_le_succ hle
    · have hmember := d.pledged_readMember_le false c
      simp only [Bool.false_eq_true, if_false] at hmember
      omega
  | members negated =>
    simp only [interpret, hmode]
    rw [pledged_of_members hmode]
    exact d.pledged_readMember_le negated c

theorem pledged_readAll_le (d : Draft) (cs : List Char) :
    (d.readAll cs).pledged ≤ d.pledged + cs.length := by
  induction cs generalizing d with
  | nil => exact Nat.le_refl _
  | cons c cs ih =>
    have hrest := ih (d.read c)
    have hfirst := d.pledged_read_le c
    rw [readAll_cons, List.length_cons]
    omega

/-! ## The reader does not stop -/

theorem link?_eq {source target : Nat} (hs : source < d.states.size) (symbol : Symbol)
    (ht : target < d.states.size) :
    d.link? source symbol target = some (d.link source symbol target) := if_pos ⟨hs, ht⟩

/-- A new state is there when the edge to it is added. -/
theorem link?_newest {e : Draft} {state : State} (he : e.states = d.states.push state)
    (h : d.current < d.states.size) (symbol : Symbol) :
    e.link? d.current symbol d.states.size = some (e.link d.current symbol d.states.size) := by
  have hsize : e.states.size = d.states.size + 1 := by rw [he, Array.size_push]
  exact link?_eq (by omega) symbol (by omega)

theorem sprout?_eq (h : d.current < d.states.size) (hroom : d.states.size < 2 ^ 32)
    (symbol : Symbol) (accepting : Bool) :
    d.sprout? symbol accepting = some (d.sprout symbol accepting) := by
  rw [sprout?, word_eq hroom]
  exact link?_newest rfl h symbol

theorem advance?_eq (h : d.current < d.states.size) (hroom : d.states.size < 2 ^ 32)
    (symbol : Symbol) (accepting : Bool) :
    d.advance? symbol accepting = some (d.advance symbol accepting) := by
  rw [advance?, word_eq hroom]
  exact link?_newest rfl h symbol

theorem readPlain?_literal (d : Draft) {c : Char}
    (hc : c ∉ ['(', ')', '|', '?', '+', '*', '[', '\\']) :
    d.readPlain? c = d.advance? (.char c) true := by
  unfold readPlain?
  split
  all_goals simp_all

namespace Sound

theorem readPlain?_eq (h : d.Sound) (hroom : d.states.size < 2 ^ 32) (c : Char) :
    d.readPlain? c = some (d.readPlain c) := by
  have hadvance := advance?_eq h.current_lt hroom
  have hforth := link?_eq h.entry_lt .epsilon h.current_lt
  have hback := link?_eq h.current_lt .epsilon h.entry_lt
  by_cases hc : c ∈ ['(', ')', '|', '?', '+', '*', '[', '\\']
  · simp only [List.mem_cons, List.not_mem_nil, or_false] at hc
    rcases hc with rfl | rfl | rfl | rfl | rfl | rfl | rfl | rfl
    · exact congrArg (Option.map fun e => { e with groups := d.current :: d.groups })
        (hadvance .epsilon true)
    · rfl
    · exact hadvance .epsilon true
    · have hlinked := h.link h.entry_lt .epsilon h.current_lt
      have hagain := link?_eq hlinked.current_lt .epsilon hlinked.entry_lt
      change ((d.link? d.entry .epsilon d.current).bind fun e =>
        e.link? d.current .epsilon d.entry) = some (d.readPlain '?')
      rw [hforth, Option.bind_some]
      exact hagain
    · exact hback
    · exact hforth
    · exact congrArg (Option.map fun e => { e with mode := .classStart }) (hadvance .epsilon false)
    · rfl
  · rw [readPlain?_literal d hc, readPlain_literal d hc, hadvance]

theorem endClass?_eq (h : d.Sound) {negated : Bool}
    (hroom : negated = true → d.states.size < 2 ^ 32) :
    d.endClass? negated = some (d.endClass negated) := by
  cases negated with
  | false => rfl
  | true =>
    have hsprout := sprout?_eq h.current_lt (hroom rfl) .epsilon true
    simp only [Draft.endClass?, Draft.endClass, if_true, hsprout, Option.map_some]

theorem readMember?_eq (h : d.Sound) {negated : Bool}
    (hroom : d.states.size + (if negated then 1 else 0) < 2 ^ 32) (c : Char) :
    d.readMember? negated c = some (d.readMember negated c) := by
  unfold Draft.readMember? Draft.readMember
  have hsize : d.states.size < 2 ^ 32 := by omega
  split
  · have hend := (h.endClass negated).readPlain?_eq (size_endClass d negated ▸ hroom) c
    rw [h.endClass?_eq fun _ => hsize, Option.bind_some, hend]
  · rw [sprout?_eq h.current_lt hsize, Option.map_some]

theorem read?_eq (h : d.Sound) (hroom : d.pledged < 2 ^ 32) (c : Char) :
    d.read? c = some (d.read c) := by
  have hsize := Nat.lt_of_le_of_lt d.size_le_pledged hroom
  have hinterpret : d.interpret? c = some (d.interpret c) := by
    cases hmode : d.mode with
    | plain =>
      simp only [Draft.interpret?, Draft.interpret, hmode]
      exact h.readPlain?_eq hsize c
    | escaped offset =>
      have hsprout := sprout?_eq h.current_lt hsize (.char c) true
      simp only [Draft.interpret?, Draft.interpret, hmode, hsprout, Option.map_some]
    | classStart =>
      have hmember : d.readMember? false c = some (d.readMember false c) :=
        h.readMember?_eq (by simpa using hsize) c
      simp only [Draft.interpret?, Draft.interpret, hmode, hmember]
      split <;> rfl
    | members negated =>
      simp only [Draft.interpret?, Draft.interpret, hmode]
      exact h.readMember?_eq (pledged_of_members hmode ▸ hroom) c
  rw [Draft.read?, hinterpret, Option.map_some, Draft.read]

theorem readAll?_eq (h : d.Sound) {cs : List Char} (hroom : d.pledged + cs.length ≤ 2 ^ 32) :
    d.readAll? cs = some (d.readAll cs) := by
  induction cs generalizing d with
  | nil => rfl
  | cons c cs ih =>
    rw [List.length_cons] at hroom
    have hread := h.read?_eq (by omega) c
    have hle := d.pledged_read_le c
    have hrest := ih (h.read c) (by omega)
    unfold Draft.readAll? at hrest ⊢
    rw [List.foldlM_cons, hread, Draft.readAll_cons, ← hrest]
    rfl

theorem finish?_eq (h : d.Sound) (hroom : d.pledged ≤ 2 ^ 32) : d.finish? = some d.finish := by
  cases hmode : d.mode with
  | plain => simp only [Draft.finish?, Draft.finish, hmode]
  | escaped offset => simp only [Draft.finish?, Draft.finish, hmode]
  | classStart =>
    simp only [Draft.finish?, Draft.finish, hmode]
    rfl
  | members negated =>
    have hend : negated = true → d.states.size < 2 ^ 32 := by
      rintro rfl
      rw [pledged_of_members hmode] at hroom
      exact hroom
    simp only [Draft.finish?, Draft.finish, hmode, h.endClass?_eq hend, Option.map_some]

end Sound

end Draft

/-! ## A whole pattern -/

/-- Reads a pattern as the builder does, but may stop. -/
def Builder.build? (b : Builder) (pattern : String) :
    Option (Except CompileError Automaton × Builder) :=
  let simulation := b.simulation
  (b.draft.restart.readAll? pattern.toList).bind fun draft =>
    draft.finish?.map fun
      | .ok states =>
        (.ok { states, start := Draft.root, simulation },
          { simulation, draft := { draft with states := #[] } })
      | .error e => (.error e, { simulation, draft })

section

variable {pattern : String} (h : pattern.length ≤ 2 ^ 32 - 1)

include h

/-- Each character read so far may have made a state, beside the root. -/
theorem pledged_readAll_fresh {before : List Char} (hbefore : before <+: pattern.toList) :
    (Draft.fresh.readAll before).pledged ≤ 2 ^ 32 := by
  have hpledged := Draft.fresh.pledged_readAll_le before
  have hroot : Draft.fresh.pledged = 1 := rfl
  have hlength := hbefore.length_le
  rw [String.length_toList] at hlength
  omega

theorem readAll?_fresh {before : List Char} (hbefore : before <+: pattern.toList) :
    Draft.fresh.readAll? before = some (Draft.fresh.readAll before) := by
  apply Draft.sound_fresh.readAll?_eq
  have hroot : Draft.fresh.pledged = 1 := rfl
  have hlength := hbefore.length_le
  rw [String.length_toList] at hlength
  omega

theorem compile_size_le {simulation : Simulation} {a : Automaton}
    (ha : compile pattern simulation = .ok a) : a.size ≤ 2 ^ 32 := by
  have hsize : a.size = (Draft.fresh.readAll pattern.toList).settle.states.size :=
    congrArg Automaton.size (compile_eq_settle ha)
  rw [hsize, Draft.size_settle]
  exact pledged_readAll_fresh h (List.prefix_refl _)

theorem build?_eq (b : Builder) : b.build? pattern = some (b.build pattern) := by
  have hread := readAll?_fresh h (List.prefix_refl pattern.toList)
  have hroom := pledged_readAll_fresh h (List.prefix_refl pattern.toList)
  have hfinish := (Draft.sound_fresh.readAll pattern.toList).finish?_eq hroom
  rw [Builder.build?, Draft.restart_eq, hread, Option.bind_some, hfinish, Option.map_some]
  cases houtcome : (Draft.fresh.readAll pattern.toList).finish with
  | ok states => simp only [Builder.build, Draft.restart_eq, houtcome]
  | error e => simp only [Builder.build, Draft.restart_eq, houtcome]

end

end PatternNFA
