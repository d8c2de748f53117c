-- A draft of an automaton: what stands while a pattern is read, one character
-- at a time. There is no syntax tree. Each character adds its states and edges
-- to the current state at once, and a group is left at its entry, not at its
-- end.
import PatternNFA.Automaton

namespace PatternNFA

/-! ## The error -/

inductive CompileError where
  /-- The pattern ends in a backslash that escapes nothing. The offset is the one of that
  backslash, in UTF-8 bytes. -/
  | unterminatedEscape (offset : Nat)
  deriving DecidableEq

def CompileError.message : CompileError → String
  | .unterminatedEscape offset =>
    s!"invalid escape sequence at the end of the pattern (offset {offset})"

/-! ## The draft -/

/-- Where the reader stands between two characters. -/
inductive Mode where
  /-- Outside a class, with nothing pending. -/
  | plain
  /-- A backslash has been read at the offset, and the next character is taken as it stands. -/
  | escaped (offset : Nat)
  /-- A `[` has just been read. Only here does `^` negate. -/
  | classStart
  /-- Among the members of a class, whose head is the current state. -/
  | members (negated : Bool)
  deriving DecidableEq

structure Draft where
  states : Array State
  current : Nat
  /-- The states in which the open groups were opened, innermost first. -/
  groups : List Nat
  mode : Mode
  /-- How many bytes have been read, which is the offset of the next character. -/
  offset : Nat

namespace Draft

/-- The first state of every draft. It accepts, and the automaton starts in it. -/
def root : Nat := 0

def fresh : Draft :=
  { states := #[{ accepting := true }], current := root, groups := [], mode := .plain
    offset := 0 }

/-- An empty draft in the storage of this one. -/
def restart (d : Draft) : Draft :=
  { states := (d.states.shrink 0).push { accepting := true }, current := root, groups := []
    mode := .plain, offset := 0 }

theorem restart_eq (d : Draft) : d.restart = fresh := by simp [restart, fresh]

/-! ## Growing the automaton -/

def link (d : Draft) (source : Nat) (symbol : Symbol) (target : Nat) : Draft :=
  { d with states := d.states.modify source fun state =>
      { state with transitions := state.transitions.add symbol target } }

/-- Adds a state that the current one reaches by the symbol. The current state stays. -/
def sprout (d : Draft) (symbol : Symbol) (accepting : Bool) : Draft :=
  let source := d.current
  let newest := d.states.size
  { d with states := d.states.push { accepting } }.link source symbol newest

/-- Adds a state that the current one reaches by the symbol, and moves on to it. -/
def advance (d : Draft) (symbol : Symbol) (accepting : Bool) : Draft :=
  let source := d.current
  let newest := d.states.size
  { d with states := d.states.push { accepting }, current := newest }.link source symbol newest

@[simp]
theorem size_link (d : Draft) (source : Nat) (symbol : Symbol) (target : Nat) :
    (d.link source symbol target).states.size = d.states.size := by simp [link]

@[simp]
theorem current_link (d : Draft) (source : Nat) (symbol : Symbol) (target : Nat) :
    (d.link source symbol target).current = d.current := rfl

@[simp]
theorem groups_link (d : Draft) (source : Nat) (symbol : Symbol) (target : Nat) :
    (d.link source symbol target).groups = d.groups := rfl

@[simp]
theorem size_sprout (d : Draft) (symbol : Symbol) (accepting : Bool) :
    (d.sprout symbol accepting).states.size = d.states.size + 1 := by simp [sprout]

@[simp]
theorem size_advance (d : Draft) (symbol : Symbol) (accepting : Bool) :
    (d.advance symbol accepting).states.size = d.states.size + 1 := by simp [advance]

@[simp]
theorem current_sprout (d : Draft) (symbol : Symbol) (accepting : Bool) :
    (d.sprout symbol accepting).current = d.current := rfl

@[simp]
theorem current_advance (d : Draft) (symbol : Symbol) (accepting : Bool) :
    (d.advance symbol accepting).current = d.states.size := rfl

@[simp]
theorem groups_sprout (d : Draft) (symbol : Symbol) (accepting : Bool) :
    (d.sprout symbol accepting).groups = d.groups := rfl

@[simp]
theorem groups_advance (d : Draft) (symbol : Symbol) (accepting : Bool) :
    (d.advance symbol accepting).groups = d.groups := rfl

/-- The entry of the innermost open group, or the root if no group is open. -/
def entry (d : Draft) : Nat := d.groups.headD root

/-! ## Reading characters -/

/-- What a character means outside a class. A quantifier ties the current state to the entry
of the innermost open group, and adds no state. -/
def readPlain (d : Draft) (c : Char) : Draft :=
  let current := d.current
  let entry := d.entry
  let groups := d.groups
  match c with
  | '(' => { d.advance .epsilon true with groups := current :: groups }
  | ')' => { d with current := entry, groups := groups.tail }
  | '|' => d.advance .epsilon true
  | '?' => (d.link entry .epsilon current).link current .epsilon entry
  | '+' => d.link current .epsilon entry
  | '*' => d.link entry .epsilon current
  | '[' => { d.advance .epsilon false with mode := .classStart }
  | '\\' => { d with mode := .escaped d.offset }
  | c => d.advance (.char c) true

/-- Leaves a class. A negated one gets an epsilon edge past its members, and excludes none. -/
def endClass (d : Draft) (negated : Bool) : Draft :=
  if negated then { d.sprout .epsilon true with mode := .plain } else { d with mode := .plain }

/-- What a character means inside a class: each one but `]` is a member. The `]` ends the
class and is then read once more, as a literal. -/
def readMember (d : Draft) (negated : Bool) (c : Char) : Draft :=
  if c = ']' then (d.endClass negated).readPlain c
  else { d.sprout (.char c) true with mode := .members negated }

/-- What a character means where the reader stands. -/
def interpret (d : Draft) (c : Char) : Draft :=
  match d.mode with
  | .plain => d.readPlain c
  | .escaped _ => { d.sprout (.char c) true with mode := .plain }
  | .classStart => if c = '^' then { d with mode := .members true } else d.readMember false c
  | .members negated => d.readMember negated c

def read (d : Draft) (c : Char) : Draft :=
  let next := d.offset + c.utf8Size
  { d.interpret c with offset := next }

/-- Reads the characters from left to right. -/
def readAll (d : Draft) (cs : List Char) : Draft := cs.foldl read d

@[simp]
theorem readAll_nil (d : Draft) : d.readAll [] = d := rfl

@[simp]
theorem readAll_cons (d : Draft) (c : Char) (cs : List Char) :
    d.readAll (c :: cs) = (d.read c).readAll cs := rfl

theorem readAll_append (d : Draft) (cs rest : List Char) :
    d.readAll (cs ++ rest) = (d.readAll cs).readAll rest := List.foldl_append

/-- The states at the end of the pattern. A class that is still open ends there; an escape
that is still pending has nothing to escape, and leaves no automaton. -/
def finish (d : Draft) : Except CompileError (Array State) :=
  match d.mode with
  | .plain => .ok d.states
  | .escaped offset => .error (.unterminatedEscape offset)
  | .classStart => .ok (d.endClass false).states
  | .members negated => .ok (d.endClass negated).states

end Draft

end PatternNFA
