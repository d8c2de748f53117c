-- Renaming the characters. Where the ten characters that have a meaning of their own keep their
-- names, a renamed pattern makes the same automaton with renamed letters, and a renamed input leads
-- through the same frontiers. So no other character is special, the letter `ε` included.
import Mathlib.Logic.Equiv.Defs
import PatternNFA.Proofs.Growth
import PatternNFA.Proofs.Liveness
import PatternNFA.Proofs.Lockstep

namespace PatternNFA

variable {f : Equiv.Perm Char}

/-! ## Renaming what an automaton is made of -/

/-- Epsilon has no name, and the letter `ε` is a character like any other. -/
def Symbol.rename (f : Equiv.Perm Char) : Symbol → Symbol
  | .char c => .char (f c)
  | .epsilon => .epsilon

theorem Symbol.rename_injective (f : Equiv.Perm Char) : Function.Injective (Symbol.rename f) := by
  intro x y h
  cases x with
  | char c =>
    cases y with
    | char d => exact congrArg _ (f.injective (Symbol.char.inj h))
    | epsilon => cases h
  | epsilon =>
    cases y with
    | char d => cases h
    | epsilon => rfl

namespace Transitions

def rename (f : Equiv.Perm Char) (ts : Transitions) : Transitions where
  groups := ts.groups.map fun group => (group.1.rename f, group.2)
  distinct := by
    have hnames := ts.distinct.map (Symbol.rename_injective f)
    simpa [List.map_map, Function.comp_def] using hnames

@[simp]
theorem rename_empty : empty.rename f = empty := rfl

theorem addTo_rename (symbol : Symbol) (target : Nat) (groups : List (Symbol × Array Nat)) :
    addTo (symbol.rename f) target (groups.map fun group => (group.1.rename f, group.2))
      = (addTo symbol target groups).map fun group => (group.1.rename f, group.2) := by
  induction groups with
  | nil => rfl
  | cons group rest ih =>
    obtain ⟨s, targets⟩ := group
    by_cases h : s = symbol
    · simp [addTo, h]
    · have hne : s.rename f ≠ symbol.rename f := fun he => h (Symbol.rename_injective f he)
      simp [addTo, h, hne, ih]

/-- An edge goes to the same place among the others, whatever its letter is called. -/
theorem rename_add (ts : Transitions) (symbol : Symbol) (target : Nat) :
    (ts.add symbol target).rename f = (ts.rename f).add (symbol.rename f) target := by
  simp only [rename, add, addTo_rename]

theorem edges_rename (ts : Transitions) :
    (ts.rename f).edges = ts.edges.map fun edge => (edge.1.rename f, edge.2) := by
  simp [edges, rename, List.flatMap_map, List.map_flatMap, Function.comp_def]

end Transitions

def State.rename (f : Equiv.Perm Char) (state : State) : State :=
  { state with transitions := state.transitions.rename f }

namespace Automaton

def rename (f : Equiv.Perm Char) (a : Automaton) : Automaton :=
  { a with states := a.states.map (State.rename f) }

@[simp]
theorem size_rename (a : Automaton) : (a.rename f).size = a.size := by simp [rename, size]

theorem edges_rename (a : Automaton) (s : Nat) :
    (a.rename f).edges s = (a.edges s).map fun edge => (edge.1.rename f, edge.2) := by
  simp only [edges, rename, Array.getElem?_map]
  cases a.states[s]? with
  | none => rfl
  | some state => exact Transitions.edges_rename state.transitions

theorem isAccepting_rename (a : Automaton) (s : Nat) :
    (a.rename f).isAccepting s = a.isAccepting s := by
  simp only [isAccepting, rename, Array.getElem?_map]
  cases a.states[s]? <;> rfl

/-- The targets on a symbol have become those on its name. -/
theorem targets_rename (a : Automaton) (s : Nat) (x : Symbol) :
    (a.rename f).targets s (x.rename f) = a.targets s x := by
  have hname : ∀ y : Symbol, y.rename f = x.rename f ↔ y = x :=
    fun y => (Symbol.rename_injective f).eq_iff
  rw [targets_eq, targets_eq, edges_rename, List.filter_map, List.map_map]
  simp only [Function.comp_def, hname]

/-- A search goes by the ends of the edges, whatever their letters are called. -/
theorem live_rename (a : Automaton) : (a.rename f).live = a.live := by
  apply live_congr (a := a.rename f) (b := a) rfl a.size_rename
  intro s _
  rw [edges_rename, List.map_map]
  rfl

end Automaton

/-! ## Running a renamed automaton -/

namespace Scratch

variable {a : Automaton} {generation : Nat}

theorem turn_rename (scratch : Scratch) :
    turn (a.rename f) generation scratch = turn a generation scratch := by
  have htargets : ∀ s, (a.rename f).targets s .epsilon = a.targets s .epsilon :=
    fun s => a.targets_rename s .epsilon
  obtain ⟨current, next, stamps, pending⟩ := scratch
  cases pending with
  | nil => rfl
  | cons s rest => simp only [turn, htargets]

theorem walk_rename (scratch : Scratch) :
    walk (a.rename f) generation scratch = walk a generation scratch := by
  fun_induction walk a generation scratch with
  | case1 scratch hpending => rw [walk, if_pos hpending]
  | case2 scratch hpending ih => rw [walk, if_neg hpending, turn_rename, ih]

theorem addState_rename : addState (a.rename f) generation = addState a generation := by
  funext scratch s
  rw [addState, addState, walk_rename]

theorem gather_rename (c : Char) (scratch : Scratch) :
    gather (a.rename f) generation (f c) scratch = gather a generation c scratch := by
  have htargets : ∀ s, (a.rename f).targets s (.char (f c)) = a.targets s (.char c) :=
    fun s => a.targets_rename s (.char c)
  simp only [gather, htargets, addState_rename]

theorem hop_rename (c : Char) (scratch : Scratch) :
    scratch.hop (a.rename f) (f c) = scratch.hop a c := by
  have htargets : (a.rename f).hopTargets (f c) = a.hopTargets c := by
    funext s
    exact congrArg₂ (· ++ ·) (a.targets_rename s (.char c)) (a.targets_rename s .epsilon)
  simp only [hop, htargets]

end Scratch

namespace Matcher

variable {a : Automaton}

def rename (f : Equiv.Perm Char) (m : Matcher) : Matcher :=
  { m with automaton := m.automaton.rename f }

theorem start_rename (a : Automaton) : start (a.rename f) = (start a).rename f := by
  have hsimulation : (a.rename f).simulation = a.simulation := rfl
  simp only [start, hsimulation, Automaton.size_rename, Scratch.addState_rename]
  split <;> rfl

theorem step_rename (m : Matcher) (c : Char) : (m.rename f).step (f c) = (m.step c).rename f := by
  obtain ⟨a, generation, scratch⟩ := m
  have hsimulation : (a.rename f).simulation = a.simulation := rfl
  simp only [rename, step, hsimulation, Scratch.hop_rename, Scratch.gather_rename]
  split <;> rfl

/-- The two runs do the same, character by character, in the same storage. -/
theorem run_rename (m : Matcher) (cs : List Char) :
    (m.rename f).run (cs.map f) = (m.run cs).rename f := by
  induction cs generalizing m with
  | nil => rfl
  | cons c cs ih => rw [List.map_cons, run_cons, run_cons, step_rename, ih]

theorem frontier_run_rename (a : Automaton) (cs : List Char) :
    ((start (a.rename f)).run (cs.map f)).frontier = ((start a).run cs).frontier := by
  rw [start_rename, run_rename]
  rfl

end Matcher

namespace Draft

variable {d e : Draft}

def rename (f : Equiv.Perm Char) (d : Draft) : Draft :=
  { d with states := d.states.map (State.rename f) }

theorem rename_link (d : Draft) (source : Nat) (symbol : Symbol) (target : Nat) :
    (d.link source symbol target).rename f
      = (d.rename f).link source (symbol.rename f) target := by
  unfold rename link
  congr 1
  apply Array.ext_getElem?
  intro s
  simp only [Array.getElem?_map, Array.getElem?_modify]
  split
  · cases d.states[s]? with
    | none => rfl
    | some state => simp only [Option.map_some, State.rename, Transitions.rename_add]
  · rfl

theorem rename_sprout (d : Draft) (symbol : Symbol) (accepting : Bool) :
    (d.sprout symbol accepting).rename f = (d.rename f).sprout (symbol.rename f) accepting := by
  unfold sprout
  rw [rename_link]
  simp only [rename, Array.map_push, Array.size_map]
  rfl

theorem rename_advance (d : Draft) (symbol : Symbol) (accepting : Bool) :
    (d.advance symbol accepting).rename f = (d.rename f).advance (symbol.rename f) accepting := by
  unfold advance
  rw [rename_link]
  simp only [rename, Array.map_push, Array.size_map]
  rfl

end Draft

/-- The characters that mean something else than themselves somewhere in a pattern. -/
def specialCharacters : List Char := ['(', ')', '|', '?', '+', '*', '[', ']', '^', '\\']

section

variable (hf : ∀ c ∈ specialCharacters, f c = c)

include hf

/-- A renamed character is a special one only if it was that one before. -/
theorem rename_eq_iff {c special : Char} (h : special ∈ specialCharacters) :
    f c = special ↔ c = special := by
  rw [← hf special h, f.apply_eq_iff_eq, hf special h]

namespace Draft

variable {d e : Draft}

theorem rename_readPlain (d : Draft) (c : Char) :
    (d.rename f).readPlain (f c) = (d.readPlain c).rename f := by
  have hadvance : ∀ accepting, (d.rename f).advance .epsilon accepting
      = (d.advance .epsilon accepting).rename f :=
    fun accepting => (rename_advance d .epsilon accepting).symm
  have hlink : ∀ (e : Draft) source target, (e.rename f).link source .epsilon target
      = (e.link source .epsilon target).rename f :=
    fun e source target => (rename_link e source .epsilon target).symm
  by_cases hc : c ∈ ['(', ')', '|', '?', '+', '*', '[', '\\']
  · have hspecial : c ∈ specialCharacters := by
      simp only [specialCharacters, List.mem_cons, List.not_mem_nil] at hc ⊢
      tauto
    rw [hf c hspecial]
    simp only [List.mem_cons, List.not_mem_nil, or_false] at hc
    rcases hc with rfl | rfl | rfl | rfl | rfl | rfl | rfl | rfl
    · exact congrArg (fun e => { e with groups := d.current :: d.groups }) (hadvance true)
    · rfl
    · exact hadvance true
    · have hforth := hlink d d.entry d.current
      exact (congrArg (fun e => e.link d.current .epsilon d.entry) hforth).trans (hlink _ _ _)
    · exact hlink d d.current d.entry
    · exact hlink d d.entry d.current
    · exact congrArg (fun e => { e with mode := .classStart }) (hadvance false)
    · rfl
  · have hc' : f c ∉ ['(', ')', '|', '?', '+', '*', '[', '\\'] := by
      intro hmem
      have hspecial : f c ∈ specialCharacters := by
        simp only [specialCharacters, List.mem_cons, List.not_mem_nil] at hmem ⊢
        tauto
      have hsame := (rename_eq_iff hf hspecial).1 rfl
      exact hc (hsame ▸ hmem)
    rw [readPlain_literal _ hc, readPlain_literal _ hc', rename_advance]
    rfl

omit hf in
theorem rename_endClass (d : Draft) (negated : Bool) :
    (d.rename f).endClass negated = (d.endClass negated).rename f := by
  cases negated with
  | false => rfl
  | true => exact congrArg (fun e => { e with mode := .plain }) (rename_sprout d .epsilon true).symm

theorem rename_readMember (d : Draft) (negated : Bool) (c : Char) :
    (d.rename f).readMember negated (f c) = (d.readMember negated c).rename f := by
  unfold readMember
  by_cases hc : c = ']'
  · rw [if_pos hc, if_pos ((rename_eq_iff hf (by decide)).2 hc), rename_endClass,
      rename_readPlain hf]
  · rw [if_neg hc, if_neg fun h => hc ((rename_eq_iff hf (by decide)).1 h)]
    exact congrArg (fun e => { e with mode := .members negated })
      (rename_sprout d (.char c) true).symm

theorem rename_interpret (d : Draft) (c : Char) :
    (d.rename f).interpret (f c) = (d.interpret c).rename f := by
  have hmode : (d.rename f).mode = d.mode := rfl
  unfold interpret
  rw [hmode]
  split
  · exact rename_readPlain hf d c
  · exact congrArg (fun e => { e with mode := .plain }) (rename_sprout d (.char c) true).symm
  · by_cases hc : c = '^'
    · rw [if_pos hc, if_pos ((rename_eq_iff hf (by decide)).2 hc)]
      rfl
    · rw [if_neg hc, if_neg fun h => hc ((rename_eq_iff hf (by decide)).1 h)]
      exact rename_readMember hf d false c
  · exact rename_readMember hf d _ c

/-- The second draft is the first one with renamed letters. The offsets may differ, since characters
may have more bytes than their names. -/
def Renamed (f : Equiv.Perm Char) (d e : Draft) : Prop :=
  (d.rename f).Agrees e ∧ (d.rename f).InStep e

omit hf in
theorem Renamed.sound (h : d.Renamed f e) (he : e.Sound) : (d.rename f).Sound := by
  obtain ⟨⟨_, _, rfl⟩, -⟩ := h
  exact he.move rfl he.current_lt he.groups_lt

theorem Renamed.read (h : d.Renamed f e) (he : e.Sound) (c : Char) :
    (d.read c).Renamed f (e.read (f c)) := by
  have hread := lockstep_agrees.read (h.sound he) he h.2 h.1 (f c)
  have hmode := h.2.read (f c)
  have hshift : (d.read c).rename f
      = { (d.rename f).read (f c) with offset := d.offset + c.utf8Size } :=
    congrArg (fun e => { e with offset := d.offset + c.utf8Size }) (rename_interpret hf d c).symm
  rw [Renamed, hshift]
  obtain ⟨mode, offset, heq⟩ := hread
  exact ⟨⟨mode, offset, heq⟩, hmode⟩

theorem Renamed.readAll (h : d.Renamed f e) (he : e.Sound) (cs : List Char) :
    (d.readAll cs).Renamed f (e.readAll (cs.map f)) := by
  induction cs generalizing d e with
  | nil => exact h
  | cons c cs ih => exact ih (Renamed.read hf h he c) (he.read (f c))

omit hf in
theorem rename_settle (d : Draft) : (d.rename f).settle = d.settle.rename f := by
  have hmode : (d.rename f).mode = d.mode := rfl
  unfold settle
  rw [hmode]
  split
  · rfl
  · rfl
  · exact rename_endClass d false
  · exact rename_endClass d _

end Draft

/-! ## The law -/

variable {pattern : String} {simulation : Simulation} {a : Automaton}

theorem renamed_readAll (pattern : String) :
    (Draft.fresh.readAll pattern.toList).Renamed f
      (Draft.fresh.readAll (pattern.map f).toList) := by
  have hagrees : (Draft.fresh.rename f).Agrees Draft.fresh :=
    Draft.agrees_of_eq (by simp [Draft.rename, Draft.fresh, State.rename]) rfl rfl
  have hfresh : Draft.fresh.Renamed f Draft.fresh := ⟨hagrees, Or.inl rfl⟩
  rw [String.toList_map]
  exact Draft.Renamed.readAll hf hfresh Draft.sound_fresh pattern.toList

theorem exists_compile_rename_iff :
    (∃ b, compile (pattern.map f) simulation = .ok b)
      ↔ ∃ a, compile pattern simulation = .ok a := by
  rw [exists_compile_eq_ok, exists_compile_eq_ok, ← (renamed_readAll hf pattern).2.pending_iff]
  rfl

/-- A renamed pattern makes the renamed automaton. -/
theorem compile_rename (h : compile pattern simulation = .ok a) :
    compile (pattern.map f) simulation = .ok (a.rename f) := by
  obtain ⟨b, hb⟩ := (exists_compile_rename_iff hf).2 ⟨a, h⟩
  have hrenamed := renamed_readAll hf pattern
  have hsound := Draft.sound_fresh.readAll (pattern.map f).toList
  have hstates := (Draft.lockstep_agrees.settle (hrenamed.sound hsound) hsound hrenamed.2
    hrenamed.1).states_eq
  rw [Draft.rename_settle] at hstates
  rw [hb, compile_eq_settle h, compile_eq_settle hb]
  simp only [Draft.automaton, hstates]
  rfl

/-- A renaming that keeps the names of the special characters keeps all but the letters on the
edges. A renamed pattern compiles if the pattern does. The two automata then have the same states,
found in the same order, and the same edges, in the same order, with renamed letters. Over a renamed
input they stand, after each character, in the same states, in the same order. -/
theorem only_the_special_characters_are_special (pattern : String) (simulation : Simulation) :
    ((∃ a, compile pattern simulation = .ok a)
      ↔ ∃ b, compile (pattern.map f) simulation = .ok b)
    ∧ ∀ a b, compile pattern simulation = .ok a → compile (pattern.map f) simulation = .ok b →
      b.size = a.size ∧ b.start = a.start ∧ b.live = a.live
      ∧ (∀ q, b.isAccepting q = a.isAccepting q
        ∧ b.edges q = (a.edges q).map fun edge => (edge.1.rename f, edge.2))
      ∧ ∀ cs : List Char,
        ((Matcher.start b).run (cs.map f)).frontier = ((Matcher.start a).run cs).frontier := by
  refine ⟨(exists_compile_rename_iff hf).symm, ?_⟩
  intro a b ha hb
  obtain rfl : a.rename f = b := Except.ok.inj ((compile_rename hf ha).symm.trans hb)
  exact ⟨a.size_rename, rfl, a.live_rename, fun q => ⟨a.isAccepting_rename q, a.edges_rename q⟩,
    Matcher.frontier_run_rename a⟩

end

/-- The letter `ε` changes places with `a`. It stands beside an epsilon edge then, and is none. -/
theorem a_letter_changes_places_with_the_letter_epsilon :
    ∃ a b, compile "(aε)[^a]\\ε" .closure = .ok a ∧ compile "(εa)[^ε]\\a" .closure = .ok b
      ∧ a.edges 4 = [(.char 'a', 5), (.epsilon, 6), (.char ']', 7)]
      ∧ b.edges 4 = [(.char 'ε', 5), (.epsilon, 6), (.char ']', 7)]
      ∧ ((Matcher.start a).run ['a', 'ε']).frontier = [3]
      ∧ ((Matcher.start b).run ['ε', 'a']).frontier = [3] := by
  have hf : ∀ c ∈ specialCharacters, Equiv.swap 'a' 'ε' c = c := by
    intro c hc
    apply Equiv.swap_apply_of_ne_of_ne
    · rintro rfl
      exact absurd hc (by decide)
    · rintro rfl
      exact absurd hc (by decide)
  obtain ⟨hiff, hsame⟩ := only_the_special_characters_are_special hf "(aε)[^a]\\ε" .closure
  have hname : "(aε)[^a]\\ε".map (Equiv.swap 'a' 'ε') = "(εa)[^ε]\\a" := by decide +kernel
  rw [hname] at hiff hsame
  have ha : compile "(aε)[^a]\\ε" .closure = .ok _ := rfl
  obtain ⟨b, hb⟩ := hiff.1 ⟨_, ha⟩
  obtain ⟨-, -, -, hedges, hfrontier⟩ := hsame _ b ha hb
  refine ⟨_, b, ha, hb, by decide +kernel, ?_, by decide +kernel, ?_⟩
  · rw [(hedges 4).2]
    decide +kernel
  · exact (hfrontier ['a', 'ε']).trans (by decide +kernel)

end PatternNFA
