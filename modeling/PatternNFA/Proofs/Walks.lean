-- Walks through an automaton. Two edges of a state may share symbol and target,
-- so an edge is known by its place, and a walk is the list of the edges it
-- takes. A state is reached if some walk ends there.
import Mathlib.Data.List.Forall2
import Mathlib.Logic.Relation
import PatternNFA.Automaton

namespace PatternNFA

/-! ## Edges -/

/-- An edge, told by the state that it leaves. -/
structure Edge where
  /-- The place among the edges of the state, which tells parallel edges apart. -/
  place : Nat
  symbol : Symbol
  target : Nat

namespace Edge

/-- The edge can be taken in one hop over the character. -/
def Takes (e : Edge) (c : Char) : Prop := e.symbol = .char c ∨ e.symbol = .epsilon

/-- The order of the edges that one hop tries at a state: epsilon edges come last, and edges
of one symbol come in the order in which they were added. -/
def Before (e f : Edge) : Prop :=
  (e.symbol ≠ .epsilon ∧ f.symbol = .epsilon) ∨ (e.symbol = f.symbol ∧ e.place < f.place)

/-- The character that the edge reads; an epsilon edge reads none. -/
def letter? (e : Edge) : Option Char :=
  match e.symbol with
  | .char c => some c
  | .epsilon => none

theorem not_before_self (e : Edge) : ¬ e.Before e := by
  rintro (⟨h1, h2⟩ | ⟨_, h⟩)
  · exact h1 h2
  · exact Nat.lt_irrefl _ h

end Edge

/-- What a walk spells: its labels in order, with epsilon erased. -/
def letters (es : List Edge) : List Char := es.filterMap Edge.letter?

@[simp]
theorem letters_nil : letters [] = [] := rfl

theorem letters_cons_char {e : Edge} {c : Char} (h : e.symbol = .char c) (es : List Edge) :
    letters (e :: es) = c :: letters es := by
  simp [letters, Edge.letter?, h]

theorem letters_cons_epsilon {e : Edge} (h : e.symbol = .epsilon) (es : List Edge) :
    letters (e :: es) = letters es := by
  simp [letters, Edge.letter?, h]

theorem letters_append (es fs : List Edge) : letters (es ++ fs) = letters es ++ letters fs :=
  List.filterMap_append

namespace Automaton

/-! ## Walks -/

def HasEdge (a : Automaton) (s : Nat) (e : Edge) : Prop :=
  (a.edges s)[e.place]? = some (e.symbol, e.target)

/-- The edges, taken one after the other, lead from the first state to the last. -/
inductive Walk (a : Automaton) : Nat → List Edge → Nat → Prop
  | stay (s : Nat) : Walk a s [] s
  | go {s q : Nat} {e : Edge} {es : List Edge} :
      a.HasEdge s e → Walk a e.target es q → Walk a s (e :: es) q

variable {a : Automaton}

theorem HasEdge.mem_targets {s : Nat} {e : Edge} (h : a.HasEdge s e) :
    e.target ∈ a.targets s e.symbol :=
  mem_edges.1 (List.mem_of_getElem? h)

theorem exists_hasEdge {s t : Nat} {symbol : Symbol} (h : t ∈ a.targets s symbol) :
    ∃ e, a.HasEdge s e ∧ e.symbol = symbol ∧ e.target = t := by
  obtain ⟨i, hi⟩ := List.getElem?_of_mem (mem_edges.2 h)
  exact ⟨⟨i, symbol, t⟩, hi, rfl, rfl⟩

theorem Walk.append {s t q : Nat} {es fs : List Edge} (h : a.Walk s es t) (h' : a.Walk t fs q) :
    a.Walk s (es ++ fs) q := by
  induction h with
  | stay => exact h'
  | go he _ ih => exact .go he (ih h')

/-- Where a walk stands between two of its edges. -/
theorem Walk.exists_of_append {s q : Nat} {es fs : List Edge} (h : a.Walk s (es ++ fs) q) :
    ∃ t, a.Walk s es t ∧ a.Walk t fs q := by
  induction es generalizing s with
  | nil => exact ⟨s, .stay s, h⟩
  | cons e es ih =>
    cases h with
    | go he hrest =>
      obtain ⟨t, hfirst, hlast⟩ := ih hrest
      exact ⟨t, .go he hfirst, hlast⟩

/-- A walk takes nothing but edges, and these are known from the states. -/
theorem Walk.of_states {b : Automaton} (h : a.states = b.states) {s q : Nat} {es : List Edge}
    (hwalk : a.Walk s es q) : b.Walk s es q := by
  induction hwalk with
  | stay s => exact .stay s
  | @go s q e es he _ ih =>
    have hedge : b.HasEdge s e := by
      unfold HasEdge edges at he ⊢
      rw [← h]
      exact he
    exact .go hedge ih

/-- A walk over one edge. -/
theorem HasEdge.walk {s : Nat} {e : Edge} (h : a.HasEdge s e) : a.Walk s [e] e.target :=
  .go h (.stay _)

/-! ## Reaching a state -/

/-- An edge leads from one state to the other. -/
def Adjacent (a : Automaton) (s t : Nat) : Prop := ∃ symbol, t ∈ a.targets s symbol

def Reaches (a : Automaton) : Nat → Nat → Prop := Relation.ReflTransGen a.Adjacent

/-- The one state reaches the other over epsilon edges alone. -/
def Glides (a : Automaton) : Nat → Nat → Prop :=
  Relation.ReflTransGen fun s t => t ∈ a.targets s .epsilon

theorem Reaches.mono {b : Automaton}
    (hab : ∀ {s x t}, t ∈ a.targets s x → t ∈ b.targets s x) {s q : Nat} (h : a.Reaches s q) :
    b.Reaches s q := by
  refine Relation.ReflTransGen.mono ?_ s q h
  rintro u v ⟨x, hv⟩
  exact ⟨x, hab hv⟩

theorem Reaches.exists_walk {s q : Nat} (h : a.Reaches s q) : ∃ es, a.Walk s es q := by
  induction h with
  | refl => exact ⟨[], .stay s⟩
  | tail _ hadj ih =>
    obtain ⟨es, hwalk⟩ := ih
    obtain ⟨symbol, ht⟩ := hadj
    obtain ⟨e, he, -, rfl⟩ := exists_hasEdge ht
    exact ⟨es ++ [e], hwalk.append he.walk⟩

theorem Glides.exists_walk {s q : Nat} (h : a.Glides s q) :
    ∃ es, a.Walk s es q ∧ letters es = [] := by
  induction h with
  | refl => exact ⟨[], .stay s, rfl⟩
  | tail _ ht ih =>
    obtain ⟨es, hwalk, hes⟩ := ih
    obtain ⟨e, he, hsymbol, rfl⟩ := exists_hasEdge ht
    refine ⟨es ++ [e], hwalk.append he.walk, ?_⟩
    rw [letters_append, hes, letters_cons_epsilon hsymbol, letters_nil, List.nil_append]

/-- A walk that spells nothing is a glide. -/
theorem Walk.glides {s q : Nat} {es : List Edge} (h : a.Walk s es q) (hes : letters es = []) :
    a.Glides s q := by
  induction h with
  | stay => exact .refl
  | @go s q e es he _ ih =>
    cases hsymbol : e.symbol with
    | char c => simp [letters_cons_char hsymbol] at hes
    | epsilon =>
      rw [letters_cons_epsilon hsymbol] at hes
      exact .head (hsymbol ▸ he.mem_targets) (ih hes)

/-- A walk that spells a word glides up to its first letter, reads it, and spells the rest. -/
theorem Walk.split_letter {s q : Nat} {es : List Edge} {c : Char} {cs : List Char}
    (h : a.Walk s es q) (hes : letters es = c :: cs) :
    ∃ t u fs, a.Glides s t ∧ u ∈ a.targets t (.char c) ∧ a.Walk u fs q ∧ letters fs = cs := by
  induction h with
  | stay => simp at hes
  | @go s q e es he hrest ih =>
    cases hsymbol : e.symbol with
    | char d =>
      rw [letters_cons_char hsymbol, List.cons.injEq] at hes
      obtain ⟨rfl, hes⟩ := hes
      exact ⟨s, e.target, es, .refl, hsymbol ▸ he.mem_targets, hrest, hes⟩
    | epsilon =>
      rw [letters_cons_epsilon hsymbol] at hes
      obtain ⟨t, u, fs, hglide, hu, hfs, hcs⟩ := ih hes
      exact ⟨t, u, fs, .head (hsymbol ▸ he.mem_targets) hglide, hu, hfs, hcs⟩

/-! ## Edges that stay in range -/

theorem lt_size_of_isAccepting {s : Nat} (h : a.isAccepting s = true) : s < a.size := by
  unfold isAccepting at h
  by_contra hs
  rw [Array.getElem?_eq_none (Nat.le_of_not_lt hs)] at h
  cases h

theorem lt_size_of_mem_targets {s t : Nat} {symbol : Symbol} (h : t ∈ a.targets s symbol) :
    s < a.size := by
  unfold targets at h
  by_contra hs
  rw [Array.getElem?_eq_none (Nat.le_of_not_lt hs)] at h
  cases h

/-- The start and every target are states of the automaton. -/
structure InRange (a : Automaton) : Prop where
  start_lt : a.start < a.size
  target_lt : ∀ {s symbol t}, t ∈ a.targets s symbol → t < a.size

theorem InRange.lt_size_of_walk (h : a.InRange) {s q : Nat} {es : List Edge} (hs : s < a.size)
    (hwalk : a.Walk s es q) : q < a.size := by
  induction hwalk with
  | stay => exact hs
  | go he _ ih => exact ih (h.target_lt he.mem_targets)

theorem InRange.reaches_lt (h : a.InRange) {s q : Nat} (hs : s < a.size) (hq : a.Reaches s q) :
    q < a.size := by
  induction hq with
  | refl => exact hs
  | tail _ hadj _ =>
    obtain ⟨symbol, ht⟩ := hadj
    exact h.target_lt ht

theorem InRange.glides_lt (h : a.InRange) {s q : Nat} (hs : s < a.size) (hq : a.Glides s q) :
    q < a.size := by
  obtain ⟨es, hwalk, -⟩ := hq.exists_walk
  exact h.lt_size_of_walk hs hwalk

end Automaton

end PatternNFA
