-- The edges of a state, as a multimap over a map from symbols. All that is relied on of the map is
-- that a new key goes to the end, and a known one stays where it is. So the edges tell the order in
-- which they were added, as far as the symbols do not set them apart.
import Mathlib.Logic.Function.Basic
import PatternNFA.Pattern.Draft
import PatternNFA.Proofs.Grouping

namespace PatternNFA

/-! ## Maps that keep the order of their keys -/

/-- What is relied on of such a map. -/
structure OrderedMap (κ ν : Type) [DecidableEq κ] (initial : ν) where
  Map : Type
  empty : Map
  get? : Map → κ → Option ν
  entries : Map → List (κ × ν)
  /-- Changes the value of a key in place. A key that is new has the initial value before that. -/
  update : Map → κ → (ν → ν) → Map
  entries_empty : entries empty = []
  get?_eq_some_iff : ∀ {m key value}, get? m key = some value ↔ (key, value) ∈ entries m
  /-- A new key goes to the end, and a known one stays where it is. -/
  keys_update : ∀ m key f, (entries (update m key f)).map (·.1)
    = if key ∈ (entries m).map (·.1) then (entries m).map (·.1) else (entries m).map (·.1) ++ [key]
  get?_update : ∀ m key f other, get? (update m key f) other
    = if other = key then some (f ((get? m key).getD initial)) else get? m other

namespace OrderedMap

/-- Such a map as a list of the keys, with a function for the values beside it. -/
def listed (κ ν : Type) [DecidableEq κ] (initial : ν) : OrderedMap κ ν initial where
  Map := List κ × (κ → ν)
  empty := ([], fun _ => initial)
  get? m key := if key ∈ m.1 then some (m.2 key) else none
  entries m := m.1.map fun key => (key, m.2 key)
  update m key f :=
    let value := if key ∈ m.1 then m.2 key else initial
    (if key ∈ m.1 then m.1 else m.1 ++ [key], Function.update m.2 key (f value))
  entries_empty := rfl
  get?_eq_some_iff := by
    intro m key value
    simp only [List.mem_map, Prod.mk.injEq]
    constructor
    · intro h
      split at h
      · rename_i hmem
        exact ⟨key, hmem, rfl, Option.some.inj h⟩
      · cases h
    · rintro ⟨_, hmem, rfl, rfl⟩
      rw [if_pos hmem]
  keys_update := by
    intro m key f
    simp [Function.comp_def]
  get?_update := by
    intro m key f other
    by_cases hother : other = key
    · subst hother
      by_cases hmem : other ∈ m.1 <;> simp [hmem]
    · by_cases hmem : key ∈ m.1 <;> simp [hmem, hother]

/-! ## The multimap over a map -/

variable (map : OrderedMap Symbol (Array Nat) #[])

def keys (m : map.Map) : List Symbol := (map.entries m).map (·.1)

def targets (m : map.Map) (symbol : Symbol) : Array Nat := (map.get? m symbol).getD #[]

def edges (m : map.Map) : List (Symbol × Nat) :=
  (map.entries m).flatMap fun (symbol, targets) => targets.toList.map (symbol, ·)

def add (m : map.Map) (symbol : Symbol) (target : Nat) : map.Map :=
  map.update m symbol (·.push target)

def ofLog (log : List (Symbol × Nat)) : map.Map :=
  log.foldl (fun m e => map.add m e.1 e.2) map.empty

theorem ofLog_append (log : List (Symbol × Nat)) (symbol : Symbol) (target : Nat) :
    map.ofLog (log ++ [(symbol, target)]) = map.add (map.ofLog log) symbol target :=
  List.foldl_append

theorem targets_empty (symbol : Symbol) : map.targets map.empty symbol = #[] := by
  have hnone : map.get? map.empty symbol = none := by
    rw [Option.eq_none_iff_forall_ne_some]
    intro value hvalue
    rw [map.get?_eq_some_iff, map.entries_empty] at hvalue
    cases hvalue
  rw [targets, hnone, Option.getD_none]

theorem keys_add (m : map.Map) (symbol : Symbol) (target : Nat) :
    map.keys (map.add m symbol target)
      = if symbol ∈ map.keys m then map.keys m else map.keys m ++ [symbol] :=
  map.keys_update m symbol _

theorem targets_add (m : map.Map) (symbol other : Symbol) (target : Nat) :
    map.targets (map.add m symbol target) other
      = if other = symbol then (map.targets m other).push target else map.targets m other := by
  rw [targets, add, map.get?_update]
  split
  · rename_i hother
    subst hother
    rfl
  · rfl

theorem edges_eq (m : map.Map) : map.edges m
    = (map.keys m).flatMap fun symbol => (map.targets m symbol).toList.map (symbol, ·) := by
  rw [edges, keys, List.flatMap_map]
  apply List.flatMap_congr
  rintro ⟨symbol, targets⟩ hmem
  rw [OrderedMap.targets, map.get?_eq_some_iff.2 hmem, Option.getD_some]

/-! ## Any map is as good -/

/-- The two show the same keys, in the same order, and under each of them the same targets. -/
structure Agrees (m : map.Map) (ts : Transitions) : Prop where
  keys_eq : map.keys m = ts.symbols
  targets_eq : ∀ symbol, map.targets m symbol = ts.targets symbol

variable {map} {m : map.Map} {ts : Transitions}

theorem Agrees.add (h : map.Agrees m ts) (symbol : Symbol) (target : Nat) :
    map.Agrees (map.add m symbol target) (ts.add symbol target) where
  keys_eq := by rw [keys_add, Transitions.symbols_add, h.keys_eq]
  targets_eq := by
    intro other
    rw [targets_add, Transitions.targets_add, h.targets_eq]

theorem Agrees.edges_eq (h : map.Agrees m ts) : map.edges m = ts.edges := by
  simp only [OrderedMap.edges_eq, Transitions.edges_eq, h.keys_eq, h.targets_eq]

theorem agrees_ofLog (map : OrderedMap Symbol (Array Nat) #[]) (log : List (Symbol × Nat)) :
    map.Agrees (map.ofLog log) (.ofLog log) := by
  induction log using List.reverseRecOn with
  | nil =>
    refine ⟨?_, map.targets_empty⟩
    rw [ofLog, List.foldl_nil, keys, map.entries_empty]
    rfl
  | append_singleton log e ih =>
    rw [ofLog_append, Transitions.ofLog_append]
    exact ih.add e.1 e.2

end OrderedMap

/-! ## Many states at once -/

namespace Draft

/-- Adds all the edges of a list, each to the state that it leaves. -/
def linkAll (d : Draft) (links : List (Nat × Symbol × Nat)) : Draft :=
  links.foldl (fun d l => d.link l.1 l.2.1 l.2.2) d

theorem linkAll_append (d : Draft) (links : List (Nat × Symbol × Nat))
    (l : Nat × Symbol × Nat) : d.linkAll (links ++ [l]) = (d.linkAll links).link l.1 l.2.1 l.2.2 :=
  List.foldl_append

/-- What leaves a state is told by the edges that were added to it, whatever was added to the others
between them. -/
theorem getElem?_states_linkAll {d : Draft} {s : Nat} {accepting : Bool}
    (h : d.states[s]? = some { accepting }) (links : List (Nat × Symbol × Nat)) :
    (d.linkAll links).states[s]? = some
      { accepting, transitions := .ofLog ((links.filter (·.1 = s)).map (·.2)) } := by
  induction links using List.reverseRecOn with
  | nil => exact h
  | append_singleton links l ih =>
    obtain ⟨source, symbol, target⟩ := l
    rw [linkAll_append, link, Array.getElem?_modify, ih, List.filter_append, List.map_append]
    by_cases hs : source = s
    · simp [hs, Transitions.ofLog_append]
    · simp [hs]

end Draft

/-! ## The law -/

/-- The edges of a state are a stable grouping of the log of their adding. Under a symbol stand the
targets that were added with it, in the order of the log. The edges are listed symbol by symbol, the
symbols in the order of their first use, so that each edge of the log stands there once. What is added
with one symbol leaves the others as they are, also where two of them look alike. It makes no
difference which map keeps the targets, and what is added to other states meanwhile. -/
theorem the_edges_of_a_state_are_a_stable_grouping (log : List (Symbol × Nat)) :
    let ts := Transitions.ofLog log
    (∀ symbol, (ts.targets symbol).toList = (log.filter (·.1 = symbol)).map (·.2))
    ∧ ts.edges = ((log.map (·.1)).eraseDups.flatMap fun symbol =>
        (ts.targets symbol).toList.map (symbol, ·))
    ∧ ts.edges.Perm log
    ∧ (Symbol.char 'ε' ≠ .epsilon ∧ ∀ symbol other, other ≠ symbol →
        (Transitions.ofLog (log.filter (·.1 ≠ other))).targets symbol = ts.targets symbol)
    ∧ (∀ map : OrderedMap Symbol (Array Nat) #[], map.edges (map.ofLog log) = ts.edges
        ∧ ∀ symbol, map.targets (map.ofLog log) symbol = ts.targets symbol)
    ∧ ∀ (d : Draft) s accepting links, d.states[s]? = some { accepting } →
        (links.filter (·.1 = s)).map (·.2) = log →
          (d.linkAll links).states[s]? = some { accepting, transitions := ts } := by
  intro ts
  refine ⟨Transitions.targets_ofLog log, ?_, ?_, ⟨by decide, ?_⟩, ?_, ?_⟩
  · rw [← Transitions.symbols_ofLog]
    exact ts.edges_eq
  · have hedges : ts.edges = grouped log := Transitions.edges_ofLog log
    rw [hedges]
    exact Transitions.perm_grouped log
  · intro symbol other hother
    exact Transitions.targets_ofLog_filter hother log
  · intro map
    have hagrees := map.agrees_ofLog log
    exact ⟨hagrees.edges_eq, hagrees.targets_eq⟩
  · rintro d s accepting links hfresh rfl
    exact Draft.getElem?_states_linkAll hfresh links

/-- An edge comes twice, epsilon and the letter that looks like it take turns, and an edge of another
state comes between. -/
theorem a_letter_and_epsilon_are_grouped_apart :
    let log := [(.epsilon, 1), (.char 'ε', 2), (.epsilon, 1), (.char 'ε', 0), (.epsilon, 0)]
    let ts := Transitions.ofLog log
    let map := OrderedMap.listed Symbol (Array Nat) #[]
    let states : Array State := #[{ accepting := true }, { accepting := false }]
    let links := [(1, .epsilon, 1), (0, .char 'ε', 2), (1, .char 'ε', 2), (1, .epsilon, 1),
      (0, .epsilon, 2), (1, .char 'ε', 0), (1, .epsilon, 0)]
    ts.edges = [(.epsilon, 1), (.epsilon, 1), (.epsilon, 0), (.char 'ε', 2), (.char 'ε', 0)]
    ∧ (ts.targets (.char 'ε')).toList = [2, 0]
    ∧ (ts.targets (.char 'a')).toList = []
    ∧ (Transitions.ofLog [(.char 'ε', 2), (.char 'ε', 0)]).targets (.char 'ε')
      = ts.targets (.char 'ε')
    ∧ map.edges (map.ofLog log) = ts.edges
    ∧ map.targets (map.ofLog log) .epsilon = ts.targets .epsilon
    ∧ (({ Draft.fresh with states }).linkAll links).states[1]?
      = some { accepting := false, transitions := ts } := by
  intro log ts map states links
  obtain ⟨htargets, hedges, -, ⟨-, happart⟩, hmap, hlinks⟩ :=
    the_edges_of_a_state_are_a_stable_grouping log
  refine ⟨hedges, htargets (.char 'ε'), htargets (.char 'a'), ?_, (hmap map).1,
    (hmap map).2 .epsilon, ?_⟩
  · exact happart (.char 'ε') .epsilon (by decide)
  · exact hlinks _ 1 false links rfl (by decide)

end PatternNFA
