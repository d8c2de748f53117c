-- The edges that leave one state. One symbol may lead to several targets, and
-- to one target several times. Targets stand together by symbol, the symbols
-- in the order of their first use, the targets of a symbol in the order in
-- which they were added.
import PatternNFA.Symbol

namespace PatternNFA

structure Transitions where
  groups : List (Symbol × Array Nat) := []
  /-- One group for each symbol. -/
  distinct : (groups.map (·.1)).Nodup := by simp

namespace Transitions

/-! ## The views -/

def empty : Transitions := {}

/-- The targets of a symbol, oldest first; none if no edge bears it. -/
def targets (ts : Transitions) (symbol : Symbol) : Array Nat :=
  (ts.groups.lookup symbol).getD #[]

/-- Every edge, group by group. -/
def edges (ts : Transitions) : List (Symbol × Nat) :=
  ts.groups.flatMap fun (symbol, targets) => targets.toList.map (symbol, ·)

/-! ## Adding an edge -/

/-- The target joins the group of its symbol. A new symbol opens a group at the end. -/
def addTo (symbol : Symbol) (target : Nat) :
    List (Symbol × Array Nat) → List (Symbol × Array Nat)
  | [] => [(symbol, #[target])]
  | (s, targets) :: rest =>
    if s = symbol then (s, targets.push target) :: rest
    else (s, targets) :: addTo symbol target rest

theorem mem_symbols_addTo {symbol other : Symbol} {target : Nat}
    {groups : List (Symbol × Array Nat)} :
    other ∈ (addTo symbol target groups).map (·.1)
      ↔ other = symbol ∨ other ∈ groups.map (·.1) := by
  induction groups with
  | nil => simp [addTo]
  | cons g rest ih =>
    obtain ⟨s, targets⟩ := g
    by_cases h : s = symbol
    · simp [addTo, h]
    · simp only [addTo, h, if_false, List.map_cons, List.mem_cons, ih]
      exact or_left_comm

theorem distinct_addTo (symbol : Symbol) (target : Nat) {groups : List (Symbol × Array Nat)}
    (h : (groups.map (·.1)).Nodup) : ((addTo symbol target groups).map (·.1)).Nodup := by
  induction groups with
  | nil => simp [addTo]
  | cons g rest ih =>
    obtain ⟨s, targets⟩ := g
    simp only [List.map_cons, List.nodup_cons] at h
    by_cases hs : s = symbol
    · simp only [addTo, hs, if_true, List.map_cons, List.nodup_cons]
      exact hs ▸ h
    · simp only [addTo, if_neg hs, List.map_cons, List.nodup_cons, mem_symbols_addTo, not_or]
      exact ⟨⟨hs, h.1⟩, ih h.2⟩

def add (ts : Transitions) (symbol : Symbol) (target : Nat) : Transitions :=
  { groups := addTo symbol target ts.groups, distinct := distinct_addTo symbol target ts.distinct }

@[simp]
theorem targets_empty (symbol : Symbol) : empty.targets symbol = #[] := rfl

theorem lookup_addTo_self (symbol : Symbol) (target : Nat) (groups : List (Symbol × Array Nat)) :
    (addTo symbol target groups).lookup symbol
      = some (((groups.lookup symbol).getD #[]).push target) := by
  induction groups with
  | nil => simp [addTo]
  | cons g rest ih =>
    obtain ⟨s, targets⟩ := g
    by_cases h : s = symbol
    · simp [addTo, h]
    · have h' : (symbol == s) = false := by simpa using fun e : symbol = s => h e.symm
      simp [addTo, h, List.lookup_cons, h', ih]

theorem lookup_addTo_of_ne {symbol other : Symbol} (hne : other ≠ symbol) (target : Nat)
    (groups : List (Symbol × Array Nat)) :
    (addTo symbol target groups).lookup other = groups.lookup other := by
  induction groups with
  | nil =>
    have h' : (other == symbol) = false := by simpa using hne
    simp [addTo, List.lookup_cons, h']
  | cons g rest ih =>
    obtain ⟨s, targets⟩ := g
    by_cases h : s = symbol
    · subst h
      have h' : (other == s) = false := by simpa using hne
      simp [addTo, List.lookup_cons, h']
    · by_cases ho : other = s
      · simp [addTo, h, ho]
      · have h' : (other == s) = false := by simpa using ho
        simp [addTo, h, List.lookup_cons, h', ih]

theorem targets_add (ts : Transitions) (symbol other : Symbol) (target : Nat) :
    (ts.add symbol target).targets other
      = if other = symbol then (ts.targets other).push target else ts.targets other := by
  split
  · rename_i h
    subst h
    simp [targets, add, lookup_addTo_self]
  · rename_i h
    simp [targets, add, lookup_addTo_of_ne h]

/-! ## The two views agree -/

theorem lookup_getD_eq (symbol : Symbol) {groups : List (Symbol × Array Nat)}
    (h : (groups.map (·.1)).Nodup) :
    ((groups.lookup symbol).getD #[]).toList
      = ((groups.flatMap fun (s, targets) => targets.toList.map (s, ·)).filter
          (·.1 = symbol)).map (·.2) := by
  induction groups with
  | nil => simp
  | cons g rest ih =>
    obtain ⟨s, targets⟩ := g
    simp only [List.map_cons, List.nodup_cons] at h
    by_cases hs : symbol = s
    · -- The symbol of the first group leads no other group.
      subst hs
      have hrest : ((rest.flatMap fun (s, targets) => targets.toList.map (s, ·)).filter
          (·.1 = symbol)) = [] := by
        simp only [List.filter_eq_nil_iff, List.mem_flatMap, List.mem_map, decide_eq_true_eq]
        rintro e ⟨g, hg, t, ht, rfl⟩ rfl
        exact h.1 (List.mem_map_of_mem hg)
      have hfirst : (targets.toList.map (symbol, ·)).filter (·.1 = symbol)
          = targets.toList.map (symbol, ·) := by
        simp [List.filter_eq_self]
      simp [List.filter_append, hfirst, hrest, Function.comp_def]
    · have hs' : (symbol == s) = false := by simpa using hs
      have hne : ¬ s = symbol := fun he => hs he.symm
      simp [List.lookup_cons, hs', List.filter_append, List.filter_map, Function.comp_def, hne,
        ih h.2]

/-- The targets of a symbol are those of the edges that bear it, in the same order. -/
theorem toList_targets (ts : Transitions) (symbol : Symbol) :
    (ts.targets symbol).toList = (ts.edges.filter (·.1 = symbol)).map (·.2) :=
  lookup_getD_eq symbol ts.distinct

end Transitions

end PatternNFA
