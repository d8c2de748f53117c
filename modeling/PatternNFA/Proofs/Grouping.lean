-- The edges of a state, from the log of their adding: they are listed symbol by
-- symbol, the symbols in the order of their first use, and the edges of one
-- symbol in the order of the log.
import Mathlib.Data.List.Basic
import Mathlib.Data.List.Induction
import PatternNFA.Transitions

namespace PatternNFA

/-- A log of edges, in the order in which the edges are listed. -/
def grouped (log : List (Symbol × Nat)) : List (Symbol × Nat) :=
  (log.map (·.1)).eraseDups.flatMap fun symbol => log.filter (·.1 = symbol)

namespace Transitions

/-- The transitions after all the edges of a log have been added, the oldest first. -/
def ofLog (log : List (Symbol × Nat)) : Transitions :=
  log.foldl (fun ts e => ts.add e.1 e.2) empty

/-- The symbols that lead anywhere, in the order of their first use. -/
def symbols (ts : Transitions) : List Symbol := ts.groups.map (·.1)

theorem ofLog_append (log : List (Symbol × Nat)) (symbol : Symbol) (target : Nat) :
    ofLog (log ++ [(symbol, target)]) = (ofLog log).add symbol target := List.foldl_append

/-! ## One edge -/

theorem map_fst_addTo (symbol : Symbol) (target : Nat) (groups : List (Symbol × Array Nat)) :
    (addTo symbol target groups).map (·.1)
      = if symbol ∈ groups.map (·.1) then groups.map (·.1) else groups.map (·.1) ++ [symbol] := by
  induction groups with
  | nil => simp [addTo]
  | cons g rest ih =>
    obtain ⟨s, targets⟩ := g
    by_cases hs : s = symbol
    · simp [addTo, hs]
    · have hne : ¬ symbol = s := fun he => hs he.symm
      simp only [addTo, if_neg hs, List.map_cons, ih, List.mem_cons, hne, false_or]
      split
      · rfl
      · rw [List.cons_append]

theorem symbols_add (ts : Transitions) (symbol : Symbol) (target : Nat) :
    (ts.add symbol target).symbols
      = if symbol ∈ ts.symbols then ts.symbols else ts.symbols ++ [symbol] :=
  map_fst_addTo symbol target ts.groups

theorem lookup_eq_of_mem {groups : List (Symbol × Array Nat)}
    (h : (groups.map (·.1)).Nodup) {symbol : Symbol} {targets : Array Nat}
    (hmem : (symbol, targets) ∈ groups) : groups.lookup symbol = some targets := by
  induction groups with
  | nil => cases hmem
  | cons g rest ih =>
    rw [List.map_cons, List.nodup_cons] at h
    rcases List.mem_cons.1 hmem with rfl | hmem
    · exact List.lookup_cons_self
    · have hne : (symbol == g.1) = false := by
        rw [beq_eq_false_iff_ne]
        rintro rfl
        exact h.1 (List.mem_map.2 ⟨_, hmem, rfl⟩)
      rw [List.lookup_cons, hne, ih h.2 hmem]

/-- The edges are told by the symbols and by the targets of each of them. -/
theorem edges_eq (ts : Transitions) :
    ts.edges = ts.symbols.flatMap fun symbol => (ts.targets symbol).toList.map (symbol, ·) := by
  rw [edges, symbols, List.flatMap_map]
  apply List.flatMap_congr
  rintro ⟨symbol, targets⟩ hmem
  rw [Transitions.targets, lookup_eq_of_mem ts.distinct hmem, Option.getD_some]

/-! ## The whole log -/

theorem symbols_ofLog (log : List (Symbol × Nat)) :
    (ofLog log).symbols = (log.map (·.1)).eraseDups := by
  induction log using List.reverseRecOn with
  | nil => rfl
  | append_singleton log e ih =>
    rw [ofLog_append, symbols_add, ih, List.map_append, List.eraseDups_append]
    by_cases he : e.1 ∈ log.map (·.1)
    · simp [List.removeAll, he]
    · simp [List.removeAll, he, List.eraseDups_cons]

/-- The targets of a symbol are those added with it, in the order of the log. -/
theorem targets_ofLog (log : List (Symbol × Nat)) (symbol : Symbol) :
    ((ofLog log).targets symbol).toList = (log.filter (·.1 = symbol)).map (·.2) := by
  induction log using List.reverseRecOn with
  | nil => rfl
  | append_singleton log e ih =>
    rw [ofLog_append, targets_add, List.filter_append, List.map_append, ← ih]
    by_cases he : symbol = e.1
    · simp [he]
    · have hne : ¬ e.1 = symbol := fun heq => he heq.symm
      simp [he, hne]

/-- What is added with one symbol leaves the targets of another as they are. -/
theorem targets_ofLog_filter {symbol other : Symbol} (h : other ≠ symbol)
    (log : List (Symbol × Nat)) :
    (ofLog (log.filter (·.1 ≠ other))).targets symbol = (ofLog log).targets symbol := by
  rw [← Array.toList_inj, targets_ofLog, targets_ofLog, List.filter_filter]
  congr 1
  apply List.filter_congr
  intro e _
  by_cases hsymbol : e.1 = symbol
  · simp [hsymbol, Ne.symm h]
  · simp [hsymbol]

theorem edges_ofLog (log : List (Symbol × Nat)) : (ofLog log).edges = grouped log := by
  rw [edges_eq, symbols_ofLog, grouped]
  congr 1
  funext symbol
  rw [targets_ofLog, List.map_map]
  refine (List.map_congr_left ?_).trans (List.map_id _)
  intro e he
  have hsymbol : e.1 = symbol := of_decide_eq_true (List.mem_filter.1 he).2
  simp [← hsymbol]

/-! ## Nothing lost and nothing doubled -/

theorem perm_flatMap_addTo (symbol : Symbol) (target : Nat) (groups : List (Symbol × Array Nat)) :
    ((addTo symbol target groups).flatMap fun (s, targets) => targets.toList.map (s, ·)).Perm
      ((symbol, target) :: groups.flatMap fun (s, targets) => targets.toList.map (s, ·)) := by
  induction groups with
  | nil => exact List.Perm.refl _
  | cons g rest ih =>
    obtain ⟨s, targets⟩ := g
    by_cases hs : s = symbol
    · subst hs
      simp only [addTo, if_true, List.flatMap_cons, Array.toList_push, List.map_append,
        List.map_cons, List.map_nil, List.append_assoc, List.singleton_append]
      exact List.perm_middle
    · simp only [addTo, if_neg hs, List.flatMap_cons]
      exact (ih.append_left _).trans List.perm_middle

theorem perm_edges_add (ts : Transitions) (symbol : Symbol) (target : Nat) :
    (ts.add symbol target).edges.Perm ((symbol, target) :: ts.edges) :=
  perm_flatMap_addTo symbol target ts.groups

/-- To list the edges of a log symbol by symbol is to put them in another order. -/
theorem perm_grouped (log : List (Symbol × Nat)) : (grouped log).Perm log := by
  rw [← edges_ofLog]
  induction log using List.reverseRecOn with
  | nil => exact List.Perm.refl _
  | append_singleton log e ih =>
    rw [ofLog_append]
    have hadded := perm_edges_add (ofLog log) e.1 e.2
    exact hadded.trans ((ih.cons e).trans (List.perm_append_singleton e log).symm)

end Transitions

end PatternNFA
