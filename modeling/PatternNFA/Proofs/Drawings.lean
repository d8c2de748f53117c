-- What a drawing tells. Its text can be read back line by line: numbers end at a blank, and a label
-- at the quotes that are not escaped, whatever characters it holds. The lines give the edges and
-- the borders of the live states, and the edges give the order of the states. Only the letter `ε`
-- and epsilon cannot be told apart.
import Mathlib.Tactic.SplitIfs
import PatternNFA.Drawing
import PatternNFA.Proofs.Liveness
import PatternNFA.Proofs.Texts

namespace PatternNFA

/-! ## Labels -/

theorem toList_label (c : Char) : (Symbol.char c).label.toList
    = if c = '\x22' then ['\\', '\x22'] else if c = '\\' then ['\\', '\\'] else [c] := by
  unfold Symbol.label
  split
  · rename_i h
    obtain rfl := Symbol.char.inj h
    rfl
  · rename_i h
    obtain rfl := Symbol.char.inj h
    rfl
  · rename_i hquotes hbackslash
    rw [if_neg fun h => hquotes (congrArg _ h), if_neg fun h => hbackslash (congrArg _ h)]
    simp [Symbol.text]

/-- A label ends at the first quotes that no backslash escapes. -/
theorem readable_label : Readable fun c : Char => (Symbol.char c).label.toList ++ ['\x22'] := by
  intro c d xs ys h
  simp only [toList_label] at h
  -- A label of two characters begins with a backslash, and no label of one does.
  split_ifs at h
  all_goals simp only [List.cons_append, List.nil_append, List.cons.injEq] at h
  all_goals grind

/-! ## The marks of a drawing -/

/-- The character that stands for a symbol on a drawing: the letter `ε` for epsilon too. -/
def Symbol.shown : Symbol → Char
  | .char c => c
  | .epsilon => 'ε'

theorem Symbol.label_shown (x : Symbol) : (Symbol.char x.shown).label = x.label := by
  cases x with
  | char c => rfl
  | epsilon => decide

/-- What one line of a drawing says, between its head and its end. -/
inductive Mark where
  /-- The second border of a state. -/
  | border (s : Nat)
  | arrow (s : Nat) (label : Char) (t : Nat)

namespace Mark

def line : Mark → String
  | border s => s!"\t{s} [peripheries=2];\n"
  | arrow s label t => s!"\t{s} -> {t} [label=\"{(Symbol.char label).label}\"];\n"

theorem toList_border (s : Nat) (xs : List Char) : (border s).line.toList ++ xs
    = '\t' :: (((toString s).toList ++ [' ']) ++ ("[peripheries=2];\n".toList ++ xs)) := by
  show ("\t" ++ toString s ++ " [peripheries=2];\n").toList ++ xs = _
  simp

theorem toList_arrow (s : Nat) (label : Char) (t : Nat) (xs : List Char) :
    (arrow s label t).line.toList ++ xs
      = '\t' :: (((toString s).toList ++ [' ']) ++ ("-> ".toList
        ++ (((toString t).toList ++ [' ']) ++ ("[label=\"".toList
          ++ (((Symbol.char label).label.toList ++ ['\x22']) ++ ("];\n".toList ++ xs)))))) := by
  show ("\t" ++ toString s ++ " -> " ++ toString t ++ " [label=\"" ++ (Symbol.char label).label
    ++ "\"];\n").toList ++ xs = _
  simp

/-- After the number of the state, a border goes on with a bracket and an arrow with a dash. -/
theorem readable_line : Readable fun mark : Mark => mark.line.toList := by
  intro m n xs ys h
  cases m with
  | border s =>
    cases n with
    | border s' =>
      rw [toList_border, toList_border] at h
      obtain ⟨rfl, hrest⟩ := readable_number (List.cons.inj h).2
      exact ⟨rfl, List.append_cancel_left hrest⟩
    | arrow s' label' t' =>
      rw [toList_border, toList_arrow] at h
      obtain ⟨-, hrest⟩ := readable_number (List.cons.inj h).2
      cases (List.cons.inj hrest).1
  | arrow s label t =>
    cases n with
    | border s' =>
      rw [toList_arrow, toList_border] at h
      obtain ⟨-, hrest⟩ := readable_number (List.cons.inj h).2
      cases (List.cons.inj hrest).1
    | arrow s' label' t' =>
      rw [toList_arrow, toList_arrow] at h
      obtain ⟨rfl, hdash⟩ := readable_number (List.cons.inj h).2
      have htarget := List.append_cancel_left hdash
      obtain ⟨rfl, hbracket⟩ := readable_number htarget
      have hlabel := List.append_cancel_left hbracket
      obtain ⟨rfl, hrest⟩ := readable_label hlabel
      exact ⟨rfl, List.append_cancel_left hrest⟩

theorem line_ne_nil (mark : Mark) : mark.line.toList ≠ [] := by
  rw [← List.append_nil mark.line.toList]
  cases mark with
  | border s =>
    rw [toList_border]
    exact List.cons_ne_nil _ _
  | arrow s label t =>
    rw [toList_arrow]
    exact List.cons_ne_nil _ _

/-- The label and the target of an arrow from the state. -/
def arrowFrom? (s : Nat) : Mark → Option (Char × Nat)
  | border _ => none
  | arrow source label t => if source = s then some (label, t) else none

end Mark

namespace Automaton

variable {a b : Automaton}

/-- The edges of a state as they are shown. -/
def shownEdges (a : Automaton) (s : Nat) : List (Char × Nat) :=
  (a.edges s).map fun (symbol, t) => (symbol.shown, t)

def marks (a : Automaton) (s : Nat) : List Mark :=
  (if a.isAccepting s then [.border s] else [])
    ++ (a.shownEdges s).map fun (label, t) => .arrow s label t

theorem stateLines_eq (a : Automaton) (s : Nat) : a.stateLines s = (a.marks s).map Mark.line := by
  have hborder : (if a.isAccepting s then [s!"\t{s} [peripheries=2];\n"] else [])
      = (if a.isAccepting s then [Mark.border s] else []).map Mark.line := by
    split <;> rfl
  have harrow : ∀ e : Symbol × Nat, s!"\t{s} -> {e.2} [label=\"{e.1.label}\"];\n"
      = (Mark.arrow s e.1.shown e.2).line := by
    intro e
    rw [Mark.line, Symbol.label_shown]
  unfold stateLines marks shownEdges
  rw [hborder, List.map_append, List.map_map, List.map_map]
  congr 1
  exact List.map_congr_left fun e _ => harrow e

/-- Two drawings are one text if they make the same marks in the same order. -/
theorem drawing_eq_iff (hstart : a.start = b.start) :
    a.drawing = b.drawing ↔ a.live.flatMap a.marks = b.live.flatMap b.marks := by
  have hlines : ∀ c : Automaton,
      c.live.flatMap c.stateLines = (c.live.flatMap c.marks).map Mark.line := by
    intro c
    rw [List.map_flatMap]
    exact congrArg (c.live.flatMap ·) (funext c.stateLines_eq)
  have hdrawing : ∀ c : Automaton, c.drawing.toList
      = ["digraph nfa \x7b\n", "\trankdir=LR;\n", s!"\t{c.start} [shape=box];\n"].flatMap
          String.toList
        ++ (c.live.flatMap c.marks).flatMap (fun mark => mark.line.toList) ++ "\x7d\n".toList := by
    intro c
    rw [drawing, drawingLines, hlines, String.toList_join, List.flatMap_append,
      List.flatMap_append, List.flatMap_map, List.flatMap_singleton]
  constructor
  · intro h
    have htext := congrArg String.toList h
    rw [hdrawing, hdrawing, hstart] at htext
    exact Mark.readable_line.flatMap_injective Mark.line_ne_nil
      (List.append_cancel_left (List.append_cancel_right htext))
  · intro h
    rw [← String.toList_inj, hdrawing, hdrawing, hstart, h]

/-! ## What the marks tell -/

theorem border_mem_marks {row : List Nat} {s : Nat} :
    .border s ∈ row.flatMap a.marks ↔ s ∈ row ∧ a.isAccepting s = true := by
  have hmark : ∀ r, .border s ∈ a.marks r ↔ s = r ∧ a.isAccepting r = true := by
    intro r
    unfold marks
    by_cases hr : a.isAccepting r = true
    · simp [hr]
    · simp [hr]
  rw [List.mem_flatMap]
  constructor
  · rintro ⟨r, hr, hmem⟩
    obtain ⟨rfl, haccepting⟩ := (hmark r).1 hmem
    exact ⟨hr, haccepting⟩
  · rintro ⟨hs, haccepting⟩
    exact ⟨s, hs, (hmark s).2 ⟨rfl, haccepting⟩⟩

theorem filterMap_marks (r s : Nat) :
    (a.marks r).filterMap (Mark.arrowFrom? s) = if r = s then a.shownEdges s else [] := by
  have hborder : (if a.isAccepting r then [Mark.border r] else []).filterMap (Mark.arrowFrom? s)
      = [] := by
    split <;> rfl
  rw [marks, List.filterMap_append, hborder, List.nil_append, List.filterMap_map]
  split
  · rename_i hrs
    subst hrs
    apply (List.filterMap_congr ?_).trans List.filterMap_some
    intro e _
    exact if_pos rfl
  · rename_i hrs
    apply List.filterMap_eq_nil_iff.2
    intro e _
    exact if_neg hrs

/-- The arrows from a state are its shown edges, if the state stands once in the row. -/
theorem filterMap_flatMap_marks {row : List Nat} (hrow : row.Nodup) (s : Nat) :
    (row.flatMap a.marks).filterMap (Mark.arrowFrom? s)
      = if s ∈ row then a.shownEdges s else [] := by
  induction row with
  | nil => rfl
  | cons r row ih =>
    obtain ⟨hr, hrow⟩ := List.nodup_cons.1 hrow
    rw [List.flatMap_cons, List.filterMap_append, filterMap_marks, ih hrow]
    by_cases hrs : r = s
    · subst hrs
      simp [hr]
    · have hne : s ≠ r := fun he => hrs he.symm
      simp [hrs, hne]

/-! ## The order of the live states -/

theorem lt_size_of_mem_live (hrange : a.InRange) {s : Nat} (hs : s ∈ a.live) : s < a.size :=
  hrange.reaches_lt hrange.start_lt ((mem_live hrange).1 hs)

theorem map_target_of_shownEdges {s : Nat} (h : a.shownEdges s = b.shownEdges s) :
    (a.edges s).map (·.2) = (b.edges s).map (·.2) := by
  have htargets := congrArg (List.map (·.2)) h
  simpa [shownEdges, Function.comp_def] using htargets

/-- What is reached along edges that both have is reached in both. -/
theorem Reaches.of_shownEdges {s q : Nat} (hs : a.Reaches s q)
    (hsame : ∀ r, a.Reaches s r → b.Reaches s r → a.shownEdges r = b.shownEdges r) :
    b.Reaches s q := by
  induction hs with
  | refl => exact .refl
  | @tail r t hr hadj ih =>
    have hedges := map_target_of_shownEdges (hsame r hr ih)
    have hmem := mem_map_edges.2 hadj
    rw [hedges] at hmem
    exact ih.tail (mem_map_edges.1 hmem)

/-- Equal marks at the states that both have make equal rows of states. -/
theorem live_eq (ha : a.InRange) (hb : b.InRange) (hstart : a.start = b.start)
    (hareach : ∀ q < a.size, a.Reaches a.start q) (hbreach : ∀ q < b.size, b.Reaches b.start q)
    (hsame : ∀ s, a.Reaches a.start s → b.Reaches a.start s → a.shownEdges s = b.shownEdges s) :
    a.live = b.live := by
  have hforth : ∀ q, a.Reaches a.start q → b.Reaches a.start q :=
    fun q hq => hq.of_shownEdges hsame
  have hback : ∀ q, b.Reaches a.start q → a.Reaches a.start q :=
    fun q hq => hq.of_shownEdges fun r hb' ha' => (hsame r ha' hb').symm
  have hsize : a.size = b.size := by
    apply Nat.le_antisymm
    · apply le_of_forall_lt
      intro q hq
      exact hb.reaches_lt hb.start_lt (hstart ▸ hforth q (hareach q hq))
    · apply le_of_forall_lt
      intro q hq
      exact ha.reaches_lt ha.start_lt (hback q (hstart ▸ hbreach q hq))
  apply live_congr hstart hsize
  intro s hs
  have hreach := hareach s hs
  exact map_target_of_shownEdges (hsame s hreach (hforth s hreach))

end Automaton

/-! ## The law -/

/-- Two patterns have one drawing exactly if their automata have the same live states in the same
order, which accept alike and have edges that are shown alike. The letter `ε` and epsilon are shown
alike, and no other symbols are. -/
theorem a_drawing_tells_the_live_automaton {p q : String} {simulation other : Simulation}
    {a b : Automaton} (ha : compile p simulation = .ok a) (hb : compile q other = .ok b) :
    a.drawing = b.drawing ↔ a.live = b.live ∧ ∀ s ∈ a.live,
      a.isAccepting s = b.isAccepting s ∧ a.shownEdges s = b.shownEdges s := by
  have hastart := (compile_eq_ok.1 ha).2.1
  have hbstart := (compile_eq_ok.1 hb).2.1
  have hstart : a.start = b.start := hastart.trans hbstart.symm
  have harange := compile_inRange ha
  have hbrange := compile_inRange hb
  rw [Automaton.drawing_eq_iff hstart]
  constructor
  · intro hmarks
    have hedges : ∀ s, s ∈ a.live → s ∈ b.live → a.shownEdges s = b.shownEdges s := by
      intro s hsa hsb
      have harrows := congrArg (List.filterMap (Mark.arrowFrom? s)) hmarks
      rw [Automaton.filterMap_flatMap_marks (Automaton.nodup_live harange),
        Automaton.filterMap_flatMap_marks (Automaton.nodup_live hbrange), if_pos hsa,
        if_pos hsb] at harrows
      exact harrows
    have hlive : a.live = b.live := by
      apply Automaton.live_eq harange hbrange hstart (fun _ => compile_reaches ha)
        (fun _ => compile_reaches hb)
      intro s hsa hsb
      exact hedges s ((Automaton.mem_live harange).2 hsa)
        ((Automaton.mem_live hbrange).2 (hstart ▸ hsb))
    refine ⟨hlive, ?_⟩
    intro s hs
    refine ⟨?_, hedges s hs (hlive ▸ hs)⟩
    have hborder : Mark.border s ∈ a.live.flatMap a.marks ↔ .border s ∈ b.live.flatMap b.marks := by
      rw [hmarks]
    rw [Automaton.border_mem_marks, Automaton.border_mem_marks, ← hlive] at hborder
    rw [Bool.eq_iff_iff]
    simpa [hs] using hborder
  · rintro ⟨hlive, hsame⟩
    rw [← hlive]
    apply List.flatMap_congr
    intro s hs
    obtain ⟨haccepting, hedges⟩ := hsame s hs
    rw [Automaton.marks, Automaton.marks, haccepting, hedges]

/-- The one pattern reads the letter, the other one an epsilon edge. The members of the class are
quotes, a backslash and a line feed. -/
theorem a_letter_and_an_epsilon_edge_are_drawn_alike :
    ∃ a b, compile "ε[\"\\\n]" .singleHop = .ok a ∧ compile "|[\"\\\n]" .closure = .ok b
      ∧ a.edges 0 = [(.char 'ε', 1)] ∧ b.edges 0 = [(.epsilon, 1)] ∧ a.drawing = b.drawing := by
  have ha : compile "ε[\"\\\n]" .singleHop = .ok _ := rfl
  have hb : compile "|[\"\\\n]" .closure = .ok _ := rfl
  have hlaw := (a_drawing_tells_the_live_automaton ha hb).2
  refine ⟨_, _, ha, hb, by decide +kernel, by decide +kernel, hlaw ⟨?_, ?_⟩⟩
  · apply Automaton.live_congr
    · rfl
    · decide +kernel
    · decide +kernel
  · intro s hs
    have hlt := Automaton.lt_size_of_mem_live (compile_inRange ha) hs
    clear hs
    revert s
    decide +kernel

end PatternNFA
