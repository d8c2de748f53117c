-- Negation. A negated class keeps its members, and its head has one epsilon edge more. This edge
-- leads to a state that the reader never stands in, so nothing leads on from there, whatever comes
-- after the class. A single hop run may stop there over any character. A closure run has nothing to
-- gain by it.
import PatternNFA.Proofs.Classes
import PatternNFA.Proofs.Juxtaposition

namespace PatternNFA

/-! ## Edges that lead nowhere -/

/-- If each edge of the second automaton is one of the first under the map, or an epsilon edge to a
state without edges, then what is spelled by a walk there is spelled by one here. -/
theorem Automaton.Walk.exists_letters_eq {a b : Automaton} {f : Nat → Nat}
    (hedge : ∀ {s t : Nat} {x : Symbol}, t ∈ b.targets (f s) x →
      (∃ t' ∈ a.targets s x, f t' = t) ∨ (x = .epsilon ∧ ∀ y u, u ∉ b.targets t y))
    {s q : Nat} {es : List Edge} (hwalk : b.Walk (f s) es q) :
    ∃ fs q', a.Walk s fs q' ∧ letters fs = letters es := by
  generalize hs : f s = s' at hwalk
  induction hwalk generalizing s with
  | stay => exact ⟨[], s, .stay s, rfl⟩
  | @go s' q e es he hrest ih =>
    obtain rfl := hs
    rcases hedge he.mem_targets with ⟨t, ht, htarget⟩ | ⟨hepsilon, hleaf⟩
    · obtain ⟨fs, q', hwalk', hletters⟩ := ih htarget
      obtain ⟨e', he', hsymbol, rfl⟩ := exists_hasEdge ht
      refine ⟨e' :: fs, q', .go he' hwalk', ?_⟩
      cases he : e.symbol with
      | char c =>
        rw [letters_cons_char he, letters_cons_char (hsymbol.trans he), hletters]
      | epsilon =>
        rw [letters_cons_epsilon he, letters_cons_epsilon (hsymbol.trans he), hletters]
    · cases hrest with
      | stay => exact ⟨[], s, .stay s, (letters_cons_epsilon hepsilon []).symm⟩
      | go hnext => exact absurd hnext.mem_targets (hleaf _ _)

namespace Draft

variable {d e f : Draft} {members : List Char}

/-! ## The way past the members -/

theorem Drawn.returns (h : d.Drawn false members e) (h' : d.Drawn true members f) :
    e.Returns f :=
  ⟨h'.mode_eq, h'.current_eq.trans h.current_eq.symm, h'.groups_eq.trans h.groups_eq.symm⟩

theorem Drawn.size_negated (h : d.Drawn false members e) (h' : d.Drawn true members f) :
    f.states.size = e.states.size + 1 := by
  rw [h'.size_eq, h.size_eq]
  rfl

theorem Drawn.mem_targets_negated (h : d.Drawn false members e) (h' : d.Drawn true members f)
    {s t : Nat} {x : Symbol} : t ∈ f.automaton.targets s x
      ↔ t ∈ e.automaton.targets s x ∨ (s = e.current ∧ x = .epsilon ∧ t = e.states.size) := by
  have hsize : e.states.size = d.states.size + 1 + members.length := h.size_eq
  rw [h'.mem_targets, h.mem_targets, h.current_eq, hsize]
  simp only [Bool.false_eq_true, false_and, or_false, true_and, and_or_left, or_assoc]

theorem Drawn.embeds_negated (h : d.Drawn false members e) (h' : d.Drawn true members f) :
    e.automaton.Embeds id f.automaton where
  start_eq := rfl
  mem_targets := fun ht => (h.mem_targets_negated h').2 (Or.inl ht)
  accepting := by
    intro s hs
    refine (h'.accepting_iff s).2 (((h.accepting_iff s).1 hs).imp_right ?_)
    rw [h.size_negated h']
    exact And.imp_right Nat.lt_succ_of_lt

/-! ## What follows the class -/

theorem shift_cases (d e : Draft) (s : Nat) : (s < d.states.size ∧ d.shift e s = s)
    ∨ (d.states.size ≤ s ∧ d.shift e s = s - d.states.size + e.states.size) := by
  by_cases hs : s < d.states.size
  · exact Or.inl ⟨hs, if_pos hs⟩
  · exact Or.inr ⟨Nat.le_of_not_lt hs, if_neg hs⟩

theorem shift_injective (h : d.states.size ≤ e.states.size) :
    Function.Injective (d.shift e) := by
  intro s t heq
  have hs := d.shift_cases e s
  have ht := d.shift_cases e t
  omega

/-- A state that the second draft has alone is none that the first one has or will have. -/
theorem shift_ne {t : Nat} (ht : d.states.size ≤ t) (ht' : t < e.states.size) (s : Nat) :
    d.shift e s ≠ t := by
  have hs := d.shift_cases e s
  omega

section

variable {a b : Automaton} (h : d.Drawn false members e) (h' : d.Drawn true members f)
variable (hjoined : f.automaton.Joined (e.shift f) a b)

include h h' hjoined

/-- Nothing leads on from the state past the members. -/
theorem Drawn.not_mem_targets_bypass (y : Symbol) (u : Nat) : u ∉ b.targets e.states.size y := by
  have hless : e.states.size < f.states.size := h.size_negated h' ▸ Nat.lt_succ_self _
  intro hu
  rcases hjoined.mem_targets hu with hclass | ⟨s, _, hs, -, -⟩
  · rcases (h.mem_targets_negated h').1 hclass with hold | ⟨hcurrent, -, -⟩
    · exact Nat.lt_irrefl _ (Automaton.lt_size_of_mem_targets hold)
    · exact absurd hcurrent (Nat.ne_of_gt h.sound.current_lt)
  · exact shift_ne (Nat.le_refl _) hless s hs

theorem Drawn.mem_targets_shift (hgrown : e.automaton.Embeds id a) {s t : Nat} {x : Symbol}
    (ht : t ∈ b.targets (e.shift f s) x) :
    (∃ t' ∈ a.targets s x, e.shift f t' = t) ∨ (x = .epsilon ∧ ∀ y u, u ∉ b.targets t y) := by
  have hsize := h.size_negated h'
  rcases hjoined.mem_targets ht with hclass | ⟨s', t', hs, rfl, hrest⟩
  · rcases (h.mem_targets_negated h').1 hclass with hold | ⟨-, rfl, rfl⟩
    · -- The states of the plain class keep their numbers.
      have hlt : e.shift f s < e.states.size := Automaton.lt_size_of_mem_targets hold
      have hsame : e.shift f s = s := by
        have hs := e.shift_cases f s
        omega
      rw [hsame] at hold
      exact Or.inl ⟨t, hgrown.mem_targets hold, shift_of_lt (h.sound.target_lt hold)⟩
    · exact Or.inr ⟨rfl, h.not_mem_targets_bypass h' hjoined⟩
  · have hle : e.states.size ≤ f.states.size := by omega
    obtain rfl := shift_injective hle hs
    exact Or.inl ⟨t', hrest, rfl⟩

end

/-- What follows a class is read alike, negated or not. -/
theorem Drawn.beside_settle (h : d.Drawn false members e) (h' : d.Drawn true members f)
    (rest : List Char) :
    (e.readAll rest).InStep (f.readAll rest)
      ∧ Beside (e.shift f) (e.readAll rest).settle (f.readAll rest).settle
      ∧ f.automaton.Joined (e.shift f) (e.readAll rest).settle.automaton
          (f.readAll rest).settle.automaton := by
  have hbeside := h.sound.beside (h.embeds_negated h') (h.returns h')
  have hstep : e.InStep f := Or.inl (h.mode_eq.trans h'.mode_eq.symm)
  have hjoined : f.automaton.Joined (e.shift f) e.automaton f.automaton := ⟨Or.inl, Or.inl⟩
  exact ⟨hstep.readAll rest, (lockstep_joined f.automaton (e.shift f)).settle_readAll h.sound
    h'.sound hstep ⟨hbeside, hjoined⟩ rest⟩

/-! ## Two patterns -/

section

variable {p q : String} {rest : List Char} {simulation : Simulation} {a b : Automaton}
variable (h : d.Drawn false members e) (h' : d.Drawn true members f)
variable (hp : (fresh.readAll p.toList).settle = (e.readAll rest).settle)
variable (hq : (fresh.readAll q.toList).settle = (f.readAll rest).settle)

include h h' hp hq

theorem Drawn.exists_compile (ha : compile p simulation = .ok a) :
    ∃ b, compile q simulation = .ok b := by
  have hcompiles := exists_compile_eq_ok.1 ⟨a, ha⟩
  rw [← pending_settle_iff, hp, pending_settle_iff, (h.beside_settle h' rest).1.pending_iff,
    ← pending_settle_iff, ← hq, pending_settle_iff] at hcompiles
  exact exists_compile_eq_ok.2 hcompiles

variable (ha : compile p simulation = .ok a) (hb : compile q simulation = .ok b)

include ha hb

theorem Drawn.isMatch_negated {input : String} (hmatch : a.isMatch input = true) :
    b.isMatch input = true := by
  have hembeds := (h.beside_settle h' rest).2.1.embeds
  rw [← hp, ← hq] at hembeds
  exact isMatch_of_embeds ha hb hembeds hmatch

/-- A walk that takes the way past the members ends there, and spells the same without this step. -/
theorem Drawn.exists_walk_of_negated {es : List Edge} {r : Nat} (hwalk : b.Walk b.start es r) :
    ∃ fs r', a.Walk a.start fs r' ∧ letters fs = letters es := by
  obtain ⟨-, hbeside, hjoined⟩ := h.beside_settle h' rest
  have hgrown := (h.sound.embeds_readAll rest).trans
    (h.sound.readAll rest).thrives_settle.embeds
  have hstart : e.shift f a.start = b.start := by
    rw [(compile_eq_ok.1 ha).2.1, (compile_eq_ok.1 hb).2.1]
    exact hbeside.embeds.start_eq
  have hparts : f.automaton.Joined (e.shift f) a b := by
    rw [compile_eq_settle ha, compile_eq_settle hb, hp, hq]
    exact ⟨hjoined.mem_targets, hjoined.accepting⟩
  have hold : e.automaton.Embeds id a := by
    rw [compile_eq_settle ha, hp]
    exact ⟨hgrown.start_eq, hgrown.mem_targets, hgrown.accepting⟩
  rw [← hstart] at hwalk
  exact hwalk.exists_letters_eq (h.mem_targets_shift h' hparts hold)

end

end Draft

/-! ## The law -/

/-- Where a class stands in a pattern, it may be negated: the pattern compiles as before, and
accepts what it accepted. A closure run accepts nothing else then. So the negation excludes no
member, and under closure it does nothing at all. -/
theorem a_negated_class_excludes_nothing {u S v : String} {simulation : Simulation} {a : Automaton}
    (hu : EndsOutside u.toList) (hS : ']' ∉ S.toList) (hcaret : S.toList.head? ≠ some '^')
    (hv : v = "" ∨ v.toList.head? = some ']')
    (h : compile (u ++ "[" ++ S ++ v) simulation = .ok a) :
    ∃ b, compile (u ++ "[^" ++ S ++ v) simulation = .ok b
      ∧ (∀ input, a.isMatch input = true → b.isMatch input = true)
      ∧ (simulation = .closure → ∀ input, b.isMatch input = a.isMatch input) := by
  have hsound := Draft.sound_fresh.readAll u.toList
  have hmode := (Draft.mode_readAll_iff u.toList).2 hu
  have hmembers : ∀ c ∈ S.toList, c ≠ ']' := fun c hc => ne_of_mem_of_not_mem hc hS
  have hplain := hsound.drawn hmode false hmembers
  have hnegated := hsound.drawn hmode true hmembers
  have hp := settle_class hu hS false (fun _ => hcaret) hv
  have hq := settle_class hu hS true (fun hfalse => Bool.noConfusion hfalse) hv
  obtain ⟨b, hb⟩ := hplain.exists_compile hnegated hp hq h
  refine ⟨b, hb, fun input => hplain.isMatch_negated hnegated hp hq h hb, ?_⟩
  rintro rfl input
  rw [Bool.eq_iff_iff]
  refine ⟨?_, hplain.isMatch_negated hnegated hp hq h hb⟩
  rw [compile_isMatch_closure h, compile_isMatch_closure hb]
  rintro ⟨es, r, hwalk, hes⟩
  obtain ⟨fs, r', hwalk', hletters⟩ := hplain.exists_walk_of_negated hnegated hp hq h hb hwalk
  exact ⟨fs, r', hwalk', hletters.trans hes⟩

/-- The class stands in a group that is open, and what follows repeats the group and opens another
class. Under single hops more is accepted with the class negated. -/
theorem a_class_in_an_open_group_is_negated :
    (∃ a b, compile ("x(a" ++ "[" ++ "b*" ++ "]c)+[d") .closure = .ok a
      ∧ compile ("x(a" ++ "[^" ++ "b*" ++ "]c)+[d") .closure = .ok b ∧ b.size = a.size + 1
      ∧ a.isMatch "xxa]c" = true ∧ ∀ input, b.isMatch input = a.isMatch input)
    ∧ ∃ a b, compile ("x(a" ++ "[" ++ "b*" ++ "]c)+[d") .singleHop = .ok a
      ∧ compile ("x(a" ++ "[^" ++ "b*" ++ "]c)+[d") .singleHop = .ok b
      ∧ a.isMatch "x-a-z" = false ∧ b.isMatch "x-a-z" = true
      ∧ ∀ input, a.isMatch input = true → b.isMatch input = true := by
  have hu : EndsOutside "x(a".toList := (Draft.mode_readAll_iff _).1 rfl
  have hlaw := @a_negated_class_excludes_nothing "x(a" "b*" "]c)+[d"
  refine ⟨?_, ?_⟩
  · have ha : compile ("x(a" ++ "[" ++ "b*" ++ "]c)+[d") .closure = .ok _ := rfl
    obtain ⟨b, hb, -, hsame⟩ := hlaw hu (by decide) (by decide) (Or.inr rfl) ha
    have hshape : compile ("x(a" ++ "[^" ++ "b*" ++ "]c)+[d") .closure = .ok _ := rfl
    obtain rfl := Except.ok.inj (hshape.symm.trans hb)
    exact ⟨_, _, ha, hb, by decide +kernel, by decide +kernel, hsame rfl⟩
  · have ha : compile ("x(a" ++ "[" ++ "b*" ++ "]c)+[d") .singleHop = .ok _ := rfl
    obtain ⟨b, hb, hkeeps, -⟩ := hlaw hu (by decide) (by decide) (Or.inr rfl) ha
    have hshape : compile ("x(a" ++ "[^" ++ "b*" ++ "]c)+[d") .singleHop = .ok _ := rfl
    obtain rfl := Except.ok.inj (hshape.symm.trans hb)
    exact ⟨_, _, ha, hb, by decide +kernel, by decide +kernel, hkeeps⟩

end PatternNFA
