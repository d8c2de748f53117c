-- Where the edges of an automaton come from. A character adds edges to new states, which have
-- higher numbers than all before. Only a quantifier joins two states that stand already, and these
-- are the current state and the entry of its group. So whatever leads back comes of a quantifier.
import PatternNFA.Proofs.Nesting

namespace PatternNFA

/-- The character stands in the pattern after these others, outside classes and escapes. -/
def Occurs (c : Char) (cs before : List Char) : Prop :=
  (∃ after, cs = before ++ c :: after) ∧ EndsOutside before

theorem Occurs.append {c : Char} {cs before : List Char} (h : Occurs c cs before)
    (more : List Char) : Occurs c (cs ++ more) before := by
  obtain ⟨⟨after, rfl⟩, houtside⟩ := h
  refine ⟨⟨after ++ more, ?_⟩, houtside⟩
  rw [List.append_assoc, List.cons_append]

/-- The places where a character occurs can be gone through one by one. -/
theorem occurs_iff {c : Char} {cs before : List Char} :
    Occurs c cs before ↔ ∃ i < cs.length, cs.take i = before ∧ cs[i]? = some c
      ∧ (Draft.fresh.readAll before).mode = .plain := by
  rw [Draft.mode_readAll_iff]
  constructor
  · rintro ⟨⟨after, rfl⟩, houtside⟩
    refine ⟨before.length, ?_, List.take_left, ?_, houtside⟩
    · rw [List.length_append, List.length_cons]
      omega
    · rw [List.getElem?_append_right (Nat.le_refl _), Nat.sub_self]
      rfl
  · rintro ⟨i, hi, rfl, hc, houtside⟩
    refine ⟨⟨cs.drop (i + 1), ?_⟩, houtside⟩
    obtain ⟨_, hget⟩ := List.getElem?_eq_some_iff.1 hc
    rw [← hget, List.getElem_cons_drop, List.take_append_drop]

theorem not_occurs_iff {c : Char} {cs : List Char} :
    (∀ before, ¬ Occurs c cs before) ↔ ∀ i < cs.length, cs[i]? = some c →
      (Draft.fresh.readAll (cs.take i)).mode ≠ .plain := by
  constructor
  · intro hnot i hi hc hmode
    exact hnot (cs.take i) (occurs_iff.2 ⟨i, hi, rfl, hc, hmode⟩)
  · intro hnot before hoccurs
    obtain ⟨i, hi, rfl, hc, hmode⟩ := occurs_iff.1 hoccurs
    exact hnot i hi hc hmode

namespace Draft

variable {d : Draft} {s t : Nat} {x : Symbol}

/-! ## What a character adds -/

/-- The edges that a character can add to a draft. -/
inductive Gains (d : Draft) (c : Char) : Nat → Symbol → Nat → Prop
  /-- The edge leads on to a new state. -/
  | onward {s t : Nat} {x : Symbol} : s < t → Gains d c s x t
  | forth : d.mode = .plain → c = '?' ∨ c = '*' → Gains d c d.entry .epsilon d.current
  | back : d.mode = .plain → c = '?' ∨ c = '+' → Gains d c d.current .epsilon d.entry

theorem Sound.mem_targets_of_sprout (h : d.Sound) {symbol : Symbol} {accepting : Bool}
    (ht : t ∈ (d.sprout symbol accepting).automaton.targets s x) :
    t ∈ d.automaton.targets s x ∨ s < t := by
  rcases (mem_targets_sprout h.current_lt).1 ht with hold | ⟨rfl, -, rfl⟩
  · exact Or.inl hold
  · exact Or.inr h.current_lt

theorem Sound.mem_targets_of_endClass (h : d.Sound) {negated : Bool}
    (ht : t ∈ (d.endClass negated).automaton.targets s x) :
    t ∈ d.automaton.targets s x ∨ s < t := by
  cases negated with
  | false => exact Or.inl ht
  | true => exact h.mem_targets_of_sprout ht

theorem Sound.mem_targets_of_settle (h : d.Sound)
    (ht : t ∈ d.settle.automaton.targets s x) : t ∈ d.automaton.targets s x ∨ s < t := by
  unfold settle at ht
  split at ht
  · exact Or.inl ht
  · exact Or.inl ht
  · exact h.mem_targets_of_endClass ht
  · exact h.mem_targets_of_endClass ht

theorem Sound.gains_of_readPlain (h : d.Sound) (hmode : d.mode = .plain) {c : Char}
    (ht : t ∈ (d.readPlain c).automaton.targets s x) :
    t ∈ d.automaton.targets s x ∨ d.Gains c s x t := by
  have hforth : ∀ {s t x}, t ∈ (d.link d.entry .epsilon d.current).automaton.targets s x →
      c = '?' ∨ c = '*' → t ∈ d.automaton.targets s x ∨ d.Gains c s x t := by
    intro s t x ht hc
    rcases (mem_targets_link h.entry_lt).1 ht with hold | ⟨rfl, rfl, rfl⟩
    · exact Or.inl hold
    · exact Or.inr (.forth hmode hc)
  unfold Draft.readPlain at ht
  split at ht
  · exact (h.mem_targets_of_sprout ht).imp_right .onward
  · exact Or.inl ht
  · exact (h.mem_targets_of_sprout ht).imp_right .onward
  · have hcurrent : d.current < (d.link d.entry .epsilon d.current).states.size := by
      rw [size_link]
      exact h.current_lt
    rcases (mem_targets_link hcurrent).1 ht with hfirst | ⟨rfl, rfl, rfl⟩
    · exact hforth hfirst (Or.inl rfl)
    · exact Or.inr (.back hmode (Or.inl rfl))
  · rcases (mem_targets_link h.current_lt).1 ht with hold | ⟨rfl, rfl, rfl⟩
    · exact Or.inl hold
    · exact Or.inr (.back hmode (Or.inr rfl))
  · exact hforth ht (Or.inr rfl)
  · exact (h.mem_targets_of_sprout ht).imp_right .onward
  · exact Or.inl ht
  · exact (h.mem_targets_of_sprout ht).imp_right .onward

/-- The `]` that ends a class is a literal. -/
theorem Sound.mem_targets_of_readMember (h : d.Sound) {negated : Bool} {c : Char}
    (ht : t ∈ (d.readMember negated c).automaton.targets s x) :
    t ∈ d.automaton.targets s x ∨ s < t := by
  unfold Draft.readMember at ht
  split at ht
  · rename_i hc
    subst hc
    rcases (h.endClass negated).mem_targets_of_sprout ht with hclass | hlt
    · exact h.mem_targets_of_endClass hclass
    · exact Or.inr hlt
  · exact h.mem_targets_of_sprout ht

/-- An edge that a character leaves was there before, or is one of those that it can add. -/
theorem Sound.gains_of_read (h : d.Sound) {c : Char}
    (ht : t ∈ (d.read c).automaton.targets s x) :
    t ∈ d.automaton.targets s x ∨ d.Gains c s x t := by
  have ht : t ∈ (d.interpret c).automaton.targets s x := ht
  unfold Draft.interpret at ht
  split at ht
  · exact h.gains_of_readPlain ‹_› ht
  · exact (h.mem_targets_of_sprout ht).imp_right .onward
  · split at ht
    · exact Or.inl ht
    · exact (h.mem_targets_of_readMember ht).imp_right .onward
  · exact (h.mem_targets_of_readMember ht).imp_right .onward

/-! ## What leads back -/

/-- The entry of a group lies below the current state, but where both are the root. -/
theorem Nested.eq_root_of_le_entry (h : d.Nested) (hle : d.current ≤ d.entry) :
    d.current = root := by
  rcases d.entry_cases with ⟨-, hroot⟩ | hcons
  · rw [hroot] at hle
    exact Nat.le_zero.1 hle
  · have hgroups := (List.pairwise_cons.1 h.descends).1
    have hlt : d.current > d.entry := hgroups d.entry (hcons ▸ List.mem_cons_self)
    exact absurd hlt (Nat.not_lt_of_le hle)

theorem Nested.entry_eq_root (h : d.Nested) (hcurrent : d.current = root) : d.entry = root := by
  have hle := h.entry_le_current
  rw [hcurrent] at hle
  exact Nat.le_zero.1 hle

/-- A quantifier has tied the state back to the entry of its group. A `*` does so at the root
alone. -/
def TiedBack (cs : List Char) (s t : Nat) : Prop :=
  ∃ c before, Occurs c cs before ∧ (c = '+' ∨ c = '?' ∨ c = '*' ∧ s = root)
    ∧ (fresh.readAll before).current = s ∧ (fresh.readAll before).entry = t

theorem TiedBack.append {cs : List Char} (h : TiedBack cs s t) (more : List Char) :
    TiedBack (cs ++ more) s t := by
  obtain ⟨c, before, hoccurs, hrest⟩ := h
  exact ⟨c, before, hoccurs.append more, hrest⟩

theorem tiedBack_of_gains {cs : List Char} {c : Char} (h : (fresh.readAll cs).Gains c s x t)
    (hback : t ≤ s) : x = .epsilon ∧ TiedBack (cs ++ [c]) s t := by
  have hnested := nested_readAll cs
  have hoccurs : (fresh.readAll cs).mode = .plain → Occurs c (cs ++ [c]) cs :=
    fun hmode => ⟨⟨[], rfl⟩, (mode_readAll_iff cs).1 hmode⟩
  cases h with
  | onward hlt => exact absurd hlt (Nat.not_lt_of_le hback)
  | forth hmode hc =>
    -- The entry is not above the current state, so both are the root.
    have hcurrent := hnested.eq_root_of_le_entry hback
    have hentry := hnested.entry_eq_root hcurrent
    refine ⟨rfl, c, cs, hoccurs hmode, ?_, hcurrent.trans hentry.symm, hentry.trans hcurrent.symm⟩
    rcases hc with hc | hc
    · exact Or.inr (Or.inl hc)
    · exact Or.inr (Or.inr ⟨hc, hentry⟩)
  | back hmode hc =>
    refine ⟨rfl, c, cs, hoccurs hmode, ?_, rfl, rfl⟩
    rcases hc with hc | hc
    · exact Or.inr (Or.inl hc)
    · exact Or.inl hc

theorem tiedBack_of_mem_targets {cs : List Char}
    (ht : t ∈ (fresh.readAll cs).automaton.targets s x) (hback : t ≤ s) :
    x = .epsilon ∧ TiedBack cs s t := by
  induction cs using List.reverseRecOn with
  | nil => exact absurd ht not_mem_targets_fresh
  | append_singleton init c ih =>
    rw [readAll_append] at ht
    rcases (sound_fresh.readAll init).gains_of_read ht with hold | hgains
    · obtain ⟨hepsilon, htied⟩ := ih hold
      exact ⟨hepsilon, htied.append [c]⟩
    · exact tiedBack_of_gains hgains hback

end Draft

/-- An edge that leads back is an epsilon edge of a quantifier. -/
theorem compile_tiedBack {pattern : String} {simulation : Simulation} {a : Automaton}
    (h : compile pattern simulation = .ok a) {s t : Nat} {x : Symbol} (ht : t ∈ a.targets s x)
    (hback : t ≤ s) : x = .epsilon ∧ Draft.TiedBack pattern.toList s t := by
  have hsound := Draft.sound_fresh.readAll pattern.toList
  rw [compile_eq_settle h] at ht
  rcases hsound.mem_targets_of_settle ht with hold | hlt
  · exact Draft.tiedBack_of_mem_targets hold hback
  · exact absurd hlt (Nat.not_lt_of_le hback)

end PatternNFA
