-- Two readers of one rest of a pattern. They make the same changes, each to its own draft, so a
-- relation between the drafts that every such change keeps holds when both have read the rest.
-- What reading keeps of a single draft is the case of a relation that looks at one of the two.
import PatternNFA.Proofs.Drafts
import PatternNFA.Proofs.Modes

namespace PatternNFA

namespace Draft

/-! ## The changes -/

/-- Drafts that are related stay so when the same change is made to both. A pattern makes no
other changes than these. -/
structure Lockstep (R : Draft → Draft → Prop) : Prop where
  /-- The mode and the offset do not matter. -/
  turn {d e : Draft} {mode mode' : Mode} {offset offset' : Nat} : R d e →
    R { d with mode, offset } { e with mode := mode', offset := offset' }
  sprout {d e : Draft} (symbol : Symbol) (accepting : Bool) : d.Sound → e.Sound → R d e →
    R (d.sprout symbol accepting) (e.sprout symbol accepting)
  advance {d e : Draft} (symbol : Symbol) (accepting : Bool) : d.Sound → e.Sound → R d e →
    R (d.advance symbol accepting) (e.advance symbol accepting)
  openGroup {d e : Draft} : d.Sound → e.Sound → R d e →
    R { d.advance .epsilon true with groups := d.current :: d.groups }
      { e.advance .epsilon true with groups := e.current :: e.groups }
  closeGroup {d e : Draft} : d.Sound → e.Sound → R d e →
    R { d with current := d.entry, groups := d.groups.tail }
      { e with current := e.entry, groups := e.groups.tail }
  /-- An edge from the entry of the group to the current state. -/
  forth {d e : Draft} : d.Sound → e.Sound → R d e →
    R (d.link d.entry .epsilon d.current) (e.link e.entry .epsilon e.current)
  /-- An edge from the current state to the entry of the group. -/
  back {d e : Draft} : d.Sound → e.Sound → R d e →
    R (d.link d.current .epsilon d.entry) (e.link e.current .epsilon e.entry)

namespace Lockstep

variable {R : Draft → Draft → Prop} {d e : Draft}

/-! ## One character -/

theorem readPlain (h : Lockstep R) (hd : d.Sound) (he : e.Sound) (hR : R d e) (c : Char) :
    R (d.readPlain c) (e.readPlain c) := by
  by_cases hc : c ∈ ['(', ')', '|', '?', '+', '*', '[', '\\']
  · simp only [List.mem_cons, List.not_mem_nil, or_false] at hc
    rcases hc with rfl | rfl | rfl | rfl | rfl | rfl | rfl | rfl
    · exact h.openGroup hd he hR
    · exact h.closeGroup hd he hR
    · exact h.advance .epsilon true hd he hR
    · have hforth := h.forth hd he hR
      exact h.back (hd.link hd.entry_lt _ hd.current_lt) (he.link he.entry_lt _ he.current_lt) hforth
    · exact h.back hd he hR
    · exact h.forth hd he hR
    · exact h.turn (h.advance .epsilon false hd he hR)
    · exact h.turn hR
  · rw [readPlain_literal d hc, readPlain_literal e hc]
    exact h.advance (.char c) true hd he hR

theorem endClass (h : Lockstep R) (hd : d.Sound) (he : e.Sound) (hR : R d e) (negated : Bool) :
    R (d.endClass negated) (e.endClass negated) := by
  cases negated with
  | false => exact h.turn hR
  | true => exact h.turn (h.sprout .epsilon true hd he hR)

theorem readMember (h : Lockstep R) (hd : d.Sound) (he : e.Sound) (hR : R d e) (negated : Bool)
    (c : Char) : R (d.readMember negated c) (e.readMember negated c) := by
  unfold Draft.readMember
  split
  · exact h.readPlain (hd.endClass negated) (he.endClass negated) (h.endClass hd he hR negated) c
  · exact h.turn (h.sprout (.char c) true hd he hR)

theorem read (h : Lockstep R) (hd : d.Sound) (he : e.Sound) (hstep : d.InStep e) (hR : R d e)
    (c : Char) : R (d.read c) (e.read c) := by
  have hinterpret : R (d.interpret c) (e.interpret c) := by
    by_cases hpending : d.Pending
    · obtain ⟨offset, hmode⟩ := hpending
      obtain ⟨offset', hmode'⟩ := hstep.pending_iff.1 ⟨offset, hmode⟩
      simp only [interpret, hmode, hmode']
      exact h.turn (h.sprout (.char c) true hd he hR)
    · unfold interpret
      rw [← hstep.mode_eq hpending]
      split
      · exact h.readPlain hd he hR c
      · exact absurd ⟨_, ‹_›⟩ hpending
      · split
        · exact h.turn hR
        · exact h.readMember hd he hR false c
      · exact h.readMember hd he hR _ c
  exact h.turn hinterpret

/-! ## The rest of a pattern -/

theorem readAll (h : Lockstep R) (hd : d.Sound) (he : e.Sound) (hstep : d.InStep e) (hR : R d e)
    (cs : List Char) : R (d.readAll cs) (e.readAll cs) := by
  induction cs generalizing d e with
  | nil => exact hR
  | cons c cs ih => exact ih (hd.read c) (he.read c) (hstep.read c) (h.read hd he hstep hR c)

/-- At the end of the pattern an open class ends in both. -/
theorem settle (h : Lockstep R) (hd : d.Sound) (he : e.Sound) (hstep : d.InStep e) (hR : R d e) :
    R d.settle e.settle := by
  by_cases hpending : d.Pending
  · obtain ⟨offset, hmode⟩ := hpending
    obtain ⟨offset', hmode'⟩ := hstep.pending_iff.1 ⟨offset, hmode⟩
    simp only [Draft.settle, hmode, hmode']
    exact hR
  · unfold Draft.settle
    rw [← hstep.mode_eq hpending]
    split
    · exact hR
    · exact hR
    · exact h.endClass hd he hR false
    · exact h.endClass hd he hR _

/-- Both have read the whole rest. -/
theorem settle_readAll (h : Lockstep R) (hd : d.Sound) (he : e.Sound) (hstep : d.InStep e)
    (hR : R d e) (cs : List Char) : R (d.readAll cs).settle (e.readAll cs).settle :=
  h.settle (hd.readAll cs) (he.readAll cs) (hstep.readAll cs) (h.readAll hd he hstep hR cs)

/-- Two patterns, and the same rest after both. -/
theorem settle_append (h : Lockstep R) {p q : String}
    (hstep : (fresh.readAll p.toList).InStep (fresh.readAll q.toList))
    (hR : R (fresh.readAll p.toList) (fresh.readAll q.toList)) (v : String) :
    R (fresh.readAll (p ++ v).toList).settle (fresh.readAll (q ++ v).toList).settle := by
  rw [readAll_toList_append, readAll_toList_append]
  exact h.settle_readAll (sound_fresh.readAll _) (sound_fresh.readAll _) hstep hR v.toList

end Lockstep

/-! ## Readers with one draft -/

/-- The drafts differ in the mode and in the offset at most. -/
def Agrees (d e : Draft) : Prop := ∃ mode offset, e = { d with mode, offset }

variable {d e : Draft}

theorem agrees_of_eq (hstates : e.states = d.states) (hcurrent : e.current = d.current)
    (hgroups : e.groups = d.groups) : d.Agrees e := by
  obtain ⟨states, current, groups, mode, offset⟩ := e
  obtain rfl := hstates
  obtain rfl := hcurrent
  obtain rfl := hgroups
  exact ⟨mode, offset, rfl⟩

theorem Agrees.states_eq (h : d.Agrees e) : e.states = d.states := by
  obtain ⟨_, _, rfl⟩ := h
  rfl

theorem lockstep_agrees : Lockstep Agrees := by
  refine ⟨?_, ?_, ?_, ?_, ?_, ?_, ?_⟩
  · rintro d _ mode mode' offset offset' ⟨_, _, rfl⟩
    exact ⟨mode', offset', rfl⟩
  · rintro d _ symbol accepting - - ⟨mode, offset, rfl⟩
    exact ⟨mode, offset, rfl⟩
  · rintro d _ symbol accepting - - ⟨mode, offset, rfl⟩
    exact ⟨mode, offset, rfl⟩
  · rintro d _ - - ⟨mode, offset, rfl⟩
    exact ⟨mode, offset, rfl⟩
  · rintro d _ - - ⟨mode, offset, rfl⟩
    exact ⟨mode, offset, rfl⟩
  · rintro d _ - - ⟨mode, offset, rfl⟩
    exact ⟨mode, offset, rfl⟩
  · rintro d _ - - ⟨mode, offset, rfl⟩
    exact ⟨mode, offset, rfl⟩

end Draft

end PatternNFA
