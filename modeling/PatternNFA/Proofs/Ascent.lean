-- The order of the first frontier. The walk over the epsilon edges works off a stack, and marks a
-- state when it is put there. Over any edges at all, it may list the states in any order. Over the
-- edges of a pattern it goes upwards: what leads back leads to a state that has been taken, and
-- what a state claims lies below all that is pending.
import PatternNFA.Proofs.ClosureRuns
import PatternNFA.Proofs.Nesting

namespace PatternNFA

namespace Scratch

variable {a : Automaton} {generation : Nat} {scratch : Scratch}

/-! ## The invariant of the walk -/

/-- The taken states, first the listed and then the pending ones, go upwards, and each but the
root has been entered from a listed state before it. -/
structure Rising (a : Automaton) (scratch : Scratch) : Prop where
  ascends : scratch.taken.Pairwise (· < ·)
  entered : ∀ q ∈ scratch.taken,
    q = Draft.root ∨ ∃ p ∈ scratch.next.toList, p < q ∧ q ∈ a.targets p .epsilon

theorem mem_taken_of_mem_next {p : Nat} (hp : p ∈ scratch.next.toList) : p ∈ scratch.taken :=
  List.mem_append_left _ hp

/-- A state that is not taken yet is claimed over no edge that leads back. -/
theorem Rising.lt_of_not_taken (h : Rising a scratch) (horderly : a.Orderly) {s t : Nat}
    (hs : s ∈ scratch.taken) (ht : t ∈ a.targets s .epsilon) (hfree : t ∉ scratch.taken) :
    s < t := by
  by_contra hback
  have hback := Nat.le_of_not_lt hback
  -- Else some state past the target has been entered first, and from before the target.
  have hnone : ∀ m ∈ scratch.taken, t < m → ¬ m ≤ s := by
    intro m
    induction m using Nat.strong_induction_on with
    | h m ih =>
      intro hm hlt hle
      rcases h.entered m hm with rfl | ⟨p, hp, hpm, hedge⟩
      · exact Nat.not_lt_zero t hlt
      · have htaken := mem_taken_of_mem_next hp
        have htp : t ≤ p := horderly.guarded ht hback hedge hlt hle
        have hne : t ≠ p := fun he => hfree (he ▸ htaken)
        exact ih p hpm htaken (Nat.lt_of_le_of_ne htp hne) (by omega)
  have hne : t ≠ s := fun he => hfree (he ▸ hs)
  exact hnone s hs (Nat.lt_of_le_of_ne hback hne) (Nat.le_refl s)

/-- What a turn claims goes upwards: each target once, in the order of the edges. -/
theorem Rising.claims_ascend (h : Rising a scratch) (horderly : a.Orderly) {s : Nat}
    (hs : s ∈ scratch.taken)
    (hfree : ∀ t, isUnclaimed generation scratch t = true → t ∉ scratch.taken) :
    ((a.targets s .epsilon).filter (isUnclaimed generation scratch)).dedup.Pairwise (· < ·) := by
  have hordered : ((a.targets s .epsilon).filter
      (isUnclaimed generation scratch)).Pairwise (· ≤ ·) := by
    have hforward := List.pairwise_filter.1 (horderly.ordered s)
    apply List.pairwise_filter.2
    apply hforward.imp_of_mem
    intro t u ht hu hle htfree hufree
    have hst := h.lt_of_not_taken horderly hs ht (hfree t htfree)
    have hsu := h.lt_of_not_taken horderly hs hu (hfree u hufree)
    exact hle (decide_eq_true hst) (decide_eq_true hsu)
  have hdedup := hordered.sublist (List.dedup_sublist _)
  exact (hdedup.and (List.nodup_dedup _)).imp fun hle => Nat.lt_of_le_of_ne hle.1 hle.2

/-- What a turn claims lies below what stays pending, which an edge spans from further down. -/
theorem Rising.claims_below (h : Rising a scratch) (horderly : a.Orderly) {s t u : Nat}
    {rest : List Nat} (hs : scratch.pending = s :: rest) (ht : t ∈ a.targets s .epsilon)
    (hfree : t ∉ scratch.taken) (hu : u ∈ rest) : t < u := by
  have hascends := h.ascends
  rw [taken, hs, List.pairwise_append] at hascends
  obtain ⟨-, hpending, hlisted⟩ := hascends
  have hsu : s < u := List.rel_of_pairwise_cons hpending hu
  have htaken : u ∈ scratch.taken :=
    List.mem_append_right _ (hs ▸ List.mem_cons_of_mem _ hu)
  have hne : t ≠ u := fun he => hfree (he ▸ htaken)
  rcases h.entered u htaken with rfl | ⟨p, hp, -, hedge⟩
  · exact absurd hsu (Nat.not_lt_zero s)
  · have hps : p < s := hlisted p hp s List.mem_cons_self
    exact Nat.lt_of_le_of_ne (horderly.uncrossed hedge ht hps hsu) hne

theorem mem_claims {s t : Nat} (hfree : ∀ t, isUnclaimed generation scratch t = true →
      t ∉ scratch.taken)
    (ht : t ∈ ((a.targets s .epsilon).filter (isUnclaimed generation scratch)).dedup) :
    t ∈ a.targets s .epsilon ∧ t ∉ scratch.taken := by
  obtain ⟨ht, hunclaimed⟩ := List.mem_filter.1 (List.mem_dedup.1 ht)
  exact ⟨ht, hfree t hunclaimed⟩

theorem Rising.ascends_turn (h : Rising a scratch) (horderly : a.Orderly)
    (hfree : ∀ t, isUnclaimed generation scratch t = true → t ∉ scratch.taken) {s : Nat}
    {rest : List Nat} (hs : scratch.pending = s :: rest) :
    (Scratch.turn a generation scratch).taken.Pairwise (· < ·) := by
  have hstaken : s ∈ scratch.taken := List.mem_append_right _ (hs ▸ List.mem_cons_self)
  have hascends := h.ascends
  rw [taken, hs, List.pairwise_append] at hascends
  obtain ⟨hlisted, hpending, hbefore⟩ := hascends
  have hafter : ∀ t ∈ ((a.targets s .epsilon).filter (isUnclaimed generation scratch)).dedup ++ rest,
      s < t := by
    intro t ht
    rcases List.mem_append.1 ht with ht | ht
    · obtain ⟨ht, hnew⟩ := mem_claims hfree ht
      exact h.lt_of_not_taken horderly hstaken ht hnew
    · exact List.rel_of_pairwise_cons hpending ht
  rw [taken_turn_eq hs, List.append_assoc, List.singleton_append, List.pairwise_append,
    List.pairwise_cons, List.pairwise_append]
  refine ⟨hlisted, ⟨hafter, ?_, (List.pairwise_cons.1 hpending).2, ?_⟩, ?_⟩
  · exact h.claims_ascend horderly hstaken hfree
  · intro t ht u hu
    obtain ⟨ht, hnew⟩ := mem_claims hfree ht
    exact h.claims_below horderly hs ht hnew hu
  · intro p hp t ht
    have hps : p < s := hbefore p hp s List.mem_cons_self
    rcases List.mem_cons.1 ht with rfl | ht
    · exact hps
    · exact Nat.lt_trans hps (hafter t ht)

/-- A turn enters what it claims from the state that it lists. -/
theorem Rising.turn (h : Rising a scratch) (horderly : a.Orderly)
    (hfree : ∀ t, isUnclaimed generation scratch t = true → t ∉ scratch.taken)
    (hpending : scratch.pending ≠ []) : Rising a (turn a generation scratch) := by
  obtain ⟨s, rest, hs⟩ := List.exists_cons_of_ne_nil hpending
  have hstaken : s ∈ scratch.taken := List.mem_append_right _ (hs ▸ List.mem_cons_self)
  refine ⟨h.ascends_turn horderly hfree hs, ?_⟩
  intro q hq
  rw [turn_eq hs, next_claimAll, Array.toList_push]
  rcases List.mem_append.1 ((taken_turn hs).mem_iff.1 hq) with ht | hq
  · obtain ⟨ht, hnew⟩ := mem_claims hfree ht
    have hlt := h.lt_of_not_taken horderly hstaken ht hnew
    exact Or.inr ⟨s, List.mem_append_right _ List.mem_cons_self, hlt, ht⟩
  · rcases h.entered q hq with hroot | ⟨p, hp, hpq, hedge⟩
    · exact Or.inl hroot
    · exact Or.inr ⟨p, List.mem_append_left _ hp, hpq, hedge⟩

theorem Rising.walk (h : Rising a scratch) (horderly : a.Orderly) (hrange : a.InRange)
    {sources : List Nat} (hsweep : Sweep a generation sources scratch) :
    Rising a (walk a generation scratch) := by
  suffices hboth : Sweep a generation sources (Scratch.walk a generation scratch)
      ∧ Rising a (Scratch.walk a generation scratch) from hboth.2
  apply walk_induction
    (motive := fun scratch => Sweep a generation sources scratch ∧ Rising a scratch)
  · exact ⟨hsweep, h⟩
  · rintro scratch hpending ⟨hsweep, hrising⟩
    have hfree : ∀ t, isUnclaimed generation scratch t = true → t ∉ scratch.taken :=
      fun t ht => ((hsweep.unclaimed_iff t).1 ht).2
    exact ⟨hsweep.turn hrange hpending, hrising.turn horderly hfree hpending⟩

/-! ## The first generation -/

/-- The walk from the root lists the states upwards. -/
theorem ascends_addState (hrange : a.InRange) (horderly : a.Orderly) (hroot : a.start = Draft.root)
    (h : Ready a generation scratch) :
    (addState a generation scratch.clear a.start).next.toList.Pairwise (· < ·) := by
  have hsweep := h.sweep [a.start]
  have hnone : scratch.clear.taken = [] := by
    rw [taken, next_clear, pending_clear, h.pending_eq]
    rfl
  have hfree : isUnclaimed generation scratch.clear a.start = true := by
    apply (hsweep.unclaimed_iff a.start).2
    exact ⟨hrange.start_lt, hnone ▸ List.not_mem_nil⟩
  have hfirst : (claim generation a.start scratch.clear).taken = [a.start] := by
    have hperm := taken_claim hfree
    rw [hnone] at hperm
    exact List.perm_singleton.1 hperm
  have hrising : Rising a (claim generation a.start scratch.clear) := by
    refine ⟨?_, ?_⟩
    · rw [hfirst]
      exact List.pairwise_singleton _ _
    · intro q hq
      rw [hfirst, List.mem_singleton] at hq
      exact Or.inl (hq.trans hroot)
  have hsource : ∃ s ∈ [a.start], a.Glides s a.start := ⟨a.start, List.mem_cons_self, .refl⟩
  have hwalk := hrising.walk horderly hrange (hsweep.claim hfree hsource)
  rw [addState, if_pos hfree, ← taken_of_pending_nil (pending_walk a generation _)]
  exact hwalk.ascends

end Scratch

/-! ## The law -/

/-- A run of the closure simulation begins in the states that epsilon edges alone reach from the
root, in the order of their numbers and each once. -/
theorem the_first_closure_frontier_goes_upwards {pattern : String} {a : Automaton}
    (h : compile pattern .closure = .ok a) (scratch : Scratch) :
    (Matcher.start a scratch).frontier.Pairwise (· < ·)
      ∧ ∀ q, q ∈ (Matcher.start a scratch).frontier ↔ a.Glides Draft.root q := by
  obtain ⟨-, hroot, hclosure⟩ := compile_eq_ok.1 h
  have hrange := compile_inRange h
  refine ⟨?_, ?_⟩
  · rw [Matcher.start_closure hclosure, Scratch.prepare_eq]
    exact Scratch.ascends_addState hrange (compile_orderly h) hroot (Matcher.ready_unused a)
  · intro q
    rw [← hroot]
    exact Matcher.mem_frontier_start hrange hclosure scratch q

/-- The root has edges to itself and several to one state, and the state 1 leads back to it. The
states 3, 4 and 6 are reached by letters alone. -/
theorem a_closure_frontier_skips_what_letters_reach :
    ∃ a, compile "?((ab)?*|c)(d*" .closure = .ok a
      ∧ a.targets 0 .epsilon = [0, 0, 1, 1, 1, 7, 8] ∧ a.targets 1 .epsilon = [2, 0, 5]
      ∧ (Matcher.start a).frontier = [0, 1, 2, 5, 7, 8]
      ∧ (Matcher.start a).frontier.Pairwise (· < ·)
      ∧ ∀ q, q ∈ (Matcher.start a).frontier ↔ a.Glides 0 q := by
  have ha : compile "?((ab)?*|c)(d*" .closure = .ok _ := rfl
  have hlaw := the_first_closure_frontier_goes_upwards ha {}
  exact ⟨_, ha, by decide +kernel, by decide +kernel, by decide +kernel, hlaw⟩

end PatternNFA
