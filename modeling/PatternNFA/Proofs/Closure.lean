-- One generation of the closure simulation. Whatever the epsilon edges look
-- like, the walk comes to an end, and a generation lists each state that its
-- sources reach over epsilon edges once, and no other state.
import Mathlib.Data.List.Dedup
import Mathlib.Logic.Function.Iterate
import PatternNFA.Matcher.Closure
import PatternNFA.Proofs.Walks

namespace PatternNFA

namespace Scratch

variable {a : Automaton} {generation : Nat}

/-! ## What a claim changes -/

theorem isUnclaimed_claim (generation t u : Nat) (scratch : Scratch) :
    isUnclaimed generation (claim generation t scratch) u = true
      ↔ isUnclaimed generation scratch u = true ∧ u ≠ t := by
  by_cases h : isUnclaimed generation scratch t = true
  · have ht := lt_size_of_isUnclaimed h
    simp only [claim, if_pos h]
    by_cases hut : t = u
    · subst hut
      simp [isUnclaimed, Array.getD_eq_getD_getElem?, ht]
    · have hne : u ≠ t := fun he => hut he.symm
      simp [isUnclaimed, Array.getD_eq_getD_getElem?, hut, hne]
  · simp only [claim, if_neg h]
    constructor
    · intro hu
      exact ⟨hu, fun he => h (he ▸ hu)⟩
    · exact And.left

theorem isUnclaimed_claimAll (generation : Nat) (targets : List Nat) (scratch : Scratch)
    (u : Nat) :
    isUnclaimed generation (claimAll generation targets scratch) u = true
      ↔ isUnclaimed generation scratch u = true ∧ u ∉ targets := by
  induction targets with
  | nil => simp
  | cons t rest ih =>
    rw [claimAll_cons, isUnclaimed_claim, ih, List.mem_cons, not_or, and_assoc,
      and_comm (a := u ∉ rest)]

/-- Claiming from the last target to the first makes the last occurrence of a target count. -/
theorem pending_claimAll (generation : Nat) (targets : List Nat) (scratch : Scratch) :
    (claimAll generation targets scratch).pending
      = (targets.filter (isUnclaimed generation scratch)).dedup ++ scratch.pending := by
  induction targets with
  | nil => simp
  | cons t rest ih =>
    rw [claimAll_cons, claim]
    by_cases ht : isUnclaimed generation scratch t = true
    · rw [List.filter_cons_of_pos ht]
      by_cases hmem : t ∈ rest
      · have hclaimed : ¬ isUnclaimed generation (claimAll generation rest scratch) t = true :=
          fun h => ((isUnclaimed_claimAll _ _ _ _).1 h).2 hmem
        rw [if_neg hclaimed, ih, List.dedup_cons_of_mem (List.mem_filter.2 ⟨hmem, ht⟩)]
      · have hfree : isUnclaimed generation (claimAll generation rest scratch) t = true :=
          (isUnclaimed_claimAll _ _ _ _).2 ⟨ht, hmem⟩
        rw [if_pos hfree, List.dedup_cons_of_notMem fun h => hmem (List.mem_of_mem_filter h)]
        simp only [ih, List.cons_append]
    · have hclaimed : ¬ isUnclaimed generation (claimAll generation rest scratch) t = true :=
        fun h => ht ((isUnclaimed_claimAll _ _ _ _).1 h).1
      rw [if_neg hclaimed, ih, List.filter_cons_of_neg ht]

@[simp]
theorem next_claim (generation t : Nat) (scratch : Scratch) :
    (claim generation t scratch).next = scratch.next := by
  unfold claim
  split <;> rfl

@[simp]
theorem next_claimAll (generation : Nat) (targets : List Nat) (scratch : Scratch) :
    (claimAll generation targets scratch).next = scratch.next := by
  induction targets with
  | nil => rfl
  | cons t rest ih => rw [claimAll_cons, next_claim, ih]

@[simp]
theorem size_stamps_claim (generation t : Nat) (scratch : Scratch) :
    (claim generation t scratch).stamps.size = scratch.stamps.size := by
  unfold claim
  split
  · exact Array.size_setIfInBounds
  · rfl

@[simp]
theorem size_stamps_claimAll (generation : Nat) (targets : List Nat) (scratch : Scratch) :
    (claimAll generation targets scratch).stamps.size = scratch.stamps.size := by
  induction targets with
  | nil => rfl
  | cons t rest ih => rw [claimAll_cons, size_stamps_claim, ih]

theorem stamps_claim_le {t : Nat} {scratch : Scratch} (h : ∀ x ∈ scratch.stamps, x ≤ generation) :
    ∀ x ∈ (claim generation t scratch).stamps, x ≤ generation := by
  intro x hx
  unfold claim at hx
  split at hx
  · rcases Array.mem_or_eq_of_mem_setIfInBounds hx with hx | rfl
    · exact h x hx
    · exact Nat.le_refl _
  · exact h x hx

theorem stamps_claimAll_le {targets : List Nat} {scratch : Scratch}
    (h : ∀ x ∈ scratch.stamps, x ≤ generation) :
    ∀ x ∈ (claimAll generation targets scratch).stamps, x ≤ generation := by
  induction targets with
  | nil => exact h
  | cons t rest ih => exact stamps_claim_le ih

/-! ## One turn, and all of them -/

/-- The states that a generation has taken so far, listed or pending. -/
def taken (scratch : Scratch) : List Nat := scratch.next.toList ++ scratch.pending

theorem turn_eq {scratch : Scratch} {s : Nat} {rest : List Nat}
    (h : scratch.pending = s :: rest) :
    turn a generation scratch = claimAll generation (a.targets s .epsilon)
      { scratch with next := scratch.next.push s, pending := rest } := by
  obtain ⟨current, next, stamps, pending⟩ := scratch
  subst h
  rfl

theorem turn_of_nil {scratch : Scratch} (h : scratch.pending = []) :
    turn a generation scratch = scratch := by
  obtain ⟨current, next, stamps, pending⟩ := scratch
  subst h
  rfl

/-- What a turn claims goes between the listed states and those that stay pending. -/
theorem taken_turn_eq {scratch : Scratch} {s : Nat} {rest : List Nat}
    (h : scratch.pending = s :: rest) :
    (turn a generation scratch).taken = (scratch.next.toList ++ [s]) ++
      (((a.targets s .epsilon).filter (isUnclaimed generation scratch)).dedup ++ rest) := by
  rw [turn_eq h, taken, pending_claimAll, next_claimAll, Array.toList_push]
  rfl

/-- A turn takes the targets that are not claimed yet, each once, and loses no state. -/
theorem taken_turn {scratch : Scratch} {s : Nat} {rest : List Nat}
    (h : scratch.pending = s :: rest) :
    (turn a generation scratch).taken.Perm
      (((a.targets s .epsilon).filter (isUnclaimed generation scratch)).dedup
        ++ scratch.taken) := by
  have hmove := List.perm_append_comm_assoc (scratch.next.toList ++ [s])
    ((a.targets s .epsilon).filter (isUnclaimed generation scratch)).dedup rest
  rw [taken_turn_eq h, taken, h]
  rw [List.append_assoc _ [s] rest, List.singleton_append] at hmove
  exact hmove

/-- What every turn keeps, the walk keeps. -/
theorem walk_induction {motive : Scratch → Prop} {scratch : Scratch} (h : motive scratch)
    (hturn : ∀ scratch, scratch.pending ≠ [] → motive scratch →
      motive (turn a generation scratch)) : motive (walk a generation scratch) := by
  fun_induction walk a generation scratch with
  | case1 => exact h
  | case2 scratch hpending ih => exact ih (hturn scratch hpending h)

@[simp]
theorem pending_walk (a : Automaton) (generation : Nat) (scratch : Scratch) :
    (walk a generation scratch).pending = [] := by
  fun_induction walk a generation scratch with
  | case1 scratch hpending => exact hpending
  | case2 scratch hpending ih => exact ih

/-- The walk is over after as many turns as it may take, and further turns change nothing. -/
theorem iterate_turn {n : Nat} {scratch : Scratch} (hn : turnsLeft generation scratch ≤ n) :
    (turn a generation)^[n] scratch = walk a generation scratch := by
  induction n generalizing scratch with
  | zero =>
    have hpending : scratch.pending = [] := by
      simp only [turnsLeft] at hn
      exact List.length_eq_zero_iff.1 (by omega)
    rw [walk, if_pos hpending]
    rfl
  | succ n ih =>
    rw [Function.iterate_succ_apply]
    by_cases hpending : scratch.pending = []
    · have hleft : turnsLeft generation scratch ≤ n + 1 := hn
      rw [turn_of_nil hpending, walk, if_pos hpending]
      exact Function.iterate_fixed (turn_of_nil hpending) n
    · have hless := turnsLeft_turn a generation hpending
      rw [ih (by omega), walk.eq_1 a generation scratch, if_neg hpending]

/-! ## The invariant of a generation -/

/-- No generation from this one on has claimed a state, and no walk is under way. -/
structure Ready (a : Automaton) (generation : Nat) (scratch : Scratch) : Prop where
  size_eq : scratch.stamps.size = a.size
  stamps_lt : ∀ x ∈ scratch.stamps, x < generation
  pending_eq : scratch.pending = []

/-- The generation is at work on what the sources reach over epsilon edges. A state is claimed
if it is taken, and the targets of a listed state are taken with it. -/
structure Sweep (a : Automaton) (generation : Nat) (sources : List Nat) (scratch : Scratch) :
    Prop where
  size_eq : scratch.stamps.size = a.size
  stamps_le : ∀ x ∈ scratch.stamps, x ≤ generation
  nodup : scratch.taken.Nodup
  taken_lt : ∀ t ∈ scratch.taken, t < a.size
  unclaimed_iff : ∀ t,
    isUnclaimed generation scratch t = true ↔ t < a.size ∧ t ∉ scratch.taken
  expanded : ∀ s ∈ scratch.next.toList, ∀ t ∈ a.targets s .epsilon, t ∈ scratch.taken
  sound : ∀ t ∈ scratch.taken, ∃ s ∈ sources, a.Glides s t

theorem taken_claim {t : Nat} {scratch : Scratch}
    (h : isUnclaimed generation scratch t = true) :
    (claim generation t scratch).taken.Perm (t :: scratch.taken) := by
  unfold claim taken
  rw [if_pos h]
  exact List.perm_middle

/-- To claim a state that a source reaches keeps the invariant. -/
theorem Sweep.claim {sources : List Nat} {scratch : Scratch}
    (h : Sweep a generation sources scratch) {t : Nat}
    (ht : isUnclaimed generation scratch t = true) (hsound : ∃ s ∈ sources, a.Glides s t) :
    Sweep a generation sources (claim generation t scratch) := by
  have hperm := taken_claim ht
  have hfree := (h.unclaimed_iff t).1 ht
  refine ⟨by simpa using h.size_eq, stamps_claim_le h.stamps_le, ?_, ?_, ?_, ?_, ?_⟩
  · exact hperm.nodup_iff.2 (List.nodup_cons.2 ⟨hfree.2, h.nodup⟩)
  · intro u hu
    rcases List.mem_cons.1 (hperm.mem_iff.1 hu) with rfl | hu
    · exact hfree.1
    · exact h.taken_lt u hu
  · intro u
    rw [isUnclaimed_claim, h.unclaimed_iff u, hperm.mem_iff, List.mem_cons, not_or, and_assoc,
      and_comm (a := u ≠ t)]
  · intro s hs u hu
    rw [next_claim] at hs
    exact hperm.mem_iff.2 (List.mem_cons_of_mem _ (h.expanded s hs u hu))
  · intro u hu
    rcases List.mem_cons.1 (hperm.mem_iff.1 hu) with rfl | hu
    · exact hsound
    · exact h.sound u hu

/-- After a turn, the epsilon targets of the state that it lists are taken as well. -/
theorem Sweep.mem_taken_turn (hrange : a.InRange) {sources : List Nat} {scratch : Scratch}
    (h : Sweep a generation sources scratch) {s : Nat} {rest : List Nat}
    (hs : scratch.pending = s :: rest) (u : Nat) :
    u ∈ (Scratch.turn a generation scratch).taken
      ↔ u ∈ a.targets s .epsilon ∨ u ∈ scratch.taken := by
  rw [(taken_turn hs).mem_iff, List.mem_append, List.mem_dedup, List.mem_filter, h.unclaimed_iff]
  constructor
  · rintro (⟨ht, -⟩ | hu)
    · exact Or.inl ht
    · exact Or.inr hu
  · rintro (ht | hu)
    · by_cases hu : u ∈ scratch.taken
      · exact Or.inr hu
      · exact Or.inl ⟨ht, hrange.target_lt ht, hu⟩
    · exact Or.inr hu

/-- A turn lists a state and takes its epsilon targets, which the sources reach as well. -/
theorem Sweep.turn (hrange : a.InRange) {sources : List Nat} {scratch : Scratch}
    (h : Sweep a generation sources scratch) (hpending : scratch.pending ≠ []) :
    Sweep a generation sources (turn a generation scratch) := by
  obtain ⟨s, rest, hs⟩ := List.exists_cons_of_ne_nil hpending
  have hmem := h.mem_taken_turn hrange hs
  have hclaims := @turn_eq a generation scratch s rest hs
  refine ⟨?_, ?_, ?_, ?_, ?_, ?_, ?_⟩
  · rw [hclaims, size_stamps_claimAll]
    exact h.size_eq
  · rw [hclaims]
    exact stamps_claimAll_le h.stamps_le
  · apply (taken_turn hs).nodup_iff.2
    refine List.nodup_append.2 ⟨List.nodup_dedup _, h.nodup, ?_⟩
    rintro u hu v hv rfl
    have hfree := (List.mem_filter.1 (List.mem_dedup.1 hu)).2
    exact ((h.unclaimed_iff u).1 hfree).2 hv
  · intro u hu
    rcases (hmem u).1 hu with ht | hu
    · exact hrange.target_lt ht
    · exact h.taken_lt u hu
  · intro u
    have hsame : isUnclaimed generation
        { scratch with next := scratch.next.push s, pending := rest } u = true
          ↔ u < a.size ∧ u ∉ scratch.taken := h.unclaimed_iff u
    rw [hmem, not_or, hclaims, isUnclaimed_claimAll, hsame, and_assoc,
      and_comm (a := u ∉ scratch.taken)]
  · intro v hv t ht
    rw [hclaims, next_claimAll, Array.toList_push, List.mem_append, List.mem_singleton] at hv
    rw [hmem]
    cases hv with
    | inl hv => exact Or.inr (h.expanded v hv t ht)
    | inr hv => exact Or.inl (hv ▸ ht)
  · intro u hu
    rcases (hmem u).1 hu with ht | hu
    · have hstaken : s ∈ scratch.taken := List.mem_append_right _ (hs ▸ List.mem_cons_self)
      obtain ⟨source, hsource, hglides⟩ := h.sound s hstaken
      exact ⟨source, hsource, hglides.tail ht⟩
    · exact h.sound u hu

/-! ## What a generation lists -/

theorem mem_taken_walk {scratch : Scratch} {t : Nat} (ht : t ∈ scratch.taken) :
    t ∈ (walk a generation scratch).taken := by
  apply walk_induction (motive := fun scratch => t ∈ scratch.taken) ht
  intro scratch hpending hmem
  obtain ⟨s, rest, hs⟩ := List.exists_cons_of_ne_nil hpending
  exact (taken_turn hs).mem_iff.2 (List.mem_append_right _ hmem)

theorem taken_of_pending_nil {scratch : Scratch} (h : scratch.pending = []) :
    scratch.taken = scratch.next.toList := by
  unfold taken
  rw [h, List.append_nil]

@[simp]
theorem pending_addState {scratch : Scratch} (h : scratch.pending = []) (s : Nat) :
    (addState a generation scratch s).pending = [] := by
  unfold addState
  split
  · exact pending_walk _ _ _
  · exact h

theorem mem_taken_addState {scratch : Scratch} {t : Nat} (ht : t ∈ scratch.taken) (s : Nat) :
    t ∈ (addState a generation scratch s).taken := by
  unfold addState
  split
  · rename_i hfree
    exact mem_taken_walk ((taken_claim hfree).mem_iff.2 (List.mem_cons_of_mem _ ht))
  · exact ht

theorem Sweep.addState (hrange : a.InRange) {sources : List Nat} {scratch : Scratch}
    (h : Sweep a generation sources scratch) {s : Nat} (hs : s ∈ sources) :
    Sweep a generation sources (addState a generation scratch s) := by
  unfold Scratch.addState
  split
  · rename_i hfree
    exact walk_induction (motive := Sweep a generation sources) (h.claim hfree ⟨s, hs, .refl⟩)
      fun _ hpending hsweep => hsweep.turn hrange hpending
  · exact h

/-- A source is taken once it has been added. -/
theorem Sweep.mem_taken_addState {sources : List Nat} {scratch : Scratch}
    (h : Sweep a generation sources scratch) {s : Nat} (hs : s < a.size) :
    s ∈ (Scratch.addState a generation scratch s).taken := by
  unfold Scratch.addState
  split
  · rename_i hfree
    exact mem_taken_walk ((taken_claim hfree).mem_iff.2 List.mem_cons_self)
  · rename_i hclaimed
    by_contra hnot
    exact hclaimed ((h.unclaimed_iff s).2 ⟨hs, hnot⟩)

theorem Ready.sweep {scratch : Scratch} (h : Ready a generation scratch) (sources : List Nat) :
    Sweep a generation sources scratch.clear := by
  have hnone : scratch.clear.taken = [] := by simp [taken, h.pending_eq]
  refine ⟨h.size_eq, ?_, ?_, ?_, ?_, ?_, ?_⟩
  · intro x hx
    exact Nat.le_of_lt (h.stamps_lt x hx)
  · simp [hnone]
  · simp [hnone]
  · intro t
    have hsize := h.size_eq
    by_cases ht : t < scratch.stamps.size
    · have hne := Nat.ne_of_lt (h.stamps_lt _ (Array.getElem_mem ht))
      have hfree : isUnclaimed generation scratch.clear t = true := by
        simp [isUnclaimed, Array.getD_eq_getD_getElem?, ht, hne]
      have hlt : t < a.size := by omega
      simp [hnone, hfree, hlt]
    · have hout : ¬ t < a.size := by omega
      have hnot : ¬ isUnclaimed generation scratch.clear t = true :=
        fun hfree => ht (lt_size_of_isUnclaimed hfree)
      simp [hout, hnot]
  · simp
  · simp [hnone]

/-! ## All the sources of a generation -/

theorem pending_foldl_addState {added : List Nat} {scratch : Scratch}
    (h : scratch.pending = []) : (added.foldl (addState a generation) scratch).pending = [] := by
  induction added generalizing scratch with
  | nil => exact h
  | cons s rest ih => exact ih (pending_addState h s)

theorem mem_taken_foldl_addState {added : List Nat} {scratch : Scratch} {t : Nat}
    (ht : t ∈ scratch.taken) : t ∈ (added.foldl (addState a generation) scratch).taken := by
  induction added generalizing scratch with
  | nil => exact ht
  | cons s rest ih => exact ih (mem_taken_addState ht s)

/-- One source after the other is added. One that is claimed already adds nothing, and it is
taken all the same. -/
theorem Sweep.foldl_addState (hrange : a.InRange) {sources : List Nat} {scratch : Scratch}
    (h : Sweep a generation sources scratch) {added : List Nat}
    (hadded : ∀ s ∈ added, s ∈ sources ∧ s < a.size) :
    Sweep a generation sources (added.foldl (Scratch.addState a generation) scratch)
      ∧ ∀ s ∈ added, s ∈ (added.foldl (Scratch.addState a generation) scratch).taken := by
  induction added generalizing scratch with
  | nil => exact ⟨h, by simp⟩
  | cons s rest ih =>
    obtain ⟨hs, hlt⟩ := hadded s List.mem_cons_self
    obtain ⟨hsweep, hrest⟩ :=
      ih (h.addState hrange hs) fun t ht => hadded t (List.mem_cons_of_mem s ht)
    refine ⟨hsweep, ?_⟩
    intro t ht
    rcases List.mem_cons.1 ht with rfl | ht
    · rw [List.foldl_cons]
      exact mem_taken_foldl_addState (h.mem_taken_addState hlt)
    · exact hrest t ht

/-- What a generation leaves once all its sources have been added. -/
structure Gathered (a : Automaton) (generation : Nat) (sources : List Nat) (scratch : Scratch) :
    Prop where
  ready : Ready a (generation + 1) scratch
  nodup : scratch.next.toList.Nodup
  mem_next : ∀ t, t ∈ scratch.next.toList ↔ ∃ s ∈ sources, a.Glides s t

theorem gathered_foldl (hrange : a.InRange) {scratch : Scratch} (h : Ready a generation scratch)
    {sources : List Nat} (hsources : ∀ s ∈ sources, s < a.size) :
    Gathered a generation sources (sources.foldl (addState a generation) scratch.clear) := by
  obtain ⟨hsweep, hadded⟩ :=
    (h.sweep sources).foldl_addState hrange fun s hs => ⟨hs, hsources s hs⟩
  have hpending := @pending_foldl_addState a generation sources scratch.clear h.pending_eq
  have htaken := taken_of_pending_nil hpending
  refine ⟨⟨hsweep.size_eq, ?_, hpending⟩, htaken ▸ hsweep.nodup, ?_⟩
  · intro x hx
    exact Nat.lt_succ_of_le (hsweep.stamps_le x hx)
  · intro t
    rw [← htaken]
    constructor
    · exact hsweep.sound t
    · rintro ⟨s, hs, hglides⟩
      -- The taken states hold the sources, and no epsilon edge leads out of them.
      induction hglides with
      | refl => exact hadded s hs
      | tail _ hedge ih => exact hsweep.expanded _ (htaken ▸ ih) _ hedge

theorem gather_eq (a : Automaton) (generation : Nat) (c : Char) (scratch : Scratch) :
    gather a generation c scratch
      = (scratch.current.toList.flatMap (a.targets · (.char c))).foldl (addState a generation)
          scratch.clear := by
  rw [gather, List.foldl_flatMap, Array.foldl_toList]

/-- A step over a character lists what the targets on the character reach. -/
theorem gathered_gather (hrange : a.InRange) {scratch : Scratch}
    (h : Ready a generation scratch) (c : Char) :
    Gathered a generation (scratch.current.toList.flatMap (a.targets · (.char c)))
      (gather a generation c scratch) := by
  rw [gather_eq]
  apply gathered_foldl hrange h
  intro t ht
  obtain ⟨s, -, ht⟩ := List.mem_flatMap.1 ht
  exact hrange.target_lt ht

end Scratch

end PatternNFA
