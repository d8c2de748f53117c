-- The order of one walk over the epsilon edges. The walk works off a stack and claims a state when
-- it is put there, so a state may be claimed long before it is listed, and by a state further up.
-- The walk lists what a recursion emits that claims the targets of a state, from the last to the
-- first, before it visits them, from the first to the last.
import PatternNFA.Proofs.Closure
import PatternNFA.Proofs.Preorder

namespace PatternNFA

namespace Automaton

variable {a : Automaton}

/-! ## Claiming targets -/

/-- What is claimed of a list of targets that is scanned from the last to the first, in the order of
the list. -/
def claims (a : Automaton) (claimed : Finset Nat) (targets : List Nat) : List Nat :=
  targets.foldr
    (fun t taken => if t < a.size ∧ t ∉ claimed ∧ t ∉ taken then t :: taken else taken) []

theorem claims_cons (claimed : Finset Nat) (t : Nat) (rest : List Nat) :
    a.claims claimed (t :: rest)
      = if t < a.size ∧ t ∉ claimed ∧ t ∉ a.claims claimed rest then t :: a.claims claimed rest
        else a.claims claimed rest := rfl

theorem mem_claims {claimed : Finset Nat} {targets : List Nat} {u : Nat} :
    u ∈ a.claims claimed targets ↔ u ∈ targets ∧ u < a.size ∧ u ∉ claimed := by
  induction targets with
  | nil => simp [claims]
  | cons t rest ih =>
    rw [claims_cons]
    split
    · rename_i hfree
      rw [List.mem_cons, List.mem_cons, ih]
      constructor
      · rintro (rfl | ⟨hu, hrest⟩)
        · exact ⟨Or.inl rfl, hfree.1, hfree.2.1⟩
        · exact ⟨Or.inr hu, hrest⟩
      · rintro ⟨rfl | hu, hrest⟩
        · exact Or.inl rfl
        · exact Or.inr ⟨hu, hrest⟩
    · rename_i hclaimed
      rw [List.mem_cons, ih]
      constructor
      · rintro ⟨hu, hrest⟩
        exact ⟨Or.inr hu, hrest⟩
      · rintro ⟨rfl | hu, hrest⟩
        · by_contra hnot
          exact hclaimed ⟨hrest.1, hrest.2, fun hmem => hnot (ih.1 hmem)⟩
        · exact ⟨hu, hrest⟩

theorem nodup_claims (claimed : Finset Nat) (targets : List Nat) :
    (a.claims claimed targets).Nodup := by
  induction targets with
  | nil => exact List.nodup_nil
  | cons t rest ih =>
    rw [claims_cons]
    split
    · rename_i hfree
      exact List.nodup_cons.2 ⟨hfree.2.2, ih⟩
    · exact ih

/-- The epsilon targets that a state claims when it is visited. -/
def fresh (a : Automaton) (claimed : Finset Nat) (s : Nat) : List Nat :=
  a.claims claimed (a.targets s .epsilon)

theorem mem_fresh {claimed : Finset Nat} {s u : Nat} :
    u ∈ a.fresh claimed s ↔ u ∈ a.targets s .epsilon ∧ u < a.size ∧ u ∉ claimed := mem_claims

theorem nodup_fresh (claimed : Finset Nat) (s : Nat) : (a.fresh claimed s).Nodup :=
  nodup_claims claimed (a.targets s .epsilon)

/-! ## The recursion -/

/-- How many states are not claimed. -/
def free (a : Automaton) (claimed : Finset Nat) : Nat := (Finset.range a.size \ claimed).card

theorem free_fresh (claimed : Finset Nat) (s : Nat) :
    a.free (claimed ∪ (a.fresh claimed s).toFinset) + (a.fresh claimed s).length
      = a.free claimed := by
  have hsub : (a.fresh claimed s).toFinset ⊆ Finset.range a.size \ claimed := by
    intro t ht
    obtain ⟨-, hlt, hfree⟩ := mem_fresh.1 (List.mem_toFinset.1 ht)
    exact Finset.mem_sdiff.2 ⟨Finset.mem_range.2 hlt, hfree⟩
  rw [free, free, ← List.toFinset_card_of_nodup (nodup_fresh claimed s),
    ← Finset.card_sdiff_add_card_eq_card hsub, sdiff_sdiff_left]
  rfl

theorem free_union_le (claimed more : Finset Nat) : a.free (claimed ∪ more) ≤ a.free claimed :=
  Finset.card_le_card (Finset.sdiff_subset_sdiff (Finset.Subset.refl _) Finset.subset_union_left)

/-- Visits the states of a list one after the other, all of them claimed. A state is emitted, then
its epsilon targets are claimed, and then those that have been claimed are visited, before the rest
of the list. -/
def emission (a : Automaton) (claimed : Finset Nat) : List Nat → List Nat
  | [] => []
  | s :: rest =>
    let branch :=
      s :: a.emission (claimed ∪ (a.fresh claimed s).toFinset) (a.fresh claimed s)
    branch ++ a.emission (claimed ∪ branch.toFinset) rest
termination_by pending => a.free claimed + pending.length
decreasing_by
  · rw [free_fresh]
    exact Nat.lt_add_of_pos_right (Nat.succ_pos rest.length)
  · exact Nat.add_lt_add_of_le_of_lt (free_union_le claimed branch.toFinset)
      (Nat.lt_succ_self rest.length)

theorem emission_nil (claimed : Finset Nat) : a.emission claimed [] = [] := by
  rw [emission]

theorem emission_singleton (claimed : Finset Nat) (s : Nat) :
    a.emission claimed [s]
      = s :: a.emission (claimed ∪ (a.fresh claimed s).toFinset) (a.fresh claimed s) := by
  rw [emission]
  simp only [emission_nil, List.append_nil]

theorem emission_cons (claimed : Finset Nat) (s : Nat) (rest : List Nat) :
    a.emission claimed (s :: rest) = a.emission claimed [s]
      ++ a.emission (claimed ∪ (a.emission claimed [s]).toFinset) rest := by
  rw [emission_singleton, emission]

theorem emission_append (claimed : Finset Nat) (first rest : List Nat) :
    a.emission claimed (first ++ rest) = a.emission claimed first
      ++ a.emission (claimed ∪ (a.emission claimed first).toFinset) rest :=
  visit_append emission_nil emission_cons claimed first rest

/-- What holds of a list if it holds of what its first state claims, and of the rest. -/
theorem emission_induction {motive : Finset Nat → List Nat → Prop}
    (nil : ∀ claimed, motive claimed [])
    (cons : ∀ claimed s rest,
      motive (claimed ∪ (a.fresh claimed s).toFinset) (a.fresh claimed s) →
      motive (claimed ∪ (a.emission claimed [s]).toFinset) rest → motive claimed (s :: rest))
    (claimed : Finset Nat) (pending : List Nat) : motive claimed pending := by
  induction claimed, pending using emission.induct a with
  | case1 claimed => exact nil claimed
  | case2 claimed s rest branch hfresh hrest =>
    apply cons claimed s rest hfresh
    rw [emission_singleton]
    exact hrest

/-! ## What is emitted -/

theorem mem_emission_of_mem {claimed : Finset Nat} {pending : List Nat} {q : Nat}
    (hq : q ∈ pending) : q ∈ a.emission claimed pending := by
  induction pending generalizing claimed with
  | nil => exact absurd hq List.not_mem_nil
  | cons s rest ih =>
    rw [emission_cons, List.mem_append]
    rcases List.mem_cons.1 hq with rfl | hq
    · rw [emission_singleton]
      exact Or.inl List.mem_cons_self
    · exact Or.inr (ih hq)

theorem mem_emission_cons {claimed : Finset Nat} {s : Nat} {rest : List Nat} {q : Nat} :
    q ∈ a.emission claimed (s :: rest) ↔ q = s
      ∨ q ∈ a.emission (claimed ∪ (a.fresh claimed s).toFinset) (a.fresh claimed s)
      ∨ q ∈ a.emission (claimed ∪ (a.emission claimed [s]).toFinset) rest := by
  rw [emission_cons, List.mem_append, emission_singleton, List.mem_cons, or_assoc]

/-- What is emitted stood in the list, or was free. -/
theorem mem_emission_cases {claimed : Finset Nat} {pending : List Nat} {q : Nat}
    (hq : q ∈ a.emission claimed pending) : q ∈ pending ∨ (q < a.size ∧ q ∉ claimed) := by
  induction claimed, pending using emission_induction (a := a) with
  | nil claimed =>
    rw [emission_nil] at hq
    exact Or.inl hq
  | cons claimed s rest hfresh hrest =>
    rcases mem_emission_cons.1 hq with rfl | hq | hq
    · exact Or.inl List.mem_cons_self
    · rcases hfresh hq with hmem | ⟨hlt, hfree⟩
      · exact Or.inr (mem_fresh.1 hmem).2
      · exact Or.inr ⟨hlt, fun hmem => hfree (Finset.mem_union_left _ hmem)⟩
    · rcases hrest hq with hmem | ⟨hlt, hfree⟩
      · exact Or.inl (List.mem_cons_of_mem s hmem)
      · exact Or.inr ⟨hlt, fun hmem => hfree (Finset.mem_union_left _ hmem)⟩

theorem nodup_emission {claimed : Finset Nat} {pending : List Nat} (hnodup : pending.Nodup)
    (hclaimed : ∀ t ∈ pending, t ∈ claimed) : (a.emission claimed pending).Nodup := by
  induction claimed, pending using emission_induction (a := a) with
  | nil claimed =>
    rw [emission_nil]
    exact List.nodup_nil
  | cons claimed s rest hfresh hrest =>
    obtain ⟨hs, hnodup⟩ := List.nodup_cons.1 hnodup
    have hsclaimed : s ∈ claimed := hclaimed s List.mem_cons_self
    -- What is emitted after the state itself was free when the state was visited.
    have hfree : ∀ q ∈ a.emission (claimed ∪ (a.fresh claimed s).toFinset) (a.fresh claimed s),
        q ∉ claimed := by
      intro q hq
      rcases mem_emission_cases hq with hmem | ⟨-, hfree⟩
      · exact (mem_fresh.1 hmem).2.2
      · exact fun hmem => hfree (Finset.mem_union_left _ hmem)
    rw [emission_cons]
    refine List.nodup_append.2 ⟨?_, ?_, ?_⟩
    · rw [emission_singleton]
      refine List.nodup_cons.2 ⟨fun hmem => hfree s hmem hsclaimed, ?_⟩
      exact hfresh (nodup_fresh _ _) fun t ht =>
        Finset.mem_union_right _ (List.mem_toFinset.2 ht)
    · exact hrest hnodup fun t ht =>
        Finset.mem_union_left _ (hclaimed t (List.mem_cons_of_mem s ht))
    · rintro q hq r hr rfl
      rcases mem_emission_cases hr with hmem | ⟨-, hnot⟩
      · rw [emission_singleton, List.mem_cons] at hq
        rcases hq with rfl | hq
        · exact hs hmem
        · exact hfree q hq (hclaimed q (List.mem_cons_of_mem s hmem))
      · exact hnot (Finset.mem_union_right _ (List.mem_toFinset.2 hq))

theorem notMem_union_toFinset {claimed : Finset Nat} {more : List Nat} {t : Nat}
    (h : t ∉ claimed) (h' : t ∉ more) : t ∉ claimed ∪ more.toFinset := by
  rw [Finset.mem_union, List.mem_toFinset, not_or]
  exact ⟨h, h'⟩

/-- What has been emitted has no free epsilon target left. -/
theorem mem_emission_of_mem_targets {claimed : Finset Nat} {pending : List Nat} {q t : Nat}
    (hq : q ∈ a.emission claimed pending) (ht : t ∈ a.targets q .epsilon) (hlt : t < a.size)
    (hfree : t ∉ claimed) : t ∈ a.emission claimed pending := by
  induction claimed, pending using emission_induction (a := a) with
  | nil claimed =>
    rw [emission_nil] at hq
    exact absurd hq List.not_mem_nil
  | cons claimed s rest hfresh hrest =>
    rcases mem_emission_cons.1 hq with rfl | hq | hq
    · exact mem_emission_cons.2 (Or.inr (Or.inl
        (mem_emission_of_mem (mem_fresh.2 ⟨ht, hlt, hfree⟩))))
    · refine mem_emission_cons.2 (Or.inr (Or.inl ?_))
      by_cases hmem : t ∈ a.fresh claimed s
      · exact mem_emission_of_mem hmem
      · exact hfresh hq (notMem_union_toFinset hfree hmem)
    · by_cases hmem : t ∈ a.emission claimed [s]
      · rw [emission_cons]
        exact List.mem_append_left _ hmem
      · have hnot := notMem_union_toFinset hfree hmem
        exact mem_emission_cons.2 (Or.inr (Or.inr (hrest hq hnot)))

/-- The one state reaches the other over epsilon edges, and steps on no claimed state after the
first. -/
def GlidesOutside (a : Automaton) (claimed : Finset Nat) : Nat → Nat → Prop :=
  Relation.ReflTransGen fun s t => t ∈ a.targets s .epsilon ∧ t ∉ claimed

theorem GlidesOutside.mono {claimed more : Finset Nat} (h : claimed ⊆ more) {s t : Nat}
    (hglides : a.GlidesOutside more s t) : a.GlidesOutside claimed s t :=
  Relation.ReflTransGen.mono (fun _ _ hedge => ⟨hedge.1, fun hmem => hedge.2 (h hmem)⟩) s t hglides

theorem exists_glidesOutside {claimed : Finset Nat} {pending : List Nat} {q : Nat}
    (hq : q ∈ a.emission claimed pending) : ∃ s ∈ pending, a.GlidesOutside claimed s q := by
  induction claimed, pending using emission_induction (a := a) with
  | nil claimed =>
    rw [emission_nil] at hq
    exact absurd hq List.not_mem_nil
  | cons claimed s rest hfresh hrest =>
    rcases mem_emission_cons.1 hq with rfl | hq | hq
    · exact ⟨q, List.mem_cons_self, .refl⟩
    · obtain ⟨t, ht, hglides⟩ := hfresh hq
      obtain ⟨htarget, -, hfree⟩ := mem_fresh.1 ht
      exact ⟨s, List.mem_cons_self, .head ⟨htarget, hfree⟩ (hglides.mono Finset.subset_union_left)⟩
    · obtain ⟨t, ht, hglides⟩ := hrest hq
      exact ⟨t, List.mem_cons_of_mem s ht, hglides.mono Finset.subset_union_left⟩

/-- What a visit of a state emits that is claimed first. -/
def emitted (a : Automaton) (claimed : Finset Nat) (x : Nat) : List Nat :=
  a.emission (insert x claimed) [x]

theorem nodup_emitted (claimed : Finset Nat) (x : Nat) : (a.emitted claimed x).Nodup :=
  nodup_emission (List.nodup_singleton x) fun _ ht =>
    List.mem_singleton.1 ht ▸ Finset.mem_insert_self x claimed

theorem mem_emitted (hrange : ∀ {s t}, t ∈ a.targets s .epsilon → t < a.size)
    {claimed : Finset Nat} {x q : Nat} :
    q ∈ a.emitted claimed x ↔ a.GlidesOutside claimed x q := by
  constructor
  · intro hq
    obtain ⟨s, hs, hglides⟩ := exists_glidesOutside hq
    rw [List.mem_singleton.1 hs] at hglides
    exact hglides.mono (Finset.subset_insert x claimed)
  · intro hglides
    induction hglides with
    | refl => exact mem_emission_of_mem List.mem_cons_self
    | @tail s t _ hedge ih =>
      by_cases hx : t = x
      · exact mem_emission_of_mem (List.mem_singleton.2 hx)
      · refine mem_emission_of_mem_targets ih hedge.1 (hrange hedge.1) fun hmem => ?_
        exact hedge.2 (Finset.mem_of_mem_insert_of_ne hmem hx)

/-! ## One turn of the recursion -/

theorem claimed_union_emission {claimed : Finset Nat} {s : Nat} (hs : s ∈ claimed)
    (rest : List Nat) : claimed ∪ (a.fresh claimed s).toFinset
        ∪ (a.emission (claimed ∪ (a.fresh claimed s).toFinset) (a.fresh claimed s ++ rest)).toFinset
      = claimed ∪ (s :: a.emission (claimed ∪ (a.fresh claimed s).toFinset)
          (a.fresh claimed s ++ rest)).toFinset := by
  have hsub : (a.fresh claimed s).toFinset ⊆ (a.emission (claimed ∪ (a.fresh claimed s).toFinset)
      (a.fresh claimed s ++ rest)).toFinset := fun u hu => List.mem_toFinset.2
    (mem_emission_of_mem (List.mem_append_left rest (List.mem_toFinset.1 hu)))
  rw [Finset.union_assoc, Finset.union_eq_right.2 hsub, List.toFinset_cons, Finset.union_insert,
    Finset.insert_eq_of_mem (Finset.mem_union_left _ hs)]

/-- A state that is visited can hand what it claims to the list that it stands in. -/
theorem emission_turn {claimed : Finset Nat} {s : Nat} (hs : s ∈ claimed) (rest : List Nat) :
    a.emission claimed (s :: rest) = s
      :: a.emission (claimed ∪ (a.fresh claimed s).toFinset) (a.fresh claimed s ++ rest) := by
  have hclaimed := claimed_union_emission (a := a) hs []
  rw [List.append_nil, ← emission_singleton] at hclaimed
  rw [emission_append, hclaimed, emission_cons, emission_singleton, List.cons_append]

end Automaton

namespace Scratch

variable {a : Automaton} {generation : Nat}

/-! ## The stack -/

/-- The generation has claimed these states, and all that is pending among them. -/
structure Holds (a : Automaton) (generation : Nat) (claimed : Finset Nat) (scratch : Scratch) :
    Prop where
  unclaimed_iff : ∀ t, isUnclaimed generation scratch t = true ↔ t < a.size ∧ t ∉ claimed
  pending_mem : ∀ t ∈ scratch.pending, t ∈ claimed

/-- Of a repeated target, the last occurrence counts, whichever way one puts it. -/
theorem Holds.claims_eq {claimed : Finset Nat} {scratch : Scratch}
    (h : Holds a generation claimed scratch) (targets : List Nat) :
    (targets.filter (isUnclaimed generation scratch)).dedup = a.claims claimed targets := by
  induction targets with
  | nil => rfl
  | cons t rest ih =>
    rw [Automaton.claims_cons, ← ih]
    by_cases hfree : isUnclaimed generation scratch t = true
    · obtain ⟨hlt, hnot⟩ := (h.unclaimed_iff t).1 hfree
      rw [List.filter_cons_of_pos hfree]
      by_cases hmem : t ∈ rest.filter (isUnclaimed generation scratch)
      · rw [List.dedup_cons_of_mem hmem, if_neg fun hall => hall.2.2 (List.mem_dedup.2 hmem)]
      · rw [List.dedup_cons_of_notMem hmem,
          if_pos ⟨hlt, hnot, fun hdedup => hmem (List.mem_dedup.1 hdedup)⟩]
    · rw [List.filter_cons_of_neg hfree,
        if_neg fun hall => hfree ((h.unclaimed_iff t).2 ⟨hall.1, hall.2.1⟩)]

theorem Holds.pending_turn {claimed : Finset Nat} {scratch : Scratch}
    (h : Holds a generation claimed scratch) {s : Nat} {rest : List Nat}
    (hs : scratch.pending = s :: rest) :
    (Scratch.turn a generation scratch).pending = a.fresh claimed s ++ rest := by
  rw [turn_eq hs, pending_claimAll, Automaton.fresh, ← h.claims_eq]
  rfl

theorem Holds.turn {claimed : Finset Nat} {scratch : Scratch}
    (h : Holds a generation claimed scratch) {s : Nat} {rest : List Nat}
    (hs : scratch.pending = s :: rest) :
    Holds a generation (claimed ∪ (a.fresh claimed s).toFinset)
      (Scratch.turn a generation scratch) := by
  constructor
  · intro t
    have hsame : isUnclaimed generation
        { scratch with next := scratch.next.push s, pending := rest } t = true
          ↔ t < a.size ∧ t ∉ claimed := h.unclaimed_iff t
    rw [turn_eq hs, isUnclaimed_claimAll, hsame, Finset.mem_union, List.mem_toFinset,
      Automaton.mem_fresh]
    constructor
    · rintro ⟨⟨hlt, hfree⟩, hnot⟩
      exact ⟨hlt, fun hmem => hmem.elim hfree fun hfresh => hnot hfresh.1⟩
    · rintro ⟨hlt, hnot⟩
      exact ⟨⟨hlt, fun hmem => hnot (Or.inl hmem)⟩,
        fun ht => hnot (Or.inr ⟨ht, hlt, fun hmem => hnot (Or.inl hmem)⟩)⟩
  · intro t ht
    rw [h.pending_turn hs] at ht
    rcases List.mem_append.1 ht with ht | ht
    · exact Finset.mem_union_right _ (List.mem_toFinset.2 ht)
    · exact Finset.mem_union_left _ (h.pending_mem t (hs ▸ List.mem_cons_of_mem s ht))

/-- The walk lists what the recursion emits, one state a turn. -/
theorem Holds.walk {claimed : Finset Nat} {scratch : Scratch}
    (h : Holds a generation claimed scratch) :
    (Scratch.walk a generation scratch).next.toList
        = scratch.next.toList ++ a.emission claimed scratch.pending
      ∧ Holds a generation (claimed ∪ (a.emission claimed scratch.pending).toFinset)
          (Scratch.walk a generation scratch)
      ∧ (Scratch.turn a generation)^[(a.emission claimed scratch.pending).length] scratch
          = Scratch.walk a generation scratch := by
  fun_induction Scratch.walk a generation scratch generalizing claimed with
  | case1 scratch hpending =>
    rw [hpending, Automaton.emission_nil, List.append_nil, List.toFinset_nil, Finset.union_empty]
    exact ⟨rfl, h, rfl⟩
  | case2 scratch hpending ih =>
    obtain ⟨s, rest, hs⟩ := List.exists_cons_of_ne_nil hpending
    have hsclaimed : s ∈ claimed := h.pending_mem s (hs ▸ List.mem_cons_self)
    obtain ⟨hnext, hholds, hturns⟩ := ih (h.turn hs)
    rw [h.pending_turn hs] at hnext hholds hturns
    rw [Automaton.claimed_union_emission hsclaimed] at hholds
    rw [hs, Automaton.emission_turn hsclaimed]
    refine ⟨?_, hholds, ?_⟩
    · rw [hnext, turn_eq hs, next_claimAll, Array.toList_push, List.append_assoc,
        List.singleton_append]
    · rw [List.length_cons, Function.iterate_succ_apply]
      exact hturns

/-! ## The stamps -/

/-- The states that bear the stamp of the generation. -/
def stamped (generation : Nat) (scratch : Scratch) : Finset Nat :=
  (Finset.range scratch.stamps.size).filter fun s => scratch.stamps[s]? = some generation

theorem mem_stamped {scratch : Scratch} {s : Nat} :
    s ∈ scratch.stamped generation ↔ scratch.stamps[s]? = some generation := by
  rw [stamped, Finset.mem_filter, Finset.mem_range, and_iff_right_iff_imp]
  exact fun hs => (Array.getElem?_eq_some_iff.1 hs).1

theorem isUnclaimed_iff {scratch : Scratch} {s : Nat} :
    isUnclaimed generation scratch s = true
      ↔ s < scratch.stamps.size ∧ s ∉ scratch.stamped generation := by
  rw [mem_stamped]
  by_cases hs : s < scratch.stamps.size
  · simp [isUnclaimed, Array.getD_eq_getD_getElem?, hs]
  · simp [isUnclaimed, Array.getD_eq_getD_getElem?, hs]

/-- What stays as it is when states are claimed: the frontier, and every stamp but those that the
generation sets. -/
structure Stamps (generation : Nat) (before after : Scratch) : Prop where
  current_eq : after.current = before.current
  size_eq : after.stamps.size = before.stamps.size
  stamp_cases : ∀ s : Nat,
    after.stamps[s]? = before.stamps[s]? ∨ after.stamps[s]? = some generation

theorem Stamps.refl (generation : Nat) (scratch : Scratch) : Stamps generation scratch scratch :=
  ⟨rfl, rfl, fun _ => Or.inl rfl⟩

theorem Stamps.trans {first second third : Scratch} (h : Stamps generation first second)
    (h' : Stamps generation second third) : Stamps generation first third := by
  refine ⟨h'.current_eq.trans h.current_eq, h'.size_eq.trans h.size_eq, fun s => ?_⟩
  rcases h'.stamp_cases s with hsame | hstamp
  · rw [hsame]
    exact h.stamp_cases s
  · exact Or.inr hstamp

theorem stamps_claim (generation t : Nat) (scratch : Scratch) :
    Stamps generation scratch (claim generation t scratch) := by
  unfold claim
  split
  · rename_i hfree
    refine ⟨rfl, Array.size_setIfInBounds, fun s => ?_⟩
    by_cases hst : t = s
    · subst hst
      exact Or.inr (Array.getElem?_setIfInBounds_self_of_lt (lt_size_of_isUnclaimed hfree))
    · exact Or.inl (Array.getElem?_setIfInBounds_ne hst)
  · exact .refl generation scratch

theorem stamps_claimAll (generation : Nat) (targets : List Nat) (scratch : Scratch) :
    Stamps generation scratch (claimAll generation targets scratch) := by
  induction targets with
  | nil => exact .refl generation scratch
  | cons t rest ih => exact ih.trans (stamps_claim generation t _)

theorem stamps_turn (a : Automaton) (generation : Nat) (scratch : Scratch) :
    Stamps generation scratch (turn a generation scratch) := by
  by_cases hpending : scratch.pending = []
  · rw [turn_of_nil hpending]
    exact .refl generation scratch
  · obtain ⟨s, rest, hs⟩ := List.exists_cons_of_ne_nil hpending
    rw [turn_eq hs]
    obtain ⟨hcurrent, hsize, hstamps⟩ := stamps_claimAll generation (a.targets s .epsilon)
      { scratch with next := scratch.next.push s, pending := rest }
    exact ⟨hcurrent, hsize, hstamps⟩

theorem stamps_walk (a : Automaton) (generation : Nat) (scratch : Scratch) :
    Stamps generation scratch (walk a generation scratch) :=
  walk_induction (motive := Stamps generation scratch) (.refl generation scratch)
    fun scratch _ h => h.trans (stamps_turn a generation scratch)

/-! ## From a state on -/

/-- The states are listed and bear the stamp of the generation. Nothing else changes. -/
def enlist (generation : Nat) (scratch : Scratch) (listed : List Nat) : Scratch :=
  { scratch with
    next := scratch.next ++ listed.toArray
    stamps := scratch.stamps.mapIdx fun s stamp => if s ∈ listed then generation else stamp }

theorem holds_claim {scratch : Scratch} (hsize : scratch.stamps.size = a.size)
    (hpending : scratch.pending = []) {x : Nat} (hfree : isUnclaimed generation scratch x = true) :
    Holds a generation (insert x (scratch.stamped generation)) (claim generation x scratch) := by
  constructor
  · intro t
    rw [isUnclaimed_claim, isUnclaimed_iff, hsize, Finset.mem_insert, not_or, and_assoc,
      and_comm (a := t ∉ scratch.stamped generation)]
  · intro t ht
    rw [claim, if_pos hfree, hpending] at ht
    rw [List.mem_singleton.1 ht]
    exact Finset.mem_insert_self x _

/-- The generation has claimed what it listed, and set no other stamp. -/
theorem stamps_eq_enlist {before after : Scratch} (h : Stamps generation before after)
    (hsize : before.stamps.size = a.size) {listed : List Nat} {x : Nat} (hx : x ∈ listed)
    (hholds : Holds a generation (insert x (before.stamped generation) ∪ listed.toFinset) after) :
    after.stamps = (before.enlist generation listed).stamps := by
  apply Array.ext_getElem?
  intro s
  rw [enlist, Array.getElem?_mapIdx]
  by_cases hs : s < before.stamps.size
  · rw [Array.getElem?_eq_getElem hs, Option.map_some]
    have hstamp := hholds.unclaimed_iff s
    rw [isUnclaimed_iff, h.size_eq, hsize, mem_stamped] at hstamp
    split
    · rename_i hmem
      by_contra hnot
      have hfree := (hstamp.1 ⟨hsize ▸ hs, hnot⟩).2
      exact hfree (Finset.mem_union_right _ (List.mem_toFinset.2 hmem))
    · rename_i hmem
      rw [← Array.getElem?_eq_getElem hs]
      rcases h.stamp_cases s with hsame | hset
      · exact hsame
      · -- A stamp of the generation that was not set now stood there before.
        have hclaimed := fun hfree => (hstamp.2 ⟨hsize ▸ hs, hfree⟩).2 hset
        have hold : s ∈ before.stamped generation := by
          by_contra hold
          apply hclaimed
          rw [Finset.mem_union, Finset.mem_insert, List.mem_toFinset]
          rintro ((rfl | hmem') | hmem')
          · exact hmem hx
          · exact hold hmem'
          · exact hmem hmem'
        rw [hset, mem_stamped.1 hold]
  · rw [Array.getElem?_eq_none (h.size_eq ▸ Nat.le_of_not_lt hs),
      Array.getElem?_eq_none (Nat.le_of_not_lt hs)]
    rfl

attribute [ext] Scratch

/-- From a state that is not claimed, the walk lists one state a turn until nothing is pending. -/
theorem addState_eq_enlist {scratch : Scratch} (hsize : scratch.stamps.size = a.size)
    (hpending : scratch.pending = []) {x : Nat} (hfree : isUnclaimed generation scratch x = true) :
    addState a generation scratch x
        = enlist generation scratch (a.emitted (scratch.stamped generation) x)
      ∧ (turn a generation)^[(a.emitted (scratch.stamped generation) x).length]
          (claim generation x scratch) = addState a generation scratch x := by
  have hadd : addState a generation scratch x = walk a generation (claim generation x scratch) :=
    if_pos hfree
  have hclaimed : (claim generation x scratch).pending = [x] := by
    rw [claim, if_pos hfree, hpending]
  obtain ⟨hnext, hholds, hturns⟩ := (holds_claim hsize hpending hfree).walk
  rw [hclaimed] at hnext hholds hturns
  have hkept := (stamps_claim generation x scratch).trans (stamps_walk a generation _)
  have hx : x ∈ a.emitted (scratch.stamped generation) x :=
    Automaton.mem_emission_of_mem List.mem_cons_self
  rw [hadd]
  refine ⟨?_, hturns⟩
  apply Scratch.ext
  · exact hkept.current_eq
  · apply Array.toList_inj.1
    rw [hnext, next_claim]
    exact (Array.toList_append).symm
  · exact stamps_eq_enlist hkept hsize hx hholds
  · rw [pending_walk]
    exact hpending.symm

end Scratch

/-! ## The law -/

/-- A walk from a state that the generation has not claimed comes to its end. It lists, in the order
in which a recursion emits them, the states that are reached over epsilon edges through states that
were not claimed. Each of them is listed once and gets the stamp of the generation, and no other
state does. A walk from a state that has been claimed changes nothing. -/
theorem a_walk_lists_what_a_recursion_emits {a : Automaton}
    (hrange : ∀ {s symbol t}, t ∈ a.targets s symbol → t < a.size) (generation : Nat)
    {scratch : Scratch} (hsize : scratch.stamps.size = a.size) (hpending : scratch.pending = [])
    {x : Nat} (hx : x < a.size) :
    (x ∈ scratch.stamped generation → scratch.addState a generation x = scratch)
    ∧ (x ∉ scratch.stamped generation →
        scratch.addState a generation x
          = scratch.enlist generation (a.emitted (scratch.stamped generation) x)
        ∧ (scratch.addState a generation x).pending = []
        ∧ (Scratch.turn a generation)^[(a.emitted (scratch.stamped generation) x).length]
            (scratch.claim generation x) = scratch.addState a generation x
        ∧ (a.emitted (scratch.stamped generation) x).Nodup
        ∧ ∀ q, q ∈ a.emitted (scratch.stamped generation) x
            ↔ a.GlidesOutside (scratch.stamped generation) x q) := by
  constructor
  · intro hstamped
    exact if_neg fun hfree => (Scratch.isUnclaimed_iff.1 hfree).2 hstamped
  · intro hnot
    have hfree : scratch.isUnclaimed generation x = true :=
      Scratch.isUnclaimed_iff.2 ⟨hsize ▸ hx, hnot⟩
    obtain ⟨henlist, hturns⟩ := Scratch.addState_eq_enlist hsize hpending hfree
    exact ⟨henlist, Scratch.pending_addState hpending x, hturns, Automaton.nodup_emitted _ x,
      fun q => Automaton.mem_emitted hrange⟩

/-- The state 2 has four epsilon edges, and two of them lead to the root. The second one counts, so
the root comes after the state 3, and what it leads to before the state 4. Where the state 1 bears
the stamp already, it is not listed. -/
theorem the_last_of_repeated_targets_counts :
    ∃ a scratch, compile "(a?()?(" .closure = .ok a
      ∧ scratch = ({ current := #[0, 2], next := #[1], stamps := #[0, 2, 1, 3, 0] } : Scratch)
      ∧ a.targets 2 .epsilon = [0, 3, 0, 4] ∧ a.targets 0 .epsilon = [1, 2, 2]
      ∧ a.emitted ∅ 2 = [2, 3, 0, 1, 4] ∧ a.emitted {1} 2 = [2, 3, 0, 4]
      ∧ scratch.stamped 2 = {1} ∧ scratch.addState a 2 1 = scratch
      ∧ scratch.addState a 2 2
          = { current := #[0, 2], next := #[1, 2, 3, 0, 4], stamps := #[2, 2, 2, 2, 2] }
      ∧ (Scratch.turn a 2)^[4] (scratch.claim 2 2) = scratch.addState a 2 2
      ∧ ∀ q, q ∈ [2, 3, 0, 4] ↔ a.GlidesOutside {1} 2 q := by
  obtain ⟨a, ha, hsize, htwo, hroot, hall, hlisted⟩ : ∃ a, compile "(a?()?(" .closure = .ok a
      ∧ a.size = 5 ∧ a.targets 2 .epsilon = [0, 3, 0, 4] ∧ a.targets 0 .epsilon = [1, 2, 2]
      ∧ a.emitted ∅ 2 = [2, 3, 0, 1, 4] ∧ a.emitted {1} 2 = [2, 3, 0, 4] :=
    ⟨_, rfl, by decide +kernel, by decide +kernel, by decide +kernel, by decide +kernel,
      by decide +kernel⟩
  let scratch : Scratch := { current := #[0, 2], next := #[1], stamps := #[0, 2, 1, 3, 0] }
  have hstamped : scratch.stamped 2 = {1} := by decide +kernel
  have hlaw := fun x (hx : x < 5) => @a_walk_lists_what_a_recursion_emits a
    (compile_inRange ha).target_lt 2 scratch hsize.symm rfl x (hsize ▸ hx)
  rw [hstamped] at hlaw
  have hsame := (hlaw 1 (by decide)).1 (by decide)
  obtain ⟨henlist, -, hturns, -, hglides⟩ := (hlaw 2 (by decide)).2 (by decide)
  rw [hlisted] at henlist hturns hglides
  exact ⟨a, scratch, ha, rfl, htwo, hroot, hall, hlisted, hstamped, hsame, henlist.trans rfl,
    hturns, hglides⟩

end PatternNFA
