-- How the groups of a pattern lie in each other, and what that makes of the numbers of the states.
-- The entries of the open groups are numbered upwards, below the current state. What has a higher
-- number than one of them is entered from it, or from what is numbered higher still. So no two
-- edges cross, and an edge that leads back leads to a state that all ways in have passed.
import PatternNFA.Proofs.Growth
import PatternNFA.Proofs.Lockstep

namespace PatternNFA

/-! ## Edges in order -/

/-- How the edges of an automaton lie over the row of its states. -/
structure Automaton.Orderly (a : Automaton) : Prop where
  /-- An edge that begins between the ends of another one does not lead past its target. -/
  uncrossed {s s' t t' : Nat} {x x' : Symbol} : t ∈ a.targets s x → t' ∈ a.targets s' x' →
    s < s' → s' < t → t' ≤ t
  /-- The epsilon edges that lead on from a state come in the order of their targets. -/
  ordered (s : Nat) : ((a.targets s .epsilon).filter (s < ·)).Pairwise (· ≤ ·)
  /-- What lies between the ends of an edge that leads back is not entered from before it. -/
  guarded {s s' t t' : Nat} {x x' : Symbol} : t ∈ a.targets s x → t ≤ s →
    t' ∈ a.targets s' x' → t < t' → t' ≤ s → t ≤ s'

theorem Automaton.Orderly.of_targets {a b : Automaton} (h : a.Orderly)
    (hsame : b.targets = a.targets) : b.Orderly := by
  refine ⟨?_, ?_, ?_⟩
  all_goals rw [hsame]
  · exact h.uncrossed
  · exact h.ordered
  · exact h.guarded

namespace Draft

variable {d : Draft}

/-- An edge more is no disorder if it crosses no other, comes after those that lead on from its
source, and enters nothing that is guarded. -/
theorem orderly_link (h : d.automaton.Orderly) {source target : Nat} {symbol : Symbol}
    (hsource : source < d.states.size)
    (hover : ∀ {s t x}, t ∈ d.automaton.targets s x → source < s → s < target → t ≤ target)
    (hunder : ∀ {s t x}, t ∈ d.automaton.targets s x → s < source → source < t → target ≤ t)
    (hlast : ∀ {t x}, t ∈ d.automaton.targets source x → source < target → t ≤ target)
    (hguards : ∀ {s t x}, t ∈ d.automaton.targets s x → target < t → t ≤ source → target ≤ s)
    (henters : ∀ {s t x}, t ∈ d.automaton.targets s x → t < target → target ≤ s → t ≤ source) :
    (d.link source symbol target).automaton.Orderly where
  uncrossed := by
    intro s s' t t' x x' ht ht' hs hs'
    rcases (mem_targets_link hsource).1 ht with hold | ⟨rfl, -, rfl⟩
    · rcases (mem_targets_link hsource).1 ht' with hold' | ⟨rfl, -, rfl⟩
      · exact h.uncrossed hold hold' hs hs'
      · exact hunder hold hs hs'
    · rcases (mem_targets_link hsource).1 ht' with hold' | ⟨rfl, -, -⟩
      · exact hover hold' hs hs'
      · exact absurd hs (Nat.lt_irrefl _)
  ordered := by
    intro s
    rw [targets_link d hsource]
    split
    · rename_i hnew
      obtain ⟨rfl, rfl⟩ := hnew
      rw [List.filter_append, List.pairwise_append]
      refine ⟨h.ordered s, List.Pairwise.filter _ (List.pairwise_singleton _ _), ?_⟩
      intro t ht u hu
      obtain ⟨hu, hlt⟩ := List.mem_filter.1 hu
      obtain rfl := List.mem_singleton.1 hu
      exact hlast (List.mem_of_mem_filter ht) (of_decide_eq_true hlt)
    · exact h.ordered s
  guarded := by
    intro s s' t t' x x' ht hback ht' hlt hle
    rcases (mem_targets_link hsource).1 ht with hold | ⟨rfl, -, rfl⟩
    · rcases (mem_targets_link hsource).1 ht' with hold' | ⟨rfl, -, rfl⟩
      · exact h.guarded hold hback hold' hlt hle
      · exact henters hold hlt hle
    · rcases (mem_targets_link hsource).1 ht' with hold' | ⟨-, -, rfl⟩
      · exact hguards hold' hlt hle
      · exact absurd hlt (Nat.lt_irrefl _)

/-! ## The trail -/

/-- The current state, and the states in which the open groups were opened, innermost first. -/
def trail (d : Draft) : List Nat := d.current :: d.groups

/-- The entries of the open groups, innermost first, and the root, where no group is open. -/
def entries (d : Draft) : List Nat := d.groups ++ [root]

/-- The groups of a draft lie in each other, and its edges go along with that. -/
structure Nested (d : Draft) : Prop where
  orderly : d.automaton.Orderly
  descends : d.trail.Pairwise (· > ·)
  /-- No edge leads past a state of the trail. -/
  shielded {g s t : Nat} {x : Symbol} : g ∈ d.trail → t ∈ d.automaton.targets s x → g < t → g ≤ s
  /-- An entry leads to nothing past the next state of the trail. -/
  level {g h t : Nat} {x : Symbol} : g ∈ d.trail → h ∈ d.entries → h < g →
    t ∈ d.automaton.targets h x → t ≤ g
  /-- An edge that leads back over a state of the trail leads to an entry. -/
  held {g s t : Nat} {x : Symbol} : g ∈ d.trail → t ∈ d.automaton.targets s x → t < g → g ≤ s →
    t ∈ d.entries

theorem nested_fresh : fresh.Nested := by
  refine ⟨⟨?_, ?_, ?_⟩, List.pairwise_singleton _ _, ?_, ?_, ?_⟩
  · exact fun ht => absurd ht not_mem_targets_fresh
  · intro s
    rw [List.eq_nil_iff_forall_not_mem.2 fun t => not_mem_targets_fresh]
    exact List.Pairwise.nil
  · exact fun ht => absurd ht not_mem_targets_fresh
  · exact fun _ ht => absurd ht not_mem_targets_fresh
  · exact fun _ _ _ ht => absurd ht not_mem_targets_fresh
  · exact fun _ ht => absurd ht not_mem_targets_fresh

/-! ## Where the entries lie -/

theorem Nested.le_current (h : d.Nested) {g : Nat} (hg : g ∈ d.trail) : g ≤ d.current := by
  rcases List.mem_cons.1 hg with rfl | hg
  · exact Nat.le_refl _
  · exact Nat.le_of_lt (List.rel_of_pairwise_cons h.descends hg)

/-- Either no group is open, and the entry is the root, or the innermost group gives it. -/
theorem entry_cases (d : Draft) :
    (d.groups = [] ∧ d.entry = root) ∨ d.groups = d.entry :: d.groups.tail := by
  unfold entry
  cases d.groups with
  | nil => exact Or.inl ⟨rfl, rfl⟩
  | cons first rest => exact Or.inr rfl

theorem entry_mem_entries (d : Draft) : d.entry ∈ d.entries := by
  unfold entries
  rcases d.entry_cases with ⟨hnil, hroot⟩ | hcons
  · rw [hnil, hroot]
    exact List.mem_singleton_self root
  · rw [hcons]
    exact List.mem_cons_self

theorem Nested.le_entry (h : d.Nested) {g : Nat} (hg : g ∈ d.entries) : g ≤ d.entry := by
  rcases List.mem_append.1 hg with hg | hg
  · have hgroups := (List.pairwise_cons.1 h.descends).2
    rcases d.entry_cases with ⟨hnil, -⟩ | hcons
    · rw [hnil] at hg
      cases hg
    · rw [hcons] at hg hgroups
      rcases List.mem_cons.1 hg with rfl | hg
      · exact Nat.le_refl _
      · exact Nat.le_of_lt (List.rel_of_pairwise_cons hgroups hg)
  · rw [List.mem_singleton.1 hg]
    exact Nat.zero_le _

theorem Nested.entry_le_current (h : d.Nested) : d.entry ≤ d.current := by
  rcases d.entry_cases with ⟨-, hroot⟩ | hcons
  · rw [hroot]
    exact Nat.zero_le _
  · apply h.le_current
    rw [trail, hcons]
    exact List.mem_cons_of_mem _ List.mem_cons_self

/-- The current state comes first on the trail, and the entry of its group next. -/
theorem Nested.trail_cases (h : d.Nested) {g : Nat} (hg : g ∈ d.trail) :
    g = d.current ∨ g ≤ d.entry := by
  rcases List.mem_cons.1 hg with hg | hg
  · exact Or.inl hg
  · exact Or.inr (h.le_entry (List.mem_append_left _ hg))

/-- No edge leads past the entry. -/
theorem Nested.entry_le (h : d.Nested) {s t : Nat} {x : Symbol}
    (ht : t ∈ d.automaton.targets s x) (hlt : d.entry < t) : d.entry ≤ s := by
  rcases d.entry_cases with ⟨-, hroot⟩ | hcons
  · rw [hroot]
    exact Nat.zero_le _
  · apply h.shielded _ ht hlt
    rw [trail, hcons]
    exact List.mem_cons_of_mem _ List.mem_cons_self

/-- No group is open where the root is current. -/
theorem Nested.groups_eq_nil (h : d.Nested) (hroot : d.current = root) : d.groups = [] := by
  rw [List.eq_nil_iff_forall_not_mem]
  intro g hg
  have hlt : d.current > g := List.rel_of_pairwise_cons h.descends hg
  rw [hroot] at hlt
  exact Nat.not_lt_zero g hlt

/-! ## What one change keeps -/

/-- A new edge is led past no state of the trail, and back over one to an entry alone. -/
theorem Nested.link (h : d.Nested) {source target : Nat} {symbol : Symbol}
    (hsource : source < d.states.size) (horderly : (d.link source symbol target).automaton.Orderly)
    (hshielded : ∀ g ∈ d.trail, g < target → g ≤ source)
    (hlevel : ∀ g ∈ d.trail, source ∈ d.entries → source < g → target ≤ g)
    (hheld : ∀ g ∈ d.trail, target < g → g ≤ source → target ∈ d.entries) :
    (d.link source symbol target).Nested where
  orderly := horderly
  descends := h.descends
  shielded := by
    intro g s t x hg ht hlt
    rcases (mem_targets_link hsource).1 ht with hold | ⟨rfl, -, rfl⟩
    · exact h.shielded hg hold hlt
    · exact hshielded g hg hlt
  level := by
    intro g s t x hg hs hlt ht
    rcases (mem_targets_link hsource).1 ht with hold | ⟨rfl, -, rfl⟩
    · exact h.level hg hs hlt hold
    · exact hlevel g hg hs hlt
  held := by
    intro g s t x hg ht hlt hle
    rcases (mem_targets_link hsource).1 ht with hold | ⟨rfl, -, rfl⟩
    · exact h.held hg hold hlt hle
    · exact hheld g hg hlt hle

/-- An edge from the entry to the current state. What lies between them is entered from there. -/
theorem Nested.forth (h : d.Nested) (hd : d.Sound) :
    (d.link d.entry .epsilon d.current).Nested := by
  have hle := h.entry_le_current
  have hcurrent : d.current ∈ d.trail := List.mem_cons_self
  apply h.link hd.entry_lt
  · apply orderly_link h.orderly hd.entry_lt
    · intro s t x ht _ hs
      by_contra hpast
      exact Nat.not_le_of_lt hs (h.shielded hcurrent ht (Nat.lt_of_not_le hpast))
    · intro s t x ht hs hpast
      exact absurd (h.entry_le ht hpast) (Nat.not_le_of_lt hs)
    · intro t x ht hlt
      exact h.level hcurrent d.entry_mem_entries hlt ht
    · intros
      omega
    · intro s t x ht hlt hs
      exact h.le_entry (h.held hcurrent ht hlt hs)
  · intro g hg hlt
    rcases h.trail_cases hg with rfl | hg
    · exact absurd hlt (Nat.lt_irrefl _)
    · exact hg
  · intro g hg _ hlt
    rcases h.trail_cases hg with rfl | hg
    · exact Nat.le_refl _
    · exact absurd hg (Nat.not_le_of_lt hlt)
  · intro g hg hlt
    exact absurd (h.le_current hg) (Nat.not_le_of_lt hlt)

/-- An edge from the current state to the entry. The entry guards what lies between them. -/
theorem Nested.back (h : d.Nested) (hd : d.Sound) :
    (d.link d.current .epsilon d.entry).Nested := by
  have hle := h.entry_le_current
  have hcurrent : d.current ∈ d.trail := List.mem_cons_self
  apply h.link hd.current_lt
  · apply orderly_link h.orderly hd.current_lt
    · intros
      omega
    · intro s t x ht hs hpast
      exact absurd (h.shielded hcurrent ht hpast) (Nat.not_le_of_lt hs)
    · intros
      omega
    · intro s t x ht hpast _
      exact h.entry_le ht hpast
    · intros
      omega
  · intro g hg _
    exact h.le_current hg
  · intro g hg _ hlt
    exact absurd (h.le_current hg) (Nat.not_le_of_lt hlt)
  · intros
    exact d.entry_mem_entries

/-- A new state has the highest number, and only the current state leads to it. -/
theorem Nested.sprout (h : d.Nested) (hd : d.Sound) (symbol : Symbol) (accepting : Bool) :
    (d.sprout symbol accepting).Nested := by
  let pushed : Draft := { d with states := d.states.push { accepting } }
  have hsame : pushed.automaton.targets = d.automaton.targets := by
    funext s x
    exact targets_push d pushed rfl s x
  have hpushed : pushed.Nested := by
    refine ⟨h.orderly.of_targets hsame, h.descends, ?_, ?_, ?_⟩
    all_goals rw [hsame]
    · exact h.shielded
    · exact h.level
    · exact h.held
  have hlt : d.current < d.states.size := hd.current_lt
  have hcurrent : d.current < pushed.states.size := by
    rw [Array.size_push]
    omega
  have hsource : ∀ {s x t}, t ∈ pushed.automaton.targets s x → s < d.states.size := by
    rw [hsame]
    exact fun ht => Automaton.lt_size_of_mem_targets ht
  have htarget : ∀ {s x t}, t ∈ pushed.automaton.targets s x → t < d.states.size := by
    rw [hsame]
    exact hd.target_lt
  apply hpushed.link hcurrent
  · apply orderly_link hpushed.orderly hcurrent
    · intro s t x ht _ _
      exact Nat.le_of_lt (htarget ht)
    · intro s t x ht hs hpast
      exact absurd (hpushed.shielded List.mem_cons_self ht hpast) (Nat.not_le_of_lt hs)
    · intro t x ht _
      exact Nat.le_of_lt (htarget ht)
    · intro s t x ht hpast _
      exact absurd (htarget ht) (Nat.not_lt_of_lt hpast)
    · intro s t x ht _ hs
      exact absurd (hsource ht) (Nat.not_lt_of_le hs)
  · intro g hg _
    exact h.le_current hg
  · intro g hg _ hpast
    exact absurd (h.le_current hg) (Nat.not_le_of_lt hpast)
  · intro g hg hpast
    have := h.le_current hg
    omega

/-! ## What moving on keeps -/

/-- The newest state is first on the trail. The state before it stays there if a group was opened
in it. -/
theorem Nested.advance (h : d.Nested) (hd : d.Sound) (symbol : Symbol) (accepting : Bool)
    {groups : List Nat} (hgroups : groups = d.groups ∨ groups = d.trail) :
    { d.advance symbol accepting with groups }.Nested := by
  have hsprout := h.sprout hd symbol accepting
  have hsub : ∀ g ∈ groups, g ∈ d.trail := by
    intro g hg
    rcases hgroups with rfl | rfl
    · exact List.mem_cons_of_mem _ hg
    · exact hg
  have hkept : ∀ g ∈ d.entries, g ∈ groups ++ [root] := by
    intro g hg
    rcases hgroups with rfl | rfl
    · exact hg
    · exact List.mem_cons_of_mem _ hg
  have hentries : ∀ g ∈ groups ++ [root], g = d.current ∨ g ∈ d.entries := by
    intro g hg
    rcases hgroups with rfl | rfl
    · exact Or.inr hg
    · exact List.mem_cons.1 hg
  have hnewest : ∀ {s x t}, t ∈ (d.sprout symbol accepting).automaton.targets s x →
      s < d.states.size ∧ t ≤ d.states.size := by
    intro s x t ht
    refine ⟨?_, ?_⟩
    · rcases (mem_targets_sprout hd.current_lt).1 ht with hold | ⟨rfl, -, -⟩
      · exact Automaton.lt_size_of_mem_targets hold
      · exact hd.current_lt
    · have hlt := (hd.sprout symbol accepting).target_lt ht
      rw [size_sprout] at hlt
      exact Nat.le_of_lt_succ hlt
  refine ⟨hsprout.orderly, ?_, ?_, ?_, ?_⟩
  · apply List.Pairwise.cons
    · intro g hg
      exact Nat.lt_of_le_of_lt (h.le_current (hsub g hg)) hd.current_lt
    · rcases hgroups with rfl | rfl
      · exact (List.pairwise_cons.1 h.descends).2
      · exact h.descends
  · intro g s t x hg ht hlt
    rcases List.mem_cons.1 hg with rfl | hg
    · exact absurd (hnewest ht).2 (Nat.not_le_of_lt hlt)
    · exact hsprout.shielded (hsub g hg) ht hlt
  · intro g s t x hg hs hlt ht
    rcases List.mem_cons.1 hg with rfl | hg
    · exact (hnewest ht).2
    · rcases hentries s hs with rfl | hs
      · exact absurd (h.le_current (hsub g hg)) (Nat.not_le_of_lt hlt)
      · exact hsprout.level (hsub g hg) hs hlt ht
  · intro g s t x hg ht hlt hle
    rcases List.mem_cons.1 hg with rfl | hg
    · exact absurd (hnewest ht).1 (Nat.not_lt_of_le hle)
    · exact hkept t (hsprout.held (hsub g hg) ht hlt hle)

/-- The entry takes the place of the current state, and is the entry of no open group any more. -/
theorem Nested.closeGroup (h : d.Nested) :
    { d with current := d.entry, groups := d.groups.tail }.Nested := by
  rcases d.entry_cases with ⟨hnil, hroot⟩ | hcons
  · rw [hnil, hroot]
    have hzero : ∀ {g}, g ∈ [root] → g = 0 := fun hg => List.mem_singleton.1 hg
    refine ⟨h.orderly, List.pairwise_singleton _ _, ?_, ?_, ?_⟩
    · intro g s t x hg _ _
      exact hzero hg ▸ Nat.zero_le s
    · intro g s t x hg _ hlt _
      exact absurd (hzero hg ▸ hlt) (Nat.not_lt_zero s)
    · intro g s t x hg _ hlt _
      exact absurd (hzero hg ▸ hlt) (Nat.not_lt_zero t)
  · have hsub : ∀ g ∈ d.entry :: d.groups.tail, g ∈ d.trail := by
      rw [← hcons]
      exact fun g hg => List.mem_cons_of_mem _ hg
    have hentries : d.entries = d.entry :: (d.groups.tail ++ [root]) := by
      rw [entries, hcons]
      rfl
    refine ⟨h.orderly, ?_, ?_, ?_, ?_⟩
    · rw [trail, ← hcons]
      exact (List.pairwise_cons.1 h.descends).2
    · exact fun hg ht hlt => h.shielded (hsub _ hg) ht hlt
    · intro g s t x hg hs hlt ht
      refine h.level (hsub g hg) ?_ hlt ht
      rw [hentries]
      exact List.mem_cons_of_mem _ hs
    · -- What leads back over the entry leads to an entry further out.
      intro g s t x hg ht hlt hle
      have hmem := h.held (hsub g hg) ht hlt hle
      have hge : g ≤ d.entry := by
        rcases List.mem_cons.1 hg with rfl | hg
        · exact Nat.le_refl _
        · exact h.le_entry (hentries ▸ List.mem_cons_of_mem _ (List.mem_append_left _ hg))
      rw [hentries] at hmem
      rcases List.mem_cons.1 hmem with rfl | hmem
      · exact absurd hge (Nat.not_le_of_lt hlt)
      · exact hmem

/-! ## The whole pattern -/

/-- The groups lie in each other whatever is read. -/
theorem lockstep_nested : Lockstep fun d _ => d.Nested where
  turn := fun h => ⟨h.orderly, h.descends, h.shielded, h.level, h.held⟩
  sprout := fun symbol accepting hd _ h => h.sprout hd symbol accepting
  advance := fun symbol accepting hd _ h => h.advance hd symbol accepting (Or.inl rfl)
  openGroup := fun hd _ h => h.advance hd .epsilon true (Or.inr rfl)
  closeGroup := fun _ _ h => h.closeGroup
  forth := fun hd _ h => h.forth hd
  back := fun hd _ h => h.back hd

theorem nested_readAll (cs : List Char) : (fresh.readAll cs).Nested :=
  lockstep_nested.readAll sound_fresh sound_fresh (Or.inl rfl) nested_fresh cs

end Draft

/-- No two edges of the automaton of a pattern cross. -/
theorem compile_orderly {pattern : String} {simulation : Simulation} {a : Automaton}
    (h : compile pattern simulation = .ok a) : a.Orderly := by
  have hsettled := Draft.lockstep_nested.settle_readAll Draft.sound_fresh Draft.sound_fresh
    (Or.inl rfl) Draft.nested_fresh pattern.toList
  rw [compile_eq_settle h]
  exact hsettled.orderly.of_targets rfl

end PatternNFA
