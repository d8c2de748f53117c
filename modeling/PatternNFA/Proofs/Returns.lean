-- Edges that lead back. Each of them returns to the entry of the group that its source stands in,
-- so a state has one such target at most. What lies past an entry is entered through it: whatever
-- way leads to the state has come through the entry before.
import PatternNFA.Proofs.Origins

namespace PatternNFA

namespace Automaton

variable {a : Automaton}

/-! ## The way in -/

/-- A walk comes through the state. -/
def Passes (a : Automaton) (p : Nat) (es : List Edge) (t q : Nat) : Prop :=
  ∃ fs gs, es = fs ++ gs ∧ a.Walk p fs t ∧ a.Walk t gs q

/-- What lies between the ends of an edge that leads back is reached through its target. -/
theorem Orderly.passes (h : a.Orderly) {p q s t : Nat} {x : Symbol} {es : List Edge}
    (ht : t ∈ a.targets s x) (hpt : p ≤ t) (htq : t ≤ q) (hqs : q ≤ s) (hwalk : a.Walk p es q) :
    a.Passes p es t q := by
  -- By the length of the walk: its last edge comes from the target, from what lies between the two
  -- ends, or from past the source. In the last case it leads back itself, and the walk has passed
  -- the state before.
  induction hn : es.length using Nat.strong_induction_on generalizing es q s t x with
  | h n ih =>
    subst hn
    rcases Nat.eq_or_lt_of_le htq with rfl | hlt
    · exact ⟨es, [], (List.append_nil es).symm, hwalk, .stay t⟩
    cases es using List.reverseRecOn with
    | nil =>
      cases hwalk
      exact absurd hlt (Nat.not_lt_of_le hpt)
    | append_singleton init e =>
      obtain ⟨u, hinit, hlast⟩ := hwalk.exists_of_append
      cases hlast with
      | go he hstay =>
        cases hstay
        have hshort : init.length < (init ++ [e]).length := by simp
        have htu : t ≤ u := h.guarded ht (htq.trans hqs) he.mem_targets hlt hqs
        rcases Nat.lt_or_ge s u with hsu | hus
        · have hback : e.target ≤ u := hqs.trans (Nat.le_of_lt hsu)
          obtain ⟨fs, gs, rfl, hfs, hgs⟩ :=
            ih _ hshort he.mem_targets (hpt.trans htq) hback (Nat.le_refl u) hinit rfl
          have hshorter : fs.length < (fs ++ gs ++ [e]).length := by
            simp only [List.length_append, List.length_singleton]
            omega
          obtain ⟨ks, ls, rfl, hks, hls⟩ := ih _ hshorter ht hpt htq hqs hfs rfl
          refine ⟨ks, ls ++ (gs ++ [e]), ?_, hks, hls.append (hgs.append he.walk)⟩
          simp only [List.append_assoc]
        · obtain ⟨fs, gs, rfl, hfs, hgs⟩ := ih _ hshort ht hpt htu hus hinit rfl
          exact ⟨fs, gs ++ [e], List.append_assoc _ _ _, hfs, hgs.append he.walk⟩

end Automaton

namespace Draft

variable {d e : Draft}

/-! ## The way back -/

/-- Each state of the trail, with the entry of the group that it stands in. -/
def homes (d : Draft) : List (Nat × Nat) := d.trail.zip d.entries

/-- What leads back from a state leads to one state, and from a state of the trail to its home. -/
structure Homing (d : Draft) : Prop where
  lone {s t t' : Nat} {x x' : Symbol} : t ∈ d.automaton.targets s x → t ≤ s →
    t' ∈ d.automaton.targets s x' → t' ≤ s → t' = t
  home {s k t : Nat} {x : Symbol} : (s, k) ∈ d.homes → t ∈ d.automaton.targets s x → t ≤ s → t = k

theorem homing_fresh : fresh.Homing :=
  ⟨fun ht => absurd ht not_mem_targets_fresh, fun _ ht => absurd ht not_mem_targets_fresh⟩

theorem homes_eq (d : Draft) :
    d.homes = (d.current, d.entry) :: d.groups.zip d.entries.tail := by
  unfold homes trail entries entry
  cases d.groups <;> rfl

/-- The current state stands on the trail once, so it has one home. -/
theorem Nested.home_current (h : d.Nested) {k : Nat} (hk : (d.current, k) ∈ d.homes) :
    k = d.entry := by
  rw [homes_eq] at hk
  rcases List.mem_cons.1 hk with heq | hk
  · exact (Prod.mk.inj heq).2
  · have hgroups := (List.pairwise_cons.1 h.descends).1
    exact absurd (hgroups d.current (List.of_mem_zip hk).1) (Nat.lt_irrefl _)

/-! ## What one change keeps -/

/-- Nothing is lost where no edge is added that leads back, and each state of the trail has the home
that it had, or none is left that it goes back to. -/
theorem Homing.keep (h : d.Homing)
    (hedges : ∀ {s t x}, t ∈ e.automaton.targets s x → t ≤ s → t ∈ d.automaton.targets s x)
    (hhomes : ∀ {s k}, (s, k) ∈ e.homes → (s, k) ∈ d.homes
      ∨ ∀ {t x}, t ∈ e.automaton.targets s x → t ≤ s → t = k) : e.Homing where
  lone := fun ht hle ht' hle' => h.lone (hedges ht hle) hle (hedges ht' hle') hle'
  home := by
    intro s k t x hk ht hle
    rcases hhomes hk with hold | hnone
    · exact h.home hold (hedges ht hle) hle
    · exact hnone ht hle

theorem Sound.mem_targets_of_back (hd : d.Sound) {symbol : Symbol} {accepting : Bool} {s t : Nat}
    {x : Symbol} (ht : t ∈ (d.sprout symbol accepting).automaton.targets s x) (hle : t ≤ s) :
    t ∈ d.automaton.targets s x :=
  (hd.mem_targets_of_sprout ht).resolve_right (Nat.not_lt_of_le hle)

theorem Homing.sprout (h : d.Homing) (hd : d.Sound) (symbol : Symbol) (accepting : Bool) :
    (d.sprout symbol accepting).Homing :=
  h.keep (fun ht hle => hd.mem_targets_of_back ht hle) Or.inl

/-- The newest state goes back to none yet. -/
theorem Sound.not_back_of_newest (hd : d.Sound) {symbol : Symbol} {accepting : Bool} {t : Nat}
    {x : Symbol} (ht : t ∈ (d.sprout symbol accepting).automaton.targets d.states.size x) :
    ¬ t ≤ d.states.size :=
  fun hle => Nat.lt_irrefl _ (Automaton.lt_size_of_mem_targets (hd.mem_targets_of_back ht hle))

theorem Homing.advance (h : d.Homing) (hd : d.Sound) (symbol : Symbol) (accepting : Bool) :
    (d.advance symbol accepting).Homing := by
  refine h.keep (fun ht hle => hd.mem_targets_of_back ht hle) ?_
  intro s k hk
  rw [homes_eq] at hk ⊢
  rcases List.mem_cons.1 hk with heq | hk
  · obtain ⟨rfl, -⟩ := Prod.mk.inj heq
    exact Or.inr fun ht hle => absurd hle (hd.not_back_of_newest ht)
  · exact Or.inl (List.mem_cons_of_mem _ hk)

/-- The state in which a group is opened is the home of what stands in the group. -/
theorem Homing.openGroup (h : d.Homing) (hd : d.Sound) :
    { d.advance .epsilon true with groups := d.current :: d.groups }.Homing := by
  refine h.keep (fun ht hle => hd.mem_targets_of_back ht hle) ?_
  intro s k hk
  rcases List.mem_cons.1 hk with heq | hk
  · obtain ⟨rfl, -⟩ := Prod.mk.inj heq
    exact Or.inr fun ht hle => absurd hle (hd.not_back_of_newest ht)
  · exact Or.inl hk

theorem Homing.closeGroup (h : d.Homing) :
    { d with current := d.entry, groups := d.groups.tail }.Homing := by
  refine h.keep (fun ht _ => ht) ?_
  intro s k hk
  rcases d.entry_cases with ⟨hnil, hroot⟩ | hcons
  · -- Nothing lies below the root.
    rw [hnil, hroot] at hk
    obtain ⟨rfl, rfl⟩ := Prod.mk.inj (List.mem_singleton.1 hk)
    exact Or.inr fun _ hle => Nat.le_zero.1 hle
  · left
    rw [homes_eq, entries, hcons]
    exact List.mem_cons_of_mem _ hk

/-- A quantifier leads back from the current state to its home. -/
theorem Homing.back (h : d.Homing) (hn : d.Nested) (hd : d.Sound) :
    (d.link d.current .epsilon d.entry).Homing := by
  have hhome : (d.current, d.entry) ∈ d.homes := d.homes_eq ▸ List.mem_cons_self
  refine ⟨?_, ?_⟩
  · intro s t t' x x' ht hle ht' hle'
    rcases (mem_targets_link hd.current_lt).1 ht with hold | ⟨rfl, -, rfl⟩
    · rcases (mem_targets_link hd.current_lt).1 ht' with hold' | ⟨rfl, -, rfl⟩
      · exact h.lone hold hle hold' hle'
      · exact (h.home hhome hold hle).symm
    · rcases (mem_targets_link hd.current_lt).1 ht' with hold' | ⟨-, -, hentry⟩
      · exact h.home hhome hold' hle'
      · exact hentry
  · intro s k t x hk ht hle
    rcases (mem_targets_link hd.current_lt).1 ht with hold | ⟨rfl, -, rfl⟩
    · exact h.home hk hold hle
    · exact (hn.home_current hk).symm

/-- At the root a quantifier leads back whichever way it goes. Elsewhere it leads on from the
entry. -/
theorem Homing.forth (h : d.Homing) (hn : d.Nested) (hd : d.Sound) :
    (d.link d.entry .epsilon d.current).Homing := by
  rcases Nat.eq_or_lt_of_le hn.entry_le_current with heq | hlt
  · have hback := h.back hn hd
    rw [heq] at hback ⊢
    exact hback
  · refine h.keep ?_ Or.inl
    intro s t x ht hle
    rcases (mem_targets_link hd.entry_lt).1 ht with hold | ⟨rfl, -, rfl⟩
    · exact hold
    · exact absurd hlt (Nat.not_lt_of_le hle)

/-! ## The whole pattern -/

theorem lockstep_homing : Lockstep fun d _ => d.Nested ∧ d.Homing where
  turn := fun h =>
    ⟨⟨h.1.orderly, h.1.descends, h.1.shielded, h.1.level, h.1.held⟩, h.2.lone, h.2.home⟩
  sprout := fun symbol accepting hd he h =>
    ⟨lockstep_nested.sprout symbol accepting hd he h.1, h.2.sprout hd symbol accepting⟩
  advance := fun symbol accepting hd he h =>
    ⟨lockstep_nested.advance symbol accepting hd he h.1, h.2.advance hd symbol accepting⟩
  openGroup := fun hd he h => ⟨lockstep_nested.openGroup hd he h.1, h.2.openGroup hd⟩
  closeGroup := fun hd he h => ⟨lockstep_nested.closeGroup hd he h.1, h.2.closeGroup⟩
  forth := fun hd he h => ⟨lockstep_nested.forth hd he h.1, h.2.forth h.1 hd⟩
  back := fun hd he h => ⟨lockstep_nested.back hd he h.1, h.2.back h.1 hd⟩

theorem homing_settle_readAll (cs : List Char) : (fresh.readAll cs).settle.Homing :=
  (lockstep_homing.settle_readAll sound_fresh sound_fresh (Or.inl rfl)
    ⟨nested_fresh, homing_fresh⟩ cs).2

end Draft

/-! ## The law -/

/-- An edge that does not lead to a higher number is an epsilon edge, by which a quantifier returns
to the entry of the group that it stands in. All such edges of a state have one target, and every
walk from the start to the state has come through it. Only the root has such an edge to itself. -/
theorem an_edge_that_leads_back_returns_to_an_entry {pattern : String} {simulation : Simulation}
    {a : Automaton} (h : compile pattern simulation = .ok a) {s t : Nat} {x : Symbol}
    (ht : t ∈ a.targets s x) (hback : t ≤ s) :
    x = .epsilon
    ∧ Draft.TiedBack pattern.toList s t
    ∧ (∀ x' t', t' ∈ a.targets s x' → t' ≤ s → t' = t)
    ∧ (∀ es, a.Walk a.start es s → a.Passes a.start es t s)
    ∧ (t = s → s = a.start) := by
  obtain ⟨hepsilon, htied⟩ := compile_tiedBack h ht hback
  have hhoming := Draft.homing_settle_readAll pattern.toList
  have hroot : a.start = Draft.root := (compile_eq_ok.1 h).2.1
  refine ⟨hepsilon, htied, ?_, ?_, ?_⟩
  · intro x' t' ht' hback'
    rw [compile_eq_settle h] at ht ht'
    exact hhoming.lone ht hback ht' hback'
  · intro es hwalk
    have hstart : a.start ≤ t := hroot ▸ Nat.zero_le t
    exact (compile_orderly h).passes ht hstart hback (Nat.le_refl s) hwalk
  · rintro rfl
    obtain ⟨c, before, -, -, hcurrent, hentry⟩ := htied
    have hle := Nat.le_of_eq (hcurrent.trans hentry.symm)
    rw [hroot, ← hcurrent]
    exact (Draft.nested_readAll before).eq_root_of_le_entry hle

/-- Of the edges of the state 8, those that lead back are of a `+` after the class, and of the `?`
and the `+` after the inner group. The `?` at the root makes two circles there. -/
theorem a_state_in_two_groups_returns_to_the_inner_entry :
    ∃ a, compile ")?(a(b[c+]+(d)?+*)+|e" .closure = .ok a
      ∧ a.targets 8 .epsilon = [2, 9, 2, 2] ∧ a.targets 0 .epsilon = [0, 0, 1]
      ∧ Draft.TiedBack ")?(a(b[c+]+(d)?+*)+|e".toList 8 2
      ∧ (∀ x t, t ∈ a.targets 8 x → t ≤ 8 → t = 2)
      ∧ ∀ es, a.Walk a.start es 8 → a.Passes a.start es 2 8 := by
  have ha : compile ")?(a(b[c+]+(d)?+*)+|e" .closure = .ok _ := rfl
  have hlaw := an_edge_that_leads_back_returns_to_an_entry ha (s := 8) (t := 2) (x := .epsilon)
    (by decide +kernel) (by decide)
  obtain ⟨-, htied, hlone, hpasses, -⟩ := hlaw
  exact ⟨_, ha, by decide +kernel, by decide +kernel, htied, hlone, hpasses⟩

end PatternNFA
