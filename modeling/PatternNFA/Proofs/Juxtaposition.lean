-- A pattern written after another one that ends at the root. No group is open there, so the second
-- pattern is read as it is on its own, over states with other numbers. The two automata share the
-- root and nothing else, and no edge joins the one part to the other.
import PatternNFA.Proofs.Insertion
import PatternNFA.Proofs.Nesting

namespace PatternNFA

/-! ## Two automata joined at the root -/

namespace Automaton

/-- All of the third automaton comes of the two others, of the first as it is, and of the second
under the map. -/
structure Joined (a : Automaton) (f : Nat → Nat) (b c : Automaton) : Prop where
  mem_targets {s t : Nat} {x : Symbol} : t ∈ c.targets s x →
    t ∈ a.targets s x ∨ ∃ s' t', f s' = s ∧ f t' = t ∧ t' ∈ b.targets s' x
  accepting {s : Nat} : c.isAccepting s = true →
    a.isAccepting s = true ∨ ∃ s', f s' = s ∧ b.isAccepting s' = true

/-- The map keeps the root, and sends all other states past those of the automaton, each to one of
its own. -/
structure Clears (f : Nat → Nat) (a : Automaton) : Prop where
  root_eq : f Draft.root = Draft.root
  size_le {s : Nat} : s ≠ Draft.root → a.size ≤ f s
  injective : Function.Injective f

variable {a b c : Automaton} {f : Nat → Nat}

theorem Clears.size_le_of_ne (hf : Clears f a) {s : Nat} (hne : f s ≠ Draft.root) :
    a.size ≤ f s := by
  apply hf.size_le
  rintro rfl
  exact hne hf.root_eq

/-- Whether an edge enters a state can be told by the edges of all the states. -/
theorem not_mem_targets_of_edges {t : Nat} (h : ∀ s < a.size, ∀ e ∈ a.edges s, e.2 ≠ t)
    (s : Nat) (x : Symbol) : t ∉ a.targets s x :=
  fun ht => h s (lt_size_of_mem_targets ht) (x, t) (mem_edges.2 ht) rfl

/-! ## No way from one part to the other -/

/-- An edge from a state of the first part, other than the root, is one of the first part. -/
theorem Joined.mem_targets_left (h : a.Joined f b c) (hf : Clears f a) {s t : Nat} {x : Symbol}
    (hs : s < a.size) (hne : s ≠ Draft.root) (ht : t ∈ c.targets s x) : t ∈ a.targets s x := by
  rcases h.mem_targets ht with hleft | ⟨s', t', rfl, -, -⟩
  · exact hleft
  · exact absurd hs (Nat.not_lt_of_le (hf.size_le_of_ne hne))

theorem Joined.mem_targets_right (h : a.Joined f b c) (hf : Clears f a) {s t : Nat} {x : Symbol}
    (hne : s ≠ Draft.root) (ht : t ∈ c.targets (f s) x) : ∃ t' ∈ b.targets s x, f t' = t := by
  rcases h.mem_targets ht with hleft | ⟨s', t', hs, rfl, hright⟩
  · exact absurd (lt_size_of_mem_targets hleft) (Nat.not_lt_of_le (hf.size_le hne))
  · rw [hf.injective hs] at hright
    exact ⟨t', hright, rfl⟩

theorem Joined.accepting_left (h : a.Joined f b c) (hf : Clears f a) {s : Nat} (hs : s < a.size)
    (hne : s ≠ Draft.root) (haccepting : c.isAccepting s = true) : a.isAccepting s = true := by
  rcases h.accepting haccepting with hleft | ⟨s', rfl, -⟩
  · exact hleft
  · exact absurd hs (Nat.not_lt_of_le (hf.size_le_of_ne hne))

theorem Joined.accepting_right (h : a.Joined f b c) (hf : Clears f a) {s : Nat}
    (hne : s ≠ Draft.root) (haccepting : c.isAccepting (f s) = true) :
    b.isAccepting s = true := by
  rcases h.accepting haccepting with hleft | ⟨s', hs, hright⟩
  · exact absurd (lt_size_of_isAccepting hleft) (Nat.not_lt_of_le (hf.size_le hne))
  · rw [hf.injective hs] at hright
    exact hright

/-- A walk that is in the first part stays there. -/
theorem Joined.walk_left (h : a.Joined f b c) (hf : Clears f a) (ha : a.InRange)
    (hfree : ∀ s x, Draft.root ∉ c.targets s x) {s q : Nat} {es : List Edge} (hs : s < a.size)
    (hne : s ≠ Draft.root) (hwalk : c.Walk s es q) (hq : c.isAccepting q = true) :
    ∃ fs, a.Walk s fs q ∧ Alike es fs ∧ a.isAccepting q = true := by
  have hstep : ∀ {s s' t x}, s' = s ∧ s < a.size ∧ s ≠ Draft.root → t ∈ c.targets s x →
      ∃ t' ∈ a.targets s' x, t' = t ∧ t < a.size ∧ t ≠ Draft.root := by
    rintro s _ t x ⟨rfl, hs, hne⟩ ht
    have hleft := h.mem_targets_left hf hs hne ht
    exact ⟨t, hleft, rfl, ha.target_lt hleft, fun hroot => hfree _ x (hroot ▸ ht)⟩
  obtain ⟨fs, _, hwalk', halike, rfl, hlt, hne⟩ := hwalk.exists_alike hstep ⟨rfl, hs, hne⟩
  exact ⟨fs, hwalk', halike, h.accepting_left hf hlt hne hq⟩

/-- A walk that is in the second part stays there. -/
theorem Joined.walk_right (h : a.Joined f b c) (hf : Clears f a)
    (hfree : ∀ s x, Draft.root ∉ c.targets s x) {s q : Nat} {es : List Edge}
    (hne : s ≠ Draft.root) (hwalk : c.Walk (f s) es q) (hq : c.isAccepting q = true) :
    ∃ fs q', b.Walk s fs q' ∧ Alike es fs ∧ b.isAccepting q' = true := by
  have hstep : ∀ {s s' t x}, f s' = s ∧ s' ≠ Draft.root → t ∈ c.targets s x →
      ∃ t' ∈ b.targets s' x, f t' = t ∧ t' ≠ Draft.root := by
    rintro _ s' t x ⟨rfl, hne⟩ ht
    obtain ⟨t', hright, rfl⟩ := h.mem_targets_right hf hne ht
    refine ⟨t', hright, rfl, ?_⟩
    rintro rfl
    rw [hf.root_eq] at ht
    exact hfree _ x ht
  obtain ⟨fs, q', hwalk', halike, rfl, hne⟩ := hwalk.exists_alike hstep ⟨rfl, hne⟩
  exact ⟨fs, q', hwalk', halike, h.accepting_right hf hne hq⟩

/-- The first edge of a walk from the root tells the part that the walk is in. -/
theorem Joined.walk_root (h : a.Joined f b c) (hf : Clears f a) (ha : a.InRange)
    (hfree : ∀ s x, Draft.root ∉ c.targets s x) {q : Nat} {es : List Edge}
    (hwalk : c.Walk Draft.root es q) (hq : c.isAccepting q = true) :
    (∃ fs q', a.Walk Draft.root fs q' ∧ Alike es fs ∧ a.isAccepting q' = true)
      ∨ ∃ fs q', b.Walk Draft.root fs q' ∧ Alike es fs ∧ b.isAccepting q' = true := by
  cases hwalk with
  | stay =>
    rcases h.accepting hq with hleft | ⟨s', hs', hright⟩
    · exact Or.inl ⟨[], _, .stay _, .nil, hleft⟩
    · obtain rfl := hf.injective (hs'.trans hf.root_eq.symm)
      exact Or.inr ⟨[], _, .stay _, .nil, hright⟩
  | @go _ _ e es he hrest =>
    have hne : e.target ≠ Draft.root := fun hroot => hfree _ _ (hroot ▸ he.mem_targets)
    rcases h.mem_targets he.mem_targets with hleft | ⟨s', t', hs', ht', hright⟩
    · obtain ⟨fs, hwalk', halike, haccepting⟩ :=
        h.walk_left hf ha hfree (ha.target_lt hleft) hne hrest hq
      obtain ⟨e', he', hsymbol, htarget⟩ := exists_hasEdge hleft
      exact Or.inl ⟨e' :: fs, q, .go he' (htarget ▸ hwalk'), .cons hsymbol.symm halike, haccepting⟩
    · have hne' : t' ≠ Draft.root := by
        rintro rfl
        exact hne (ht'.symm.trans hf.root_eq)
      obtain rfl := hf.injective (hs'.trans hf.root_eq.symm)
      obtain ⟨fs, q', hwalk', halike, haccepting⟩ :=
        h.walk_right hf hfree hne' (ht'.symm ▸ hrest) hq
      obtain ⟨e', he', hsymbol, htarget⟩ := exists_hasEdge hright
      exact Or.inr ⟨e' :: fs, q', .go he' (htarget ▸ hwalk'), .cons hsymbol.symm halike, haccepting⟩

/-- If no edge enters the root, a run cannot change from one part to the other. -/
theorem Joined.isMatch (h : a.Joined f b c) (hf : Clears f a) (ha : a.InRange) (hb : b.InRange)
    (hc : c.InRange) (hstart : a.start = Draft.root ∧ b.start = Draft.root ∧ c.start = Draft.root)
    (hsame : a.simulation = c.simulation ∧ b.simulation = c.simulation)
    (hfree : ∀ s x, Draft.root ∉ c.targets s x) {input : String}
    (hmatch : c.isMatch input = true) : a.isMatch input = true ∨ b.isMatch input = true := by
  obtain ⟨es, q, hwalk, hspells, hq⟩ := (isMatch_iff_exists_walk hc).1 hmatch
  rw [hstart.2.2] at hwalk
  rcases h.walk_root hf ha hfree hwalk hq with
    ⟨fs, q', hwalk', halike, hq'⟩ | ⟨fs, q', hwalk', halike, hq'⟩
  · left
    apply (isMatch_iff_exists_walk ha).2
    rw [hstart.1, hsame.1]
    exact ⟨fs, q', hwalk', hspells.of_alike halike, hq'⟩
  · right
    apply (isMatch_iff_exists_walk hb).2
    rw [hstart.2.1, hsame.2]
    exact ⟨fs, q', hwalk', hspells.of_alike halike, hq'⟩

end Automaton

/-! ## Reading on from the root -/

namespace Draft

variable {a : Automaton} {f : Nat → Nat} {d e : Draft}

theorem joined_link (h : a.Joined f d.automaton e.automaton) {source : Nat}
    (hd : source < d.states.size) (he : f source < e.states.size) (symbol : Symbol)
    (target : Nat) :
    a.Joined f (d.link source symbol target).automaton
      (e.link (f source) symbol (f target)).automaton where
  mem_targets := by
    intro s t x ht
    rcases (mem_targets_link he).1 ht with hold | ⟨rfl, rfl, rfl⟩
    · rcases h.mem_targets hold with hleft | ⟨s', t', hs, ht, hright⟩
      · exact Or.inl hleft
      · exact Or.inr ⟨s', t', hs, ht, (mem_targets_link hd).2 (Or.inl hright)⟩
    · exact Or.inr ⟨source, target, rfl, rfl, (mem_targets_link hd).2 (Or.inr ⟨rfl, rfl, rfl⟩)⟩
  accepting := by
    intro s hs
    simp only [isAccepting_link] at hs ⊢
    exact h.accepting hs

theorem joined_sprout (h : a.Joined f d.automaton e.automaton) (hbeside : Beside f d e)
    (hd : d.Sound) (he : e.Sound) (symbol : Symbol) (accepting : Bool) :
    a.Joined f (d.sprout symbol accepting).automaton (e.sprout symbol accepting).automaton where
  mem_targets := by
    intro s t x ht
    rcases (mem_targets_sprout he.current_lt).1 ht with hold | ⟨rfl, rfl, rfl⟩
    · rcases h.mem_targets hold with hleft | ⟨s', t', hs, ht, hright⟩
      · exact Or.inl hleft
      · exact Or.inr ⟨s', t', hs, ht, (mem_targets_sprout hd.current_lt).2 (Or.inl hright)⟩
    · exact Or.inr ⟨d.current, d.states.size, hbeside.current_eq, hbeside.newest_eq 0,
        (mem_targets_sprout hd.current_lt).2 (Or.inr ⟨rfl, rfl, rfl⟩)⟩
  accepting := by
    intro s hs
    rw [isAccepting_sprout] at hs
    split at hs
    · rename_i hnew
      refine Or.inr ⟨d.states.size, (hbeside.newest_eq 0).trans hnew.symm, ?_⟩
      rw [isAccepting_sprout, if_pos rfl]
      exact hs
    · rcases h.accepting hs with hleft | ⟨s', hs', hright⟩
      · exact Or.inl hleft
      · exact Or.inr ⟨s', hs', isAccepting_sprout_of_accepting hright symbol accepting⟩

/-- What the second reader adds, the first one adds as well. -/
theorem lockstep_joined (a : Automaton) (f : Nat → Nat) :
    Lockstep fun d e => Beside f d e ∧ a.Joined f d.automaton e.automaton := by
  have hbeside := lockstep_beside f
  refine ⟨?_, ?_, ?_, ?_, ?_, ?_, ?_⟩
  · intro d e mode mode' offset offset' h
    exact ⟨hbeside.turn h.1, h.2⟩
  · intro d e symbol accepting hd he h
    exact ⟨hbeside.sprout symbol accepting hd he h.1, joined_sprout h.2 h.1 hd he symbol accepting⟩
  · intro d e symbol accepting hd he h
    exact ⟨hbeside.advance symbol accepting hd he h.1, joined_sprout h.2 h.1 hd he symbol accepting⟩
  · intro d e hd he h
    exact ⟨hbeside.openGroup hd he h.1, joined_sprout h.2 h.1 hd he .epsilon true⟩
  · intro d e hd he h
    exact ⟨hbeside.closeGroup hd he h.1, h.2⟩
  · intro d e hd he h
    refine ⟨hbeside.forth hd he h.1, ?_⟩
    rw [← h.1.entry_eq, ← h.1.current_eq]
    exact joined_link h.2 hd.entry_lt (h.1.entry_eq ▸ he.entry_lt) .epsilon d.current
  · intro d e hd he h
    refine ⟨hbeside.back hd he h.1, ?_⟩
    rw [← h.1.entry_eq, ← h.1.current_eq]
    exact joined_link h.2 hd.current_lt (h.1.current_eq ▸ he.current_lt) .epsilon d.entry

/-- A pattern that ends at the root leaves the reader where a new one begins. -/
theorem returns_readAll_of_root {cs : List Char} (hmode : (fresh.readAll cs).mode = .plain)
    (hroot : (fresh.readAll cs).current = root) : fresh.Returns (fresh.readAll cs) :=
  ⟨hmode, hroot, (nested_readAll cs).groups_eq_nil hroot⟩

theorem Beside.clears {f : Nat → Nat} (h : Beside f fresh e) (he : e.Sound) :
    Automaton.Clears f e.automaton := by
  have hroot : f root = root := h.embeds.start_eq
  have hnewest : ∀ s, s ≠ root → f s = e.states.size + (s - 1) := by
    intro s hs
    have hpos : 0 < s := Nat.pos_of_ne_zero hs
    rw [← h.newest_eq (s - 1)]
    congr 1
    show s = 1 + (s - 1)
    omega
  have hsize := he.root_lt
  refine ⟨hroot, ?_, ?_⟩
  · intro s hs
    rw [hnewest s hs]
    exact Nat.le_add_right _ _
  · intro s t heq
    by_cases hs : s = root
    · by_cases ht : t = root
      · rw [hs, ht]
      · rw [hs, hroot, hnewest t ht] at heq
        omega
    · by_cases ht : t = root
      · rw [ht, hroot, hnewest s hs] at heq
        omega
      · rw [hnewest s hs, hnewest t ht] at heq
        unfold root at hs ht
        omega

/-- After a pattern that ends at the root, another one is read as it is on its own. -/
theorem exists_joined {u : List Char} (hmode : (fresh.readAll u).mode = .plain)
    (hroot : (fresh.readAll u).current = root) (v : List Char) :
    (fresh.readAll v).InStep (fresh.readAll (u ++ v))
      ∧ ∃ f, Automaton.Clears f (fresh.readAll u).automaton
        ∧ (fresh.readAll v).settle.automaton.Embeds f (fresh.readAll (u ++ v)).settle.automaton
        ∧ (fresh.readAll u).automaton.Joined f (fresh.readAll v).settle.automaton
            (fresh.readAll (u ++ v)).settle.automaton := by
  have hsound := sound_fresh.readAll u
  have hbeside :=
    sound_fresh.beside (sound_fresh.embeds_readAll u) (returns_readAll_of_root hmode hroot)
  generalize fresh.shift (fresh.readAll u) = f at hbeside
  have hstep : fresh.InStep (fresh.readAll u) := Or.inl hmode.symm
  have hjoined : (fresh.readAll u).automaton.Joined f fresh.automaton (fresh.readAll u).automaton :=
    ⟨Or.inl, Or.inl⟩
  obtain ⟨hbeside', hjoined'⟩ := (lockstep_joined (fresh.readAll u).automaton f).settle_readAll
    sound_fresh hsound hstep ⟨hbeside, hjoined⟩ v
  rw [readAll_append]
  exact ⟨hstep.readAll v, f, hbeside.clears hsound, hbeside'.embeds, hjoined'⟩

end Draft

/-! ## The law -/

/-- A pattern that ends at the root, outside a class, takes another one after it as an alternative.
The other one compiles there if it compiles on its own. Whatever one of the two accepts, both
together accept, under either simulation, and nothing else if no edge leads back to the root. -/
theorem juxtaposition_at_the_root_is_union {u v : String} (simulation : Simulation)
    (hu : EndsOutside u.toList) (hroot : (Draft.fresh.readAll u.toList).current = Draft.root) :
    ((∃ b, compile v simulation = .ok b) ↔ ∃ c, compile (u ++ v) simulation = .ok c)
    ∧ ∃ a, compile u simulation = .ok a ∧
      ∀ b c, compile v simulation = .ok b → compile (u ++ v) simulation = .ok c →
        (∀ input, a.isMatch input = true ∨ b.isMatch input = true → c.isMatch input = true)
        ∧ ((∀ s x, Draft.root ∉ c.targets s x) → ∀ input,
            c.isMatch input = true ↔ a.isMatch input = true ∨ b.isMatch input = true) := by
  have hmode := (Draft.mode_readAll_iff u.toList).2 hu
  obtain ⟨hstep, f, hclears, hembeds, hjoined⟩ := Draft.exists_joined hmode hroot v.toList
  rw [← String.toList_append] at hstep hembeds hjoined
  refine ⟨?_, ?_⟩
  · rw [exists_compile_eq_ok, exists_compile_eq_ok, hstep.pending_iff]
  obtain ⟨a, ha⟩ : ∃ a, compile u simulation = .ok a :=
    exists_compile_eq_ok.2 (Draft.not_pending_of_plain hmode)
  refine ⟨a, ha, ?_⟩
  intro b c hb hc
  have hunion : ∀ input, a.isMatch input = true ∨ b.isMatch input = true →
      c.isMatch input = true := by
    rintro input (hleft | hright)
    · obtain ⟨g, hgrown⟩ := (Draft.sound_fresh.readAll u.toList).embeds_settle v.toList
      rw [← Draft.readAll_append, ← String.toList_append] at hgrown
      exact isMatch_of_embeds ha hc hgrown hleft
    · exact isMatch_of_embeds hb hc hembeds hright
  refine ⟨hunion, ?_⟩
  intro hfree input
  refine ⟨?_, hunion input⟩
  intro hmatch
  obtain ⟨-, hastart, hasim⟩ := compile_eq_ok.1 ha
  obtain ⟨-, hbstart, hbsim⟩ := compile_eq_ok.1 hb
  obtain ⟨-, hcstart, hcsim⟩ := compile_eq_ok.1 hc
  have hparts : a.Joined f b c := by
    rw [compile_eq_settle ha, compile_eq_settle hb, compile_eq_settle hc,
      Draft.settle_of_plain hmode]
    exact ⟨hjoined.mem_targets, hjoined.accepting⟩
  have hfar : Automaton.Clears f a := by
    rw [compile_eq_settle ha, Draft.settle_of_plain hmode]
    exact ⟨hclears.root_eq, hclears.size_le, hclears.injective⟩
  exact hparts.isMatch hfar (compile_inRange ha) (compile_inRange hb) (compile_inRange hc)
    ⟨hastart, hbstart, hcstart⟩ ⟨hasim.trans hcsim.symm, hbsim.trans hcsim.symm⟩ hfree hmatch

/-- The second pattern has a `)` that closes no group and a group that stays open. Its own group
circles back to the state 7, and nothing leads back to the root. -/
theorem an_unbalanced_pattern_is_written_after_a_group :
    ∃ a b c, compile "(x(y)z)" .closure = .ok a ∧ compile "d)((ef+)|g" .closure = .ok b
      ∧ compile ("(x(y)z)" ++ "d)((ef+)|g") .closure = .ok c
      ∧ (∀ s x, Draft.root ∉ c.targets s x)
      ∧ ∀ input, c.isMatch input = true ↔ a.isMatch input = true ∨ b.isMatch input = true := by
  have hu : EndsOutside "(x(y)z)".toList := (Draft.mode_readAll_iff _).1 rfl
  have ha : compile "(x(y)z)" .closure = .ok _ := rfl
  have hb : compile "d)((ef+)|g" .closure = .ok _ := rfl
  have hc : compile ("(x(y)z)" ++ "d)((ef+)|g") .closure = .ok _ := rfl
  obtain ⟨-, a, ha', hlaw⟩ := juxtaposition_at_the_root_is_union .closure hu rfl
  obtain rfl := Except.ok.inj (ha.symm.trans ha')
  obtain ⟨-, hexact⟩ := hlaw _ _ hb hc
  refine ⟨_, _, _, ha, hb, hc, (fun hfree => ⟨hfree, hexact hfree⟩) ?_⟩
  apply Automaton.not_mem_targets_of_edges
  decide +kernel

end PatternNFA
