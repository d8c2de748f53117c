-- Classes, and what one accepts that is alone. The head of a class comes after an epsilon edge, and
-- each member hangs on it with a state of its own, whatever the character means elsewhere. So does
-- the `]`, which is read as a literal. A negated class keeps its members, and its head has one edge
-- more, an epsilon edge.
import PatternNFA.Proofs.Acceptance
import PatternNFA.Proofs.Construction

namespace PatternNFA

/-- What opens a class. -/
def classOpening (negated : Bool) : String := if negated then "[^" else "["

namespace Draft

variable {d e f : Draft} {negated : Bool} {members : List Char}

/-! ## The members -/

/-- The second draft has one more state for each member, at the end of an edge from the state that
the first one stands in. -/
structure Fanned (d : Draft) (members : List Char) (e : Draft) : Prop where
  size_eq : e.states.size = d.states.size + members.length
  accepting_iff (s : Nat) : e.automaton.isAccepting s = true
    ↔ d.automaton.isAccepting s = true ∨ (d.states.size ≤ s ∧ s < e.states.size)
  mem_targets {s t : Nat} {x : Symbol} : t ∈ e.automaton.targets s x
    ↔ t ∈ d.automaton.targets s x
      ∨ (s = d.current ∧ ∃ i c, members[i]? = some c ∧ x = .char c ∧ t = d.states.size + i)

theorem fanned_nil (d : Draft) : d.Fanned [] d where
  size_eq := rfl
  accepting_iff := by
    intro s
    rw [or_iff_left fun hnew => Nat.not_lt_of_le hnew.1 hnew.2]
  mem_targets := by simp

/-- The first member, and then the others. -/
theorem Fanned.cons (hc : d.current < d.states.size) {c : Char}
    (hstates : e.states = (d.sprout (.char c) true).states) (hcurrent : e.current = d.current)
    (h : e.Fanned members f) : d.Fanned (c :: members) f where
  size_eq := by
    rw [h.size_eq, hstates, size_sprout, List.length_cons]
    omega
  accepting_iff := by
    intro s
    have hsize := h.size_eq
    rw [hstates, size_sprout] at hsize
    rw [h.accepting_iff, automaton_of_states hstates, isAccepting_sprout, hstates, size_sprout]
    by_cases hs : s = d.states.size
    · simp only [if_pos hs, true_or, true_iff]
      exact Or.inr (by omega)
    · rw [if_neg hs]
      exact or_congr_right (by omega)
  mem_targets := by
    intro s t x
    rw [h.mem_targets, automaton_of_states hstates, mem_targets_sprout hc, hcurrent, hstates,
      size_sprout, or_assoc, ← and_or_left]
    refine or_congr_right (and_congr_right fun _ => ?_)
    constructor
    · rintro (⟨hx, ht⟩ | ⟨i, c', hi, hx, ht⟩)
      · exact ⟨0, c, rfl, hx, ht⟩
      · exact ⟨i + 1, c', hi, hx, by omega⟩
    · rintro ⟨_ | i, c', hi, hx, ht⟩
      · obtain rfl := Option.some.inj hi
        exact Or.inl ⟨hx, ht⟩
      · exact Or.inr ⟨i, c', hi, hx, by omega⟩

theorem Sound.fanned_readAll (hd : d.Sound) (h : d.mode = .members negated)
    (hmembers : ∀ c ∈ members, c ≠ ']') : d.Fanned members (d.readAll members) := by
  induction members generalizing d with
  | nil => exact d.fanned_nil
  | cons c rest ih =>
    have hread := read_member h (hmembers c List.mem_cons_self)
    have hstates : (d.read c).states = (d.sprout (.char c) true).states := by rw [hread]
    have hcurrent : (d.read c).current = d.current := by
      rw [hread]
      rfl
    have hrest := ih (hd.read c) (by rw [hread])
      fun c' hc' => hmembers c' (List.mem_cons_of_mem c hc')
    exact hrest.cons hd.current_lt hstates hcurrent

/-! ## The class -/

/-- The draft at the first member of a class. -/
def enterClass (d : Draft) (negated : Bool) : Draft :=
  if negated then (d.read '[').read '^' else { d.read '[' with mode := .members false }

/-- The draft after a class. -/
def drawClass (d : Draft) (negated : Bool) (members : List Char) : Draft :=
  ((d.enterClass negated).readAll members).endClass negated

theorem Sound.entersClass (hd : d.Sound) (h : d.mode = .plain) (negated : Bool) :
    d.EntersClass (d.enterClass negated) negated := by
  cases negated with
  | false => exact entersClass_plain hd h
  | true => exact entersClass_negated hd h

theorem EntersClass.accepting_iff (h : d.EntersClass e negated) (s : Nat) :
    e.automaton.isAccepting s = true ↔ d.automaton.isAccepting s = true := by
  rw [automaton_of_states h.states_eq, isAccepting_sprout]
  split
  · rename_i hs
    constructor
    · exact fun hfalse => absurd hfalse Bool.false_ne_true
    · exact fun haccepting => absurd hs (Nat.ne_of_lt (Automaton.lt_size_of_isAccepting haccepting))
  · exact Iff.rfl

theorem EntersClass.mem_targets (h : d.EntersClass e negated) (hd : d.Sound) {s t : Nat}
    {x : Symbol} : t ∈ e.automaton.targets s x ↔ t ∈ d.automaton.targets s x
      ∨ (s = d.current ∧ x = .epsilon ∧ t = d.states.size) := by
  rw [automaton_of_states h.states_eq, mem_targets_sprout hd.current_lt]

theorem EntersClass.size_eq (h : d.EntersClass e negated) :
    e.states.size = d.states.size + 1 := by
  rw [h.states_eq, size_sprout]

/-- The second draft stands after a class, at its head. Only the head is new and rejects. -/
structure Drawn (d : Draft) (negated : Bool) (members : List Char) (e : Draft) : Prop where
  sound : e.Sound
  mode_eq : e.mode = .plain
  current_eq : e.current = d.states.size
  groups_eq : e.groups = d.groups
  size_eq : e.states.size = d.states.size + 1 + members.length + negated.toNat
  accepting_iff (s : Nat) : e.automaton.isAccepting s = true
    ↔ d.automaton.isAccepting s = true ∨ (d.states.size < s ∧ s < e.states.size)
  mem_targets {s t : Nat} {x : Symbol} : t ∈ e.automaton.targets s x
    ↔ (t ∈ d.automaton.targets s x ∨ (s = d.current ∧ x = .epsilon ∧ t = d.states.size))
      ∨ (s = d.states.size
        ∧ ((∃ i c, members[i]? = some c ∧ x = .char c ∧ t = d.states.size + 1 + i)
          ∨ (negated = true ∧ x = .epsilon ∧ t = d.states.size + 1 + members.length)))

theorem Fanned.drawn (h : e.Fanned members f) (henter : d.EntersClass e negated) (hd : d.Sound)
    (hf : f.Sound) (hcurrent : f.current = e.current) (hgroups : f.groups = e.groups) :
    d.Drawn false members (f.endClass false) where
  sound := hf.endClass false
  mode_eq := mode_endClass false
  current_eq := hcurrent.trans henter.current_eq
  groups_eq := hgroups.trans henter.groups_eq
  size_eq := h.size_eq.trans (congrArg (· + members.length) henter.size_eq)
  accepting_iff := by
    intro s
    have hold := h.accepting_iff s
    rw [henter.accepting_iff, henter.size_eq] at hold
    exact hold
  mem_targets := by
    intro s t x
    have hold := @h.mem_targets s t x
    rw [henter.mem_targets hd, henter.current_eq, henter.size_eq] at hold
    simp only [Bool.false_eq_true, false_and, or_false]
    exact hold

/-- The way past the members of a negated class. -/
theorem Drawn.bypass (h : d.Drawn false members f) : d.Drawn true members (f.endClass true) where
  sound := h.sound.endClass true
  mode_eq := mode_endClass true
  current_eq := h.current_eq
  groups_eq := h.groups_eq
  size_eq := (size_sprout f .epsilon true).trans (congrArg (· + 1) h.size_eq)
  accepting_iff := by
    intro s
    have hsprout : (f.endClass true).automaton.isAccepting s
        = if s = f.states.size then true else f.automaton.isAccepting s :=
      isAccepting_sprout f .epsilon true s
    have hsize : (f.endClass true).states.size = f.states.size + 1 := size_sprout f .epsilon true
    have hless := h.size_eq
    rw [hsprout, hsize]
    by_cases hs : s = f.states.size
    · simp only [if_pos hs, true_iff]
      exact Or.inr (by omega)
    · rw [if_neg hs, h.accepting_iff]
      exact or_congr_right (by omega)
  mem_targets := by
    intro s t x
    have hsprout : t ∈ (f.endClass true).automaton.targets s x ↔ _ :=
      @mem_targets_sprout f h.sound.current_lt .epsilon true s x t
    have hsize : f.states.size = d.states.size + 1 + members.length := h.size_eq
    rw [hsprout, h.mem_targets, h.current_eq, hsize, or_assoc, ← and_or_left]
    simp only [Bool.false_eq_true, false_and, or_false, true_and]

theorem Sound.drawn (hd : d.Sound) (h : d.mode = .plain) (negated : Bool)
    (hmembers : ∀ c ∈ members, c ≠ ']') :
    d.Drawn negated members (d.drawClass negated members) := by
  have henter := hd.entersClass h negated
  have hfan := henter.sound.fanned_readAll henter.mode_eq hmembers
  obtain ⟨-, hcurrent, hgroups⟩ := readAll_members henter.mode_eq hmembers
  have hplain := hfan.drawn henter hd (henter.sound.readAll members) hcurrent hgroups
  cases negated with
  | false => exact hplain
  | true => exact hplain.bypass

/-- A class is drawn, and its `]` is read after it. -/
theorem settle_readAll_drawClass (hd : d.Sound) (h : d.mode = .plain)
    (hmembers : ∀ c ∈ members, c ≠ ']') (hcaret : negated = false → members.head? ≠ some '^')
    {rest : List Char} (hrest : ∀ c, rest.head? = some c → c = ']') :
    (d.readAll ((classOpening negated).toList ++ members ++ rest)).settle
      = ((d.drawClass negated members).readAll rest).settle := by
  have henter := hd.entersClass h negated
  have hmode := (readAll_members henter.mode_eq hmembers).1
  have hopen : (d.readAll ((classOpening negated).toList ++ members ++ rest)).settle
      = ((d.enterClass negated).readAll (members ++ rest)).settle := by
    rw [List.append_assoc, readAll_append]
    cases negated with
    | true => rfl
    | false =>
      have hhead : (members ++ rest).head? ≠ some '^' := by
        cases members with
        | nil =>
          intro hhead
          exact absurd (hrest '^' hhead) (by decide)
        | cons c more => exact hcaret rfl
      have hclass : (d.read '[').mode = .classStart := by rw [read_open h]
      exact settle_readAll_classStart hclass hhead
  rw [hopen, readAll_append, settle_readAll_endClass hmode hrest]
  rfl

end Draft

theorem settle_class {u S v : String} (hu : EndsOutside u.toList) (hS : ']' ∉ S.toList)
    (negated : Bool) (hcaret : negated = false → S.toList.head? ≠ some '^')
    (hv : v = "" ∨ v.toList.head? = some ']') :
    (Draft.fresh.readAll (u ++ classOpening negated ++ S ++ v).toList).settle
      = (((Draft.fresh.readAll u.toList).drawClass negated S.toList).readAll v.toList).settle := by
  have hmembers : ∀ c ∈ S.toList, c ≠ ']' := fun c hc => ne_of_mem_of_not_mem hc hS
  have hbracket : ∀ c, v.toList.head? = some c → c = ']' := by
    rintro c hc
    rcases hv with rfl | hv
    · cases hc
    · exact Option.some.inj (hc.symm.trans hv)
  have hclass := Draft.settle_readAll_drawClass (Draft.sound_fresh.readAll u.toList)
    ((Draft.mode_readAll_iff u.toList).2 hu) hmembers hcaret hbracket
  rw [← hclass]
  simp only [String.toList_append, Draft.readAll_append]

/-! ## A lone class -/

/-- An edge with the symbol leads on from the head of the class, if a `]` follows it. -/
def LeadsOn (negated : Bool) (members : List Char) (x : Symbol) : Prop :=
  (∃ c, (c ∈ members ∨ c = ']') ∧ x = .char c) ∨ (negated = true ∧ x = .epsilon)

/-- The automaton of a class with nothing before it and a `]` after it. Its head is the state 1, and
the states after that one lead nowhere. -/
structure LoneClass (negated : Bool) (members : List Char) (a : Automaton) : Prop where
  start_eq : a.start = Draft.root
  mem_root {t : Nat} {x : Symbol} : t ∈ a.targets Draft.root x ↔ x = .epsilon ∧ t = 1
  mem_head {t : Nat} {x : Symbol} : t ∈ a.targets 1 x → 1 < t ∧ LeadsOn negated members x
  exists_head {x : Symbol} : LeadsOn negated members x → ∃ t, t ∈ a.targets 1 x
  leaf {s t : Nat} {x : Symbol} : 1 < s → t ∉ a.targets s x
  accepting_iff (s : Nat) : a.isAccepting s = true ↔ s ≠ 1 ∧ s < a.size

namespace Draft

section

variable {d : Draft} {negated : Bool} {members : List Char} (h : fresh.Drawn negated members d)

include h

/-- The `]` after a class is a literal, and hangs on the head as well. -/
theorem Drawn.states_bracket : (d.read ']').states = (d.sprout (.char ']') true).states := by
  simp only [Draft.read, interpret, h.mode_eq]
  rfl

theorem Drawn.mem_targets_bracket {s t : Nat} {x : Symbol} :
    t ∈ (d.read ']').automaton.targets s x
      ↔ (s = root ∧ x = .epsilon ∧ t = 1)
        ∨ (s = 1 ∧ ((∃ i c, members[i]? = some c ∧ x = .char c ∧ t = 2 + i)
          ∨ (negated = true ∧ x = .epsilon ∧ t = 2 + members.length)
          ∨ (x = .char ']' ∧ t = d.states.size))) := by
  have hhead : d.current = 1 := h.current_eq
  have hfresh : fresh.states.size = 1 := rfl
  rw [automaton_of_states h.states_bracket, mem_targets_sprout h.sound.current_lt, h.mem_targets,
    hhead, or_iff_right not_mem_targets_fresh, hfresh, or_assoc, ← and_or_left, or_assoc]
  exact Iff.rfl

theorem Drawn.accepting_bracket (s : Nat) : (d.read ']').automaton.isAccepting s = true
    ↔ s ≠ 1 ∧ s < (d.read ']').automaton.size := by
  have hroot : fresh.automaton.isAccepting s = true ↔ s = root := by
    constructor
    · exact fun haccepting => Nat.lt_one_iff.1 (Automaton.lt_size_of_isAccepting haccepting)
    · rintro rfl
      rfl
  have hfresh : fresh.states.size = 1 := rfl
  have hsize : (d.read ']').automaton.size = d.states.size + 1 :=
    (congrArg Array.size h.states_bracket).trans (size_sprout d _ true)
  have htwo := h.size_eq
  rw [hsize, automaton_of_states h.states_bracket, isAccepting_sprout]
  by_cases hs : s = d.states.size
  · simp only [if_pos hs, true_iff]
    omega
  · rw [if_neg hs, h.accepting_iff, hroot, hfresh]
    unfold root
    omega

theorem Drawn.loneClass : LoneClass negated members (d.read ']').automaton where
  start_eq := rfl
  mem_root := by
    intro t x
    rw [h.mem_targets_bracket, or_iff_left fun hone => absurd hone.1 (by decide), and_iff_right rfl]
  mem_head := by
    intro t x ht
    have hedge := h.mem_targets_bracket.1 ht
    rcases hedge.resolve_left fun hroot => absurd hroot.1 (by decide) with
      ⟨-, ⟨i, c, hi, rfl, rfl⟩ | ⟨hnegated, rfl, rfl⟩ | ⟨rfl, rfl⟩⟩
    · exact ⟨by omega, Or.inl ⟨c, Or.inl (List.mem_of_getElem? hi), rfl⟩⟩
    · exact ⟨by omega, Or.inr ⟨hnegated, rfl⟩⟩
    · have hhead : d.current = 1 := h.current_eq
      exact ⟨hhead ▸ h.sound.current_lt, Or.inl ⟨']', Or.inr rfl, rfl⟩⟩
  exists_head := by
    rintro x (⟨c, hc | rfl, rfl⟩ | ⟨hnegated, rfl⟩)
    · obtain ⟨i, hi⟩ := List.getElem?_of_mem hc
      exact ⟨_, h.mem_targets_bracket.2 (Or.inr ⟨rfl, Or.inl ⟨i, c, hi, rfl, rfl⟩⟩)⟩
    · exact ⟨_, h.mem_targets_bracket.2 (Or.inr ⟨rfl, Or.inr (Or.inr ⟨rfl, rfl⟩)⟩)⟩
    · exact ⟨_, h.mem_targets_bracket.2 (Or.inr ⟨rfl, Or.inr (Or.inl ⟨hnegated, rfl, rfl⟩)⟩)⟩
  leaf := by
    intro s t x hs ht
    rcases h.mem_targets_bracket.1 ht with ⟨rfl, -⟩ | ⟨rfl, -⟩
    · exact absurd hs (by decide)
    · exact absurd hs (by decide)
  accepting_iff := h.accepting_bracket

end

end Draft

theorem exists_loneClass {S : String} (hS : ']' ∉ S.toList) (negated : Bool)
    (hcaret : negated = false → S.toList.head? ≠ some '^') (simulation : Simulation) :
    ∃ a, compile (classOpening negated ++ S ++ "]") simulation = .ok a
      ∧ a.simulation = simulation ∧ LoneClass negated S.toList a := by
  have hmembers : ∀ c ∈ S.toList, c ≠ ']' := fun c hc => ne_of_mem_of_not_mem hc hS
  have hdrawn := Draft.sound_fresh.drawn rfl negated hmembers
  have hmode : ((Draft.fresh.drawClass negated S.toList).read ']').mode = .plain := by
    rw [Draft.mode_read_of_plain hdrawn.mode_eq]
    rfl
  have hempty : EndsOutside "".toList := (Draft.mode_readAll_iff _).1 rfl
  have hsettle : (Draft.fresh.readAll (classOpening negated ++ S ++ "]").toList).settle
      = (Draft.fresh.drawClass negated S.toList).read ']' := by
    have hclass := settle_class (v := "]") hempty hS negated hcaret (Or.inr rfl)
    rw [String.empty_append] at hclass
    exact hclass.trans (Draft.settle_of_plain hmode)
  obtain ⟨a, ha⟩ : ∃ a, compile (classOpening negated ++ S ++ "]") simulation = .ok a := by
    rw [exists_compile_eq_ok, ← Draft.pending_settle_iff, hsettle]
    exact Draft.not_pending_of_plain hmode
  refine ⟨a, ha, (compile_eq_ok.1 ha).2.2, ?_⟩
  rw [compile_eq_settle ha, hsettle]
  have hlone := hdrawn.loneClass
  exact ⟨rfl, hlone.mem_root, hlone.mem_head, hlone.exists_head, hlone.leaf, hlone.accepting_iff⟩

/-! ## What two edges spell -/

theorem Simulation.spells_nil {simulation : Simulation} {cs : List Char} :
    simulation.Spells [] cs ↔ cs = [] := by
  cases simulation with
  | singleHop => exact List.forall₂_nil_left_iff
  | closure => exact eq_comm

theorem takes_pair {e f : Edge} {cs : List Char} : List.Forall₂ Edge.Takes [e, f] cs
    ↔ ∃ c c', cs = [c, c'] ∧ e.Takes c ∧ f.Takes c' := by
  rw [List.forall₂_cons_left_iff]
  constructor
  · rintro ⟨c, rest, he, hrest, rfl⟩
    obtain ⟨c', more, hf, hmore, rfl⟩ := List.forall₂_cons_left_iff.1 hrest
    obtain rfl := List.forall₂_nil_left_iff.1 hmore
    exact ⟨c, c', rfl, he, hf⟩
  · rintro ⟨c, c', rfl, he, hf⟩
    exact ⟨c, [c'], he, .cons hf .nil, rfl⟩

namespace LoneClass

variable {a : Automaton} {negated : Bool} {members : List Char}

/-- A walk that ends in a state that accepts takes no edge, or one to the head and one from it. -/
theorem isMatch_iff (h : LoneClass negated members a) (hrange : a.InRange) {input : String} :
    a.isMatch input = true ↔ input.toList = []
      ∨ ∃ e f, e.symbol = .epsilon ∧ LeadsOn negated members f.symbol
        ∧ a.simulation.Spells [e, f] input.toList := by
  rw [Automaton.isMatch_iff_exists_walk hrange, h.start_eq]
  constructor
  · rintro ⟨es, q, hwalk, hspells, haccepting⟩
    cases hwalk with
    | stay => exact Or.inl (Simulation.spells_nil.1 hspells)
    | @go _ _ e _ he hrest =>
      obtain ⟨hsymbol, htarget⟩ := h.mem_root.1 he.mem_targets
      rw [htarget] at hrest
      cases hrest with
      | stay => exact absurd rfl ((h.accepting_iff 1).1 haccepting).1
      | @go _ _ f _ hf hlast =>
        obtain ⟨hlt, hleads⟩ := h.mem_head hf.mem_targets
        cases hlast with
        | stay => exact Or.inr ⟨e, f, hsymbol, hleads, hspells⟩
        | go hleaf => exact absurd hleaf.mem_targets (h.leaf hlt)
  · rintro (hempty | ⟨e, f, he, hf, hspells⟩)
    · have hroot : a.isAccepting Draft.root = true :=
        (h.accepting_iff _).2 ⟨by decide, h.start_eq ▸ hrange.start_lt⟩
      exact ⟨[], _, .stay _, Simulation.spells_nil.2 hempty, hroot⟩
    · obtain ⟨e', he', hsymbol, htarget⟩ := Automaton.exists_hasEdge (h.mem_root.2 ⟨he, rfl⟩)
      obtain ⟨t, ht⟩ := h.exists_head hf
      obtain ⟨f', hf', hsymbol', rfl⟩ := Automaton.exists_hasEdge ht
      have halike : Alike [e, f] [e', f'] := .cons hsymbol.symm (.cons hsymbol'.symm .nil)
      have haccepting : a.isAccepting f'.target = true :=
        (h.accepting_iff _).2 ⟨Nat.ne_of_gt (h.mem_head ht).1, hrange.target_lt ht⟩
      exact ⟨[e', f'], _, .go he' (htarget ▸ hf'.walk), hspells.of_alike halike, haccepting⟩

/-- A single hop run takes the epsilon edge to the head over the first character. -/
theorem isMatch_singleHop (h : LoneClass negated members a) (hrange : a.InRange)
    (hsimulation : a.simulation = .singleHop) {input : String} :
    a.isMatch input = true ↔ input.toList = []
      ∨ ∃ c c', input.toList = [c, c'] ∧ (negated = true ∨ c' ∈ members ∨ c' = ']') := by
  rw [h.isMatch_iff hrange, hsimulation]
  refine or_congr_right ?_
  constructor
  · rintro ⟨e, f, -, hf, hspells⟩
    obtain ⟨c, c', hinput, -, htakes⟩ := takes_pair.1 hspells
    refine ⟨c, c', hinput, ?_⟩
    rcases hf with ⟨c'', hc, hsymbol⟩ | ⟨hnegated, -⟩
    · rcases htakes with hchar | hepsilon
      · obtain rfl := Symbol.char.inj (hsymbol.symm.trans hchar)
        exact Or.inr hc
      · exact Symbol.noConfusion (hsymbol.symm.trans hepsilon)
    · exact Or.inl hnegated
  · rintro ⟨c, c', hinput, hcase⟩
    obtain ⟨x, hleads, hx⟩ :
        ∃ x, LeadsOn negated members x ∧ (x = .char c' ∨ x = .epsilon) := by
      rcases hcase with hnegated | hc
      · exact ⟨.epsilon, Or.inr ⟨hnegated, rfl⟩, Or.inr rfl⟩
      · exact ⟨.char c', Or.inl ⟨c', hc, rfl⟩, Or.inl rfl⟩
    exact ⟨⟨0, .epsilon, 1⟩, ⟨0, x, 2⟩, rfl, hleads, takes_pair.2 ⟨c, c', hinput, Or.inr rfl, hx⟩⟩

/-- A closure run takes epsilon edges over nothing, so the way past the members adds no input. -/
theorem isMatch_closure (h : LoneClass negated members a) (hrange : a.InRange)
    (hsimulation : a.simulation = .closure) {input : String} :
    a.isMatch input = true ↔ input.toList = []
      ∨ ∃ c, input.toList = [c] ∧ (c ∈ members ∨ c = ']') := by
  rw [h.isMatch_iff hrange, hsimulation]
  constructor
  · rintro (hempty | ⟨e, f, he, hf, hspells⟩)
    · exact Or.inl hempty
    · have hletters : letters [e, f] = input.toList := hspells
      rw [letters_cons_epsilon he] at hletters
      rcases hf with ⟨c, hc, hsymbol⟩ | ⟨-, hsymbol⟩
      · rw [letters_cons_char hsymbol] at hletters
        exact Or.inr ⟨c, hletters.symm, hc⟩
      · rw [letters_cons_epsilon hsymbol] at hletters
        exact Or.inl hletters.symm
  · rintro (hempty | ⟨c, hinput, hc⟩)
    · exact Or.inl hempty
    · exact Or.inr ⟨⟨0, .epsilon, 1⟩, ⟨0, .char c, 2⟩, rfl, Or.inl ⟨c, hc, rfl⟩, hinput.symm⟩

end LoneClass

section

variable {S : String} (hS : ']' ∉ S.toList) (negated : Bool)
variable (hcaret : negated = false → S.toList.head? ≠ some '^')

include hS hcaret

theorem exists_lone_singleHop : ∃ a, compile (classOpening negated ++ S ++ "]") .singleHop = .ok a
    ∧ ∀ input : String, a.isMatch input = true ↔ input = ""
      ∨ ∃ c c', input.toList = [c, c'] ∧ (negated = true ∨ c' ∈ S.toList ∨ c' = ']') := by
  obtain ⟨a, ha, hsimulation, hlone⟩ := exists_loneClass hS negated hcaret .singleHop
  refine ⟨a, ha, ?_⟩
  intro input
  rw [hlone.isMatch_singleHop (compile_inRange ha) hsimulation, String.toList_eq_nil_iff]

theorem exists_lone_closure : ∃ a, compile (classOpening negated ++ S ++ "]") .closure = .ok a
    ∧ ∀ input : String, a.isMatch input = true ↔ input = ""
      ∨ ∃ c, input.toList = [c] ∧ (c ∈ S.toList ∨ c = ']') := by
  obtain ⟨a, ha, hsimulation, hlone⟩ := exists_loneClass hS negated hcaret .closure
  refine ⟨a, ha, ?_⟩
  intro input
  rw [hlone.isMatch_closure (compile_inRange ha) hsimulation, String.toList_eq_nil_iff]

end

/-! ## The law -/

/-- A class that is a pattern by itself, its `]` included, compiles. It accepts the empty input, and
a closure run accepts, besides, the members and the `]`, each by itself, and no other input. To
negate the class changes nothing of that. A single hop run takes one character more, whatever it is,
before a member or the `]`, and where the class is negated before any character. -/
theorem a_lone_class_reads_a_member_or_its_bracket {S : String} (hS : ']' ∉ S.toList) :
    (∃ a, compile ("[^" ++ S ++ "]") .singleHop = .ok a
      ∧ ∀ input : String, a.isMatch input = true ↔ input.length = 0 ∨ input.length = 2)
    ∧ (∃ a, compile ("[^" ++ S ++ "]") .closure = .ok a
      ∧ ∀ input : String, a.isMatch input = true
        ↔ input = "" ∨ ∃ c, input.toList = [c] ∧ (c ∈ S.toList ∨ c = ']'))
    ∧ (S.toList.head? ≠ some '^' →
      (∃ a, compile ("[" ++ S ++ "]") .singleHop = .ok a
        ∧ ∀ input : String, a.isMatch input = true
          ↔ input = "" ∨ ∃ c c', input.toList = [c, c'] ∧ (c' ∈ S.toList ∨ c' = ']'))
      ∧ ∃ a, compile ("[" ++ S ++ "]") .closure = .ok a
        ∧ ∀ input : String, a.isMatch input = true
          ↔ input = "" ∨ ∃ c, input.toList = [c] ∧ (c ∈ S.toList ∨ c = ']')) := by
  have hnegated : true = false → S.toList.head? ≠ some '^' := fun h => Bool.noConfusion h
  refine ⟨?_, exists_lone_closure hS true hnegated, ?_⟩
  · obtain ⟨a, ha, hmatch⟩ := exists_lone_singleHop hS true hnegated
    refine ⟨a, ha, ?_⟩
    intro input
    rw [hmatch, String.length_eq_zero_iff, ← String.length_toList, List.length_eq_two]
    simp only [true_or, and_true]
  · intro hcaret
    refine ⟨?_, exists_lone_closure hS false fun _ => hcaret⟩
    obtain ⟨a, ha, hmatch⟩ := exists_lone_singleHop hS false fun _ => hcaret
    refine ⟨a, ha, ?_⟩
    intro input
    rw [hmatch]
    simp only [Bool.false_eq_true, false_or]

/-- The members are a letter twice, a parenthesis, a star, a backslash, a caret and a `[`. -/
theorem a_lone_class_of_characters_that_mean_something_elsewhere :
    ']' ∉ "a(*a\\^[".toList ∧ "a(*a\\^[".toList.head? ≠ some '^'
    ∧ (∃ a, compile "[a(*a\\^[]" .singleHop = .ok a ∧ a.isMatch "x^" = true ∧ a.isMatch "x" = false)
    ∧ (∃ a, compile "[^a(*a\\^[]" .singleHop = .ok a ∧ a.isMatch "xx" = true)
    ∧ ∃ a, compile "[^a(*a\\^[]" .closure = .ok a
      ∧ a.isMatch "\\" = true ∧ a.isMatch "x" = false := by
  have hS : ']' ∉ "a(*a\\^[".toList := by decide
  have hcaret : "a(*a\\^[".toList.head? ≠ some '^' := by decide
  obtain ⟨⟨a, ha, hhop⟩, ⟨b, hb, hclosure⟩, hplain⟩ := a_lone_class_reads_a_member_or_its_bracket hS
  obtain ⟨⟨c, hc, hplainhop⟩, -⟩ := hplain hcaret
  refine ⟨hS, hcaret, ⟨c, hc, ?_, ?_⟩, ⟨a, ha, (hhop _).2 (Or.inr rfl)⟩, b, hb, ?_, ?_⟩
  · exact (hplainhop _).2 (Or.inr ⟨'x', '^', rfl, Or.inl (by decide)⟩)
  · rw [Bool.eq_false_iff, Ne, hplainhop]
    simp
  · exact (hclosure _).2 (Or.inr ⟨'\\', rfl, Or.inl (by decide)⟩)
  · rw [Bool.eq_false_iff, Ne, hclosure]
    simp

end PatternNFA
