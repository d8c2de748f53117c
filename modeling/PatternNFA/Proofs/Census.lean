-- How many states and edges a pattern has. A state is made together with the edge that leads to it,
-- and only a quantifier draws edges between states that stand already. Only the head of a class
-- rejects. So the states, the edges and the heads can be counted from the tokens of the pattern.
import Mathlib.Algebra.BigOperators.Group.Finset.Basic
import PatternNFA.Proofs.Acceptance
import PatternNFA.Proofs.Blueprints

namespace PatternNFA

/-! ## Edges in a blueprint -/

namespace Blueprint

variable {b : Blueprint} {source target : Nat} {symbol : Symbol}

/-- How many edges leave the states, parallel edges counted. -/
def edgeCount (b : Blueprint) : Nat := ∑ s ∈ Finset.range b.size, (b.log s).length

/-- No edge leaves a number without a state. -/
def Tight (b : Blueprint) : Prop := ∀ s, b.size ≤ s → b.log s = []

theorem Tight.add (h : b.Tight) (accepting : Bool) : (b.add accepting).Tight := by
  intro s hs
  rw [size_add] at hs
  exact h s (Nat.le_of_succ_le hs)

theorem Tight.join (h : b.Tight) (hsource : source < b.size) (symbol : Symbol) (target : Nat) :
    (b.join source symbol target).Tight := by
  intro s hs
  rw [size_join] at hs
  rw [log_join_of_ne b (Nat.ne_of_gt (Nat.lt_of_lt_of_le hsource hs))]
  exact h s hs

theorem lt_size_add (hsource : source < b.size) (accepting : Bool) :
    source < (b.add accepting).size := by
  rw [size_add]
  exact Nat.lt_succ_of_lt hsource

theorem Tight.grow (h : b.Tight) (hsource : source < b.size) (symbol : Symbol)
    (accepting : Bool) : (b.grow source symbol accepting).Tight :=
  (h.add accepting).join (lt_size_add hsource accepting) symbol b.size

theorem edgeCount_join (hsource : source < b.size) (symbol : Symbol) (target : Nat) :
    (b.join source symbol target).edgeCount = b.edgeCount + 1 := by
  have hmem : source ∈ Finset.range b.size := Finset.mem_range.2 hsource
  have hothers : ∑ s ∈ (Finset.range b.size).erase source,
      ((b.join source symbol target).log s).length
        = ∑ s ∈ (Finset.range b.size).erase source, (b.log s).length := by
    apply Finset.sum_congr rfl
    intro s hs
    rw [log_join_of_ne b (Finset.ne_of_mem_erase hs)]
  rw [edgeCount, edgeCount, size_join, ← Finset.add_sum_erase _ _ hmem, hothers, log_join_self,
    List.length_append, List.length_singleton, ← Finset.add_sum_erase (Finset.range b.size) _ hmem]
  exact Nat.add_right_comm ..

/-- A state that has just been added has no edges. -/
theorem edgeCount_add (h : b.Tight) (accepting : Bool) :
    (b.add accepting).edgeCount = b.edgeCount := by
  have hnewest : ((b.add accepting).log b.size).length = 0 :=
    congrArg List.length (h b.size (Nat.le_refl _))
  rw [edgeCount, size_add, Finset.sum_range_succ, hnewest]
  rfl

theorem edgeCount_grow (h : b.Tight) (hsource : source < b.size) (symbol : Symbol)
    (accepting : Bool) : (b.grow source symbol accepting).edgeCount = b.edgeCount + 1 := by
  rw [grow, edgeCount_join (lt_size_add hsource accepting), edgeCount_add h]

theorem Tight.foldl_grow (h : b.Tight) (hsource : source < b.size) (members : List Char) :
    (members.foldl (fun b c => b.grow source (.char c) true) b).Tight := by
  induction members generalizing b with
  | nil => exact h
  | cons c rest ih => exact ih (h.grow hsource (.char c) true) (lt_size_add hsource true)

theorem edgeCount_foldl_grow (h : b.Tight) (hsource : source < b.size) (members : List Char) :
    (members.foldl (fun b c => b.grow source (.char c) true) b).edgeCount
      = b.edgeCount + members.length := by
  induction members generalizing b with
  | nil => rfl
  | cons c rest ih =>
    have hrest := ih (h.grow hsource (.char c) true) (lt_size_add hsource true)
    rw [List.foldl_cons, hrest, edgeCount_grow h hsource, List.length_cons]
    omega

theorem lt_size_foldl_grow (hsource : source < b.size) (members : List Char) :
    source < (members.foldl (fun b c => b.grow source (.char c) true) b).size := by
  rw [size, flags_foldl_grow, List.length_append]
  exact Nat.lt_add_right _ hsource

/-- What the head of a class leads to is new, each state with its edge. -/
theorem edgeCount_fill (h : b.Tight) {head : Nat} (hhead : head < b.size) (negated : Bool)
    (members : List Char) : (b.fill head negated members).edgeCount
      = b.edgeCount + (members.length + negated.toNat) := by
  have hmembers := edgeCount_foldl_grow h hhead members
  unfold fill
  cases negated with
  | false => exact hmembers
  | true =>
    have hlt := lt_size_foldl_grow hhead members
    have hbypass := edgeCount_grow (h.foldl_grow hhead members) hlt .epsilon true
    rw [hmembers] at hbypass
    exact hbypass

end Blueprint

/-! ## Edges and states of a token -/

namespace Token

/-- How many edges a token draws between states that stand already. -/
def ties : Token → Nat
  | .optional => 2
  | .plus => 1
  | .star => 1
  | _ => 0

def isEscape : Token → Bool
  | .escape _ => true
  | _ => false

def isClass : Token → Bool
  | .charClass _ _ => true
  | _ => false

/-- A character makes a state, but for a quantifier, a `)` and the backslash of an escape. -/
theorem length_flags_add (token : Token) :
    token.flags.length + ([token].count .optional + [token].count .plus + [token].count .star
        + [token].count .closeGroup + [token].countP isEscape)
      = token.spelling.length := by
  cases token with
  | charClass negated members =>
    cases negated <;> simp [flags, spelling, isEscape, Nat.add_comm]
  | _ => rfl

theorem length_flags_tokens (ts : List Token) :
    (ts.flatMap flags).length + (ts.count .optional + ts.count .plus + ts.count .star
        + ts.count .closeGroup + ts.countP isEscape)
      = (ts.flatMap spelling).length := by
  induction ts with
  | nil => rfl
  | cons token ts ih =>
    have hfirst := token.length_flags_add
    rw [List.flatMap_cons, List.flatMap_cons, List.length_append, List.length_append,
      ← List.singleton_append]
    simp only [List.count_append, List.countP_append]
    omega

theorem sum_ties (ts : List Token) :
    (ts.map ties).sum = 2 * ts.count .optional + ts.count .plus + ts.count .star := by
  induction ts with
  | nil => rfl
  | cons token ts ih =>
    have hfirst : token.ties
        = 2 * [token].count .optional + [token].count .plus + [token].count .star := by
      cases token <;> rfl
    rw [List.map_cons, List.sum_cons, ih, hfirst, ← List.singleton_append (l := ts)]
    simp only [List.count_append]
    omega

/-- Only the head of a class rejects. -/
theorem count_false_flags (ts : List Token) :
    (ts.flatMap flags).count false = ts.countP isClass := by
  induction ts with
  | nil => rfl
  | cons token ts ih =>
    have hfirst : token.flags.count false = [token].countP isClass := by
      cases token with
      | charClass negated members => simp [flags, isClass, List.count_replicate]
      | _ => rfl
    rw [List.flatMap_cons, List.count_append, ih, hfirst, ← List.singleton_append (l := ts),
      List.countP_append]

end Token

namespace Draft

variable {d : Draft} {k : Construction}

theorem Follows.edgeCount_lay (h : d.Follows k) (token : Token) :
    (k.lay token).blueprint.edgeCount
      = k.blueprint.edgeCount + token.flags.length + token.ties := by
  have htight : k.blueprint.Tight := h.shows.log_eq
  have hcurrent : k.current < k.blueprint.size := by
    rw [← h.current_eq, ← h.size_eq]
    exact h.sound.current_lt
  have htop : k.top < k.blueprint.size := by
    rw [← h.entry_eq, ← h.size_eq]
    exact h.sound.entry_lt
  cases token with
  | closeGroup => rw [Construction.blueprint_lay_closeGroup]; rfl
  | optional =>
    have hforth := Blueprint.edgeCount_join htop .epsilon k.current
    have hback := Blueprint.edgeCount_join (b := k.blueprint.join k.top .epsilon k.current)
      hcurrent .epsilon k.top
    rw [hforth] at hback
    exact hback
  | plus => exact Blueprint.edgeCount_join hcurrent .epsilon k.top
  | star => exact Blueprint.edgeCount_join htop .epsilon k.current
  | charClass negated members =>
    have hhead : k.blueprint.size < (k.blueprint.add false).size := by
      rw [Blueprint.size_add]
      exact Nat.lt_succ_self _
    have hfill := Blueprint.edgeCount_fill (htight.add false) hhead negated members
    have hlt : k.current
        < ((k.blueprint.add false).fill k.blueprint.size negated members).size := by
      rw [Blueprint.size, Blueprint.flags_fill, List.length_append]
      exact Nat.lt_add_right _ (Nat.lt_trans hcurrent hhead)
    have hjoin := Blueprint.edgeCount_join hlt .epsilon k.blueprint.size
    rw [hfill, Blueprint.edgeCount_add htight] at hjoin
    rw [Token.flags, List.length_cons, List.length_replicate]
    exact hjoin
  | _ => exact Blueprint.edgeCount_grow htight hcurrent _ true

/-- A state comes with an edge, and a tie comes without a state. -/
theorem Follows.edgeCount_foldl_lay (h : d.Follows k) {cs : List Char} {ts : List Token}
    (htokens : tokens cs = some ts) : (ts.foldl Construction.lay k).blueprint.edgeCount
      = k.blueprint.edgeCount + (ts.flatMap Token.flags).length + (ts.map Token.ties).sum := by
  fun_induction tokens cs generalizing d k ts with
  | case1 =>
    cases htokens
    rfl
  | case2 c cs hnone => cases htokens
  | case3 c cs token rest hnext ih =>
    obtain ⟨more, hmore, rfl⟩ := Option.map_eq_some_iff.1 htokens
    obtain ⟨e, he, -⟩ := h.next hnext
    have hfirst := h.edgeCount_lay token
    have hrest := ih he hmore
    rw [List.foldl_cons, hrest, hfirst, List.flatMap_cons, List.length_append, List.map_cons,
      List.sum_cons]
    omega

/-! ## The heads of classes -/

variable {e : Draft}

theorem rejects_sprout_of_rejects {s : Nat} (hs : d.Rejects s) (symbol : Symbol)
    (accepting : Bool) : (d.sprout symbol accepting).Rejects s := by
  obtain ⟨hlt, hrejects⟩ := hs
  refine ⟨?_, ?_⟩
  · rw [size_sprout]
    exact Nat.lt_succ_of_lt hlt
  · rw [isAccepting_sprout, if_neg (Nat.ne_of_lt hlt)]
    exact hrejects

theorem Thrives.keeps_rejects (h : d.Thrives e) {s : Nat} (hs : d.Rejects s) : e.Rejects s := by
  induction h with
  | move hstates => exact rejects_of_states hstates.symm hs
  | tie _ =>
    unfold Rejects
    rw [size_link, isAccepting_link]
    exact hs
  | sprout symbol _ => exact rejects_sprout_of_rejects hs symbol true
  | trans _ _ ih₁ ih₂ => exact ih₂ (ih₁ hs)

/-- What rejects does so whatever is read after it. -/
theorem Sound.rejects_readAll (h : d.Sound) {s : Nat} (hs : d.Rejects s) (cs : List Char) :
    (d.readAll cs).Rejects s := by
  induction cs generalizing d with
  | nil => exact hs
  | cons c cs ih =>
    apply ih (h.read c)
    rcases h.read_cases c with ⟨-, -, hopen⟩ | hthrives
    · exact rejects_of_states hopen.symm (rejects_sprout_of_rejects hs .epsilon false)
    · exact hthrives.keeps_rejects hs

theorem rejects_read_open (hmode : d.mode = .plain) : (d.read '[').Rejects d.states.size := by
  have hstates : (d.read '[').states = (d.sprout .epsilon false).states := by
    rw [read_open hmode]
    rfl
  apply rejects_of_states hstates.symm
  refine ⟨?_, ?_⟩
  · rw [size_sprout]
    exact Nat.lt_succ_self _
  · rw [isAccepting_sprout, if_pos rfl]

/-- The head of a class rejects in every draft that has read on from the `[`. -/
theorem rejects_readAll_of_opens {before more : List Char} (houtside : EndsOutside before) :
    (fresh.readAll (before ++ '[' :: more)).Rejects (fresh.readAll before).states.size := by
  have hmode := (mode_readAll_iff before).2 houtside
  rw [readAll_append, readAll_cons]
  exact ((sound_fresh.readAll before).read '[').rejects_readAll (rejects_read_open hmode) more

end Draft

section

variable {pattern : String} {simulation : Simulation} {a : Automaton}

/-- A state rejects if it is the head of a class, and for no other reason. -/
theorem compile_rejects_iff (h : compile pattern simulation = .ok a) {q : Nat} :
    (q < a.size ∧ a.isAccepting q = false) ↔ ClassHead pattern.toList q := by
  constructor
  · rintro ⟨hq, hrejects⟩
    exact compile_classHead h hq hrejects
  · rintro ⟨before, ⟨⟨after, hafter⟩, houtside⟩, rfl⟩
    have hsound := Draft.sound_fresh.readAll pattern.toList
    have hhead := @Draft.rejects_readAll_of_opens before after houtside
    rw [← hafter] at hhead
    rw [compile_eq_settle h]
    exact hsound.thrives_settle.keeps_rejects hhead

end

theorem OpensClass.size_lt {cs before more : List Char} (h : OpensClass cs before)
    (h' : OpensClass cs (before ++ more)) (hne : more ≠ []) :
    (Draft.fresh.readAll before).states.size
      < (Draft.fresh.readAll (before ++ more)).states.size := by
  obtain ⟨⟨after, hafter⟩, houtside⟩ := h
  obtain ⟨⟨after', hafter'⟩, -⟩ := h'
  cases more with
  | nil => exact absurd rfl hne
  | cons c rest =>
    -- The longer one goes on with the `[` that opens the class of the shorter one.
    have hsplit : '[' :: after = c :: (rest ++ '[' :: after') := by
      rw [hafter, List.append_assoc] at hafter'
      exact List.append_cancel_left hafter'
    obtain ⟨rfl, -⟩ := List.cons.inj hsplit
    exact (Draft.rejects_readAll_of_opens houtside).1

/-- Two classes have two heads. -/
theorem OpensClass.eq_of_size_eq {cs before before' : List Char} (h : OpensClass cs before)
    (h' : OpensClass cs before') (hsize : (Draft.fresh.readAll before).states.size
      = (Draft.fresh.readAll before').states.size) : before = before' := by
  obtain ⟨after, hafter⟩ := h.1
  obtain ⟨after', hafter'⟩ := h'.1
  have hprefix : before <+: cs := ⟨_, hafter.symm⟩
  have hprefix' : before' <+: cs := ⟨_, hafter'.symm⟩
  rcases List.prefix_or_prefix_of_prefix hprefix hprefix' with ⟨more, rfl⟩ | ⟨more, rfl⟩
  · by_contra hne
    have hmore : more ≠ [] := by
      rintro rfl
      exact hne (List.append_nil before).symm
    exact absurd hsize (Nat.ne_of_lt (h.size_lt h' hmore))
  · by_contra hne
    have hmore : more ≠ [] := by
      rintro rfl
      exact hne (List.append_nil before')
    exact absurd hsize (Nat.ne_of_gt (h'.size_lt h hmore))

/-! ## Counting in the automaton -/

namespace Blueprint

variable {b : Blueprint} {a : Automaton}

theorem Shows.sum_length_edges (h : b.Shows a.states) :
    ∑ s ∈ Finset.range a.size, (a.edges s).length = b.edgeCount := by
  rw [edgeCount, h.automaton_size]
  apply Finset.sum_congr rfl
  intro s _
  rw [h.edges_eq, (Transitions.perm_grouped (b.log s)).length_eq]

theorem Shows.countP_rejects (h : b.Shows a.states) :
    (List.range a.size).countP (fun q => !a.isAccepting q) = b.flags.count false := by
  have hflags : (List.range a.size).map a.isAccepting = b.flags := by
    apply List.ext_getElem
    · rw [List.length_map, List.length_range, h.automaton_size, size]
    · intro s _ hs
      rw [List.getElem_map, List.getElem_range, h.isAccepting_eq, List.getElem?_eq_getElem hs,
        Option.getD_some]
  rw [← hflags, List.count, List.countP_map]
  apply List.countP_congr
  intro q _
  simp

end Blueprint

section

variable {pattern : String} {simulation : Simulation} {a : Automaton} {ts : List Token}

theorem compile_size (h : compile pattern simulation = .ok a)
    (htokens : tokens pattern.toList = some ts) : a.size = 1 + (ts.flatMap Token.flags).length := by
  obtain ⟨ts', hts', hshows⟩ := compile_shows h
  obtain rfl := Option.some.inj (hts'.symm.trans htokens)
  rw [hshows.automaton_size, Blueprint.size, Construction.flags_ofTokens, List.length_cons,
    Nat.add_comm]

/-- Each state but the root comes with an edge, and the ties of the quantifiers come on top. -/
theorem compile_sum_length_edges (h : compile pattern simulation = .ok a)
    (htokens : tokens pattern.toList = some ts) :
    ∑ s ∈ Finset.range a.size, (a.edges s).length + 1 = a.size + (ts.map Token.ties).sum := by
  obtain ⟨ts', hts', hshows⟩ := compile_shows h
  obtain rfl := Option.some.inj (hts'.symm.trans htokens)
  have hedges := Draft.follows_fresh.edgeCount_foldl_lay htokens
  have hnone : Construction.empty.blueprint.edgeCount = 0 := rfl
  rw [hnone, Nat.zero_add] at hedges
  have hcount : (Construction.ofTokens ts').blueprint.edgeCount = _ := hedges
  rw [hshows.sum_length_edges, hcount, compile_size h htokens]
  omega

end

/-! ## The law -/

/-- The size of an automaton is counted from the tokens of the pattern. Each character stands for a
state, but for the quantifiers, the `)` and the backslash of each escape, and the root comes on top.
Each state but the root comes with an edge, `?` draws two more and `+` and `*` one more each. There
are as many states that reject as there are classes, and each of them is the head of one class. -/
theorem the_size_is_counted_from_the_tokens {pattern : String} {simulation : Simulation}
    {a : Automaton} (h : compile pattern simulation = .ok a) :
    ∃ ts, tokens pattern.toList = some ts
      ∧ a.size + ts.count .optional + ts.count .plus + ts.count .star + ts.count .closeGroup
          + ts.countP Token.isEscape = 1 + pattern.length
      ∧ ∑ s ∈ Finset.range a.size, (a.edges s).length + 1
          = a.size + 2 * ts.count .optional + ts.count .plus + ts.count .star
      ∧ (List.range a.size).countP (fun q => !a.isAccepting q) = ts.countP Token.isClass
      ∧ (∀ q, q < a.size ∧ a.isAccepting q = false ↔ ClassHead pattern.toList q)
      ∧ ∀ before before', OpensClass pattern.toList before → OpensClass pattern.toList before' →
          (Draft.fresh.readAll before).states.size = (Draft.fresh.readAll before').states.size →
          before = before' := by
  obtain ⟨ts, htokens, hshows⟩ := compile_shows h
  refine ⟨ts, htokens, ?_, ?_, ?_, fun q => compile_rejects_iff h, ?_⟩
  · have hlength := Token.length_flags_tokens ts
    rw [spelling_tokens htokens, String.length_toList] at hlength
    rw [compile_size h htokens]
    omega
  · rw [compile_sum_length_edges h htokens, Token.sum_ties]
    omega
  · rw [hshows.countP_rejects, Construction.flags_ofTokens, List.count_cons_of_ne (by decide),
      Token.count_false_flags]
  · intro before before' hbefore hbefore'
    exact hbefore.eq_of_size_eq hbefore'

/-- A stray `)`, a negated class without members and its `]`, a group, an escape, and a class left
open. Six of the eighteen characters make no state: the two `)`, the backslash and the quantifiers.
The `?` of the escape and the one in the last class are no quantifiers. -/
theorem the_size_of_an_unbalanced_pattern_is_counted :
    ∃ a, compile ")[^](a|\\?b?)+c*[?x" .singleHop = .ok a ∧ a.size = 13
      ∧ ∑ s ∈ Finset.range a.size, (a.edges s).length = 16
      ∧ (List.range a.size).countP (fun q => !a.isAccepting q) = 2 := by
  have hcompile : compile ")[^](a|\\?b?)+c*[?x" .singleHop = .ok _ := rfl
  obtain ⟨ts, hts, hsize, hedges, hrejects, -⟩ := the_size_is_counted_from_the_tokens hcompile
  have htokens : tokens ")[^](a|\\?b?)+c*[?x".toList = some [.closeGroup, .charClass true [],
      .literal ']', .openGroup, .literal 'a', .bar, .escape '?', .literal 'b', .optional,
      .closeGroup, .plus, .literal 'c', .star, .charClass false ['?', 'x']] := by cbv
  obtain rfl := Option.some.inj (hts.symm.trans htokens)
  have hsize13 := Nat.add_right_cancel (m := 6) (k := 13) hsize
  refine ⟨_, hcompile, hsize13, ?_, hrejects⟩
  rw [hsize13] at hedges ⊢
  exact Nat.succ.inj hedges

end PatternNFA
