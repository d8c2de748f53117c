-- A piece put into a pattern. A quantifier, an escape, and a group with all that it
-- holds leave the reader where it was before them. What follows is read as it would
-- be without the piece, over states with other numbers, so no accepted input is lost.
import PatternNFA.Proofs.Construction
import PatternNFA.Proofs.Growth
import PatternNFA.Proofs.Lockstep

namespace PatternNFA

/-! ## Self-contained pieces -/

/-- Every group that is opened among the tokens is closed among them, and no other is closed. -/
inductive Balanced : List Token → Prop
  | nil : Balanced []
  | single {token : Token} : token ≠ .openGroup → token ≠ .closeGroup → Balanced [token]
  | append {ts us : List Token} : Balanced ts → Balanced us → Balanced (ts ++ us)
  | group {ts : List Token} : Balanced ts → Balanced (.openGroup :: ts ++ [.closeGroup])

/-- A quantifier, an escape, or a group whose body ends outside a class and is balanced. -/
inductive SelfContained : List Char → Prop
  | quantifier {c : Char} : c ∈ ['?', '+', '*'] → SelfContained [c]
  | escape (c : Char) : SelfContained ['\\', c]
  | group {body : List Char} {ts : List Token} :
      EndsOutside body → tokens body = some ts → Balanced ts →
        SelfContained ('(' :: body ++ [')'])

/-! ## Where a piece leaves the reader -/

namespace Construction

theorem stack_lay_of_ne (k : Construction) {token : Token} (hopen : token ≠ .openGroup)
    (hclose : token ≠ .closeGroup) :
    (k.lay token).top = k.top ∧ (k.lay token).below = k.below := by
  cases token with
  | openGroup => exact absurd rfl hopen
  | closeGroup => exact absurd rfl hclose
  | _ => exact ⟨rfl, rfl⟩

/-- Balanced tokens give the group stack back as they have found it. -/
theorem stack_foldl_of_balanced {ts : List Token} (h : Balanced ts) (k : Construction) :
    (ts.foldl lay k).top = k.top ∧ (ts.foldl lay k).below = k.below := by
  induction h generalizing k with
  | nil => exact ⟨rfl, rfl⟩
  | single hopen hclose => exact k.stack_lay_of_ne hopen hclose
  | append _ _ ih₁ ih₂ =>
    rw [List.foldl_append, (ih₂ _).1, (ih₂ _).2]
    exact ih₁ k
  | @group ts _ ih =>
    obtain ⟨-, hbelow⟩ := ih (k.lay .openGroup)
    have hbelow : (ts.foldl lay (k.lay .openGroup)).below = k.top :: k.below := hbelow
    rw [List.cons_append, List.foldl_cons, List.foldl_append, List.foldl_cons, List.foldl_nil]
    generalize ts.foldl lay (k.lay .openGroup) = k' at hbelow
    unfold lay
    rw [hbelow]
    exact ⟨rfl, rfl⟩

end Construction

namespace Draft

variable {d e : Draft}

theorem Follows.readAll {k : Construction} (h : d.Follows k) {cs : List Char} {ts : List Token}
    (htokens : tokens cs = some ts) (hmode : (d.readAll cs).mode = .plain) :
    (d.readAll cs).Follows (ts.foldl Construction.lay k) := by
  rw [← settle_of_plain hmode]
  exact h.settle_readAll htokens

/-- A reader outside a class has read whole tokens. -/
theorem exists_follows {cs : List Char} (hmode : (fresh.readAll cs).mode = .plain) :
    ∃ k, (fresh.readAll cs).Follows k := by
  cases htokens : tokens cs with
  | none =>
    obtain ⟨error, herror⟩ := follows_fresh.finish_eq_error htokens
    simp only [finish, hmode] at herror
    cases herror
  | some ts => exact ⟨_, follows_fresh.readAll htokens hmode⟩

/-- The second draft stands where the first one stands, outside a class. -/
structure Returns (d e : Draft) : Prop where
  mode_eq : e.mode = .plain
  current_eq : e.current = d.current
  groups_eq : e.groups = d.groups

theorem returns_quantifier (h : d.mode = .plain) {c : Char} (hc : c ∈ ['?', '+', '*']) :
    d.Returns (d.read c) := by
  have hread : d.read c = { d.readPlain c with offset := d.offset + c.utf8Size } := by
    simp only [read, interpret, h]
  rw [hread]
  simp only [List.mem_cons, List.not_mem_nil, or_false] at hc
  rcases hc with rfl | rfl | rfl
  · exact ⟨h, rfl, rfl⟩
  · exact ⟨h, rfl, rfl⟩
  · exact ⟨h, rfl, rfl⟩

theorem Follows.returns_escape {k : Construction} (h : d.Follows k) (c : Char) :
    d.Returns ((d.read '\\').read c) := by
  rw [Draft.read_escape h.mode_eq]
  exact ⟨rfl, rfl, rfl⟩

theorem Follows.returns_group {k : Construction} (h : d.Follows k) {body : List Char}
    {ts : List Token} (hbody : EndsOutside body) (htokens : tokens body = some ts)
    (hts : Balanced ts) : d.Returns (d.readAll ('(' :: body ++ [')'])) := by
  have hopened : (d.read '(').Follows (k.lay .openGroup) := h.read_ofChar (by decide) (by decide)
  have hgroups : (d.read '(').groups = d.current :: d.groups := by
    simp only [read, interpret, h.mode_eq, readPlain]
  -- The body is read as it is at the beginning of a pattern.
  have hmode : ((d.read '(').readAll body).mode = .plain := by
    have hfresh := (mode_readAll_iff body).2 hbody
    have hstep : fresh.InStep (d.read '(') := Or.inl hopened.mode_eq.symm
    have hsame := (hstep.readAll body).mode_eq (not_pending_of_plain hfresh)
    exact hsame.symm.trans hfresh
  have hback : ((d.read '(').readAll body).groups = d.current :: d.groups := by
    have hstack := (hopened.readAll htokens hmode).stack_eq
    have hbalanced := Construction.stack_foldl_of_balanced hts (k.lay .openGroup)
    rw [hbalanced.1, hbalanced.2, ← hopened.stack_eq] at hstack
    exact (List.append_cancel_right hstack).trans hgroups
  rw [readAll_append, readAll_cons, readAll_cons, readAll_nil]
  generalize (d.read '(').readAll body = e at hmode hback
  have hclose : e.read ')' = { e with
      current := e.entry, groups := e.groups.tail, offset := e.offset + 1 } := by
    simp only [read, interpret, hmode, readPlain]
    rfl
  rw [hclose]
  refine ⟨hmode, ?_, ?_⟩
  · rw [entry, hback]
    rfl
  · rw [hback, List.tail_cons]

theorem Follows.returns {k : Construction} (h : d.Follows k) {x : List Char}
    (hx : SelfContained x) : d.Returns (d.readAll x) := by
  cases hx with
  | quantifier hc => exact returns_quantifier h.mode_eq hc
  | escape c => exact h.returns_escape c
  | group hbody htokens hts => exact h.returns_group hbody htokens hts

/-! ## Two readers of one rest -/

/-- The two drafts stand in the same place of the same rest of a pattern. The map leads the first
one into the second, and knows the numbers of all the states to come. -/
structure Beside (f : Nat → Nat) (d e : Draft) : Prop where
  embeds : d.automaton.Embeds f e.automaton
  current_eq : f d.current = e.current
  groups_eq : d.groups.map f = e.groups
  newest_eq : ∀ i, f (d.states.size + i) = e.states.size + i

variable {f : Nat → Nat}

theorem Beside.entry_eq (h : Beside f d e) : f d.entry = e.entry := by
  have hgroups := h.groups_eq
  unfold entry
  cases hd : d.groups with
  | nil =>
    rw [hd, List.map_nil] at hgroups
    rw [← hgroups]
    exact h.embeds.start_eq
  | cons s rest =>
    rw [hd, List.map_cons] at hgroups
    rw [← hgroups]
    rfl

theorem Beside.link (h : Beside f d e) {s t : Nat} (hs : s < d.states.size)
    (hs' : f s < e.states.size) (symbol : Symbol) :
    Beside f (d.link s symbol t) (e.link (f s) symbol (f t)) where
  embeds := h.embeds.link hs hs' symbol t
  current_eq := h.current_eq
  groups_eq := h.groups_eq
  newest_eq := by
    rw [size_link, size_link]
    exact h.newest_eq

theorem Beside.sprout (h : Beside f d e) (hd : d.Sound) (he : e.Sound) (symbol : Symbol)
    (accepting : Bool) : Beside f (d.sprout symbol accepting) (e.sprout symbol accepting) where
  embeds := h.embeds.sprout hd.current_lt he.current_lt h.current_eq (h.newest_eq 0) symbol accepting
  current_eq := h.current_eq
  groups_eq := h.groups_eq
  newest_eq := by
    intro i
    rw [size_sprout, size_sprout, Nat.add_assoc, Nat.add_assoc]
    exact h.newest_eq (1 + i)

theorem Beside.move (h : Beside f d e) {mode mode' : Mode} {offset offset' : Nat} :
    Beside f { d with mode, offset } { e with mode := mode', offset := offset' } :=
  ⟨h.embeds, h.current_eq, h.groups_eq, h.newest_eq⟩

theorem Beside.advance (h : Beside f d e) (hd : d.Sound) (he : e.Sound) (symbol : Symbol)
    (accepting : Bool) : Beside f (d.advance symbol accepting) (e.advance symbol accepting) :=
  have hsprout := h.sprout hd he symbol accepting
  ⟨hsprout.embeds, h.newest_eq 0, hsprout.groups_eq, hsprout.newest_eq⟩

/-- Two readers that stand beside each other do so whatever they read. -/
theorem lockstep_beside (f : Nat → Nat) : Lockstep (Beside f) where
  turn := fun h => h.move
  sprout := fun symbol accepting hd he h => h.sprout hd he symbol accepting
  advance := fun symbol accepting hd he h => h.advance hd he symbol accepting
  openGroup := by
    intro d e hd he h
    have hgroup := h.advance hd he .epsilon true
    exact ⟨hgroup.embeds, hgroup.current_eq, congrArg₂ List.cons h.current_eq h.groups_eq,
      hgroup.newest_eq⟩
  closeGroup := by
    intro d e _ _ h
    refine ⟨h.embeds, h.entry_eq, ?_, h.newest_eq⟩
    have htail := congrArg List.tail h.groups_eq
    rw [← List.map_tail] at htail
    exact htail
  -- The edges of the quantifiers join the entry and the current state, and the map knows both.
  forth := by
    intro d e hd he h
    have hforth := h.link (t := d.current) hd.entry_lt (h.entry_eq ▸ he.entry_lt) .epsilon
    rw [h.entry_eq, h.current_eq] at hforth
    exact hforth
  back := by
    intro d e hd he h
    have hback := h.link (t := d.entry) hd.current_lt (h.current_eq ▸ he.current_lt) .epsilon
    rw [h.entry_eq, h.current_eq] at hback
    exact hback

/-- The states keep their numbers, and those to come are shifted by what the second draft has
gained. -/
def shift (d e : Draft) (s : Nat) : Nat :=
  if s < d.states.size then s else s - d.states.size + e.states.size

theorem shift_of_lt {s : Nat} (hs : s < d.states.size) : d.shift e s = s := if_pos hs

theorem shift_size_add (d e : Draft) (i : Nat) :
    d.shift e (d.states.size + i) = e.states.size + i := by
  have hnew : ¬ d.states.size + i < d.states.size := by omega
  rw [shift, if_neg hnew]
  omega

/-- A draft stands beside one that has come back to its place. -/
theorem Sound.beside (h : d.Sound) (hgrown : d.automaton.Embeds id e.automaton)
    (hreturns : d.Returns e) : Beside (d.shift e) d e where
  embeds := hgrown.congr h fun _ hs => shift_of_lt hs
  current_eq := by rw [shift_of_lt h.current_lt, hreturns.current_eq]
  groups_eq := by
    rw [hreturns.groups_eq]
    exact (List.map_congr_left fun s hs => shift_of_lt (h.groups_lt s hs)).trans (List.map_id _)
  newest_eq := d.shift_size_add e

end Draft

/-- What is read after a self-contained piece is read beside what is read without it. -/
theorem Draft.exists_embeds_insertion {u x : List Char} (hu : EndsOutside u)
    (hx : SelfContained x) (v : List Char) :
    (Draft.fresh.readAll (u ++ v)).InStep (Draft.fresh.readAll (u ++ x ++ v))
      ∧ ∃ f, (Draft.fresh.readAll (u ++ v)).settle.automaton.Embeds f
          (Draft.fresh.readAll (u ++ x ++ v)).settle.automaton := by
  have hmode := (mode_readAll_iff u).2 hu
  have hleft := sound_fresh.readAll u
  obtain ⟨k, hfollows⟩ := exists_follows hmode
  have hreturns := hfollows.returns hx
  have hbeside := hleft.beside (hleft.embeds_readAll x) hreturns
  have hright := hleft.readAll x
  have hstep : (fresh.readAll u).InStep ((fresh.readAll u).readAll x) :=
    Or.inl (hmode.trans hreturns.mode_eq.symm)
  have hsettled := (lockstep_beside _).settle_readAll hleft hright hstep hbeside v
  rw [readAll_append, readAll_append, readAll_append]
  exact ⟨hstep.readAll v, _, hsettled.embeds⟩

/-! ## The law -/

/-- A self-contained piece may be put into a pattern wherever a token may begin. The pattern
compiles as before, and accepts under either simulation what it accepted without the piece. -/
theorem a_self_contained_piece_loses_no_accepted_input {u x v : String} {simulation : Simulation}
    {a : Automaton} (hu : EndsOutside u.toList) (hx : SelfContained x.toList)
    (h : compile (u ++ v) simulation = .ok a) :
    ∃ b, compile (u ++ x ++ v) simulation = .ok b
      ∧ ∀ input, a.isMatch input = true → b.isMatch input = true := by
  obtain ⟨hstep, f, hembeds⟩ := Draft.exists_embeds_insertion hu hx v.toList
  rw [← String.toList_append, ← String.toList_append, ← String.toList_append] at hstep hembeds
  have hcompiles := exists_compile_eq_ok.1 ⟨a, h⟩
  rw [hstep.pending_iff] at hcompiles
  obtain ⟨b, hb⟩ := exists_compile_eq_ok.2 hcompiles
  exact ⟨b, hb, fun input => isMatch_of_embeds h hb hembeds⟩

/-- The piece holds a group of its own, a class with a parenthesis for a member, and an escaped
parenthesis. The `)` that comes after it closes the group that was opened before it. -/
theorem a_group_is_put_into_an_open_group :
    ∃ a b, compile ("x(a" ++ "b)*[^c") .closure = .ok a
      ∧ compile ("x(a" ++ "((d)+[)]\\()" ++ "b)*[^c") .closure = .ok b
      ∧ a.size < b.size ∧ a.isMatch "xab" = true ∧ b.isMatch "xab" = true := by
  have hu : EndsOutside "x(a".toList := (Draft.mode_readAll_iff _).1 rfl
  have hbody : EndsOutside "(d)+[)]\\(".toList := (Draft.mode_readAll_iff _).1 rfl
  have htokens : tokens "(d)+[)]\\(".toList = some ([Token.openGroup, .literal 'd', .closeGroup]
      ++ [Token.plus, .charClass false [')'], .literal ']', .escape '(']) := by cbv
  have hsingle : ∀ token, token ≠ .openGroup ∧ token ≠ .closeGroup → Balanced [token] :=
    fun token hne => .single hne.1 hne.2
  have hgroup : Balanced [.openGroup, .literal 'd', .closeGroup] :=
    .group (hsingle _ (by decide))
  have hrest : Balanced [.plus, .charClass false [')'], .literal ']', .escape '('] :=
    .append (hsingle _ (by decide)) <| .append (hsingle _ (by decide)) <|
      .append (hsingle _ (by decide)) (hsingle _ (by decide))
  have hx : SelfContained "((d)+[)]\\()".toList :=
    .group hbody htokens (.append hgroup hrest)
  have ha : compile ("x(a" ++ "b)*[^c") .closure = .ok _ := rfl
  have hb : compile ("x(a" ++ "((d)+[)]\\()" ++ "b)*[^c") .closure = .ok _ := rfl
  obtain ⟨b, hcompile, hlaw⟩ := a_self_contained_piece_loses_no_accepted_input hu hx ha
  obtain rfl := Except.ok.inj (hb.symm.trans hcompile)
  have hmatch := hlaw "xab" (by decide +kernel)
  exact ⟨_, _, ha, hb, by decide +kernel, by decide +kernel, hmatch⟩

end PatternNFA
