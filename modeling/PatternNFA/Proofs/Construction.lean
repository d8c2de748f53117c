-- The construction table. It says what each token of a pattern adds to an
-- automaton that is known by its flags and by a log of its edges. A pattern
-- compiles to what the table makes of its tokens, taken one after the other.
import Mathlib.Logic.Function.Basic
import PatternNFA.Proofs.Drafts
import PatternNFA.Proofs.Grouping
import PatternNFA.Proofs.Tokens

namespace PatternNFA

/-! ## The blueprint of an automaton -/

structure Blueprint where
  /-- Whether each state accepts, in the order of their creation. -/
  flags : List Bool
  /-- The edges of each state, in the order in which they were drawn. -/
  log : Nat → List (Symbol × Nat)

namespace Blueprint

def size (b : Blueprint) : Nat := b.flags.length

def add (b : Blueprint) (accepting : Bool) : Blueprint :=
  { b with flags := b.flags ++ [accepting] }

def join (b : Blueprint) (source : Nat) (symbol : Symbol) (target : Nat) : Blueprint :=
  { b with log := Function.update b.log source (b.log source ++ [(symbol, target)]) }

/-- A new state, and an edge to it. -/
def grow (b : Blueprint) (source : Nat) (symbol : Symbol) (accepting : Bool) : Blueprint :=
  (b.add accepting).join source symbol b.size

/-- What the head of a class leads to: a state for each member, and one more if the class is
negated. -/
def fill (b : Blueprint) (head : Nat) (negated : Bool) (members : List Char) : Blueprint :=
  let filled := members.foldl (fun b c => b.grow head (.char c) true) b
  if negated then filled.grow head .epsilon true else filled

@[simp]
theorem size_add (b : Blueprint) (accepting : Bool) : (b.add accepting).size = b.size + 1 := by
  simp [size, add]

@[simp]
theorem size_join (b : Blueprint) (source : Nat) (symbol : Symbol) (target : Nat) :
    (b.join source symbol target).size = b.size := rfl

theorem log_join_self (b : Blueprint) (source : Nat) (symbol : Symbol) (target : Nat) :
    (b.join source symbol target).log source = b.log source ++ [(symbol, target)] :=
  Function.update_self ..

theorem log_join_of_ne (b : Blueprint) {s source : Nat} (hne : s ≠ source) (symbol : Symbol)
    (target : Nat) : (b.join source symbol target).log s = b.log s :=
  Function.update_of_ne hne ..

/-- The states by number, each with its edges as they are listed. -/
def arena (b : Blueprint) : List (Bool × List (Symbol × Nat)) :=
  b.flags.zipIdx.map fun (accepting, s) => (accepting, grouped (b.log s))

end Blueprint

def Automaton.arena (a : Automaton) : List (Bool × List (Symbol × Nat)) :=
  a.states.toList.map fun state => (state.accepting, state.transitions.edges)

/-! ## The table -/

structure Construction where
  blueprint : Blueprint
  current : Nat
  /-- The top of the group stack. -/
  top : Nat
  /-- The rest of the stack, innermost first. If it is empty the top is the root, which is
  never taken off. -/
  below : List Nat

namespace Construction

def empty : Construction :=
  { blueprint := { flags := [true], log := fun _ => [] }, current := Draft.root
    top := Draft.root, below := [] }

def lay (k : Construction) : Token → Construction
  | .openGroup =>
    { blueprint := k.blueprint.grow k.current .epsilon true, current := k.blueprint.size
      top := k.current, below := k.top :: k.below }
  | .closeGroup =>
    match k.below with
    | [] => { k with current := k.top }
    | next :: below => { k with current := k.top, top := next, below }
  | .bar =>
    { k with
      blueprint := k.blueprint.grow k.current .epsilon true, current := k.blueprint.size }
  | .optional =>
    { k with
      blueprint := (k.blueprint.join k.top .epsilon k.current).join k.current .epsilon k.top }
  | .plus => { k with blueprint := k.blueprint.join k.current .epsilon k.top }
  | .star => { k with blueprint := k.blueprint.join k.top .epsilon k.current }
  | .charClass negated members =>
    let head := k.blueprint.size
    let filled := (k.blueprint.add false).fill head negated members
    { k with blueprint := filled.join k.current .epsilon head, current := head }
  | .escape c => { k with blueprint := k.blueprint.grow k.current (.char c) true }
  | .literal c =>
    { k with
      blueprint := k.blueprint.grow k.current (.char c) true, current := k.blueprint.size }

def ofTokens (ts : List Token) : Construction := ts.foldl lay empty

end Construction

/-! ## Drawing a class before its head is joined -/

namespace Blueprint

variable {s t source : Nat} {symbol x : Symbol}

theorem grow_join (b : Blueprint) (hne : source ≠ s) (accepting : Bool) :
    (b.join s x t).grow source symbol accepting
      = (b.grow source symbol accepting).join s x t := by
  simp only [grow, add, join, size, Blueprint.mk.injEq, true_and]
  rw [Function.update_of_ne hne, Function.update_of_ne hne.symm, Function.update_comm hne]

theorem fill_join (b : Blueprint) {head : Nat} (hne : head ≠ s) (negated : Bool)
    (members : List Char) :
    (b.join s x t).fill head negated members = (b.fill head negated members).join s x t := by
  have hmembers : members.foldl (fun b c => b.grow head (.char c) true) (b.join s x t)
      = (members.foldl (fun b c => b.grow head (.char c) true) b).join s x t := by
    induction members generalizing b with
    | nil => rfl
    | cons c rest ih => rw [List.foldl_cons, grow_join b hne, ih, List.foldl_cons]
  unfold fill
  simp only [hmembers]
  split
  · exact grow_join _ hne true
  · rfl

end Blueprint

/-! ## Drafts and blueprints -/

namespace Blueprint

def state? (b : Blueprint) (s : Nat) : Option State :=
  b.flags[s]?.map fun accepting => { accepting, transitions := .ofLog (b.log s) }

/-- The states are those that the blueprint shows. -/
structure Shows (b : Blueprint) (states : Array State) : Prop where
  state_eq : ∀ s, states[s]? = b.state? s
  /-- No edge leaves a number without a state. -/
  log_eq : ∀ s, b.size ≤ s → b.log s = []

variable {b : Blueprint} {states : Array State}

theorem Shows.size_eq (h : b.Shows states) : states.size = b.size := by
  have hiff : ∀ s, states.size ≤ s ↔ b.size ≤ s := by
    intro s
    rw [← Array.getElem?_eq_none_iff, h.state_eq, state?, Option.map_eq_none_iff,
      List.getElem?_eq_none_iff, size]
  exact Nat.le_antisymm ((hiff _).2 (Nat.le_refl _)) ((hiff _).1 (Nat.le_refl _))

/-- The state that is added last has no edges. -/
theorem state?_add (h : b.Shows states) (accepting : Bool) (s : Nat) :
    (b.add accepting).state? s = if s = b.size then some { accepting } else b.state? s := by
  unfold state? add
  by_cases hs : s = b.size
  · subst hs
    have hlog := h.log_eq b.size (Nat.le_refl _)
    rw [if_pos rfl, hlog, size, List.getElem?_concat_length]
    rfl
  · rw [if_neg hs]
    rcases Nat.lt_or_gt_of_ne hs with hlt | hgt
    · rw [List.getElem?_append_left hlt]
    · rw [List.getElem?_eq_none (Nat.le_of_lt hgt), List.getElem?_eq_none]
      rw [List.length_append, List.length_singleton]
      exact hgt

theorem Shows.push (h : b.Shows states) (accepting : Bool) :
    (b.add accepting).Shows (states.push { accepting }) where
  state_eq := by
    intro s
    rw [Array.getElem?_push, h.size_eq, state?_add h, h.state_eq]
  log_eq := by
    intro s hs
    rw [size_add] at hs
    exact h.log_eq s (Nat.le_of_succ_le hs)

theorem Shows.link {d : Draft} (h : b.Shows d.states) {source : Nat} (hs : source < d.states.size)
    (symbol : Symbol) (target : Nat) :
    (b.join source symbol target).Shows (d.link source symbol target).states where
  state_eq := by
    intro s
    rw [Draft.link, Array.getElem?_modify]
    by_cases hss : source = s
    · subst hss
      rw [if_pos rfl, h.state_eq, state?, state?, log_join_self, Transitions.ofLog_append,
        Option.map_map]
      rfl
    · rw [if_neg hss, h.state_eq, state?, state?, log_join_of_ne b (Ne.symm hss)]
      rfl
  log_eq := by
    intro s hle
    have hne : s ≠ source := by
      rintro rfl
      rw [h.size_eq] at hs
      exact absurd hs (Nat.not_lt.2 hle)
    rw [log_join_of_ne b hne]
    exact h.log_eq s hle

theorem Shows.sprout {d : Draft} (h : b.Shows d.states) (hd : d.Sound) (symbol : Symbol)
    (accepting : Bool) :
    (b.grow d.current symbol accepting).Shows (d.sprout symbol accepting).states := by
  have hlt : d.current < (d.states.push { accepting }).size := by
    rw [Array.size_push]
    exact Nat.lt_succ_of_lt hd.current_lt
  have hpushed : (b.add accepting).Shows { d with states := d.states.push { accepting } }.states :=
    h.push accepting
  unfold grow Draft.sprout
  rw [← h.size_eq]
  exact hpushed.link hlt symbol d.states.size

end Blueprint

/-! ## Following the table -/

namespace Draft

/-- The draft stands outside a class, where the construction stands. -/
structure Follows (d : Draft) (k : Construction) : Prop where
  sound : d.Sound
  mode_eq : d.mode = .plain
  shows : k.blueprint.Shows d.states
  current_eq : d.current = k.current
  stack_eq : d.groups ++ [root] = k.top :: k.below

variable {d : Draft} {k : Construction}

theorem follows_fresh : fresh.Follows .empty where
  sound := sound_fresh
  mode_eq := rfl
  shows := by
    refine ⟨?_, fun _ _ => rfl⟩
    intro s
    rcases s with _ | s
    · rfl
    · simp [fresh, Construction.empty, Blueprint.state?]
  current_eq := rfl
  stack_eq := rfl

theorem Follows.entry_eq (h : d.Follows k) : d.entry = k.top := by
  have hstack := h.stack_eq
  unfold entry
  cases hgroups : d.groups with
  | nil =>
    rw [hgroups] at hstack
    exact (List.cons.inj hstack).1
  | cons s rest =>
    rw [hgroups] at hstack
    exact (List.cons.inj hstack).1

theorem Follows.size_eq (h : d.Follows k) : d.states.size = k.blueprint.size := h.shows.size_eq

theorem Follows.grow (h : d.Follows k) (symbol : Symbol) (accepting : Bool) :
    (k.blueprint.grow k.current symbol accepting).Shows (d.sprout symbol accepting).states :=
  h.current_eq ▸ h.shows.sprout h.sound symbol accepting

/-- The edges of the quantifiers, between the current state and the top of the stack. -/
theorem Follows.tie (h : d.Follows k) :
    (k.blueprint.join k.current .epsilon k.top).Shows (d.link d.current .epsilon d.entry).states
    ∧ (k.blueprint.join k.top .epsilon k.current).Shows
        (d.link d.entry .epsilon d.current).states
    ∧ ((k.blueprint.join k.top .epsilon k.current).join k.current .epsilon k.top).Shows
        ((d.link d.entry .epsilon d.current).link d.current .epsilon d.entry).states := by
  rw [← h.current_eq, ← h.entry_eq]
  have hforth := h.shows.link h.sound.entry_lt .epsilon d.current
  have hlt : d.current < (d.link d.entry .epsilon d.current).states.size := by
    rw [size_link]
    exact h.sound.current_lt
  exact ⟨h.shows.link h.sound.current_lt _ _, hforth, hforth.link hlt _ _⟩

/-- The root at the bottom of the stack is read off, and stays there. -/
theorem Follows.close (h : d.Follows k) :
    (k.lay .closeGroup).blueprint = k.blueprint
    ∧ d.entry = (k.lay .closeGroup).current
    ∧ d.groups.tail ++ [root] = (k.lay .closeGroup).top :: (k.lay .closeGroup).below := by
  have hstack := h.stack_eq
  rw [h.entry_eq]
  cases hgroups : d.groups with
  | nil =>
    rw [hgroups] at hstack
    obtain ⟨htop, hbelow⟩ := List.cons.inj hstack
    simp only [Construction.lay, ← hbelow, ← htop, List.tail_nil, List.nil_append, and_self]
  | cons s rest =>
    rw [hgroups, List.cons_append] at hstack
    obtain ⟨-, hbelow⟩ := List.cons.inj hstack
    rw [List.tail_cons, hbelow]
    cases hrest : k.below with
    | nil => simp [hrest] at hbelow
    | cons next below => simp only [Construction.lay, hrest, and_self]

/-- What has to be shown of a character that is read outside a class, and stays there. -/
theorem Follows.of_readPlain (h : d.Follows k) {c : Char} {k' : Construction}
    (hopen : c ≠ '[') (hescape : c ≠ '\\')
    (hshows : k'.blueprint.Shows (d.readPlain c).states)
    (hcurrent : (d.readPlain c).current = k'.current)
    (hstack : (d.readPlain c).groups ++ [root] = k'.top :: k'.below) :
    (d.read c).Follows k' := by
  have hread : d.read c = { d.readPlain c with offset := d.offset + c.utf8Size } := by
    simp only [read, interpret, h.mode_eq]
  have hmode : (d.read c).mode = .plain := by
    rw [mode_read_of_plain h.mode_eq, if_neg hopen, if_neg hescape]
  have hsound := h.sound.read c
  rw [hread] at hsound hmode ⊢
  exact ⟨hsound, hmode, hshows, hcurrent, hstack⟩

/-- A character that is a token by itself is read as the table says. -/
theorem Follows.read_ofChar (h : d.Follows k) {c : Char} (hopen : c ≠ '[') (hescape : c ≠ '\\') :
    (d.read c).Follows (k.lay (.ofChar c)) := by
  unfold Token.ofChar
  split
  · refine h.of_readPlain hopen hescape (h.grow .epsilon true) h.size_eq ?_
    exact congrArg₂ List.cons h.current_eq h.stack_eq
  · obtain ⟨hblueprint, hcurrent, hstack⟩ := h.close
    exact h.of_readPlain hopen hescape (hblueprint ▸ h.shows) hcurrent hstack
  · exact h.of_readPlain hopen hescape (h.grow .epsilon true) h.size_eq h.stack_eq
  · exact h.of_readPlain hopen hescape h.tie.2.2 h.current_eq h.stack_eq
  · exact h.of_readPlain hopen hescape h.tie.1 h.current_eq h.stack_eq
  · exact h.of_readPlain hopen hescape h.tie.2.1 h.current_eq h.stack_eq
  · have hliteral : d.readPlain c = d.advance (.char c) true :=
      readPlain_literal d (by simp_all)
    apply h.of_readPlain hopen hescape
    · rw [hliteral]
      exact h.grow (.char c) true
    · rw [hliteral]
      exact h.size_eq
    · rw [hliteral]
      exact h.stack_eq

theorem Follows.read_escape (h : d.Follows k) (c : Char) :
    ((d.read '\\').read c).Follows (k.lay (.escape c)) := by
  have hread := Draft.read_escape h.mode_eq c
  have hsound := (h.sound.read '\\').read c
  rw [hread] at hsound ⊢
  exact ⟨hsound, rfl, h.grow (.char c) true, h.current_eq, h.stack_eq⟩

/-! ## Reading a class -/

theorem shows_readAll_members {b : Blueprint} {negated : Bool} {members : List Char}
    (hd : d.Sound) (h : d.mode = .members negated) (hmembers : ∀ c ∈ members, c ≠ ']')
    (hshows : b.Shows d.states) :
    (members.foldl (fun b c => b.grow d.current (.char c) true) b).Shows
      (d.readAll members).states := by
  induction members generalizing d b with
  | nil => exact hshows
  | cons c rest ih =>
    have hread := read_member h (hmembers c List.mem_cons_self)
    have hgrown : (b.grow d.current (.char c) true).Shows (d.read c).states := by
      rw [hread]
      exact hshows.sprout hd (.char c) true
    have hcurrent : (d.read c).current = d.current := by
      rw [hread]
      rfl
    have hrest := ih (hd.read c) (by rw [hread])
      (fun x hx => hmembers x (List.mem_cons_of_mem c hx)) hgrown
    rw [hcurrent] at hrest
    exact hrest

/-- The second draft stands at the first member of a class that the first one has met. -/
structure EntersClass (d e : Draft) (negated : Bool) : Prop where
  sound : e.Sound
  mode_eq : e.mode = .members negated
  states_eq : e.states = (d.sprout .epsilon false).states
  current_eq : e.current = d.states.size
  groups_eq : e.groups = d.groups

theorem entersClass_plain (hd : d.Sound) (h : d.mode = .plain) :
    d.EntersClass { d.read '[' with mode := .members false } false where
  sound := (hd.read '[').move rfl (hd.read '[').current_lt (hd.read '[').groups_lt
  mode_eq := rfl
  states_eq := by rw [read_open h]; rfl
  current_eq := by rw [read_open h]; rfl
  groups_eq := by rw [read_open h]; rfl

theorem entersClass_negated (hd : d.Sound) (h : d.mode = .plain) :
    d.EntersClass ((d.read '[').read '^') true where
  sound := (hd.read '[').read '^'
  mode_eq := by rw [read_open h]; rfl
  states_eq := by rw [read_open h]; rfl
  current_eq := by rw [read_open h]; rfl
  groups_eq := by rw [read_open h]; rfl

/-- The table joins the head of a class last, the draft joins it first. That makes no
difference, since no edge of the class leaves the state that stood before it. -/
theorem Follows.fill (h : d.Follows k) {e : Draft} {negated : Bool}
    (he : d.EntersClass e negated) {members : List Char} (hmembers : ∀ c ∈ members, c ≠ ']') :
    ((e.readAll members).endClass negated).Follows (k.lay (.charClass negated members)) := by
  have hhead : e.current = k.blueprint.size := he.current_eq.trans h.size_eq
  have hne : k.blueprint.size ≠ k.current := by
    rw [← h.size_eq, ← h.current_eq]
    exact (Nat.ne_of_lt h.sound.current_lt).symm
  have hopened : (k.blueprint.grow k.current .epsilon false).Shows e.states := by
    rw [he.states_eq]
    exact h.grow .epsilon false
  have hfilled := shows_readAll_members he.sound he.mode_eq hmembers hopened
  obtain ⟨-, hcurrent, hgroups⟩ := readAll_members he.mode_eq hmembers
  have hend : ((k.blueprint.grow k.current .epsilon false).fill e.current negated members).Shows
      ((e.readAll members).endClass negated).states := by
    unfold Blueprint.fill endClass
    cases negated with
    | false => exact hfilled
    | true =>
      have hbypass := hfilled.sprout (he.sound.readAll members) .epsilon true
      rw [hcurrent] at hbypass
      exact hbypass
  have hsame : ((e.readAll members).endClass negated).current = (e.readAll members).current
      ∧ ((e.readAll members).endClass negated).groups = (e.readAll members).groups := by
    unfold endClass
    split <;> exact ⟨rfl, rfl⟩
  refine ⟨(he.sound.readAll members).endClass negated, mode_endClass negated, ?_, ?_, ?_⟩
  · rw [hhead, Blueprint.grow, Blueprint.fill_join _ hne] at hend
    exact hend
  · exact hsame.1.trans (hcurrent.trans hhead)
  · rw [hsame.2, hgroups, he.groups_eq]
    exact h.stack_eq

theorem Follows.readAll_class (h : d.Follows k) {e : Draft} {negated : Bool}
    (he : d.EntersClass e negated) (cs : List Char) :
    ∃ f : Draft, f.Follows (k.lay (.charClass negated (cs.takeWhile (· ≠ ']'))))
      ∧ (e.readAll cs).settle = (f.readAll (cs.dropWhile (· ≠ ']'))).settle :=
  ⟨_, h.fill he (ne_of_mem_takeWhile cs), settle_readAll_class he.mode_eq cs⟩

/-! ## Reading a pattern token by token -/

/-- To read the first token of a pattern is to lay it. -/
theorem Follows.next (h : d.Follows k) {c : Char} {cs rest : List Char} {token : Token}
    (hnext : Token.next? c cs = some (token, rest)) :
    ∃ e : Draft, e.Follows (k.lay token)
      ∧ (d.readAll (c :: cs)).settle = (e.readAll rest).settle := by
  unfold Token.next? at hnext
  split at hnext
  · split at hnext
    · cases hnext
    · cases hnext
      exact ⟨_, h.read_escape _, rfl⟩
  · split at hnext
    · cases hnext
      exact h.readAll_class (entersClass_negated h.sound h.mode_eq) _
    · rename_i hcaret
      cases hnext
      have hhead : cs.head? ≠ some '^' := by
        intro hhead
        obtain ⟨more, hmore⟩ := List.head?_eq_some_iff.1 hhead
        exact hcaret more hmore
      obtain ⟨e, he, hsettle⟩ := h.readAll_class (entersClass_plain h.sound h.mode_eq) cs
      refine ⟨e, he, ?_⟩
      rw [readAll_cons, settle_readAll_classStart (by rw [read_open h.mode_eq]) hhead, hsettle]
  · rename_i hescape hopen
    cases hnext
    exact ⟨_, h.read_ofChar hopen hescape, rfl⟩

/-- Once its open class has ended, the draft stands where the table stands after all the
tokens. -/
theorem Follows.settle_readAll (h : d.Follows k) {cs : List Char} {ts : List Token}
    (htokens : tokens cs = some ts) :
    (d.readAll cs).settle.Follows (ts.foldl Construction.lay k) := by
  fun_induction tokens cs generalizing d k ts with
  | case1 =>
    cases htokens
    rw [readAll_nil, settle_of_plain h.mode_eq]
    exact h
  | case2 c cs hnone => cases htokens
  | case3 c cs token rest hnext ih =>
    obtain ⟨more, hmore, rfl⟩ := Option.map_eq_some_iff.1 htokens
    obtain ⟨e, he, hsettle⟩ := h.next hnext
    rw [hsettle]
    exact ih he hmore

/-- Characters that make no tokens end in a dangling escape. -/
theorem Follows.finish_eq_error (h : d.Follows k) {cs : List Char} (htokens : tokens cs = none) :
    ∃ e, (d.readAll cs).finish = .error e := by
  fun_induction tokens cs generalizing d k with
  | case1 => cases htokens
  | case2 c cs hnone =>
    obtain ⟨rfl, rfl⟩ := Token.next?_eq_none_iff.1 hnone
    have hmode := mode_read_of_plain h.mode_eq '\\'
    exact ⟨_, Draft.finish_eq_error.2 hmode⟩
  | case3 c cs token rest hnext ih =>
    obtain ⟨e, he, hsettle⟩ := h.next hnext
    obtain ⟨error, herror⟩ := ih he (Option.map_eq_none_iff.1 htokens)
    exact ⟨error, by rw [← finish_settle, hsettle, finish_settle, herror]⟩

/-- What a pattern compiles to is the blueprint that the table makes of its tokens. -/
theorem Follows.finish_readAll (h : d.Follows k) (cs : List Char) :
    match tokens cs with
    | none => ∃ e, (d.readAll cs).finish = .error e
    | some ts => ∃ states, (d.readAll cs).finish = .ok states
        ∧ (ts.foldl Construction.lay k).blueprint.Shows states := by
  cases htokens : tokens cs with
  | none => exact h.finish_eq_error htokens
  | some ts =>
    have hsettled := h.settle_readAll htokens
    refine ⟨_, ?_, hsettled.shows⟩
    rw [← finish_settle, finish, hsettled.mode_eq]

end Draft

/-! ## The law -/

theorem Blueprint.Shows.arena_eq {a : Automaton} {b : Blueprint} (h : b.Shows a.states) :
    a.arena = b.arena := by
  apply List.ext_getElem?
  intro s
  have hstate := h.state_eq s
  simp only [Automaton.arena, Blueprint.arena, List.getElem?_map, Array.getElem?_toList, hstate,
    Blueprint.state?, List.getElem?_zipIdx, Option.map_map]
  congr 1
  funext accepting
  simp [Transitions.edges_ofLog]

/-- The automaton of a pattern is the one that the construction table makes of its tokens, one
after the other: the same states under the same numbers, of which the same accept, and with
the same edges in the same order. -/
theorem a_pattern_is_laid_token_by_token {pattern : String} {simulation : Simulation}
    {a : Automaton} (h : compile pattern simulation = .ok a) :
    ∃ ts, tokens pattern.toList = some ts
      ∧ ts.flatMap Token.spelling = pattern.toList
      ∧ a.arena = (Construction.ofTokens ts).blueprint.arena
      ∧ a.start = Draft.root := by
  obtain ⟨hfinish, hstart, -⟩ := compile_eq_ok.1 h
  have hlaid := Draft.follows_fresh.finish_readAll pattern.toList
  cases htokens : tokens pattern.toList with
  | none =>
    rw [htokens] at hlaid
    obtain ⟨e, he⟩ := hlaid
    rw [he] at hfinish
    cases hfinish
  | some ts =>
    rw [htokens] at hlaid
    obtain ⟨states, hstates, hshows⟩ := hlaid
    rw [hstates] at hfinish
    obtain rfl : states = a.states := Except.ok.inj hfinish
    exact ⟨ts, rfl, spelling_tokens htokens, hshows.arena_eq, hstart⟩

/-- A stray `)`, a negated class, a group left open, an escape and a class left open. -/
theorem an_unbalanced_pattern_is_laid_token_by_token :
    ∃ a, compile ")[^b](\\c?[^" .closure = .ok a
      ∧ a.arena = (Construction.ofTokens [.closeGroup, .charClass true ['b'], .literal ']',
          .openGroup, .escape 'c', .optional, .charClass true []]).blueprint.arena
      ∧ a.arena.length = 9 := by
  refine ⟨_, rfl, ?_, by decide +kernel⟩
  have hcompile : compile ")[^b](\\c?[^" .closure = .ok _ := rfl
  obtain ⟨ts, hts, -, harena, -⟩ := a_pattern_is_laid_token_by_token hcompile
  have htokens : tokens ")[^b](\\c?[^".toList = some [.closeGroup, .charClass true ['b'],
      .literal ']', .openGroup, .escape 'c', .optional, .charClass true []] := by cbv
  obtain rfl := Option.some.inj (hts.symm.trans htokens)
  exact harena

end PatternNFA
