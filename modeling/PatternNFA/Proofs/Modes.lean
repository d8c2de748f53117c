-- Where a reader stands, and which patterns are refused for it: those that end
-- in a backslash with nothing to escape. Backslashes pair up from left to right,
-- but inside a class each of them is a member. The offset in the error is the
-- one of the last backslash.
import Mathlib.Algebra.Ring.Parity
import Mathlib.Data.List.DropRight
import PatternNFA.Pattern.Builder

namespace PatternNFA

/-! ## Reading in two modes -/

/-- All that a reader has to know to tell where the classes of a pattern lie. -/
inductive Region where
  | outside
  | inside
  deriving DecidableEq

/-- Where a reading ends. Outside a class, a backslash passes over the next character and `[`
leads into a class. Inside, every character but `]` is passed over, a backslash too. -/
def Region.after : Region → List Char → Region
  | region, [] => region
  | .outside, '\\' :: cs =>
    match cs with
    | [] => .outside
    | _ :: rest => Region.outside.after rest
  | .outside, '[' :: rest => Region.inside.after rest
  | .outside, _ :: rest => Region.outside.after rest
  | .inside, ']' :: rest => Region.outside.after rest
  | .inside, _ :: rest => Region.inside.after rest

theorem Region.after_inside_backslashes (m : Nat) :
    Region.inside.after (List.replicate m '\\') = .inside := by
  induction m with
  | zero => rfl
  | succ m ih => simpa [List.replicate_succ, Region.after] using ih

/-- The characters end in an odd number of backslashes, which begin outside a class. -/
def EndsInDanglingEscape (cs : List Char) : Prop :=
  ∃ u m, cs = u ++ List.replicate m '\\' ∧ Odd m ∧ u.getLast? ≠ some '\\'
    ∧ Region.outside.after u = .outside

/-- Reading ends outside a class, and no escape is pending. -/
def EndsOutside (cs : List Char) : Prop :=
  Region.outside.after cs = .outside ∧ ¬ EndsInDanglingEscape cs

def Mode.region : Mode → Region
  | .plain => .outside
  | .escaped _ => .outside
  | .classStart => .inside
  | .members _ => .inside

namespace Draft

/-! ## The mode after one character -/

variable {d : Draft}

/-- A backslash has been read that waits for a character to escape. -/
def Pending (d : Draft) : Prop := ∃ offset, d.mode = .escaped offset

theorem mode_readPlain (h : d.mode = .plain) (c : Char) :
    (d.readPlain c).mode
      = if c = '[' then .classStart else if c = '\\' then .escaped d.offset else .plain := by
  unfold readPlain
  split
  all_goals simp_all [advance, link]

theorem readPlain_literal (d : Draft) {c : Char}
    (hc : c ∉ ['(', ')', '|', '?', '+', '*', '[', '\\']) :
    d.readPlain c = d.advance (.char c) true := by
  unfold readPlain
  split
  all_goals simp_all

theorem mode_endClass (negated : Bool) : (d.endClass negated).mode = .plain := by
  unfold endClass
  split <;> rfl

theorem mode_readMember (negated : Bool) (c : Char) :
    (d.readMember negated c).mode = if c = ']' then .plain else .members negated := by
  unfold readMember
  split
  · rename_i h
    subst h
    rw [mode_readPlain (mode_endClass negated)]
    rfl
  · rfl

theorem mode_read_of_plain (h : d.mode = .plain) (c : Char) :
    (d.read c).mode
      = if c = '[' then .classStart else if c = '\\' then .escaped d.offset else .plain := by
  rw [← mode_readPlain h]
  simp only [read, interpret, h]

theorem read_open (h : d.mode = .plain) :
    d.read '[' = { d.advance .epsilon false with mode := .classStart, offset := d.offset + 1 } := by
  simp only [Draft.read, interpret, h, readPlain]
  rfl

/-- The character after a backslash is taken as it stands, whatever it is. -/
theorem mode_read_of_pending (h : d.Pending) (c : Char) : (d.read c).mode = .plain := by
  obtain ⟨offset, h⟩ := h
  simp only [read, interpret, h]

/-- A backslash and the character after it. -/
theorem read_escape (h : d.mode = .plain) (c : Char) :
    (d.read '\\').read c
      = { d.sprout (.char c) true with
          mode := .plain, offset := d.offset + 1 + c.utf8Size } := by
  simp only [Draft.read, interpret, h, readPlain]
  rfl

theorem mode_read_of_inside (h : d.mode.region = .inside) : (d.read ']').mode = .plain := by
  cases hmode : d.mode with
  | plain => simp [hmode, Mode.region] at h
  | escaped offset => simp [hmode, Mode.region] at h
  | classStart => simp [read, interpret, hmode, mode_readMember]
  | members negated => simp [read, interpret, hmode, mode_readMember]

/-- Only `]` leads out of a class. -/
theorem region_read_of_inside (h : d.mode.region = .inside) {c : Char} (hc : c ≠ ']') :
    (d.read c).mode.region = .inside := by
  cases hmode : d.mode with
  | plain => simp [hmode, Mode.region] at h
  | escaped offset => simp [hmode, Mode.region] at h
  | classStart =>
    simp only [read, interpret, hmode]
    split
    · rfl
    · rw [mode_readMember, if_neg hc]
      rfl
  | members negated =>
    simp only [read, interpret, hmode, mode_readMember, if_neg hc]
    rfl

/-- A pending escape comes from the last character read, and keeps the offset of it. -/
theorem eq_of_mode_read {c : Char} {offset : Nat} (h : (d.read c).mode = .escaped offset) :
    c = '\\' ∧ offset = d.offset := by
  by_cases hinside : d.mode.region = .inside
  · by_cases hc : c = ']'
    · rw [hc, mode_read_of_inside hinside] at h
      cases h
    · have hstays := region_read_of_inside hinside hc
      rw [h] at hstays
      cases hstays
  · cases hmode : d.mode with
    | plain =>
      rw [mode_read_of_plain hmode] at h
      split at h
      · cases h
      · split at h
        · exact ⟨‹_›, (Mode.escaped.inj h).symm⟩
        · cases h
    | escaped before =>
      rw [mode_read_of_pending ⟨before, hmode⟩] at h
      cases h
    | classStart => exact absurd (congrArg Mode.region hmode) hinside
    | members negated => exact absurd (congrArg Mode.region hmode) hinside

/-! ## The mode after many -/

theorem not_pending_of_inside (h : d.mode.region = .inside) : ¬ d.Pending := by
  rintro ⟨offset, hmode⟩
  rw [hmode] at h
  cases h

theorem not_pending_of_plain (h : d.mode = .plain) : ¬ d.Pending := by
  rintro ⟨offset, hmode⟩
  rw [hmode] at h
  cases h

theorem mode_eq_plain (h : ¬ d.Pending) (houtside : d.mode.region = .outside) :
    d.mode = .plain := by
  cases hmode : d.mode with
  | plain => rfl
  | escaped offset => exact absurd ⟨offset, hmode⟩ h
  | classStart => rw [hmode] at houtside; cases houtside
  | members negated => rw [hmode] at houtside; cases houtside

/-- The reader stands inside a class exactly where a reading in two modes does. -/
theorem region_readAll {region : Region} (h : ¬ d.Pending) (hregion : d.mode.region = region)
    (cs : List Char) : (d.readAll cs).mode.region = region.after cs := by
  fun_induction Region.after region cs generalizing d with
  | case1 => exact hregion
  | case2 =>
    have hbackslash := mode_read_of_plain (mode_eq_plain h hregion) '\\'
    rw [readAll_cons, readAll_nil, hbackslash]
    rfl
  | case3 c rest ih =>
    have hbackslash := mode_read_of_plain (mode_eq_plain h hregion) '\\'
    have hnext := mode_read_of_pending ⟨d.offset, hbackslash⟩ c
    exact ih (not_pending_of_plain hnext) (congrArg Mode.region hnext)
  | case4 rest ih =>
    have hopen := mode_read_of_plain (mode_eq_plain h hregion) '['
    exact ih (not_pending_of_inside (congrArg Mode.region hopen)) (congrArg Mode.region hopen)
  | case5 c rest hbackslash hopen ih =>
    have hplain : (d.read c).mode = .plain := by
      rw [mode_read_of_plain (mode_eq_plain h hregion), if_neg hopen, if_neg hbackslash]
    exact ih (not_pending_of_plain hplain) (congrArg Mode.region hplain)
  | case6 rest ih =>
    have hclose := mode_read_of_inside hregion
    exact ih (not_pending_of_plain hclose) (congrArg Mode.region hclose)
  | case7 c rest hc ih =>
    have hstays := region_read_of_inside hregion hc
    exact ih (not_pending_of_inside hstays) hstays

theorem mode_readAll_pairs (h : d.mode = .plain) (k : Nat) :
    (d.readAll (List.replicate (2 * k) '\\')).mode = .plain := by
  induction k generalizing d with
  | zero => exact h
  | succ k ih =>
    have hfirst : (d.read '\\').Pending := ⟨d.offset, mode_read_of_plain h '\\'⟩
    exact ih (mode_read_of_pending hfirst '\\')

/-- Of a row of backslashes outside a class, the last one is left pending if their number is
odd. -/
theorem pending_readAll_replicate (h : d.mode = .plain) (m : Nat) :
    (d.readAll (List.replicate m '\\')).Pending ↔ Odd m := by
  obtain ⟨k, rfl | rfl⟩ := Nat.even_or_odd' m
  · have hpairs := not_pending_of_plain (mode_readAll_pairs h k)
    simp [hpairs]
  · rw [List.replicate_succ', readAll_append]
    have hlast := mode_read_of_plain (mode_readAll_pairs h k) '\\'
    exact ⟨fun _ => ⟨k, rfl⟩, fun _ => ⟨_, hlast⟩⟩

theorem not_pending_fresh : ¬ fresh.Pending := not_pending_of_plain rfl

/-- No escape is pending after a character that is no backslash. -/
theorem not_pending_of_getLast? {cs : List Char} (h : cs.getLast? ≠ some '\\') :
    ¬ (fresh.readAll cs).Pending := by
  cases cs using List.reverseRecOn with
  | nil => exact not_pending_fresh
  | append_singleton init c =>
    rintro ⟨offset, hmode⟩
    rw [readAll_append] at hmode
    obtain ⟨rfl, -⟩ := eq_of_mode_read hmode
    exact h List.getLast?_concat

/-- The backslashes at the end of the characters, and what stands before them. -/
theorem exists_eq_append_backslashes (cs : List Char) :
    ∃ u m, cs = u ++ List.replicate m '\\' ∧ u.getLast? ≠ some '\\' := by
  refine ⟨cs.rdropWhile (· = '\\'), (cs.rtakeWhile (· = '\\')).length, ?_, ?_⟩
  · have hall : ∀ c ∈ cs.rtakeWhile (· = '\\'), c = '\\' := fun c hc => by
      simpa using List.mem_rtakeWhile_imp hc
    rw [← List.eq_replicate_of_mem hall, List.rdropWhile_append_rtakeWhile]
  · intro hlast
    have hne : cs.rdropWhile (· = '\\') ≠ [] := by
      rintro hnil
      simp [hnil] at hlast
    rw [List.getLast?_eq_some_getLast hne] at hlast
    exact List.rdropWhile_last_not _ cs hne (by simpa using hlast)

theorem pending_readAll_iff (cs : List Char) :
    (fresh.readAll cs).Pending ↔ EndsInDanglingEscape cs := by
  have hreading : ∀ u, (fresh.readAll u).mode.region = Region.outside.after u :=
    region_readAll not_pending_fresh rfl
  have hoverall : ∀ u m, u.getLast? ≠ some '\\' → Region.outside.after u = .outside →
      ((fresh.readAll (u ++ List.replicate m '\\')).Pending ↔ Odd m) := by
    intro u m hu hregion
    have hplain := mode_eq_plain (not_pending_of_getLast? hu) ((hreading u).trans hregion)
    rw [readAll_append, pending_readAll_replicate hplain]
  constructor
  · intro hpending
    obtain ⟨u, m, rfl, hu⟩ := exists_eq_append_backslashes cs
    have hregion : Region.outside.after u = .outside := by
      cases hregion : Region.outside.after u with
      | outside => rfl
      | inside =>
        have hinside := (hreading u).trans hregion
        have hstays := region_readAll (not_pending_of_inside hinside) hinside
          (List.replicate m '\\')
        rw [Region.after_inside_backslashes, ← readAll_append] at hstays
        exact absurd hpending (not_pending_of_inside hstays)
    exact ⟨u, m, rfl, (hoverall u m hu hregion).1 hpending, hu, hregion⟩
  · rintro ⟨u, m, rfl, hm, hu, hregion⟩
    exact (hoverall u m hu hregion).2 hm

theorem mode_readAll_iff (cs : List Char) : (fresh.readAll cs).mode = .plain ↔ EndsOutside cs := by
  have hregion : (fresh.readAll cs).mode.region = Region.outside.after cs :=
    region_readAll not_pending_fresh rfl cs
  unfold EndsOutside
  rw [← pending_readAll_iff, ← hregion]
  constructor
  · intro hplain
    exact ⟨congrArg Mode.region hplain, not_pending_of_plain hplain⟩
  · rintro ⟨houtside, hpending⟩
    exact mode_eq_plain hpending houtside

/-! ## Two readers in one mode -/

/-- The drafts stand in one mode. Two pending escapes may have offsets of their own. -/
def InStep (d e : Draft) : Prop := d.mode = e.mode ∨ d.Pending ∧ e.Pending

/-- What a character does to the mode depends on nothing but the mode. -/
theorem InStep.read {e : Draft} (h : d.InStep e) (c : Char) : (d.read c).InStep (e.read c) := by
  have hescape : ∀ f g : Draft, f.Pending → g.Pending → (f.read c).InStep (g.read c) := by
    intro f g hf hg
    exact Or.inl ((mode_read_of_pending hf c).trans (mode_read_of_pending hg c).symm)
  rcases h with h | ⟨hd, he⟩
  · cases hmode : d.mode with
    | plain =>
      by_cases hc : c = '\\'
      · subst hc
        exact Or.inr ⟨⟨_, mode_read_of_plain hmode '\\'⟩, ⟨_, mode_read_of_plain (h ▸ hmode) '\\'⟩⟩
      · left
        rw [mode_read_of_plain hmode, mode_read_of_plain (h ▸ hmode), if_neg hc, if_neg hc]
    | escaped offset => exact hescape d e ⟨offset, hmode⟩ ⟨offset, h ▸ hmode⟩
    | classStart =>
      left
      simp only [Draft.read, interpret, ← h, hmode]
      split
      · rfl
      · rw [mode_readMember, mode_readMember]
    | members negated =>
      left
      simp only [Draft.read, interpret, ← h, hmode, mode_readMember]
  · exact hescape d e hd he

theorem InStep.readAll {e : Draft} (h : d.InStep e) (cs : List Char) :
    (d.readAll cs).InStep (e.readAll cs) := by
  induction cs generalizing d e with
  | nil => exact h
  | cons c cs ih => exact ih (h.read c)

theorem readAll_toList_append (d : Draft) (p v : String) :
    d.readAll (p ++ v).toList = (d.readAll p.toList).readAll v.toList := by
  rw [String.toList_append, readAll_append]

theorem InStep.append {p q : String}
    (h : (fresh.readAll p.toList).InStep (fresh.readAll q.toList)) (v : String) :
    (fresh.readAll (p ++ v).toList).InStep (fresh.readAll (q ++ v).toList) := by
  rw [readAll_toList_append, readAll_toList_append]
  exact h.readAll v.toList

theorem InStep.pending_iff {e : Draft} (h : d.InStep e) : d.Pending ↔ e.Pending := by
  rcases h with h | ⟨hd, he⟩
  · simp only [Pending, h]
  · simp only [hd, he]

theorem InStep.mode_eq {e : Draft} (h : d.InStep e) (hd : ¬ d.Pending) : d.mode = e.mode :=
  h.resolve_right fun hpending => hd hpending.1

/-! ## Ending a class -/

/-- The draft once its open class, if there is one, has ended. -/
def settle (d : Draft) : Draft :=
  match d.mode with
  | .plain => d
  | .escaped _ => d
  | .classStart => d.endClass false
  | .members negated => d.endClass negated

theorem settle_of_plain (h : d.mode = .plain) : d.settle = d := by
  simp only [settle, h]

theorem settle_of_members {negated : Bool} (h : d.mode = .members negated) :
    d.settle = d.endClass negated := by
  simp only [settle, h]

/-- The end of the pattern ends the class. -/
theorem finish_settle (d : Draft) : d.settle.finish = d.finish := by
  cases h : d.mode <;> simp [settle, finish, h, mode_endClass]

theorem pending_settle_iff (d : Draft) : d.settle.Pending ↔ d.Pending := by
  cases h : d.mode <;> simp [settle, Pending, h, mode_endClass]

/-- A class that does not begin with `^` is read as if its members had begun already. -/
theorem settle_readAll_classStart (h : d.mode = .classStart) {cs : List Char}
    (hcs : cs.head? ≠ some '^') :
    (d.readAll cs).settle = (readAll { d with mode := .members false } cs).settle := by
  cases cs with
  | nil =>
    simp only [readAll_nil, settle, h]
    rfl
  | cons c rest =>
    have hc : c ≠ '^' := by simpa using hcs
    have hread : d.read c = read { d with mode := .members false } c := by
      simp only [Draft.read, interpret, h, if_neg hc]
      rfl
    rw [readAll_cons, readAll_cons, hread]

theorem read_member {negated : Bool} (h : d.mode = .members negated) {c : Char} (hc : c ≠ ']') :
    d.read c = { d.sprout (.char c) true with
      mode := .members negated, offset := d.offset + c.utf8Size } := by
  simp only [Draft.read, interpret, h, readMember, if_neg hc]

/-- The members of a class move the reader nowhere. -/
theorem readAll_members {negated : Bool} {members : List Char} (h : d.mode = .members negated)
    (hmembers : ∀ c ∈ members, c ≠ ']') :
    (d.readAll members).mode = .members negated
    ∧ (d.readAll members).current = d.current
    ∧ (d.readAll members).groups = d.groups := by
  induction members generalizing d with
  | nil => exact ⟨h, rfl, rfl⟩
  | cons c rest ih =>
    have hread := read_member h (hmembers c List.mem_cons_self)
    have hrest := ih (d := d.read c) (by rw [hread])
      (fun x hx => hmembers x (List.mem_cons_of_mem c hx))
    rw [hread] at hrest
    rw [readAll_cons, hread]
    exact hrest

theorem ne_of_mem_takeWhile (cs : List Char) : ∀ c ∈ cs.takeWhile (· ≠ ']'), c ≠ ']' :=
  fun c hc => by simpa using List.mem_takeWhile_imp hc

/-- The `]` after a class is read as if the class had ended before it. -/
theorem settle_readAll_endClass {negated : Bool} (h : d.mode = .members negated)
    {cs : List Char} (hcs : ∀ c, cs.head? = some c → c = ']') :
    (d.readAll cs).settle = ((d.endClass negated).readAll cs).settle := by
  have hmode := mode_endClass (d := d) negated
  cases cs with
  | nil => rw [readAll_nil, readAll_nil, settle_of_members h, settle_of_plain hmode]
  | cons c rest =>
    obtain rfl : c = ']' := hcs c rfl
    have hoffset : (d.endClass negated).offset = d.offset := by
      unfold endClass
      split <;> rfl
    have hread : d.read ']' = (d.endClass negated).read ']' := by
      simp only [Draft.read, interpret, h, hmode, hoffset, readMember, if_pos]
    rw [readAll_cons, readAll_cons, hread]

/-- A class ends before its `]`, or at the end of the pattern. -/
theorem settle_readAll_class {negated : Bool} (h : d.mode = .members negated) (cs : List Char) :
    (d.readAll cs).settle
      = (((d.readAll (cs.takeWhile (· ≠ ']'))).endClass negated).readAll
          (cs.dropWhile (· ≠ ']'))).settle := by
  have hmode := (readAll_members h (ne_of_mem_takeWhile cs)).1
  have hrest : ∀ c, (cs.dropWhile (· ≠ ']')).head? = some c → c = ']' := by
    intro c hc
    have hstop := List.head?_dropWhile_not (· ≠ ']') cs
    rw [hc] at hstop
    simpa using hstop
  rw [← settle_readAll_endClass hmode hrest, ← readAll_append, List.takeWhile_append_dropWhile]

/-! ## The offset -/

theorem offset_readAll (cs : List Char) :
    (fresh.readAll cs).offset = (String.ofList cs).utf8ByteSize := by
  induction cs using List.reverseRecOn with
  | nil => rfl
  | append_singleton init c ih =>
    rw [readAll_append, String.ofList_append, String.utf8ByteSize_append, ← ih]
    rw [← String.singleton_eq_ofList, String.utf8ByteSize_singleton]
    rfl

theorem finish_eq_error {offset : Nat} :
    d.finish = .error (.unterminatedEscape offset) ↔ d.mode = .escaped offset := by
  cases hmode : d.mode <;> simp [finish, hmode]

theorem exists_finish_eq_ok : (∃ states, d.finish = .ok states) ↔ ¬ d.Pending := by
  cases hmode : d.mode <;> simp [finish, Pending, hmode]

/-- The offset of a pending escape is the one of the last byte that has been read. -/
theorem offset_of_mode_eq {cs : List Char} {offset : Nat}
    (h : (fresh.readAll cs).mode = .escaped offset) :
    offset + 1 = (String.ofList cs).utf8ByteSize := by
  cases cs using List.reverseRecOn with
  | nil => cases h
  | append_singleton init c =>
    rw [readAll_append] at h
    obtain ⟨rfl, rfl⟩ := eq_of_mode_read h
    rw [offset_readAll, String.ofList_append, String.utf8ByteSize_append]
    rfl

end Draft

/-! ## The law -/

/-- A pattern is refused if it ends in a dangling escape. The error bears the offset of the
backslash, one less than the length of the pattern in bytes. Every other pattern compiles,
whatever the builder has built before. -/
theorem a_pattern_is_refused_for_a_dangling_escape_alone (b : Builder) (pattern : String) :
    (∀ offset, (b.build pattern).1 = .error (.unterminatedEscape offset)
      ↔ EndsInDanglingEscape pattern.toList ∧ offset + 1 = pattern.utf8ByteSize)
    ∧ ((∃ a, (b.build pattern).1 = .ok a) ↔ ¬ EndsInDanglingEscape pattern.toList) := by
  rw [← Draft.pending_readAll_iff]
  constructor
  · intro offset
    rw [Builder.build_eq_error, Draft.finish_eq_error]
    constructor
    · intro hmode
      refine ⟨⟨offset, hmode⟩, ?_⟩
      simpa using Draft.offset_of_mode_eq hmode
    · rintro ⟨⟨found, hmode⟩, hoffset⟩
      have hfound : found + 1 = pattern.utf8ByteSize := by
        simpa using Draft.offset_of_mode_eq hmode
      obtain rfl : found = offset := by omega
      exact hmode
  · rw [← Draft.exists_finish_eq_ok]
    constructor
    · rintro ⟨a, ha⟩
      exact ⟨a.states, (Builder.build_eq_ok.1 ha).1⟩
    · rintro ⟨states, hstates⟩
      let a : Automaton := { states, start := Draft.root, simulation := b.simulation }
      exact ⟨a, Builder.build_eq_ok.2 ⟨hstates, rfl, rfl⟩⟩

/-- The first backslash is a member of the class, and the second one dangles. -/
example : compile "é[\\]\\" = .error (.unterminatedEscape 5) := rfl

end PatternNFA
