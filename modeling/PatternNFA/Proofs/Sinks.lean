-- Drawing into a sink of limited size. A write stores as much of its text as fits, and the first
-- that does not fit whole ends the drawing. So the sink receives the first bytes of the text, up to
-- its limit, and it makes no difference in which pieces the text is written.
import PatternNFA.Drawing
import PatternNFA.Proofs.Preorder

namespace PatternNFA

namespace Sink

/-! ## One text -/

theorem room_store (sink : Sink) (text : String) :
    (sink.store text).room = sink.room - text.utf8ByteSize := by
  have hsize : (text.toUTF8.extract 0 sink.room).size = min sink.room text.utf8ByteSize :=
    ByteArray.size_extract
  unfold room at hsize
  simp only [room, store, ByteArray.size_append, hsize]
  omega

/-- To store a text is to store its parts one after the other, wherever it is cut. -/
theorem store_append (sink : Sink) (s t : String) :
    sink.store (s ++ t) = (sink.store s).store t := by
  have hbytes : (s ++ t).toUTF8.extract 0 sink.room
      = s.toUTF8.extract 0 sink.room ++ t.toUTF8.extract 0 (sink.room - s.utf8ByteSize) := by
    have hparts : (s ++ t).toUTF8 = s.toUTF8 ++ t.toUTF8 := String.toByteArray_append
    rw [hparts, ByteArray.extract_append, Nat.zero_sub]
    rfl
  rw [store, hbytes, store, room_store, store, ByteArray.append_assoc]

/-- A full sink takes nothing more. -/
theorem store_of_full {sink : Sink} (h : sink.room = 0) (text : String) :
    sink.store text = sink := by
  rw [store, h, ByteArray.extract_same, ByteArray.append_empty]

theorem store_empty (sink : Sink) : sink.store "" = sink := by
  have hnone : "".toUTF8.extract 0 sink.room = .empty := by
    rw [ByteArray.extract_eq_empty_iff]
    exact Nat.min_le_right sink.room 0
  rw [store, hnone, ByteArray.append_empty]

/-! ## One text after the other -/

/-- The writes store what a single write of the whole text would store, and they fail if and only if
the whole text does not fit. -/
theorem write_eq (sink : Sink) (texts : List String) : sink.write texts
    = (sink.store (String.join texts),
        if (String.join texts).utf8ByteSize ≤ sink.room then .ok () else .error .full) := by
  induction texts generalizing sink with
  | nil =>
    rw [write, String.join_nil, store_empty, String.utf8ByteSize_empty, if_pos (Nat.zero_le _)]
  | cons text rest ih =>
    rw [write, String.join_cons, store_append, String.utf8ByteSize_append]
    by_cases hfits : text.utf8ByteSize ≤ sink.room
    · have hrest : (String.join rest).utf8ByteSize ≤ (sink.store text).room
          ↔ text.utf8ByteSize + (String.join rest).utf8ByteSize ≤ sink.room := by
        rw [room_store]
        omega
      simp only [if_pos hfits, ih, hrest]
    · have hfull : (sink.store text).room = 0 := by
        rw [room_store]
        omega
      rw [if_neg hfits, store_of_full hfull, if_neg]
      omega

/-- After a piece that does not fit, the next ones are not written. -/
theorem write_append_of_failed {sink : Sink} {before : List String}
    (h : (sink.write before).2 = .error .full) (after : List String) :
    sink.write (before ++ after) = sink.write before := by
  induction before generalizing sink with
  | nil => cases h
  | cons text rest ih =>
    rw [write] at h
    rw [List.cons_append, write, write]
    by_cases hfits : text.utf8ByteSize ≤ sink.room
    · rw [if_pos hfits] at h
      rw [if_pos hfits, if_pos hfits, ih h]
    · rw [if_neg hfits, if_neg hfits]

end Sink

/-! ## The law -/

/-- The drawing succeeds if and only if it fits. In every case the sink holds the first bytes of
it, as many as the limit allows. The pieces in which the text is written do not matter, and once a
piece has failed, nothing is written after it. -/
theorem a_limited_sink_receives_the_beginning (a : Automaton) (limit : Nat) :
    let text := a.drawing.toUTF8
    ((a.drawInto limit).2 = .ok () ↔ text.size ≤ limit)
    ∧ ((a.drawInto limit).2 = .error .full ↔ limit < text.size)
    ∧ (a.drawInto limit).1.bytes = text.extract 0 (min limit text.size)
    ∧ (∀ pieces, String.join pieces = a.drawing → Sink.write { limit } pieces = a.drawInto limit)
    ∧ ∀ before after, String.join (before ++ after) = a.drawing →
        (Sink.write { limit } before).2 = .error .full →
          a.drawInto limit = Sink.write { limit } before := by
  intro text
  have hsize : text.size = a.drawing.utf8ByteSize := String.size_toByteArray
  have hwrite : ∀ pieces, String.join pieces = a.drawing → Sink.write { limit } pieces
      = (Sink.store { limit } a.drawing, if text.size ≤ limit then .ok () else .error .full) := by
    rintro pieces hpieces
    rw [Sink.write_eq, hpieces, hsize]
    rfl
  have hdraw : a.drawInto limit
      = (Sink.store { limit } a.drawing, if text.size ≤ limit then .ok () else .error .full) :=
    hwrite a.drawingLines rfl
  refine ⟨?_, ?_, ?_, ?_, ?_⟩
  · rw [hdraw]
    simp
  · rw [hdraw]
    simp
  · have hroom : Sink.room { limit } = limit := Nat.sub_zero limit
    rw [hdraw, Sink.store, hroom, ByteArray.empty_append]
    rcases Nat.le_total limit text.size with hle | hle
    · rw [Nat.min_eq_left hle]
    · rw [Nat.min_eq_right hle, ByteArray.extract_zero_size, ← Nat.max_eq_left hle]
      exact ByteArray.extract_zero_max_size
  · intro pieces hpieces
    rw [hwrite pieces hpieces, hdraw]
  · intro before after hparts hfailed
    rw [hdraw, ← hwrite _ hparts, Sink.write_append_of_failed hfailed]

/-- The limit falls between the two bytes of a label. The line with the label is the last one that
is written. -/
theorem a_label_is_cut_between_its_bytes : ∃ a, compile "ε" = .ok a
    ∧ a.drawing.toUTF8.size = 107
    ∧ (a.drawInto 80).2 = .error .full
    ∧ (a.drawInto 80).1.bytes = ("digraph nfa \x7b\n\trankdir=LR;\n\t0 [shape=box];\n"
        ++ "\t0 [peripheries=2];\n\t0 -> 1 [label=\"").toUTF8.push 0xCE
    ∧ a.drawInto 80 = Sink.write { limit := 80 } (a.drawingLines.take 5) := by
  obtain ⟨a, ha, hlines⟩ : ∃ a, compile "ε" = .ok a ∧ a.drawingLines
      = ["digraph nfa \x7b\n", "\trankdir=LR;\n", "\t0 [shape=box];\n", "\t0 [peripheries=2];\n",
        "\t0 -> 1 [label=\"ε\"];\n", "\t1 [peripheries=2];\n", "\x7d\n"] := by
    have ha : compile "ε" = .ok _ := rfl
    have hpreorder := (the_live_states_come_in_preorder (compile_inRange ha)).1
    have hlive := hpreorder.trans (by decide +kernel : _ = [0, 1])
    refine ⟨_, ha, ?_⟩
    rw [Automaton.drawingLines, hlive]
    decide +kernel
  obtain ⟨-, hfull, hbytes, -, hfailed⟩ := a_limited_sink_receives_the_beginning a 80
  have hsize : a.drawing.toUTF8.size = 107 := by
    rw [Automaton.drawing, hlines]
    decide +kernel
  have hlast := hfailed (a.drawingLines.take 5) (a.drawingLines.drop 5)
  rw [List.take_append_drop] at hlast
  refine ⟨a, ha, hsize, hfull.2 (by omega), ?_, hlast rfl ?_⟩
  · rw [hbytes, Automaton.drawing, hlines]
    decide +kernel
  · rw [hlines]
    decide +kernel

end PatternNFA
