-- Texts that can be taken apart again. A line ends at its line feed, and a number at the blank after
-- it, as neither stands inside. Where no text of a kind begins another one, a row of them can be
-- read back, whatever follows.
import Mathlib.Logic.Function.Basic

namespace PatternNFA

/-! ## Numbers -/

theorem toList_number (n : Nat) : (toString n).toList = Nat.toDigits 10 n := by
  rw [Nat.toString_eq_repr, Nat.toList_repr]

theorem isDigit_of_mem_number {n : Nat} {c : Char} (h : c ∈ (toString n).toList) :
    c.isDigit = true := by
  rw [toList_number] at h
  exact Nat.isDigit_of_mem_toDigits (by decide) (by decide) h

/-! ## Lines of text -/

/-- No line feed stands in the text. -/
def Unbroken (text : String) : Prop := '\n' ∉ text.toList

instance (text : String) : Decidable (Unbroken text) := inferInstanceAs (Decidable ¬_)

/-- A line feed ends the text, and there is no other in it. -/
def IsLine (text : String) : Prop := ∃ body, Unbroken body ∧ text = body ++ "\n"

theorem unbroken_append {s t : String} : Unbroken (s ++ t) ↔ Unbroken s ∧ Unbroken t := by
  simp [Unbroken, not_or]

theorem unbroken_join {texts : List String} (h : ∀ text ∈ texts, Unbroken text) :
    Unbroken (String.join texts) := by
  simpa [Unbroken] using h

theorem unbroken_intercalate {separator : String} {texts : List String}
    (hseparator : Unbroken separator) (h : ∀ text ∈ texts, Unbroken text) :
    Unbroken (separator.intercalate texts) := by
  induction texts with
  | nil =>
    rw [String.intercalate_nil]
    decide
  | cons text rest ih =>
    have htext := h text List.mem_cons_self
    have hrest := ih fun other hother => h other (List.mem_cons_of_mem text hother)
    cases rest with
    | nil => simpa using htext
    | cons next rest =>
      rw [String.intercalate_cons_cons, unbroken_append, unbroken_append]
      exact ⟨⟨htext, hseparator⟩, hrest⟩

theorem unbroken_toString (n : Nat) : Unbroken (toString n) := by
  intro hmem
  cases isDigit_of_mem_number hmem

/-! ## Reading a text back -/

/-- The texts can be told apart, and from whatever follows: none of them begins another one. -/
def Readable {α : Type} (text : α → List Char) : Prop :=
  ∀ ⦃x y xs ys⦄, text x ++ xs = text y ++ ys → x = y ∧ xs = ys

/-- A row of texts that can be read back one after the other can be read back as a whole. -/
theorem Readable.flatMap_injective {α : Type} {text : α → List Char} (h : Readable text)
    (hne : ∀ x, text x ≠ []) : Function.Injective fun row : List α => row.flatMap text := by
  intro row row' heq
  induction row generalizing row' with
  | nil =>
    cases row' with
    | nil => rfl
    | cons y row' =>
      have hnil := (List.append_eq_nil_iff.1 heq.symm).1
      exact absurd hnil (hne y)
  | cons x row ih =>
    cases row' with
    | nil =>
      have hnil := (List.append_eq_nil_iff.1 heq).1
      exact absurd hnil (hne x)
    | cons y row' =>
      simp only [List.flatMap_cons] at heq
      obtain ⟨rfl, hrest⟩ := h heq
      rw [ih hrest]

/-- What stands before the first blank ends there. -/
theorem eq_of_append_blank {u v xs ys : List Char} (hu : ' ' ∉ u) (hv : ' ' ∉ v)
    (h : u ++ ' ' :: xs = v ++ ' ' :: ys) : u = v ∧ xs = ys := by
  induction u generalizing v with
  | nil =>
    cases v with
    | nil => exact ⟨rfl, (List.cons.inj h).2⟩
    | cons c v => exact absurd ((List.cons.inj h).1 ▸ List.mem_cons_self) hv
  | cons c u ih =>
    cases v with
    | nil => exact absurd ((List.cons.inj h).1 ▸ List.mem_cons_self) hu
    | cons d v =>
      obtain ⟨rfl, hrest⟩ := List.cons.inj h
      have hu := fun hmem => hu (List.mem_cons_of_mem c hmem)
      have hv := fun hmem => hv (List.mem_cons_of_mem c hmem)
      obtain ⟨rfl, hxs⟩ := ih hu hv hrest
      exact ⟨rfl, hxs⟩

theorem readable_number : Readable fun n : Nat => (toString n).toList ++ [' '] := by
  intro n m xs ys h
  simp only [List.append_assoc, List.singleton_append] at h
  have hblank : ∀ k : Nat, ' ' ∉ (toString k).toList := by
    intro k hmem
    cases isDigit_of_mem_number hmem
  obtain ⟨hdigits, hrest⟩ := eq_of_append_blank (hblank n) (hblank m) h
  have hvalue := congrArg (Nat.ofDigitChars 10 · 0) hdigits
  simp only [toList_number, Nat.ofDigitChars_ten_toDigits] at hvalue
  exact ⟨hvalue, hrest⟩

end PatternNFA
