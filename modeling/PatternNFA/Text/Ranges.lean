-- A set of characters, written as closed ranges of code points in ascending
-- order. The search stops at the first range that lies past the code point, and
-- because of the order it finds every code point that a range covers.

namespace PatternNFA.Text

/-- No range is empty, and each lies past the one before it; the first starts no lower than
`low`. -/
def ascend (low : Nat) : List (Nat × Nat) → Bool
  | [] => true
  | (first, last) :: rest => low ≤ first && first ≤ last && ascend (last + 1) rest

def search : List (Nat × Nat) → Nat → Bool
  | [], _ => false
  | (first, last) :: rest, n => if n < first then false else n ≤ last || search rest n

structure Ranges where
  list : List (Nat × Nat)
  ascending : ascend 0 list = true

theorem low_le_of_mem {rs : List (Nat × Nat)} {low : Nat} (h : ascend low rs = true)
    {r : Nat × Nat} (hr : r ∈ rs) : low ≤ r.1 := by
  induction rs generalizing low with
  | nil => simp at hr
  | cons head rest ih =>
    simp only [ascend, Bool.and_eq_true, decide_eq_true_eq] at h
    rcases List.mem_cons.1 hr with rfl | hr
    · exact h.1.1
    · have := ih h.2 hr
      omega

theorem search_iff {rs : List (Nat × Nat)} {low : Nat} (h : ascend low rs = true) (n : Nat) :
    search rs n = true ↔ ∃ r ∈ rs, r.1 ≤ n ∧ n ≤ r.2 := by
  induction rs generalizing low with
  | nil => simp [search]
  | cons head rest ih =>
    simp only [ascend, Bool.and_eq_true, decide_eq_true_eq] at h
    simp only [search]
    split
    · -- The code point lies before this range, and so before every later one.
      rename_i hlt
      simp only [Bool.false_eq_true, false_iff, not_exists, not_and]
      intro r hr h1
      rcases List.mem_cons.1 hr with rfl | hr
      · omega
      · have := low_le_of_mem h.2 hr
        omega
    · rename_i hge
      simp only [Bool.or_eq_true, decide_eq_true_eq, ih h.2, List.mem_cons, exists_eq_or_imp]
      constructor
      · rintro (h1 | h1)
        · exact Or.inl ⟨by omega, h1⟩
        · exact Or.inr h1
      · rintro (h1 | h1)
        · exact Or.inl h1.2
        · exact Or.inr h1

namespace Ranges

def contains (rs : Ranges) (n : Nat) : Bool := search rs.list n

/-- One of the ranges holds the code point. -/
def Covers (rs : Ranges) (n : Nat) : Prop := ∃ r ∈ rs.list, r.1 ≤ n ∧ n ≤ r.2

theorem contains_iff {rs : Ranges} {n : Nat} : rs.contains n = true ↔ rs.Covers n :=
  search_iff rs.ascending n

end Ranges

end PatternNFA.Text
