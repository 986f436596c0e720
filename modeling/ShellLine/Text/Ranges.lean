/-! # Sets of code points as ascending ranges

A character class of the Unicode standard is kept as a list of closed ranges in ascending order.
Membership walks the list and stops at the first range that starts beyond the code point, so that
the common characters are decided by the first few ranges. `covers_iff` says that on an ascending
list this shortcut loses nothing.
-/

namespace ShellLine.Text

/-- Closed ranges of code points, each given by its first and last member. -/
abbrev Ranges := List (Nat × Nat)

namespace Ranges

/-- Whether a code point lies in one of the ranges. -/
def covers : Ranges → Nat → Bool
  | [], _ => false
  | (first, last) :: rest, n =>
    if n < first then false else if n ≤ last then true else covers rest n

/-- Every range is non-empty, lies beyond `bound`, and ends before the next one starts. -/
def ascendsFrom (bound : Nat) : Ranges → Bool
  | [] => true
  | (first, last) :: rest =>
    decide (bound ≤ first) && decide (first ≤ last) && ascendsFrom (last + 1) rest

/-- The number of code points in the ranges. -/
def count (ranges : Ranges) : Nat :=
  ranges.foldr (fun range total => range.2 + 1 - range.1 + total) 0

private theorem bound_le_of_mem {ranges : Ranges} {bound : Nat} (ascends : ranges.ascendsFrom bound)
    {range : Nat × Nat} (member : range ∈ ranges) : bound ≤ range.1 := by
  induction ranges generalizing bound with
  | nil => cases member
  | cons head rest ih =>
    obtain ⟨first, last⟩ := head
    simp only [ascendsFrom, Bool.and_eq_true, decide_eq_true_eq] at ascends
    rcases List.mem_cons.mp member with equal | later
    · subst equal
      exact ascends.1.1
    · have := ih ascends.2 later
      omega

/-- On an ascending list the walk decides membership in the union of the ranges. -/
theorem covers_iff {ranges : Ranges} {bound : Nat} (ascends : ranges.ascendsFrom bound) (n : Nat) :
    ranges.covers n ↔ ∃ range ∈ ranges, range.1 ≤ n ∧ n ≤ range.2 := by
  induction ranges generalizing bound with
  | nil => simp [covers]
  | cons head rest ih =>
    obtain ⟨first, last⟩ := head
    simp only [ascendsFrom, Bool.and_eq_true, decide_eq_true_eq] at ascends
    have split : (∃ range ∈ (first, last) :: rest, range.1 ≤ n ∧ n ≤ range.2) ↔
        (first ≤ n ∧ n ≤ last) ∨ ∃ range ∈ rest, range.1 ≤ n ∧ n ≤ range.2 := by simp
    rw [split, ← ih ascends.2, covers]
    by_cases below : n < first
    · have outside : ¬ covers rest n = true := by
        rw [ih ascends.2]
        rintro ⟨range, later, from_first, _⟩
        have := bound_le_of_mem ascends.2 later
        omega
      have apart : ¬ (first ≤ n ∧ n ≤ last) := by omega
      simp [below, apart, outside]
    · by_cases inside : n ≤ last
      · simp only [below, inside, ↓reduceIte, and_true, true_iff]
        exact Or.inl (by omega)
      · simp [below, inside]

end Ranges

end ShellLine.Text
