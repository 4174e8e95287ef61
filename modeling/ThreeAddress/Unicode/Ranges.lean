/-!
# Sets of code points

A character class is a list of closed ranges of code points in ascending order.  Membership stops at the first
range that begins above the point.

Main statement: in an ascending list, `contains` is membership in one of the ranges (`Ranges.contains_iff`).
-/

namespace ThreeAddress

/-- A set of code points: disjoint closed ranges `(first, last)` in ascending order. -/
abbrev Ranges := List (Nat × Nat)

/-- Membership in an ascending list of ranges. -/
def Ranges.contains : Ranges → Nat → Bool
  | [], _ => false
  | (first, last) :: rest, n => decide (first ≤ n) && (decide (n ≤ last) || Ranges.contains rest n)

/-- Whether some range has a point from `low` to `high`, both included. -/
def Ranges.meets (ranges : Ranges) (low high : Nat) : Bool :=
  ranges.any fun range => decide (range.1 ≤ high) && decide (low ≤ range.2)

/-- Whether the ranges are ascending and disjoint, and none begins below `low`. -/
def Ranges.ascendsFrom : Nat → Ranges → Bool
  | _, [] => true
  | low, (first, last) :: rest =>
    decide (low ≤ first) && decide (first ≤ last) && Ranges.ascendsFrom (last + 1) rest

private theorem low_le_of_mem {low : Nat} {ranges : Ranges} (h : Ranges.ascendsFrom low ranges = true)
    {range : Nat × Nat} (hr : range ∈ ranges) : low ≤ range.1 := by
  induction ranges generalizing low with
  | nil => cases hr
  | cons first rest ih =>
    simp only [Ranges.ascendsFrom, Bool.and_eq_true, decide_eq_true_eq] at h
    rcases List.mem_cons.1 hr with rfl | hr
    · exact h.1.1
    · have := ih h.2 hr
      omega

/-- In an ascending list, membership is membership in one of the ranges. -/
theorem Ranges.contains_iff {low : Nat} {ranges : Ranges} (h : Ranges.ascendsFrom low ranges = true) (n : Nat) :
    ranges.contains n = true ↔ ∃ range ∈ ranges, range.1 ≤ n ∧ n ≤ range.2 := by
  induction ranges generalizing low with
  | nil => simp [Ranges.contains]
  | cons range rest ih =>
    simp only [Ranges.ascendsFrom, Bool.and_eq_true, decide_eq_true_eq] at h
    simp only [Ranges.contains, Bool.and_eq_true, Bool.or_eq_true, decide_eq_true_eq, ih h.2, List.mem_cons,
      exists_eq_or_imp]
    constructor
    · rintro ⟨hlow, hhigh | hin⟩
      · exact Or.inl ⟨hlow, hhigh⟩
      · exact Or.inr hin
    · rintro (⟨hlow, hhigh⟩ | ⟨r, hr, hlow, hhigh⟩)
      · exact ⟨hlow, Or.inl hhigh⟩
      · have := low_le_of_mem h.2 hr
        exact ⟨by omega, Or.inr ⟨r, hr, hlow, hhigh⟩⟩

end ThreeAddress
