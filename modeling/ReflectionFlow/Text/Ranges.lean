/-
  File:      ReflectionFlow/Text/Ranges.lean
  Subject:   Sets of code points as lists of ranges.

  A property of characters is a table of closed ranges.  In a proper table the ranges are in
  ascending order and apart from each other, so the table has one form.

  Main definitions:
  * `inRanges`           is a code point in the set?
  * `Ranges.ascending`   a proper table
  * `Ranges.count`       how many code points a proper table holds
-/

namespace ReflectionFlow.Text

/-- A set of code points as closed ranges. -/
abbrev Ranges := List (Nat × Nat)

/-- A code point that lies in one of the ranges. -/
def inRanges (ranges : Ranges) (n : Nat) : Bool := ranges.any fun r => r.1 ≤ n && n ≤ r.2

/-- Are the ranges well-formed, in ascending order, and apart from each other? -/
def Ranges.ascending : Ranges → Bool
  | [] => true
  | [r] => r.1 ≤ r.2
  | r :: q :: rest => r.1 ≤ r.2 && r.2 + 1 < q.1 && Ranges.ascending (q :: rest)

/-- The number of code points of a proper table. -/
def Ranges.count (ranges : Ranges) : Nat :=
  ranges.foldl (fun n r => n + (r.2 - r.1 + 1)) 0

/-- A code point is in the set exactly when it is in one of the ranges. -/
theorem inRanges_iff (ranges : Ranges) (n : Nat) :
    inRanges ranges n = true ↔ ∃ r ∈ ranges, r.1 ≤ n ∧ n ≤ r.2 := by
  simp [inRanges]

end ReflectionFlow.Text
