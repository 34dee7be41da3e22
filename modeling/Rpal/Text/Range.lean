/-
# Tables of code point ranges

A property of characters that a standard lists is kept as a table of ranges of code points,
in ascending order and apart from each other.  `inRanges` looks a code point up.
-/
namespace Rpal.Text

/-- Whether a code point lies in one of the ranges.  The table ascends, so the search ends at
the first range that starts beyond the code point. -/
def inRanges : List (Nat × Nat) → Nat → Bool
  | [], _ => false
  | (first, last) :: rest, n => first ≤ n && (n ≤ last || inRanges rest n)

/-- A range that holds the code point decides the search. -/
theorem inRanges_cons_of_mem {first last n : Nat} {rest : List (Nat × Nat)}
    (hf : first ≤ n) (hl : n ≤ last) : inRanges ((first, last) :: rest) n = true := by
  simp [inRanges, hf, hl]

/-- Nothing that starts later can hold the code point. -/
theorem inRanges_cons_of_lt {first last n : Nat} {rest : List (Nat × Nat)} (h : n < first) :
    inRanges ((first, last) :: rest) n = false := by
  simp [inRanges, Nat.not_le.mpr h]

end Rpal.Text
