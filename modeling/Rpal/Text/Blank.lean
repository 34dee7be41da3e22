/-
# White space

The characters that count as white space when a line or a source text is trimmed, when the
token at a position is named and when a failure message is read: the Unicode property
`White_Space` and the four separators U+001C to U+001F.  The gaps between tokens are
narrower than this; they are the scanner's matter.
-/
import Rpal.Text.Range

namespace Rpal.Text

/-- The ranges of white space. -/
def blankRanges : List (Nat × Nat) :=
  [
    (0x0009, 0x000D), (0x001C, 0x0020), (0x0085, 0x0085), (0x00A0, 0x00A0), (0x1680, 0x1680),
    (0x2000, 0x200A), (0x2028, 0x2029), (0x202F, 0x202F), (0x205F, 0x205F), (0x3000, 0x3000)]

/-- Whether a character is white space. -/
def isBlank (c : Char) : Bool :=
  inRanges blankRanges c.toNat

/-- Every character that core calls white space is white space. -/
theorem isBlank_of_isWhitespace {c : Char} (h : c.isWhitespace = true) : isBlank c = true := by
  simp only [Char.isWhitespace, Bool.or_eq_true, decide_eq_true_eq] at h
  rcases h with ((rfl | rfl) | rfl) | rfl <;> decide

/-- Drops the white space at the start. -/
def trimStart (cs : List Char) : List Char :=
  cs.dropWhile isBlank

/-- Drops the white space at the end. -/
def trimEnd (cs : List Char) : List Char :=
  (cs.reverse.dropWhile isBlank).reverse

/-- Drops the white space at both ends. -/
def trim (cs : List Char) : List Char :=
  trimEnd (trimStart cs)

/-- Whether a text holds nothing but white space. -/
def allBlank (cs : List Char) : Bool :=
  cs.all isBlank

/-- What is left of a text after trimming its start does not start with white space. -/
theorem trimStart_head {c : Char} {cs rest : List Char} (h : trimStart cs = c :: rest) :
    isBlank c = false := by
  have := List.head?_dropWhile_not isBlank cs
  rw [show cs.dropWhile isBlank = c :: rest from h] at this
  simpa using this

/-- Trimming leaves nothing exactly when the text is all white space. -/
theorem trimStart_eq_nil_iff {cs : List Char} : trimStart cs = [] ↔ allBlank cs = true := by
  induction cs with
  | nil => simp [trimStart, allBlank]
  | cons c cs ih =>
    by_cases h : isBlank c = true
    · have hdrop : trimStart (c :: cs) = trimStart cs := by simp [trimStart, h]
      rw [hdrop, ih]
      simp [allBlank, h]
    · simp [trimStart, allBlank, h]

end Rpal.Text
