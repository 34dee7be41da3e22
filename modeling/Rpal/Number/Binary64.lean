/-
# Integers as binary floating point numbers

A power with a negative exponent is taken in binary floating point with 53 significant bits.
Only two facts about that arithmetic show in the result: which integers are too large to be
converted, and to which integer a convertible one is rounded.  Both are settled here in exact
arithmetic.
-/
namespace Rpal.Number

/-- The number of significant bits. -/
def significandBits : Nat := 53

/-- A natural number rounded to 53 significant bits; a tie goes to the even neighbour. -/
def roundToSignificand (n : Nat) : Nat :=
  let shift := n.log2 + 1 - significandBits
  let unit := Nat.pow 2 shift
  let quotient := n / unit
  let remainder := n % unit
  if 2 * remainder > unit || (2 * remainder == unit && quotient % 2 == 1) then
    (quotient + 1) * unit
  else quotient * unit

/-- The floating point value of a natural number, if it is in range, below the 1024th power of two. -/
def toBinary64? (n : Nat) : Option Nat :=
  let rounded := roundToSignificand n
  if rounded < Nat.pow 2 1024 then some rounded else none

/-- A number of at most 53 bits is exact. -/
theorem roundToSignificand_of_lt {n : Nat} (h : n < Nat.pow 2 significandBits) :
    roundToSignificand n = n := by
  have hs : n.log2 + 1 - significandBits = 0 := by
    rcases Nat.eq_zero_or_pos n with rfl | hn
    · rfl
    · have := (Nat.log2_lt (Nat.pos_iff_ne_zero.mp hn)).mpr h
      omega
  simp [roundToSignificand, hs, Nat.mod_one]

/-- The power `base ^ -exponent`, truncated toward zero, for a base other than zero.  The
exponent counts by its rounded value, so a large odd one behaves as an even one. -/
def truncatedInversePower (base : Int) (exponent : Nat) : Option Int := do
  let _ ← toBinary64? base.natAbs
  let rounded ← toBinary64? exponent
  if base = 1 then some 1
  else if base = -1 then some (if rounded % 2 = 0 then 1 else -1)
  else some 0

end Rpal.Number
