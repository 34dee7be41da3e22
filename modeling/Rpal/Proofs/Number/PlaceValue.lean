/-
# The integers that numerals write

A numeral stands for an integer by the places of its digits, each worth ten times as much as the
next, in whatever script they are written (`numeralValue`):

    -007    ٤٢    -0

Reading gives this integer (`IsNumeral.readInteger_eq_ok_iff`).  Writing an integer gives a
*canonical* numeral for it (`isCanonical_integerText`, `numeralValue_integerText`): digits `0` to
`9`, no zero in front of others, and no sign in front of zero.
-/
import Mathlib.Data.Nat.Digits.Defs
import Rpal.Proofs.Operator.Integers

namespace Rpal.Number

/-! ## 1. Values -/

/-- The number that digits write. -/
def placeValue (cs : List Char) : Nat := Nat.ofDigits 10 (cs.reverse.map digitWorth)

/-- The integer that a numeral writes. -/
def numeralValue (text : String) : Int :=
  if text.toList.head? = some '-' then -(placeValue (numeralDigits text) : Int)
  else placeValue (numeralDigits text)

/-- What is read from the left, digit by digit, is the sum over the places from the right. -/
theorem ofDigitValues_eq (cs : List Char) :
    ofDigitValues (cs.map digitWorth) = placeValue cs := by
  rw [ofDigitValues, placeValue, List.map_reverse, Nat.ofDigits_eq_foldr, List.foldr_reverse]
  simp only [Nat.cast_id, Nat.add_comm]

/-- The numeral has no more digits than the limit allows. -/
def IsShort (text : String) : Prop := (numeralDigits text).length ≤ digitLimit

instance (text : String) : Decidable (IsShort text) :=
  inferInstanceAs (Decidable ((numeralDigits text).length ≤ digitLimit))

/-- **Reading a numeral** gives the integer that it writes, if its digits are not too many. -/
theorem IsNumeral.readInteger_eq_ok_iff {text : String} (h : IsNumeral text) {n : Int} :
    readInteger text = .ok n ↔ IsShort text ∧ n = numeralValue text := by
  rw [h.readInteger_eq, readNatural_of_forall h.1 h.2, ofDigitValues_eq, IsShort]
  by_cases hlimit : (numeralDigits text).length ≤ digitLimit
  · rw [if_pos hlimit, and_iff_right hlimit]
    change Except.ok (numeralValue text) = Except.ok n ↔ _
    rw [Except.ok.injEq, eq_comm]
  · rw [if_neg hlimit]
    exact iff_of_false nofun fun hn => hlimit hn.1

/-! ## 2. Canonical numerals -/

/-- Digits `0` to `9`, with a zero in front only in `0`. -/
structure IsCanonical (text : String) : Prop where
  ne_nil : numeralDigits text ≠ []
  digits : ∀ c ∈ numeralDigits text, c.isDigit
  leading : (numeralDigits text).head? = some '0' → text = "0"

theorem eq_zero_of_head?_toDigits {n : Nat} (h : (Nat.toDigits 10 n).head? = some '0') :
    n = 0 := by
  induction n using Nat.strong_induction_on with
  | h n ih =>
    by_cases hn : n < 10
    · have hdigit : ∀ m < 10, m.digitChar = '0' → m = 0 := by decide
      rw [Nat.toDigits_of_lt_base hn] at h
      exact hdigit n hn (Option.some.inj h)
    · -- the first digit is that of a tenth of the number
      obtain ⟨c, rest, htenth⟩ := List.exists_cons_of_ne_nil
        (Nat.toDigits_ne_nil (n := n / 10) (b := 10))
      rw [Nat.toDigits_of_base_le (by decide) (Nat.le_of_not_lt hn), htenth] at h
      have hsmall : n / 10 = 0 := ih (n / 10) (by omega) (by rw [htenth]; exact h)
      omega

/-- **What is written is canonical.** -/
theorem isCanonical_integerText (n : Int) : IsCanonical (integerText n) := by
  refine ⟨?_, ?_, ?_⟩
  · exact (isNumeral_integerText n).1
  · intro c hc
    rw [numeralDigits_integerText] at hc
    exact Nat.isDigit_of_mem_toDigits (by decide) (by decide) hc
  · intro hzero
    rw [numeralDigits_integerText] at hzero
    obtain rfl := Int.natAbs_eq_zero.mp (eq_zero_of_head?_toDigits hzero)
    rfl

/-- **What is written for an integer writes it.** -/
theorem numeralValue_integerText (n : Int) : numeralValue (integerText n) = n := by
  rw [numeralValue, numeralDigits_integerText, ← ofDigitValues_eq, ofDigitValues_toDigits]
  simp only [head?_integerText_iff]
  split
  · rw [Int.ofNat_natAbs_of_nonpos (by omega), Int.neg_neg]
  · rw [Int.natAbs_of_nonneg (by omega)]

theorem isShort_integerText {n : Int} : IsShort (integerText n) ↔ Fits n := by
  rw [IsShort, numeralDigits_integerText]
  exact Nat.length_toDigits_le_iff (by decide) (by decide)

end Rpal.Number
