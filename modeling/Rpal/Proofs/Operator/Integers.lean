/-
# Integers that fit

An integer *fits* if its canonical text has at most `digitLimit` digits.  Such an integer is
written without a failure and read back as it was (`readInteger_integerText`), so operators on
canonical texts compute with the integers themselves as long as operands and results fit
(`arithmetic_int`, `equality_int`).
-/
import Rpal.Proofs.Number.Numeral
import Rpal.Proofs.Operator.Operands

namespace Rpal

namespace Number

/-- The canonical text of the integer is within the limit. -/
def Fits (n : Int) : Prop := n.natAbs < 10 ^ digitLimit

/-! ## 1. Digits -/

/-- The digits `0` to `9` stand for themselves. -/
theorem digitWorth_of_isDigit {c : Char} (h : c.isDigit = true) : digitWorth c = c.toNat - 48 := by
  rw [digitWorth, Text.digitValue?_of_isDigit h]
  rfl

/-- The digits that are written for a number stand for it. -/
theorem ofDigitValues_toDigits (n : Nat) :
    ofDigitValues ((Nat.toDigits 10 n).map digitWorth) = n := by
  have hworth : (Nat.toDigits 10 n).map digitWorth =
      (Nat.toDigits 10 n).map fun c => c.toNat - 48 :=
    List.map_congr_left fun c hc =>
      digitWorth_of_isDigit (Nat.isDigit_of_mem_toDigits (by decide) (by decide) hc)
  rw [hworth, ofDigitValues, List.foldl_map]
  exact Nat.ofDigitChars_eq_foldl.symm.trans Nat.ofDigitChars_ten_toDigits

/-- **Digits are read back**: the number that the digits of `n` write is `n`. -/
theorem readNatural_toDigits {n : Nat} (h : n < 10 ^ digitLimit) :
    readNatural (Nat.toDigits 10 n) = .ok n := by
  have hlength : (Nat.toDigits 10 n).length ≤ digitLimit :=
    (Nat.length_toDigits_le_iff (by decide) (by decide)).mpr h
  rw [readNatural_of_forall Nat.toDigits_ne_nil isDigit_of_mem_toDigits, if_pos hlength,
    ofDigitValues_toDigits]

/-- A text of digits has at most `digitLimit` of them exactly if its number fits. -/
theorem fits_iff_length_toString {n : Nat} :
    Fits n ↔ (toString n).length ≤ digitLimit := by
  rw [Fits, Int.natAbs_natCast, Nat.toString_eq_ofList_toDigits, String.length_ofList,
    Nat.length_toDigits_le_iff (by decide) (by decide)]

theorem Fits.of_le {m n : Nat} (h : Fits n) (hle : m ≤ n) : Fits m :=
  Nat.lt_of_le_of_lt hle h

theorem fits_of_natAbs_le_one {n : Int} (h : n.natAbs ≤ 1) : Fits n :=
  Nat.lt_of_le_of_lt h (Nat.one_lt_pow (by decide) (by decide))

/-! ## 2. Canonical texts -/

/-- **What is written is read back.** -/
theorem readInteger_integerText {n : Int} (h : Fits n) : readInteger (integerText n) = .ok n := by
  rw [(isNumeral_integerText n).readInteger_eq, numeralDigits_integerText, readNatural_toDigits h]
  simp only [head?_integerText_iff]
  change Except.ok (if n < 0 then -(n.natAbs : Int) else n.natAbs) = .ok n
  split
  · rw [Int.ofNat_natAbs_of_nonpos (by omega), Int.neg_neg]
  · rw [Int.natAbs_of_nonneg (by omega)]

theorem writeInteger_of_fits {n : Int} (h : Fits n) : writeInteger n = .ok (integerText n) := by
  rw [Fits] at h
  rw [writeInteger, Nat.pow_eq, if_pos h]

end Number

open Number

/-! ## 3. Operators -/

namespace Item

/-- The value of an integer. -/
def int (n : Int) : Item := literal .integer (integerText n)

theorem integer_int {n : Int} (h : Fits n) : (int n).integer = .ok n := by
  rw [integer, int, literal, text]
  simp only [readInteger_integerText h]
  rfl

theorem ofInteger_of_fits {n : Int} (h : Fits n) : ofInteger n = .ok (int n) := by
  unfold ofInteger
  rw [writeInteger_of_fits h]
  rfl

end Item

namespace BinaryOperator

open Item

variable {a b : Int} (ha : Fits a) (hb : Fits b)

include ha hb

/-- Arithmetic on integers that fit. -/
theorem arithmetic_int (op : BinaryOperator) {f : Int → Int → Int} (h : Fits (f a b)) :
    op.arithmetic f (int a) (int b) = .ok (int (f a b)) := by
  have hkinds : checkOperands op.name "integer" [.integer] [int a, int b] = .ok () :=
    checkOperands_two _ _ _ _ _
  simp only [arithmetic, hkinds, integer_int ha, integer_int hb, bind, Except.bind,
    ofInteger_of_fits h]

/-- Integers that fit are equal as values if they are equal. -/
theorem equality_int (op : BinaryOperator) :
    op.equality (int a) (int b) = .ok (decide (a = b)) := by
  have hread : op.equality (int a) (int b) = (do
      let a ← (int a).integer
      let b ← (int b).integer
      .ok (a == b)) := rfl
  rw [hread, integer_int ha, integer_int hb]
  rfl

end BinaryOperator

end Rpal
