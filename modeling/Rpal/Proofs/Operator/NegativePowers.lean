/-
# Powers with negative exponents

The power `b ^ -k` of an integer is a fraction, which is cut off toward zero (`truncate`).  That
leaves little (`truncate_inverse_pow`):

    b = 1             1
    b = -1            1 or -1, as k is even or odd
    any other b       0

The operator computes in floating point, and so it misses this result where `k` is too long for 53
binary digits, as the exponent then is even, and where `b` or `k` is out of range
(`power_negative`).
-/
import Mathlib.Data.Rat.Floor
import Mathlib.Tactic.Linarith
import Rpal.Proofs.Number.Rounding
import Rpal.Proofs.Operator.Exactness

namespace Rpal

namespace Number

/-! ## 1. Fractions -/

/-- A rational number without its fraction: the next integer toward zero. -/
def truncate (q : ℚ) : ℤ := if 0 ≤ q then ⌊q⌋ else ⌈q⌉

theorem truncate_intCast (n : ℤ) : truncate n = n := by
  unfold truncate
  split
  · exact Int.floor_intCast n
  · exact Int.ceil_intCast n

theorem truncate_eq_zero {q : ℚ} (h : |q| < 1) : truncate q = 0 := by
  obtain ⟨hlow, hhigh⟩ := abs_lt.mp h
  unfold truncate
  split
  · rename_i hq
    exact Int.floor_eq_zero_iff.mpr ⟨hq, hhigh⟩
  · rename_i hq
    exact Int.ceil_eq_zero_iff.mpr ⟨hlow, le_of_not_ge hq⟩

/-- **The inverse of a power, cut off toward zero.** -/
theorem truncate_inverse_pow {b : ℤ} (hb : b ≠ 0) {k : ℕ} (hk : k ≠ 0) :
    truncate (1 / (b : ℚ) ^ k) =
      if b = 1 then 1 else if b = -1 then (if Even k then 1 else -1) else 0 := by
  by_cases hone : b = 1
  · subst hone
    have hinverse : 1 / ((1 : ℤ) : ℚ) ^ k = (1 : ℤ) := by simp
    rw [if_pos rfl, hinverse, truncate_intCast]
  · by_cases hminus : b = -1
    · subst hminus
      have hinverse : 1 / ((-1 : ℤ) : ℚ) ^ k = ((if Even k then 1 else -1 : ℤ) : ℚ) := by
        by_cases heven : Even k
        · simp [heven]
        · simp [heven, (Nat.not_even_iff_odd.mp heven).neg_one_pow]
      rw [if_neg hone, if_pos rfl, hinverse, truncate_intCast]
    · rw [if_neg hone, if_neg hminus]
      refine truncate_eq_zero ?_
      have hlarge : 1 < |(b : ℚ)| := by
        rw [← Int.cast_abs]
        exact_mod_cast lt_abs.mpr (show 1 < b ∨ 1 < -b by omega)
      rw [abs_div, abs_one, abs_pow]
      exact (div_lt_one (by positivity)).mpr (one_lt_pow₀ hlarge hk)

/-! ## 2. Floating point -/

/-- **The inverse of a power in floating point**: an exponent of more than 53 binary digits counts
as even, and both numbers must be in range. -/
theorem truncatedInversePower_eq {b : ℤ} (hb : b ≠ 0) {k : ℕ} (hk : k ≠ 0) :
    truncatedInversePower b k =
      if b.natAbs < binary64Limit ∧ k < binary64Limit then
        some (if b = -1 ∧ 2 ^ 53 < k then 1 else truncate (1 / (b : ℚ) ^ k))
      else none := by
  rw [truncatedInversePower, toBinary64?_eq, toBinary64?_eq, truncate_inverse_pow hb hk]
  by_cases hbase : b.natAbs < binary64Limit
  · by_cases hexponent : k < binary64Limit
    · rw [if_pos hbase, if_pos hexponent, if_pos ⟨hbase, hexponent⟩]
      change (if b = 1 then some 1 else if b = -1 then
        some (if roundToSignificand k % 2 = 0 then 1 else -1) else some 0) = _
      simp only [-Nat.reducePow, ← Nat.even_iff, even_roundToSignificand_iff]
      by_cases hone : b = 1
      · subst hone
        rfl
      · by_cases hminus : b = -1
        · subst hminus
          by_cases hlong : 2 ^ 53 < k
          · simp [-Nat.reducePow, hlong]
          · simp [-Nat.reducePow, hlong]
        · rw [if_neg hone, if_neg hminus, if_neg fun h => hminus h.1, if_neg hone, if_neg hminus]
    · have hrange : ¬ (b.natAbs < binary64Limit ∧ k < binary64Limit) := fun h => hexponent h.2
      rw [if_pos hbase, if_neg hexponent, if_neg hrange]
      rfl
  · have hrange : ¬ (b.natAbs < binary64Limit ∧ k < binary64Limit) := fun h => hbase h.1
    rw [if_neg hbase, if_neg hrange]
    rfl

end Number

open Number

/-! ## 3. The operator -/

namespace BinaryOperator

variable {x y : Item} {s t : String}

/-- A base other than zero, raised to a negative power. -/
theorem power_of_neg (hx : x.Writes s) (hy : y.Writes t) (hs : IsShort s) (ht : IsShort t)
    (hbase : numeralValue s ≠ 0) (hexponent : numeralValue t < 0) :
    power x y = (truncatedInversePower (numeralValue s) (numeralValue t).natAbs).elim
      (.error (.breakdown .floatRange)) Item.ofInteger := by
  have hreadx : x.integer = .ok (numeralValue s) := hx.integer_eq_ok_iff.mpr ⟨hs, rfl⟩
  have hready : y.integer = .ok (numeralValue t) := hy.integer_eq_ok_iff.mpr ⟨ht, rfl⟩
  simp only [power, checkOperands_of_writes hx hy, ok_bind, hreadx, hready,
    if_neg (Int.not_le.mpr hexponent), if_neg hbase]
  cases truncatedInversePower (numeralValue s) (numeralValue t).natAbs with
  | none => rw [Option.elim_none]
  | some n => rw [Option.elim_some]

/-- **A negative power is the fraction cut off toward zero**, unless floating point is too narrow
for the base or the exponent. -/
theorem power_negative (hx : x.Writes s) (hy : y.Writes t) (hs : IsShort s) (ht : IsShort t)
    {b : ℤ} (hbase : numeralValue s = b) (hb : b ≠ 0) {k : ℕ} (hexponent : numeralValue t = -k)
    (hk : k ≠ 0) :
    (truncate (1 / (b : ℚ) ^ k) =
      if b = 1 then 1 else if b = -1 then (if Even k then 1 else -1) else 0) ∧
    if b.natAbs < binary64Limit ∧ k < binary64Limit then
      ∃ v, exp.apply x y = .ok v ∧
        v.Holds (if b = -1 ∧ 2 ^ 53 < k then 1 else truncate (1 / (b : ℚ) ^ k))
    else exp.apply x y = .error (.breakdown .floatRange) := by
  subst hbase
  have hcount : (numeralValue t).natAbs = k := by omega
  have hpower : exp.apply x y = _ := power_of_neg hx hy hs ht hb (by omega)
  rw [hcount, truncatedInversePower_eq hb hk] at hpower
  refine ⟨truncate_inverse_pow hb hk, ?_⟩
  split
  · rename_i hrange
    have hfits : Fits (if numeralValue s = -1 ∧ 2 ^ 53 < k then 1
        else truncate (1 / (numeralValue s : ℚ) ^ k)) := by
      refine fits_of_natAbs_le_one ?_
      rw [truncate_inverse_pow hb hk]
      split_ifs <;> decide
    rw [if_pos hrange, Option.elim_some] at hpower
    exact ⟨_, hpower.trans (Item.ofInteger_of_fits hfits), Item.holds_int hfits⟩
  · rename_i hrange
    rwa [if_neg hrange, Option.elim_none] at hpower

/-- An odd power of `-1`. -/
theorem power_negative_odd :
    let x := Item.literal .integer "-1"
    let y := Item.literal .integer "-٣"
    x.Writes "-1" ∧ y.Writes "-٣" ∧ ∃ v, exp.apply x y = .ok v ∧ v.Holds (-1) := by
  intro x y
  have hx : x.Writes "-1" := ⟨rfl, rfl, by decide⟩
  have hy : y.Writes "-٣" := ⟨rfl, rfl, by decide⟩
  have hs : numeralValue "-1" = -1 := by decide
  have ht : numeralValue "-٣" = -(3 : ℕ) := by decide
  obtain ⟨hfraction, hpower⟩ :=
    power_negative hx hy (by decide) (by decide) hs (by decide) ht (by decide)
  have hrange : (-1 : ℤ).natAbs < binary64Limit ∧ 3 < binary64Limit := by
    unfold binary64Limit
    decide +kernel
  rw [if_pos hrange, hfraction] at hpower
  exact ⟨hx, hy, hpower⟩

/-- Some negative powers are not the fraction cut off toward zero: an odd exponent that is rounded
to an even one loses the sign. -/
theorem not_power_negative : ¬ ∀ (x y : Item) (s t : String), x.Writes s → y.Writes t →
    IsShort s → IsShort t → ∀ (b : ℤ) (k : ℕ), numeralValue s = b → b ≠ 0 →
      numeralValue t = -k → k ≠ 0 →
      ∃ v, exp.apply x y = .ok v ∧ v.Holds (truncate (1 / (b : ℚ) ^ k)) := by
  intro h
  let x := Item.literal .integer "-1"
  let y := Item.literal .integer "-9007199254740993"
  have hx : x.Writes "-1" := ⟨rfl, rfl, by decide⟩
  have hy : y.Writes "-9007199254740993" := ⟨rfl, rfl, by decide⟩
  have hs : numeralValue "-1" = -1 := by decide
  have ht : numeralValue "-9007199254740993" = -(9007199254740993 : ℕ) := by decide
  obtain ⟨v, hv, hholds⟩ := h x y _ _ hx hy (by decide) (by decide) (-1) 9007199254740993 hs
    (by decide) ht (by decide)
  have hinverse : truncatedInversePower (-1) 9007199254740993 = some 1 := by decide +kernel
  have hpower := power_of_neg hx hy (by decide) (by decide) (by rw [hs]; decide)
    (by rw [ht]; decide)
  rw [hs, ht, Int.natAbs_neg, Int.natAbs_natCast, hinverse, Option.elim_some,
    Item.ofInteger_of_fits (fits_of_natAbs_le_one (by decide))] at hpower
  -- the answer reads as `1`, and the fraction is `-1`
  obtain rfl : Item.int 1 = v := Except.ok.inj (hpower.symm.trans hv)
  have hread := hholds.integer
  rw [Item.integer_int (fits_of_natAbs_le_one (by decide)),
    truncate_inverse_pow (by decide) (by decide)] at hread
  exact absurd (Except.ok.inj hread) (by decide)

end BinaryOperator

end Rpal
