/-
# Rounding to floating point

A number of up to 53 binary digits is exact as a floating point number (`roundToSignificand_of_lt`).
One of more digits is rounded to an even number (`even_roundToSignificand_iff`), and it is out of range
if it lies within half a unit of the 1024th power of two or beyond (`toBinary64?_eq`).
-/
import Mathlib.Algebra.Ring.Parity
import Rpal.Number.Binary64

namespace Rpal.Number

variable {n m : Nat}

/-- What a number of `m + 54` binary digits is rounded to, in units of `2 ^ (m + 1)`: the tie is at
half a unit. -/
theorem roundToSignificand_of_log2 (h : n.log2 = m + 53) :
    roundToSignificand n = (if 2 ^ m < n % (2 * 2 ^ m) ∨
        n % (2 * 2 ^ m) = 2 ^ m ∧ n / (2 * 2 ^ m) % 2 = 1
      then n / (2 * 2 ^ m) + 1 else n / (2 * 2 ^ m)) * (2 * 2 ^ m) := by
  have hshift : n.log2 + 1 - significandBits = m + 1 := by
    rw [h, significandBits]
    omega
  have hunit : Nat.pow 2 (m + 1) = 2 * 2 ^ m := Nat.pow_succ'
  have hup : 2 * (n % (2 * 2 ^ m)) > 2 * 2 ^ m ↔ 2 ^ m < n % (2 * 2 ^ m) := by omega
  have htie : 2 * (n % (2 * 2 ^ m)) = 2 * 2 ^ m ↔ n % (2 * 2 ^ m) = 2 ^ m := by omega
  simp only [roundToSignificand, hshift, hunit, Bool.or_eq_true, Bool.and_eq_true,
    decide_eq_true_eq, beq_iff_eq, hup, htie, ite_mul]

theorem exists_log2 (h : 2 ^ 53 ≤ n) : ∃ m, n.log2 = m + 53 := by
  have hlog : 53 ≤ n.log2 := (Nat.le_log2 (by omega)).mpr h
  exact ⟨n.log2 - 53, by omega⟩

/-- **A number is rounded to an even one** if it is even or has more than 53 binary digits. -/
theorem even_roundToSignificand_iff : Even (roundToSignificand n) ↔ 2 ^ 53 < n ∨ Even n := by
  rcases Nat.lt_or_ge n (2 ^ 53) with hsmall | hlarge
  · rw [roundToSignificand_of_lt hsmall, or_iff_right (Nat.lt_asymm hsmall)]
  · obtain ⟨m, hm⟩ := exists_log2 hlarge
    have heven : Even (roundToSignificand n) := by
      rw [roundToSignificand_of_log2 hm]
      exact (even_two_mul _).mul_left _
    refine iff_of_true heven ?_
    rcases Nat.lt_or_eq_of_le hlarge with hlt | rfl
    · exact .inl hlt
    · exact .inr (by decide)

/-- **Where rounding reaches the next power of two**: half a unit below it, since the last number
below it is odd in units. -/
theorem roundToSignificand_lt_iff (h : n.log2 = m + 53) :
    roundToSignificand n < 2 ^ (m + 54) ↔ n < 2 ^ (m + 54) - 2 ^ m := by
  have hpos : 0 < 2 ^ m := Nat.two_pow_pos m
  have hpower : 2 ^ (m + 54) = 2 ^ 53 * (2 * 2 ^ m) := by
    rw [Nat.pow_add, Nat.mul_comm (2 ^ m)]
    omega
  have hn : n < 2 ^ (m + 54) := by
    rw [← show n.log2 + 1 = m + 54 by omega]
    exact Nat.lt_log2_self
  have hdiv := Nat.div_add_mod n (2 * 2 ^ m)
  have hrest : n % (2 * 2 ^ m) < 2 * 2 ^ m := Nat.mod_lt _ (by omega)
  rw [roundToSignificand_of_log2 h, hpower, Nat.mul_lt_mul_right (by omega)]
  rw [hpower] at hn
  have hq : n / (2 * 2 ^ m) < 2 ^ 53 := Nat.div_lt_of_lt_mul (by rwa [Nat.mul_comm])
  generalize n / (2 * 2 ^ m) = q at *
  generalize n % (2 * 2 ^ m) = r at *
  generalize 2 ^ m = half at *
  -- only the last unit is close enough to the next power
  rcases Nat.lt_or_ge (q + 1) (2 ^ 53) with hlt | hge
  · have hfar : 2 * half * (q + 2) ≤ 2 * half * 2 ^ 53 := Nat.mul_le_mul_left _ hlt
    have hexpand : 2 * half * (q + 2) = 2 * half * q + 4 * half := by
      rw [Nat.mul_add]
      omega
    refine iff_of_true ?_ (by omega)
    split <;> omega
  · obtain rfl : q = 2 ^ 53 - 1 := by omega
    split <;> omega

/-- Rounding leads at most to the next power of two. -/
theorem roundToSignificand_mem (h : n.log2 = m + 53) :
    2 ^ (m + 53) ≤ roundToSignificand n ∧ roundToSignificand n ≤ 2 ^ (m + 54) := by
  have hlow : 2 ^ (m + 53) = 2 ^ 52 * (2 * 2 ^ m) := by
    rw [Nat.pow_add, Nat.mul_comm (2 ^ m)]
    omega
  have hhigh : 2 ^ (m + 54) = 2 ^ 53 * (2 * 2 ^ m) := by
    rw [Nat.pow_add, Nat.mul_comm (2 ^ m)]
    omega
  have hne : n ≠ 0 := by
    rintro rfl
    exact absurd h (by rw [Nat.log2_zero]; omega)
  have hge : 2 ^ (m + 53) ≤ n := h ▸ Nat.log2_self_le hne
  have hlt : n < 2 ^ (m + 54) := by
    rw [← show n.log2 + 1 = m + 54 by omega]
    exact Nat.lt_log2_self
  have hpos : 0 < 2 * 2 ^ m := Nat.mul_pos (by decide) (Nat.two_pow_pos m)
  have hq : 2 ^ 52 ≤ n / (2 * 2 ^ m) := (Nat.le_div_iff_mul_le hpos).mpr (hlow ▸ hge)
  have hq' : n / (2 * 2 ^ m) < 2 ^ 53 := Nat.div_lt_of_lt_mul (by rwa [Nat.mul_comm, ← hhigh])
  rw [roundToSignificand_of_log2 h, hlow, hhigh]
  constructor
  · refine Nat.mul_le_mul_right _ ?_
    split <;> omega
  · refine Nat.mul_le_mul_right _ ?_
    split <;> omega

/-! ## 2. The range -/

/-- A number is rounded below a power of two if it is more than half a unit below it. -/
theorem roundToSignificand_lt_two_pow_iff (n : Nat) {m e : Nat} (he : e = m + 54) :
    roundToSignificand n < 2 ^ e ↔ n < 2 ^ e - 2 ^ m := by
  subst he
  have hpos : 0 < 2 ^ m := Nat.two_pow_pos m
  have hpower : 2 ^ (m + 54) = 2 ^ 54 * 2 ^ m := by rw [Nat.pow_add, Nat.mul_comm]
  rcases Nat.lt_or_ge n (2 ^ 53) with hsmall | hlarge
  · rw [roundToSignificand_of_lt hsmall]
    omega
  · obtain ⟨k, hk⟩ := exists_log2 hlarge
    obtain ⟨hlow, hhigh⟩ := roundToSignificand_mem hk
    have hn : 2 ^ (k + 53) ≤ n := hk ▸ Nat.log2_self_le (by omega)
    have hn' : n < 2 ^ (k + 54) := by
      rw [← show n.log2 + 1 = k + 54 by omega]
      exact Nat.lt_log2_self
    rcases Nat.lt_trichotomy k m with hlt | rfl | hgt
    · have hbelow : 2 ^ (k + 54) ≤ 2 ^ (m + 53) := Nat.pow_le_pow_right (by decide) (by omega)
      have hhalf : 2 ^ (m + 53) = 2 ^ 53 * 2 ^ m := by rw [Nat.pow_add, Nat.mul_comm]
      refine iff_of_true ?_ ?_ <;> omega
    · exact roundToSignificand_lt_iff hk
    · have habove : 2 ^ (m + 54) ≤ 2 ^ (k + 53) := Nat.pow_le_pow_right (by decide) (by omega)
      refine iff_of_false ?_ ?_ <;> omega

/-- The least number that is too large for floating point. -/
@[irreducible] def binary64Limit : Nat := 2 ^ 1024 - 2 ^ 970

/-- **A number is in range** if it is below the limit. -/
theorem toBinary64?_eq (n : Nat) :
    toBinary64? n = if n < binary64Limit then some (roundToSignificand n) else none := by
  have hrange : roundToSignificand n < Nat.pow 2 1024 ↔ n < binary64Limit := by
    unfold binary64Limit
    generalize he : 1024 = e
    exact roundToSignificand_lt_two_pow_iff n he.symm
  unfold toBinary64?
  by_cases h : n < binary64Limit
  · rw [if_pos h]
    exact if_pos (hrange.mpr h)
  · rw [if_neg h]
    exact if_neg fun hround => h (hrange.mp hround)

end Rpal.Number
