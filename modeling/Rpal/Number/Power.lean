/-
# Powers of integers

A power is computed by squaring, with as many multiplications as the exponent has binary
digits:

    base ^ (2 n)      =  (base * base) ^ n
    base ^ (2 n + 1)  =  (base * base) ^ n * base

so an exponent of any size is no obstacle where the result is small.  `power_eq` says that this
is the power that the core library defines.
-/
namespace Rpal.Number

/-- The power of an integer. -/
def power (base : Int) (exponent : Nat) : Int :=
  if exponent = 0 then 1
  else
    let even := power (base * base) (exponent / 2)
    if exponent % 2 = 0 then even else even * base
termination_by exponent

/-- One more factor. -/
theorem intPow_succ (base : Int) (n : Nat) : Int.pow base (n + 1) = Int.pow base n * base :=
  Int.pow_succ base n

/-- A power of a square has twice the exponent. -/
theorem intPow_square (base : Int) (n : Nat) :
    Int.pow (base * base) n = Int.pow base (2 * n) := by
  induction n with
  | zero => rw [Nat.mul_zero]; exact (Int.pow_zero (base * base)).trans (Int.pow_zero base).symm
  | succ n ih =>
    rw [intPow_succ, ih, Nat.mul_succ, intPow_succ, intPow_succ, Int.mul_assoc]

/-- Squaring computes the power. -/
theorem power_eq (base : Int) (exponent : Nat) : power base exponent = Int.pow base exponent := by
  fun_induction power base exponent with
  | case1 base => exact (Int.pow_zero base).symm
  | case2 base exponent _ even heven ih =>
    rw [show even = _ from ih, intPow_square]
    congr 1
    omega
  | case3 base exponent _ even hodd ih =>
    rw [show even = _ from ih, intPow_square, ← intPow_succ]
    congr 1
    omega

end Rpal.Number
