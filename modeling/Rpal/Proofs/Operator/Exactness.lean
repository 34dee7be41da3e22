/-
# Exact integers

Negation, `+`, `-`, `*`, `/` and `**` with an exponent that is not negative compute the exact
integer (`Exact`), whatever the numerals of the operands look like, and answer it as a canonical
numeral, which is read back as that integer:

    -٠٧ / 02        -3

They answer nothing only where an operand or the result has more digits than the limit allows, and
where the divisor is zero (`apply_eq_ok_iff`).
-/
import Rpal.Proofs.Number.PlaceValue

namespace Rpal

open Number

/-! ## 1. Operands and results -/

namespace Item

/-- The item is an integer, written by the numeral. -/
structure Writes (i : Item) (digits : String) : Prop where
  kind : i.kind = .integer
  text : i.text = some digits
  numeral : IsNumeral digits

/-- The item is the integer as a canonical numeral. -/
def IsCanonical (i : Item) (n : Int) : Prop :=
  ∃ digits, i = literal .integer digits ∧ Number.IsCanonical digits ∧ numeralValue digits = n

variable {x v : Item} {s : String} {n : Int}

/-- An operand is the integer that its numeral writes, if the digits are not too many. -/
theorem Writes.integer_eq_ok_iff (h : x.Writes s) :
    x.integer = .ok n ↔ IsShort s ∧ n = numeralValue s := by
  have hread : x.integer = (readInteger s).mapError Failure.ofConversion := by
    rw [integer, h.text]
  rw [← h.numeral.readInteger_eq_ok_iff, hread]
  cases readInteger s with
  | ok k => rw [Except.mapError, Except.ok.injEq, Except.ok.injEq]
  | error e => simp only [Except.mapError, reduceCtorEq]

theorem ofInteger_eq_ok_iff : ofInteger n = .ok v ↔ Fits n ∧ v = int n := by
  unfold ofInteger writeInteger Fits
  rw [Nat.pow_eq]
  by_cases h : n.natAbs < 10 ^ digitLimit
  · rw [if_pos h, and_iff_right h]
    exact ⟨fun hv => (Except.ok.inj hv).symm, fun hv => congrArg Except.ok hv.symm⟩
  · rw [if_neg h]
    exact iff_of_false nofun fun hn => h hn.1

/-- The item is the integer as a canonical numeral, and that integer again when it is read. -/
structure Holds (i : Item) (n : Int) : Prop where
  canonical : i.IsCanonical n
  integer : i.integer = .ok n

theorem isCanonical_int (n : Int) : (int n).IsCanonical n :=
  ⟨integerText n, rfl, isCanonical_integerText n, numeralValue_integerText n⟩

theorem holds_int (h : Fits n) : (int n).Holds n :=
  ⟨isCanonical_int n, integer_int h⟩

end Item

/-! ## 2. Quotients -/

/-- **The quotient is determined** by a remainder that is smaller than the divisor and has the
sign of the dividend. -/
theorem eq_tdiv_iff {a b q : Int} (hb : b ≠ 0) :
    q = a.tdiv b ↔ ∃ r, a = q * b + r ∧ r.natAbs < b.natAbs ∧ (r = 0 ∨ r.sign = a.sign) := by
  have hsmall : (a.tmod b).natAbs < b.natAbs := by
    rw [Int.natAbs_tmod]
    exact Nat.mod_lt _ (Int.natAbs_pos.mpr hb)
  have hsign : a.tmod b = 0 ∨ (a.tmod b).sign = a.sign := by
    rw [Int.sign_tmod]
    by_cases hdvd : b ∣ a
    · exact .inl (Int.tmod_eq_zero_of_dvd hdvd)
    · exact .inr (if_neg hdvd)
  have hdiv := Int.tdiv_mul_add_tmod a b
  constructor
  · rintro rfl
    exact ⟨a.tmod b, hdiv.symm, hsmall, hsign⟩
  · rintro ⟨r, ha, hr, hrsign⟩
    -- two remainders differ by a multiple of the divisor, and by less than it
    have hmultiple : r - a.tmod b = (a.tdiv b - q) * b := by
      rw [Int.sub_mul]
      omega
    have hclose : (r - a.tmod b).natAbs < b.natAbs := by grind
    have hzero : (a.tdiv b - q) * b = 0 := by
      rw [← hmultiple]
      exact Int.eq_zero_of_dvd_of_natAbs_lt_natAbs (Dvd.intro_left _ hmultiple.symm) hclose
    rcases Int.mul_eq_zero.mp hzero with hq | hb'
    · omega
    · exact absurd hb' hb

/-! ## 3. Operators -/

theorem UnaryOperator.neg_eq_ok_iff {x v : Item} {s : String} (hx : x.Writes s) :
    neg.apply x = .ok v ↔ IsShort s ∧
      Fits (-numeralValue s) ∧ v = Item.int (-numeralValue s) := by
  have hkind : checkOperands "neg" "integer" [.integer] [x] = .ok () := by
    rw [checkOperands_one, if_pos (List.mem_singleton.mpr hx.kind)]
  simp only [apply, hkind, ok_bind, bind_eq_ok_iff, hx.integer_eq_ok_iff,
    Item.ofInteger_eq_ok_iff, and_assoc, exists_and_left, exists_eq_left]

namespace BinaryOperator

/-- The operators that compute integers. -/
def arithmetical : List BinaryOperator := [plus, minus, mult, div, exp]

/-- What an operator computes, for exponents that are not negative: `n` is the exact result.  A
quotient is cut off toward zero, so what remains has the sign of the dividend. -/
def Exact : BinaryOperator → Int → Int → Int → Prop
  | plus, a, b, n => n = a + b
  | minus, a, b, n => n = a - b
  | mult, a, b, n => n = a * b
  | div, a, b, n => ∃ r, a = n * b + r ∧ r.natAbs < b.natAbs ∧ (r = 0 ∨ r.sign = a.sign)
  | exp, a, b, n => n = a ^ b.toNat
  | _, _, _, _ => False

section Operands

variable {x y v : Item} {s t : String} (hx : x.Writes s) (hy : y.Writes t)

include hx hy

theorem checkOperands_of_writes (operation : String) :
    checkOperands operation "integer" [.integer] [x, y] = .ok () := by
  rw [checkOperands_two, if_pos (List.mem_singleton.mpr hx.kind),
    if_pos (List.mem_singleton.mpr hy.kind)]

/-- Both operands are read, and the result is written. -/
theorem arithmetic_eq_ok_iff (op : BinaryOperator) (f : Int → Int → Int) :
    op.arithmetic f x y = .ok v ↔
      IsShort s ∧ IsShort t ∧
        Fits (f (numeralValue s) (numeralValue t)) ∧
        v = Item.int (f (numeralValue s) (numeralValue t)) := by
  simp only [arithmetic, checkOperands_of_writes hx hy, ok_bind, bind_eq_ok_iff,
    hx.integer_eq_ok_iff, hy.integer_eq_ok_iff, Item.ofInteger_eq_ok_iff, and_assoc,
    exists_and_left, exists_eq_left]

theorem divide_eq_ok_iff :
    divide x y = .ok v ↔
      IsShort s ∧ IsShort t ∧
        numeralValue t ≠ 0 ∧ Fits ((numeralValue s).tdiv (numeralValue t)) ∧
        v = Item.int ((numeralValue s).tdiv (numeralValue t)) := by
  simp only [divide, checkOperands_of_writes hx hy, ok_bind, bind_eq_ok_iff,
    hy.integer_eq_ok_iff, and_assoc, exists_and_left, exists_eq_left]
  by_cases hzero : numeralValue t = 0
  · simp [hzero]
  · simp only [hzero, if_false, bind_eq_ok_iff, hx.integer_eq_ok_iff, Item.ofInteger_eq_ok_iff,
      and_assoc, exists_and_left, exists_eq_left, ne_eq, not_false_eq_true, true_and]
    exact and_left_comm

theorem power_eq_ok_iff (hexponent : 0 ≤ numeralValue t) :
    power x y = .ok v ↔
      IsShort s ∧ IsShort t ∧
        Fits (numeralValue s ^ (numeralValue t).toNat) ∧
        v = Item.int (numeralValue s ^ (numeralValue t).toNat) := by
  simp only [power, checkOperands_of_writes hx hy, ok_bind, bind_eq_ok_iff, hx.integer_eq_ok_iff,
    hy.integer_eq_ok_iff, and_assoc, exists_and_left, exists_eq_left, if_pos hexponent,
    Item.ofInteger_eq_ok_iff, Number.power_eq]
  exact Iff.rfl

/-- **An operator answers the exact result**, if it and the operands are within the limit. -/
theorem apply_eq_ok_iff {op : BinaryOperator} (hop : op ∈ arithmetical)
    (hexponent : op = .exp → 0 ≤ numeralValue t) :
    op.apply x y = .ok v ↔
      IsShort s ∧ IsShort t ∧
        (op = .div → numeralValue t ≠ 0) ∧
        ∃ n, op.Exact (numeralValue s) (numeralValue t) n ∧ Fits n ∧ v = Item.int n := by
  simp only [arithmetical, List.mem_cons, List.not_mem_nil, or_false] at hop
  rcases hop with rfl | rfl | rfl | rfl | rfl
  · simp [apply, Exact, arithmetic_eq_ok_iff hx hy]
  · simp [apply, Exact, arithmetic_eq_ok_iff hx hy]
  · simp [apply, Exact, arithmetic_eq_ok_iff hx hy]
  · by_cases hzero : numeralValue t = 0
    · simp [apply, divide_eq_ok_iff hx hy, hzero]
    · simp only [apply, Exact, divide_eq_ok_iff hx hy, ← eq_tdiv_iff hzero, exists_eq_left,
        forall_const]
  · simp [apply, Exact, power_eq_ok_iff hx hy (hexponent rfl)]

end Operands

/-- The exact result exists, and it is one. -/
theorem existsUnique_exact {op : BinaryOperator} (hop : op ∈ arithmetical) {a b : Int}
    (hb : op = .div → b ≠ 0) : ∃! n, op.Exact a b n := by
  simp only [arithmetical, List.mem_cons, List.not_mem_nil, or_false] at hop
  rcases hop with rfl | rfl | rfl | rfl | rfl
  · exact ⟨a + b, rfl, fun n hn => hn⟩
  · exact ⟨a - b, rfl, fun n hn => hn⟩
  · exact ⟨a * b, rfl, fun n hn => hn⟩
  · exact ⟨a.tdiv b, (eq_tdiv_iff (hb rfl)).mp rfl, fun n hn => (eq_tdiv_iff (hb rfl)).mpr hn⟩
  · exact ⟨a ^ b.toNat, rfl, fun n hn => hn⟩

end BinaryOperator

/-! ## 4. Limits -/

open BinaryOperator in
/-- **Integer operators are exact**, and they answer a value unless an operand or the result has
too many digits or the divisor is zero. -/
theorem operators_exact {x y : Item} {s t : String} (hx : x.Writes s) (hy : y.Writes t) :
    ((∃ v, UnaryOperator.neg.apply x = .ok v) ↔
      IsShort s ∧ IsShort (integerText (-numeralValue s))) ∧
    (∀ v, UnaryOperator.neg.apply x = .ok v → v.Holds (-numeralValue s)) ∧
    ∀ op ∈ arithmetical, (op = .exp → 0 ≤ numeralValue t) →
      ((op = .div → numeralValue t ≠ 0) →
        ∃! n, op.Exact (numeralValue s) (numeralValue t) n) ∧
      ((∃ v, op.apply x y = .ok v) ↔ IsShort s ∧ IsShort t ∧ (op = .div → numeralValue t ≠ 0) ∧
        ∃ n, op.Exact (numeralValue s) (numeralValue t) n ∧ IsShort (integerText n)) ∧
      ∀ v, op.apply x y = .ok v →
        ∃ n, op.Exact (numeralValue s) (numeralValue t) n ∧ v.Holds n := by
  refine ⟨?_, ?_, ?_⟩
  · simp only [UnaryOperator.neg_eq_ok_iff hx, exists_and_left, exists_eq, and_true,
      isShort_integerText]
  · intro v hv
    obtain ⟨-, hfits, rfl⟩ := (UnaryOperator.neg_eq_ok_iff hx).mp hv
    exact Item.holds_int hfits
  · intro op hop hexponent
    refine ⟨existsUnique_exact hop, ?_, ?_⟩
    · simp only [isShort_integerText]
      constructor
      · rintro ⟨v, hv⟩
        obtain ⟨hs, ht, hdivisor, n, hn, hfits, -⟩ := (apply_eq_ok_iff hx hy hop hexponent).mp hv
        exact ⟨hs, ht, hdivisor, n, hn, hfits⟩
      · rintro ⟨hs, ht, hdivisor, n, hn, hfits⟩
        exact ⟨Item.int n,
          (apply_eq_ok_iff hx hy hop hexponent).mpr ⟨hs, ht, hdivisor, n, hn, hfits, rfl⟩⟩
    · intro v hv
      obtain ⟨-, -, -, n, hn, hfits, rfl⟩ := (apply_eq_ok_iff hx hy hop hexponent).mp hv
      exact ⟨n, hn, Item.holds_int hfits⟩

/-- The quotient of an operand in other digits, with a zero in front. -/
theorem operators_exact_quotient :
    let x := Item.literal .integer "-٠٧"
    let y := Item.literal .integer "02"
    x.Writes "-٠٧" ∧ y.Writes "02" ∧ ∃ v, BinaryOperator.div.apply x y = .ok v ∧ v.Holds (-3) := by
  intro x y
  have hx : x.Writes "-٠٧" := ⟨rfl, rfl, by decide⟩
  have hy : y.Writes "02" := ⟨rfl, rfl, by decide⟩
  have hs : numeralValue "-٠٧" = -7 := by decide
  have ht : numeralValue "02" = 2 := by decide
  obtain ⟨-, -, hop⟩ := operators_exact hx hy
  obtain ⟨-, hiff, hvalue⟩ := hop .div (by decide) nofun
  rw [hs, ht] at hiff hvalue
  have hquotient : BinaryOperator.div.Exact (-7) 2 (-3) := ⟨-1, by decide, by decide, by decide⟩
  obtain ⟨v, hv⟩ := hiff.mpr ⟨by decide, by decide, by decide, -3, hquotient, by decide⟩
  obtain ⟨n, hn, hholds⟩ := hvalue v hv
  obtain rfl : n = -3 := (eq_tdiv_iff (by decide)).mpr hn
  exact ⟨hx, hy, v, hv, hholds⟩

end Rpal
