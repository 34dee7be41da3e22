/-
# Operations on values

An operation on values answers a value or reports a fault.  It breaks down in two places, both of
them limits of numbers:

    conversion    an operand is written in more than 4300 digits, or the result would be
    range         a power with a negative exponent, too large for floating point

All this is read off the answers and the failures that operations have on any operands: an integer
value that cannot be read is a numeral that is too long (`Failure.OfOperation.within`), and what is
made of values is a value (`Item.Made.isValue`).  The fault that `Y*` reports is none of theirs.
-/
import Mathlib.Data.List.Basic
import Rpal.Proofs.Machine.Values
import Rpal.Proofs.Operator.Answers

namespace Rpal

/-! ## 1. Failures on values -/

/-- The fault of `Y*` applied to something other than a function. -/
def Fault.OfStar : Fault → Prop
  | .wrongKind operation _ _ _ => operation = "Y*"
  | _ => False

theorem Fault.OfOperands.not_ofStar {f : Fault} (h : f.OfOperands) : ¬ f.OfStar := by
  cases f with
  | wrongKind operation position expected got => exact h
  | _ => exact id

/-- A fault other than that of `Y*`, or a breakdown with the property. -/
inductive Failure.Within (B : Breakdown → Prop) : Failure → Prop where
  | fault {f : Fault} (h : ¬ f.OfStar) : Within B (.fault f)
  | breakdown {b : Breakdown} (h : B b) : Within B (.breakdown b)

theorem Failure.Within.mono {B B' : Breakdown → Prop} {f : Failure} (h : f.Within B)
    (hB : ∀ b, B b → B' b) : f.Within B' := by
  cases h with
  | fault h => exact .fault h
  | breakdown h => exact .breakdown (hB _ h)

/-- An integer value that cannot be read has too many digits. -/
theorem Item.IsValue.isLong_of_error {i : Item} (h : i.IsValue) (hk : i.kind = .integer)
    {f : Failure} (he : i.integer = .error f) : f = .breakdown .tooManyDigits ∧ i.IsLong := by
  obtain ⟨digits, htext, hnumeral⟩ := h.text_of_integer hk
  have hread : i.integer = (Number.readInteger digits).mapError Failure.ofConversion := by
    rw [Item.integer, htext]
  rw [hread] at he
  rcases hnumeral.read with ⟨n, hn⟩ | ⟨herror, hlong⟩
  · rw [hn] at he
    cases he
  · rw [herror] at he
    cases he
    exact ⟨rfl, hk, digits, htext, hlong⟩

/-- **An operation on values fails within the limits of numbers.** -/
theorem Failure.OfOperation.within {operands : List Item} {B B' : Breakdown → Prop} {f : Failure}
    (h : OfOperation operands B f) (hvalues : ∀ i ∈ operands, i.IsValue)
    (hlong : ∀ i ∈ operands, i.IsLong → B' .tooManyDigits) (hB : ∀ b, B b → B' b) :
    f.Within B' := by
  cases h with
  | fault h => exact .fault h.not_ofStar
  | @operand i f hi hk he =>
    obtain ⟨rfl, hlarge⟩ := (hvalues i hi).isLong_of_error hk he
    exact .breakdown (hlong i hi hlarge)
  | breakdown h => exact .breakdown (hB _ h)

/-! ## 2. Answers on values -/

/-- What is written down is a value. -/
theorem Item.Written.isValue {operands : List Item} {v : Item} (h : v.Written operands)
    (hvalues : ∀ i ∈ operands, i.IsValue) : v.IsValue := by
  cases h with
  | truth b =>
    cases b with
    | true => exact .constant (.inl rfl) none 0
    | false => exact .constant (.inr (.inl rfl)) none 0
  | @integer n v h =>
    rcases Item.ofInteger_cases n with ⟨-, hn⟩ | ⟨-, hn⟩
    · cases hn.symm.trans h
      exact .integer (Number.isNumeral_integerText n) 0
    · cases hn.symm.trans h
  | string text => exact .string text 0
  | @digits i hi hk =>
    obtain ⟨digits, htext, -⟩ := (hvalues i hi).text_of_integer hk
    rw [htext]
    exact .string digits 0
  | dummy => exact .constant (.inr (.inr rfl)) none 0

/-- **What is made of values is a value.** -/
theorem Item.Made.isValue {operands : List Item} {v : Item} (h : v.Made operands)
    (hvalues : ∀ i ∈ operands, i.IsValue) : v.IsValue := by
  cases h with
  | written h => exact h.isValue hvalues
  | copy hi => exact (hvalues _ hi).copy
  | tuple h =>
    refine .tuple (List.forall_mem_map.mpr fun i hi => Item.IsValue.copy ?_)
    rcases h i hi with hi | ⟨t, ht, hi⟩
    · exact hvalues i hi
    · exact (hvalues t ht).children i hi

/-! ## 3. Operators -/

/-- **An operator of one operand** breaks down only at an operand that is too long. -/
theorem UnaryOperator.value_apply (op : UnaryOperator) {x : Item} (hx : x.IsValue) :
    Answers (Failure.Within fun b => b = .tooManyDigits ∧ x.IsLong) Item.IsValue (op.apply x) := by
  have hvalues : ∀ i ∈ [x], i.IsValue := List.forall_mem_singleton.mpr hx
  refine (op.answers_apply x).mono (fun f h => ?_) fun v hv => hv.isValue hvalues
  exact h.within hvalues (List.forall_mem_singleton.mpr fun hlong => ⟨rfl, hlong⟩) fun _ => False.elim

/-- **An operator of two operands** breaks down only where it overflows. -/
theorem BinaryOperator.value_apply {op : BinaryOperator} {x y : Item} (hx : x.IsValue)
    (hy : y.IsValue) :
    Answers (Failure.Within (op.Overflows x y)) Item.IsValue (op.apply x y) := by
  have hvalues : ∀ i ∈ [x, y], i.IsValue :=
    List.forall_mem_cons.mpr ⟨hx, List.forall_mem_singleton.mpr hy⟩
  refine (op.made_apply x y).mono (fun f h => ?_) fun v hv => hv.isValue hvalues
  refine h.within hvalues (List.forall_mem_cons.mpr ⟨.left, ?_⟩) fun _ => id
  exact List.forall_mem_singleton.mpr .right

/-! ## 4. Built-in functions -/

/-- **A built-in function with all its arguments** breaks down only if it counts too many
components. -/
theorem Builtin.value_apply {b : Builtin} {args : List Item} (hn : args.length = b.arity)
    (hvalues : ∀ i ∈ args, i.IsValue) :
    Answers (Failure.Within fun e => e = .tooManyDigits ∧ b = .order ∧
        ∃ i, args = [i] ∧ 10 ^ Number.digitLimit ≤ i.children.length)
      (fun r => r.1.IsValue) (b.apply args) := by
  refine (b.made_apply args).mono (fun f h => ?_) fun r hr => hr.isValue hvalues
  refine h.within (List.forall_mem_nil _) (List.forall_mem_nil _) fun e he => ?_
  cases he with
  | surplus hne => exact absurd hn hne
  | order hb hi hlarge => exact ⟨rfl, hb, _, hi, hlarge⟩

end Rpal
