/-
# Recursive functions

A recursive definition is a function that `Y*` has made recursive.  A call of it makes the function
from itself, in the scope of its definition, and applies that one to the argument; in the end the
body of the function is evaluated with both names bound (`Core.call_recursive`):

    let rec f x = B in E        E        with f := recursive
    f v                         B        with f := recursive, x := v

So what a recursive function computes is shown by induction on its argument, as for any other
definition by recursion (`Core.call_recursive_induction`).  A call inside another one takes a budget
of two more.
-/
import Rpal.Proofs.Evaluation.Core
import Rpal.Proofs.Operator.Integers

namespace Rpal

/-! ## 1. Recursive functions -/

namespace Core

/-- `let rec f x = body in use`, with the labels of its three functions. -/
def letRec (outer wrapper inner : Nat) (f x : Variable) (body use : Core) : Core :=
  .apply none (.lambda outer [f] use)
    (.apply none (.literal .yStar none) (.lambda wrapper [f] (.lambda inner [x] body)))

/-- The function `fn f . fn x . body` of the program. -/
def recursor (wrapper inner : Nat) (f x : Variable) (body : Core) : Lambda Core :=
  ⟨wrapper, [f], .lambda inner [x] body, .empty⟩

section Recursor

variable (wrapper inner : Nat) (f x : Variable) (body : Core)

/-- The scope in which `f` is the recursive function. -/
def recursiveScope : Scope Core :=
  .binding f (.recursive (recursor wrapper inner f x body)) (.frame .empty)

/-- **A recursive definition** binds its name to the recursive function. -/
theorem evaluate_letRec (outer budget : Nat) (use : Core) :
    (letRec outer wrapper inner f x body use).evaluate (budget + 1) =
      meaning (Rpal.inner meaning budget) use (recursiveScope wrapper inner f x body) "" := rfl

/-- **A call of a recursive function** evaluates its body, with the function bound to its name. -/
theorem call_recursive (budget : Nat) (v : Value Core) :
    (Rpal.inner meaning (budget + 2)).call (.recursive (recursor wrapper inner f x body)) v =
      meaning (Rpal.inner meaning budget) body
        (.binding x v (.frame (recursiveScope wrapper inner f x body))) := rfl

/-- **Induction for recursive functions.**  The function maps `v k` to `w k` if its body does, given
that the calls in it do so one step below. -/
theorem call_recursive_induction {v w : Nat → Value Core} {limit : Nat}
    (zero : ∀ inner', meaning inner' body
      (.binding x (v 0) (.frame (recursiveScope wrapper inner f x body))) = pure (w 0))
    (succ : ∀ inner' : Inner Core, ∀ k < limit,
      inner'.call (.recursive (recursor wrapper inner f x body)) (v k) = pure (w k) →
      meaning inner' body
        (.binding x (v (k + 1)) (.frame (recursiveScope wrapper inner f x body))) =
          pure (w (k + 1))) :
    ∀ k ≤ limit, (Rpal.inner meaning (2 * k + 2)).call
      (.recursive (recursor wrapper inner f x body)) (v k) = pure (w k) := by
  intro k
  induction k with
  | zero => exact fun _ => (call_recursive wrapper inner f x body 0 (v 0)).trans (zero _)
  | succ k ih =>
    intro hk
    rw [call_recursive]
    exact succ _ k hk (ih (Nat.le_of_succ_le hk))

end Recursor

end Core

/-! ## 2. Integers in evaluations -/

theorem Eval.lift_ok {α : Type} (a : α) : Eval.lift (.ok a) = pure a := rfl

namespace Value

open Number

variable {γ : Type}

/-- The value of an integer. -/
def int (n : Int) : Value γ := .literal .integer (some (integerText n))

/-- A truth value. -/
def truth (b : Bool) : Value γ := .literal (if b then .trueValue else .falseValue) none

section Operators

variable {a b : Int} (ha : Fits a) (hb : Fits b)

include ha hb

theorem binary_plus_int (h : Fits (a + b)) :
    Value.binary .plus (int a) (int b) = .ok (int (a + b) : Value γ) :=
  congrArg (Except.map ofItem) (BinaryOperator.arithmetic_int ha hb .plus h)

theorem binary_minus_int (h : Fits (a - b)) :
    Value.binary .minus (int a) (int b) = .ok (int (a - b) : Value γ) :=
  congrArg (Except.map ofItem) (BinaryOperator.arithmetic_int ha hb .minus h)

theorem binary_eq_int :
    Value.binary .eq (int a) (int b) = .ok (truth (decide (a = b)) : Value γ) := by
  have h := BinaryOperator.equality_int ha hb .eq
  have heq : (Value.binary .eq (int a) (int b) : Except Failure (Value γ)) =
      ((BinaryOperator.eq.equality (Item.int a) (Item.int b)).map fun b => Item.truth b).map
        ofItem := rfl
  rw [heq, h]
  cases decide (a = b) <;> rfl

end Operators

end Value

end Rpal
