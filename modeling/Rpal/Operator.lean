/-
# Operators

The operators work on values by their kinds:

* arithmetic and the four order comparisons take integers;
* `eq` and `ne` take two integers, two strings or two truth values;
* `or`, `&` and `not` take truth values, and evaluate nothing on their own;
* `aug` takes a tuple and any value, which becomes its last component.

Integers are read from their texts and the result is written in canonical form, so every
operand and every result is subject to the limit of `Number.digitLimit` digits.
-/
import Rpal.Fault
import Rpal.Item.Printer
import Rpal.Number.Binary64
import Rpal.Number.Power

namespace Rpal

/-! ## 1. Operands -/

namespace Item

/-- The integer that an item writes.  A missing text is not numeric. -/
def integer (i : Item) : Except Failure Int :=
  match i.text with
  | some text => (Number.readInteger text).mapError Failure.ofConversion
  | none => .error (.ofConversion .notNumeric)

/-- The integer value of a number. -/
def ofInteger (n : Int) : Except Failure Item :=
  match Number.writeInteger n with
  | .ok text => .ok (literal .integer text)
  | .error e => .error (.ofConversion e)

/-- Whether an item is the value `true`. -/
def isTrue (i : Item) : Bool := i.kind == .trueValue

/-- The fault of an operation that needs another kind of value. -/
def mismatch (operation position expected : String) (i : Item) : Failure :=
  .fault (.wrongKind operation position expected i.spoken)

/-- The fault of applying what is no function. -/
def notApplicable (i : Item) : Failure :=
  .fault (.notApplicable i.spoken i.print)

end Item

/-- The fault of an operation that is not defined for two values together. -/
def undefinedFor (operation : String) (x y : Item) : Failure :=
  .fault (.undefinedFor operation x.spoken y.spoken)

/-- Checks that all operands are of the allowed kinds; the first that is not is the fault.  Only
a single operand is called just that; all but the first of several are right operands. -/
def checkOperands (operation expected : String) (allowed : List Kind) (operands : List Item) :
    Except Failure Unit :=
  let place (position : Nat) :=
    if operands.length = 1 then "operand"
    else if position = 0 then "left operand" else "right operand"
  match operands.zipIdx.find? fun (i, _) => !allowed.contains i.kind with
  | some (i, position) => .error (i.mismatch operation (place position) expected)
  | none => .ok ()

/-! ## 2. Operators of one operand -/

/-- An operator of one operand. -/
inductive UnaryOperator where
  | neg
  | not
  deriving DecidableEq

namespace UnaryOperator

/-- The operator of a kind of node. -/
def ofKind? : Kind → Option UnaryOperator
  | .neg => some .neg
  | .not => some .not
  | _ => none

/-- The result of an operator of one operand. -/
def apply (op : UnaryOperator) (x : Item) : Except Failure Item :=
  match op with
  | neg => do
    checkOperands "neg" "integer" [.integer] [x]
    let n ← x.integer
    Item.ofInteger (-n)
  | not => do
    checkOperands "not" "truthvalue" [.trueValue, .falseValue] [x]
    .ok (.truth !x.isTrue)

end UnaryOperator

/-! ## 3. Operators of two operands -/

/-- An operator of two operands. -/
inductive BinaryOperator where
  | plus | minus | mult | div | exp
  | gr | ge | ls | le | eq | ne
  | or | and | aug
  deriving DecidableEq

namespace BinaryOperator

/-- The operator of a kind of node. -/
def ofKind? : Kind → Option BinaryOperator
  | .plus => some .plus
  | .minus => some .minus
  | .mult => some .mult
  | .div => some .div
  | .exp => some .exp
  | .gr => some .gr
  | .ge => some .ge
  | .ls => some .ls
  | .le => some .le
  | .eq => some .eq
  | .ne => some .ne
  | .or => some .or
  | .and => some .and
  | .aug => some .aug
  | _ => none

/-- The operator as messages name it. -/
def name : BinaryOperator → String
  | plus => "+"
  | minus => "-"
  | mult => "*"
  | div => "/"
  | exp => "**"
  | gr => "gr"
  | ge => "ge"
  | ls => "ls"
  | le => "le"
  | eq => "eq"
  | ne => "ne"
  | or => "or"
  | and => "&"
  | aug => "aug"

/-- A result computed from two integers. -/
def arithmetic (op : BinaryOperator) (f : Int → Int → Int) (x y : Item) : Except Failure Item := do
  checkOperands op.name "integer" [.integer] [x, y]
  let a ← x.integer
  let b ← y.integer
  Item.ofInteger (f a b)

/-- The quotient of two integers, cut off toward zero.  The divisor is read first. -/
def divide (x y : Item) : Except Failure Item := do
  checkOperands "/" "integer" [.integer] [x, y]
  let b ← y.integer
  if b = 0 then .error (.fault .divisionByZero)
  else do
    let a ← x.integer
    Item.ofInteger (a.tdiv b)

/-- A power.  A negative exponent gives the fraction cut off toward zero. -/
def power (x y : Item) : Except Failure Item := do
  checkOperands "**" "integer" [.integer] [x, y]
  let base ← x.integer
  let exponent ← y.integer
  if 0 ≤ exponent then Item.ofInteger (Number.power base exponent.toNat)
  else if base = 0 then .error (.fault .zeroToNegativePower)
  else match Number.truncatedInversePower base exponent.natAbs with
    | some n => Item.ofInteger n
    | none => .error (.breakdown .floatRange)

/-- A comparison of two integers. -/
def compareIntegers (op : BinaryOperator) (holds : Int → Int → Bool) (x y : Item) :
    Except Failure Item :=
  if x.kind = .integer ∧ y.kind = .integer then do
    let a ← x.integer
    let b ← y.integer
    .ok (.truth (holds a b))
  else .error (undefinedFor op.name x y)

/-- Whether two integers, two strings or two truth values are equal; `op` names the operator in
the fault for other pairs. -/
def equality (op : BinaryOperator) (x y : Item) : Except Failure Bool :=
  match x.kind, y.kind with
  | .integer, .integer => do
    let a ← x.integer
    let b ← y.integer
    .ok (a == b)
  | .string, .string => .ok (x.text == y.text)
  | .trueValue, .trueValue | .falseValue, .falseValue => .ok true
  | .trueValue, .falseValue | .falseValue, .trueValue => .ok false
  | _, _ => .error (undefinedFor op.name x y)

/-- A result computed from two truth values. -/
def logical (op : BinaryOperator) (f : Bool → Bool → Bool) (x y : Item) : Except Failure Item := do
  checkOperands op.name "truthvalue" [.trueValue, .falseValue] [x, y]
  .ok (.truth (f x.isTrue y.isTrue))

/-- A tuple with one more component. -/
def augment (x y : Item) : Except Failure Item := do
  checkOperands "aug" "tuple" [.tuple] [x]
  .ok (.tuple (x.children.map Item.copy ++ [y.copy]))

/-- The result of an operator of two operands. -/
def apply (op : BinaryOperator) (x y : Item) : Except Failure Item :=
  match op with
  | plus => op.arithmetic (· + ·) x y
  | minus => op.arithmetic (· - ·) x y
  | mult => op.arithmetic (· * ·) x y
  | div => divide x y
  | exp => power x y
  | gr => op.compareIntegers (fun a b => decide (a > b)) x y
  | ge => op.compareIntegers (fun a b => decide (a ≥ b)) x y
  | ls => op.compareIntegers (fun a b => decide (a < b)) x y
  | le => op.compareIntegers (fun a b => decide (a ≤ b)) x y
  | eq => (op.equality x y).map fun b => .truth b
  | ne => (op.equality x y).map fun b => .truth !b
  | or => op.logical (· || ·) x y
  | and => op.logical (· && ·) x y
  | aug => augment x y

end BinaryOperator

end Rpal
