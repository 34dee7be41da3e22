/-
# Faults

A run ends early for one of two reasons.  A *fault* is an error of the program, reported in a
message; a *breakdown* is a condition that the machine does not report: a value stack that is
too short, or a number outside the limits of conversion.

Faults carry what their messages name: kinds in words, printed values, counts.
-/
import Rpal.Number.Decimal
import Rpal.Variable

namespace Rpal

/-- An error that the language reports. -/
inductive Fault where
  /-- An operation met a value of the wrong kind. -/
  | wrongKind (operation position expected got : String)
  /-- A function met a tuple of the wrong length. -/
  | wrongCount (operation : String) (expected got : Int)
  /-- An operation is not defined for two values together. -/
  | undefinedFor (operation left right : String)
  /-- A name is not bound. -/
  | unbound (name : Variable)
  /-- A value that is no function was applied. -/
  | notApplicable (kind text : String)
  | indexOutOfRange (index : Int) (tuple : String)
  | divisionByZero
  | zeroToNegativePower
  /-- A function that needs a character met the empty string. -/
  | emptyString (function : String)
  | unknownBuiltin (name : String)
  /-- A tuple has more components than there are values. -/
  | missingComponents (needed got : Nat)
  /-- The control holds something that is no instruction. -/
  | notExecutable (label : String)
  /-- The control is empty and there is not exactly one value. -/
  | notOneValue (count : Nat)
  deriving DecidableEq

/-- A condition that ends a run without a report. -/
inductive Breakdown where
  /-- An instruction needed more values than there are. -/
  | emptyStack
  /-- A text or a number is not converted. -/
  | conversion (error : Number.ConversionError)
  /-- A number is too large for floating point. -/
  | floatRange
  /-- A built-in function has more arguments than it takes. -/
  | surplusArguments
  deriving DecidableEq

/-- Why a run ends early. -/
inductive Failure where
  | fault (fault : Fault)
  | breakdown (breakdown : Breakdown)
  deriving DecidableEq

/-- The wording of a fault. -/
def Fault.message : Fault → String
  | wrongKind operation position expected got =>
    operation ++ " requires " ++ expected ++ " for " ++ position ++ ", got " ++ got
  | wrongCount operation expected got =>
    operation ++ " requires " ++ toString expected ++ " arguments, got " ++ toString got
  | undefinedFor operation left right =>
    "Cannot apply " ++ operation ++ " to " ++ left ++ " and " ++ right
  | unbound name => "Undeclared identifier: <ID:" ++ name.shown ++ ">"
  | notApplicable kind text => "Cannot apply " ++ kind ++ " " ++ text
  | indexOutOfRange index tuple =>
    "Tuple index " ++ toString index ++ " out of range for " ++ tuple
  | divisionByZero => "Division by zero"
  | zeroToNegativePower => "Division by zero: 0 raised to a negative power"
  | emptyString function => function ++ ": empty string"
  | unknownBuiltin name => "Unknown built-in function: " ++ name
  | missingComponents needed got =>
    "tau needs " ++ toString needed ++ " values, stack holds " ++ toString got
  | notExecutable label => "Cannot execute " ++ label
  | notOneValue count =>
    "Machine halted with " ++ toString count ++ " values on the stack, expected 1"

/-- A conversion that fails breaks a run down. -/
def Failure.ofConversion (e : Number.ConversionError) : Failure :=
  .breakdown (.conversion e)

end Rpal
