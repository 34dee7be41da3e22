/-
# Decimal texts of integers

Integers live in a program as decimal texts.  An operator reads the texts of its operands and
writes the text of its result, and both directions have one limit: a text of more than 4300
digits is not converted.  Leading zeros count, the sign does not.

* `readInteger` accepts white space around the number, a sign, digits of any script, and
  single underscores between digits.
* `writeInteger` gives the canonical text: no leading zeros, no sign but a minus.
-/
import Rpal.Text.Blank
import Rpal.Text.Digit

namespace Rpal.Number

/-- Why a text or a number is not converted. -/
inductive ConversionError where
  /-- The text is not that of an integer. -/
  | notNumeric
  /-- There are more digits than the limit allows. -/
  | tooManyDigits
  deriving DecidableEq

/-- The largest number of digits that is converted. -/
def digitLimit : Nat := 4300

/-! ## 1. Reading -/

/-- White space that may surround a number.  The control characters U+001C to U+001F, white
space elsewhere, are not among it. -/
def isNumberBlank (c : Char) : Bool :=
  Text.isBlank c && !(0x1C ≤ c.toNat && c.toNat ≤ 0x1F)

/-- The values of digits that single underscores may separate. -/
def digitValues? : List Char → Option (List Nat)
  | [] => none
  | [c] => (Text.digitValue? c).map ([·])
  | c :: '_' :: rest => do
    let d ← Text.digitValue? c
    let ds ← digitValues? rest
    pure (d :: ds)
  | c :: rest => do
    let d ← Text.digitValue? c
    let ds ← digitValues? rest
    pure (d :: ds)

/-- The number that a sequence of digits writes. -/
def ofDigitValues (ds : List Nat) : Nat :=
  ds.foldl (fun n d => 10 * n + d) 0

/-- The number that a sequence of digit characters writes, within the limit. -/
def readNatural (cs : List Char) : Except ConversionError Nat :=
  match digitValues? cs with
  | none => .error .notNumeric
  | some ds => if ds.length ≤ digitLimit then .ok (ofDigitValues ds) else .error .tooManyDigits

/-- The integer that a text writes. -/
def readInteger (text : String) : Except ConversionError Int :=
  let cs := (text.toList.dropWhile isNumberBlank).reverse.dropWhile isNumberBlank |>.reverse
  match cs with
  | '-' :: rest => (readNatural rest).map fun n => -(n : Int)
  | '+' :: rest => (readNatural rest).map fun n => (n : Int)
  | rest => (readNatural rest).map fun n => (n : Int)

/-! ## 2. Writing -/

/-- The canonical decimal text of an integer. -/
def integerText (n : Int) : String :=
  if n < 0 then "-" ++ toString n.natAbs else toString n.natAbs

/-- The canonical decimal text of an integer, within the limit. -/
def writeInteger (n : Int) : Except ConversionError String :=
  if n.natAbs < Nat.pow 10 digitLimit then .ok (integerText n) else .error .tooManyDigits

end Rpal.Number
