/-
# Printed values

A value is printed as a program would write it, where that is possible: an integer and a
string by their text, a tuple in brackets, the empty tuple as `nil`.  Functions show the first
name they bind and the number of their control structure:

    [lambda closure: x: 3]      [eta closure: (): 3]

`compact` is the other form: the names of the kinds, as for trees.
-/
import Rpal.Item

namespace Rpal

/-- The first name that a control structure binds, or `()`. -/
def Closure.firstName (c : Closure) : String :=
  match c.names with
  | [] => "()"
  | name :: _ => name.shown

/-- A control structure as it shows in the text of a function. -/
def Closure.describe (c : Closure) (sort : String) : String :=
  "[" ++ sort ++ " closure: " ++ c.firstName ++ ": " ++ toString c.index ++ "]"

namespace Item

mutual

/-- The printed form of a value. -/
def print : Item → String
  | .node kind text children _ =>
    match kind with
    | .integer | .string | .identifier => Variable.shown text
    | .trueValue => "true"
    | .falseValue => "false"
    | .dummy => "dummy"
    | .nil => "nil"
    | .yStar => "Y*"
    | .tuple =>
      match children with
      | [] => "nil"
      | i :: is => "(" ++ i.print ++ printRest is ++ ")"
    | kind => Text.lowerCase kind.name
  | .delta closure => closure.describe "lambda"
  | .eta closure => closure.describe "eta"
  | .beta _ _ => "beta"
  | .marker _ => "env"

/-- Further components, each after a comma. -/
def printRest : List Item → String
  | [] => ""
  | i :: is => ", " ++ i.print ++ printRest is

end

/-- Whether a printed form exists: an integer, a string or a name needs a text. -/
def hasPrint (i : Item) : Bool :=
  match i.kind with
  | .integer | .string | .identifier => i.text.isSome
  | _ => true

mutual

/-- The item on one line by the names of the kinds, with its children or its text. -/
def compact : Item → String
  | .node kind text children _ =>
    match children, text with
    | [], none => kind.name
    | [], some text => kind.name ++ "(" ++ text ++ ")"
    | i :: is, _ => kind.name ++ "(" ++ i.compact ++ compactRest is ++ ")"
  | .delta _ => "DELTA"
  | .beta _ _ => "BETA"
  | .eta _ => "ETA"
  | .marker _ => "ENV"

/-- Further children, each after a comma. -/
def compactRest : List Item → String
  | [] => ""
  | i :: is => ", " ++ i.compact ++ compactRest is

end

/-- The empty tuple prints as `nil`. -/
theorem print_tuple_nil : (tuple []).print = "nil" := rfl

/-- A tuple prints as its components in order, between brackets. -/
theorem print_tuple_cons (i : Item) (is : List Item) :
    (tuple (i :: is)).print = "(" ++ i.print ++ printRest is ++ ")" := rfl

end Item

end Rpal
