/-
# Built-in functions

Fifteen names are bound from the start.  Most take one argument; `Conc` takes two and can be
applied to one of them alone.  `Print` and `print` are the same function: they write the
printed form of their argument, with its escape sequences replaced.
-/
import Rpal.Operator
import Rpal.Text.Escape

namespace Rpal

/-- A built-in function. -/
inductive Builtin where
  | print | printLower
  | stem | stern | conc | itoS
  | order | null
  | isInteger | isString | isTuple | isTruthvalue | isFunction | isDummy
  | identity
  deriving DecidableEq

namespace Builtin

/-! ## 1. The registry -/

/-- The name of a built-in function. -/
def name : Builtin → String
  | print => "Print"
  | printLower => "print"
  | stem => "Stem"
  | stern => "Stern"
  | conc => "Conc"
  | itoS => "ItoS"
  | order => "Order"
  | null => "Null"
  | isInteger => "Isinteger"
  | isString => "Isstring"
  | isTuple => "Istuple"
  | isTruthvalue => "Istruthvalue"
  | isFunction => "Isfunction"
  | isDummy => "Isdummy"
  | identity => "Identity"

/-- The built-in functions in their usual order. -/
def all : List Builtin :=
  [print, printLower, stem, stern, conc, itoS, order, null, isInteger, isString, isTuple,
    isTruthvalue, isFunction, isDummy, identity]

/-- The list of built-in functions is complete. -/
theorem mem_all (b : Builtin) : b ∈ all := by
  cases b <;> decide

/-- The built-in function of a name. -/
def ofName? (s : String) : Option Builtin :=
  all.find? fun b => b.name == s

/-- Every built-in function is found by its name. -/
theorem ofName?_name (b : Builtin) : ofName? b.name = some b := by
  cases b <;> decide

/-- The built-in function of a name, or the fault of an unknown one. -/
def get (s : String) : Except Fault Builtin :=
  match ofName? s with
  | some b => .ok b
  | none => .error (.unknownBuiltin s)

/-- The number of arguments that a built-in function takes. -/
def arity : Builtin → Nat
  | conc => 2
  | _ => 1

/-- Whether a built-in function writes to the output. -/
def writes : Builtin → Bool
  | print | printLower => true
  | _ => false

/-! ## 2. Results -/

/-- What printing a value writes. -/
def written (i : Item) : String :=
  String.ofList (Text.interpretEscapes i.print.toList)

/-- The first character of a string and the others. -/
def splitString (function : String) (i : Item) : Except Failure (Char × List Char) :=
  if i.kind = .string then
    match (i.text.getD "").toList with
    | [] => .error (.fault (.emptyString function))
    | c :: rest => .ok (c, rest)
  else .error (i.mismatch function "argument" "string")

/-- Two strings or two tuples, one after the other. -/
def concatenate (x y : Item) : Except Failure Item :=
  match x.kind, y.kind with
  | .string, .string => .ok (.string (x.text.getD "" ++ y.text.getD ""))
  | .tuple, .tuple => .ok (.tuple ((x.children ++ y.children).map Item.copy))
  | _, _ => .error (undefinedFor "Conc" x y)

/-- The components of a tuple. -/
def components (function : String) (i : Item) : Except Failure (List Item) :=
  if i.kind = .tuple then .ok i.children
  else .error (i.mismatch function "argument" "tuple")

/-- Whether the kind of a value is one of several. -/
def hasKind (kinds : List Kind) (i : Item) : Item :=
  .truth (kinds.contains i.kind)

/-- The result of a built-in function of one argument. -/
def applyOne (b : Builtin) (i : Item) : Except Failure Item :=
  match b with
  | print | printLower => .ok .dummy
  | stem => do
    let (c, _) ← splitString "Stem" i
    .ok (.string (String.singleton c))
  | stern => do
    let (_, rest) ← splitString "Stern" i
    .ok (.string (String.ofList rest))
  | itoS =>
    if i.kind = .integer then .ok (.node .string i.text [] 0)
    else .error (i.mismatch "ItoS" "argument" "integer")
  | order => do
    let is ← components "Order" i
    Item.ofInteger is.length
  | null => do
    let is ← components "Null" i
    .ok (.truth is.isEmpty)
  | isInteger => .ok (hasKind [.integer] i)
  | isString => .ok (hasKind [.string] i)
  | isTuple => .ok (hasKind [.tuple] i)
  | isTruthvalue => .ok (hasKind [.trueValue, .falseValue] i)
  | isFunction => .ok (hasKind [.delta, .eta, .identifier] i)
  | isDummy => .ok (hasKind [.dummy] i)
  | identity => .ok i.copy
  | conc => .error (.breakdown .surplusArguments)

/-- The result of a built-in function with all its arguments, and the text it writes. -/
def apply (b : Builtin) (args : List Item) : Except Failure (Item × String) :=
  match b, args with
  | conc, [x, y] => do
    let r ← concatenate x y
    .ok (r, "")
  | b, [i] => do
    let r ← b.applyOne i
    .ok (r, if b.writes then written i else "")
  | _, _ => .error (.breakdown .surplusArguments)

end Builtin

end Rpal
