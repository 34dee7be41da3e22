/-
# The machine

The machine runs a control structure with three parts: the control, a stack of items to be
executed; the values computed so far, also a stack; and the current environment.  Both stacks
are lists with their top at the front.

    control            values             what happens
    name               ..                 the value of the name is pushed
    literal            ..                 it is pushed
    delta c            ..                 it is pushed, with the current environment
    tau n              v1 .. vn ..        the tuple (v1, .., vn) is pushed
    beta T F           true ..            the items of T take its place
    gamma              f v ..             f is applied to v
    operator           v1 v2 ..           its result is pushed
    marker e           ..                 e becomes the current environment

Applying a function leaves a marker with the caller's environment below the items of its body.
Applying a recursive function applies its function to itself first, and the result to the
argument.

A run takes a budget of steps; a run that does not end within it has no result.
-/
import Rpal.Builtin
import Rpal.Environment

namespace Rpal

/-- A state of the machine. -/
structure Machine where
  control : List Item
  values : List Item
  env : Env
  output : String
  steps : Nat

namespace Machine

/-- The state in which a control structure starts. -/
def start (root : Closure) : Machine :=
  { control := (Item.copyAll root.body).reverse
    values := []
    env := .empty
    output := ""
    steps := 0 }

/-- Pushes a value. -/
def push (v : Item) (m : Machine) : Machine :=
  { m with values := v :: m.values }

/-- Places the items of a body on the control. -/
def schedule (body : List Item) (m : Machine) : Machine :=
  { m with control := body.reverse ++ m.control }

/-! ## 1. Application -/

/-- The environment in which the body of a function runs. -/
def parameters (c : Closure) (argument : Item) : Except Failure Env :=
  let env := Env.frame c.env
  match c.names with
  | [] => .ok env
  | [name] => .ok (env.define name argument)
  | names =>
    let self := c.describe "lambda"
    if argument.kind = .tuple then
      if argument.children.length = names.length then
        .ok (env.defineAll (names.zip argument.children))
      else .error (.fault (.wrongCount self names.length argument.children.length))
    else .error (argument.mismatch self "argument" ("tuple of " ++ toString names.length))

/-- Enters the body of a function; the caller's environment is restored behind it. -/
def enter (c : Closure) (argument : Item) (m : Machine) : Except Failure Machine := do
  let env ← parameters c argument
  .ok (schedule c.body { m with control := .marker m.env :: m.control, env })

/-- The component of a tuple at an index, from 1. -/
def select (tuple index : Item) : Except Failure Item := do
  if index.kind = .integer then
    let n ← index.integer
    if 1 ≤ n then
      match tuple.children[n.toNat - 1]? with
      | some i => .ok i
      | none => .error (.fault (.indexOutOfRange n tuple.print))
    else .error (.fault (.indexOutOfRange n tuple.print))
  else .error (index.mismatch "Tuple selection" "index" "integer")

/-- The built-in function that an item names. -/
def builtin? : Item → Option Builtin
  | .node .identifier (some name) _ _ => Builtin.ofName? name
  | _ => none

/-- Applies a built-in function to one more argument; with arguments still missing, it waits
for them. -/
def applyBuiltin (b : Builtin) (function argument : Item) (m : Machine) :
    Except Failure Machine :=
  let args := function.children ++ [argument]
  if args.length < b.arity then .ok (m.push (.node .identifier function.text args 0))
  else do
    let (v, written) ← b.apply args
    .ok (push v { m with output := m.output ++ written })

/-- Applies a function to an argument, both taken from the values. -/
def applyTo (function argument : Item) (m : Machine) : Except Failure Machine :=
  match function with
  | .delta c => m.enter c argument
  | .eta c =>
    .ok { m with
      values := .delta c.copy :: .eta c :: argument :: m.values
      control := .plain .gamma :: .plain .gamma :: m.control }
  | .node .yStar _ _ _ =>
    match argument with
    | .delta c => .ok (m.push (.eta c))
    | _ => .error (argument.mismatch "Y*" "argument" "function")
  | .node .tuple _ _ _ => do
    let v ← select function argument
    .ok (m.push v)
  | function =>
    match builtin? function with
    | some b => m.applyBuiltin b function argument
    | none => .error function.notApplicable

/-! ## 2. Instructions -/

/-- The failure of an instruction that needs more values than there are. -/
def emptyStack : Failure := .breakdown .emptyStack

/-- Pushes the value of a name: its binding, or else the built-in function of that name. -/
def evalName (i : Item) (m : Machine) : Except Failure Machine :=
  match m.env.lookup? i.text with
  | some v => .ok (m.push v)
  | none =>
    match builtin? i with
    | some _ => .ok (m.push i)
    | none => .error (.fault (.unbound i.text))

/-- Collects the components of a tuple; the topmost value is the first. -/
def collect (arity : Nat) (m : Machine) : Except Failure Machine :=
  if m.values.length < arity then
    .error (.fault (.missingComponents arity m.values.length))
  else .ok (push (.tuple (m.values.take arity)) { m with values := m.values.drop arity })

/-- Goes on with one of two branches. -/
def branch (thenBody elseBody : List Item) (m : Machine) : Except Failure Machine :=
  match m.values with
  | [] => .error emptyStack
  | v :: values =>
    let m := { m with values }
    match v.kind with
    | .trueValue => .ok (m.schedule thenBody)
    | .falseValue => .ok (m.schedule elseBody)
    | _ => .error (v.mismatch "->" "condition" "truthvalue")

/-- Applies the topmost value to the one below. -/
def gamma (m : Machine) : Except Failure Machine :=
  match m.values with
  | function :: argument :: values => applyTo function argument { m with values }
  | _ => .error emptyStack

/-- Applies an operator of one operand. -/
def unary (op : UnaryOperator) (m : Machine) : Except Failure Machine :=
  match m.values with
  | x :: values => do
    let v ← op.apply x
    .ok { m with values := v :: values }
  | _ => .error emptyStack

/-- Applies an operator of two operands; the left one is on top. -/
def binary (op : BinaryOperator) (m : Machine) : Except Failure Machine :=
  match m.values with
  | x :: y :: values => do
    let v ← op.apply x y
    .ok { m with values := v :: values }
  | _ => .error emptyStack

/-- Executes an item. -/
def execute (i : Item) (m : Machine) : Except Failure Machine :=
  match i with
  | .delta c => .ok (m.push (.delta { c with env := m.env }))
  | .beta thenBody elseBody => m.branch thenBody elseBody
  | .marker env => .ok { m with env }
  | .eta _ => .error (.fault (.notExecutable i.label))
  | .node kind _ _ arity =>
    match kind with
    | .identifier => m.evalName i
    | .integer | .string | .trueValue | .falseValue | .dummy | .yStar => .ok (m.push i)
    | .nil => .ok (m.push (.tuple []))
    | .tau => m.collect arity
    | .gamma => m.gamma
    | kind =>
      match UnaryOperator.ofKind? kind, BinaryOperator.ofKind? kind with
      | some op, _ => m.unary op
      | none, some op => m.binary op
      | none, none => .error (.fault (.notExecutable i.label))

/-- The state after an item has been taken from the control. -/
def take (rest : List Item) (m : Machine) : Machine :=
  { m with control := rest, steps := m.steps + 1 }

/-- Takes the topmost item from the control and executes it.  With an empty control there is
nothing to do. -/
def step (m : Machine) : Except Failure Machine :=
  match m.control with
  | [] => .ok m
  | i :: rest => execute i (m.take rest)

/-! ## 3. Runs -/

/-- What a run comes to: the text it wrote, and a value or a failure. -/
structure Result where
  output : String
  answer : Except Failure Item

/-- The result of a state with an empty control: its only value. -/
def finish (m : Machine) : Result :=
  match m.values with
  | [v] => ⟨m.output, .ok v⟩
  | values => ⟨m.output, .error (.fault (.notOneValue values.length))⟩

/-- Runs a state to its end, within a budget of steps. -/
def run : Nat → Machine → Option Result
  | 0, m => if m.control.isEmpty then some m.finish else none
  | budget + 1, m =>
    if m.control.isEmpty then some m.finish
    else
      match m.step with
      | .ok next => run budget next
      | .error f => some ⟨m.output, .error f⟩

/-- A larger budget does not change a result. -/
theorem run_mono {n k : Nat} {m : Machine} {r : Result} (h : run n m = some r) :
    run (n + k) m = some r := by
  induction n generalizing m with
  | zero =>
    simp only [run] at h
    split at h
    · cases k with
      | zero => simp_all [run]
      | succ k => simp_all [run]
    · simp at h
  | succ n ih =>
    rw [Nat.succ_add]
    simp only [run] at h ⊢
    split at h
    · simp_all
    · split at h
      · simp_all
      · simp_all

end Machine

end Rpal
