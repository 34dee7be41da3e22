/-
# The core language

A standardized tree is a program of a small language: names and literals, tuples, applications,
operators, conditionals and functions of one parameter.  `Core` is its abstract syntax, in which
a node has the children that its kind needs, and every function carries a label, the number of
its control structure.

Two meanings are given to it side by side.

* `Core.meaning` evaluates an expression in a scope by recursion on the expression, without any
  machine: parts are evaluated from the last to the first, a conditional evaluates its condition
  and then one branch, a function is a closure over the scope.
* `Core.code` lists the instructions of an expression, as control structures do.

A node of a tree may carry a text that means nothing, and its instruction then carries it too;
`note` keeps it.
-/
import Rpal.Proofs.Evaluation.Apply

namespace Rpal

/-! ## 1. Expressions -/

/-- An expression of the core language. -/
inductive Core where
  | name (x : Variable)
  | literal (l : Literal) (text : Option String)
  | nil (note : Option String)
  | tuple (note : Option String) (parts : List Core)
  | apply (note : Option String) (f a : Core)
  | unary (note : Option String) (op : UnaryOperator) (x : Core)
  | binary (note : Option String) (op : BinaryOperator) (x y : Core)
  | choice (condition thenPart elsePart : Core)
  | lambda (label : Nat) (names : List Variable) (body : Core)

/-- The kind of an operator of one operand. -/
def UnaryOperator.kind : UnaryOperator → Kind
  | neg => .neg
  | not => .not

/-- The kind of an operator of two operands. -/
def BinaryOperator.kind : BinaryOperator → Kind
  | plus => .plus
  | minus => .minus
  | mult => .mult
  | div => .div
  | exp => .exp
  | gr => .gr
  | ge => .ge
  | ls => .ls
  | le => .le
  | eq => .eq
  | ne => .ne
  | or => .or
  | and => .and
  | aug => .aug

namespace Core

/-! ## 2. Evaluation -/

section Meaning

variable (inner : Inner Core)

/-- Goes on with one of two evaluations, by a truth value. -/
def choose {γ : Type} (condition : Value γ) (thenPart elsePart : Eval (Value γ)) :
    Eval (Value γ) :=
  match condition with
  | .literal .trueValue _ => thenPart
  | .literal .falseValue _ => elsePart
  | v => Eval.lift (.error (v.bare.mismatch "->" "condition" "truthvalue"))

mutual

/-- The value of an expression in a scope. -/
def meaning : Core → Scope Core → Eval (Value Core)
  | .name x, scope => Eval.lift (scope.value x)
  | .literal l text, _ => pure (.literal l text)
  | .nil _, _ => pure (.tuple [])
  | .tuple _ parts, scope => do
    let vs ← meaningAll parts scope
    pure (.tuple vs)
  | .apply _ f a, scope => do
    let argument ← meaning a scope
    let function ← meaning f scope
    inner.call function argument
  | .unary _ op x, scope => do
    let v ← meaning x scope
    Eval.lift (Value.unary op v)
  | .binary _ op x y, scope => do
    let w ← meaning y scope
    let v ← meaning x scope
    Eval.lift (Value.binary op v w)
  | .choice condition thenPart elsePart, scope => do
    let v ← meaning condition scope
    choose v (meaning thenPart scope) (meaning elsePart scope)
  | .lambda label names body, scope => pure (.closure ⟨label, names, body, scope⟩)

/-- The values of parts side by side, the last evaluated first. -/
def meaningAll : List Core → Scope Core → Eval (List (Value Core))
  | [], _ => pure []
  | e :: es, scope => do
    let vs ← meaningAll es scope
    let v ← meaning e scope
    pure (v :: vs)

end

end Meaning

/-- The value of a program and the text it writes, within a budget. -/
def evaluate (budget : Nat) (e : Core) : Option (Except Failure (Value Core) × String) :=
  meaning (Rpal.inner meaning budget) e Scope.empty ""

/-! ## 3. Instructions -/

mutual

/-- The instructions of an expression; the last is executed first. -/
def code : Core → List Item
  | .name x => [.node .identifier x [] 0]
  | .literal l text => [.node l.kind text [] 0]
  | .nil note => [.node .nil note [] 0]
  | .tuple note parts => .node .tau note [] parts.length :: codeAll parts
  | .apply note f a => .node .gamma note [] 0 :: (f.code ++ a.code)
  | .unary note op x => .node op.kind note [] 0 :: x.code
  | .binary note op x y => .node op.kind note [] 0 :: (x.code ++ y.code)
  | .choice condition thenPart elsePart =>
    .beta thenPart.code elsePart.code :: condition.code
  | .lambda label names body => [.delta ⟨label, names, body.code, .absent⟩]

/-- The instructions of parts side by side. -/
def codeAll : List Core → List Item
  | [] => []
  | e :: es => e.code ++ codeAll es

end

theorem copyAll_append (is js : List Item) :
    Item.copyAll (is ++ js) = Item.copyAll is ++ Item.copyAll js := by
  simp [Item.copyAll_eq_map]

/-- An instruction without components is its own copy, unless it is a tuple. -/
theorem copy_node {kind : Kind} (h : kind ≠ .tuple) (text : Option String) (arity : Nat) :
    (Item.node kind text [] arity).copy = .node kind text [] arity := by
  simp [Item.copy, Item.copyAll, h]

mutual

/-- **Code is its own copy.** -/
theorem copyAll_code : (e : Core) → Item.copyAll e.code = e.code
  | .name x => by simp [code, Item.copyAll, copy_node]
  | .literal l text => by cases l <;> simp [code, Item.copyAll, copy_node, Literal.kind]
  | .nil note => by simp [code, Item.copyAll, copy_node]
  | .tuple note parts => by
    simp only [code, Item.copyAll]
    rw [copy_node (by decide), copyAll_codeAll parts]
  | .apply note f a => by
    simp only [code, Item.copyAll, copyAll_append]
    rw [copy_node (by decide), copyAll_code f, copyAll_code a]
  | .unary note op x => by
    simp only [code, Item.copyAll]
    rw [copy_node (by cases op <;> decide), copyAll_code x]
  | .binary note op x y => by
    simp only [code, Item.copyAll, copyAll_append]
    rw [copy_node (by cases op <;> decide), copyAll_code x, copyAll_code y]
  | .choice condition thenPart elsePart => by
    simp only [code, Item.copyAll, Item.copy]
    rw [copyAll_code condition, copyAll_code thenPart, copyAll_code elsePart]
  | .lambda label names body => by
    simp only [code, Item.copyAll, Item.copy, Closure.copy]
    rw [copyAll_code body]

theorem copyAll_codeAll : (es : List Core) → Item.copyAll (codeAll es) = codeAll es
  | [] => rfl
  | e :: es => by
    simp only [codeAll, copyAll_append]
    rw [copyAll_code e, copyAll_codeAll es]

end

theorem settled_code : Settled code := copyAll_code

end Core

end Rpal
