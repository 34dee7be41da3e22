/-
# Control structures

A standardized tree is compiled into control structures, one for the program and one for every
function in it.  The body of a structure lists the nodes of its expression in pre-order; a
function becomes an item that refers to its own structure, and a conditional becomes its two
branches followed by its condition:

    E1 E2           gamma  E1  E2
    fn x . E        delta i                with structure i: x, E
    C -> T | F      beta (T) (F)  C

Structures are numbered from 0, the program, in the order in which they are met breadth first.
The number of a structure is thus known before its body is; `fill` puts the bodies in place
once all are built.
-/
import Rpal.Item
import Rpal.Tree.Standard

namespace Rpal.Control

/-! ## 1. Building bodies -/

/-- A structure that was met: the names it binds and the expression of its body. -/
structure Pending where
  names : List Variable
  start : Tree

/-- Building meets structures in order and may fail; those met before a failure are kept. -/
abbrev Builder := ExceptT StandardizeError (StateM (List Pending))

/-- The names of a tuple pattern. -/
def patternNames : List Tree → Except StandardizeError (List Variable)
  | [] => .ok []
  | t :: ts =>
    if t.kind = .identifier then do
      let names ← patternNames ts
      .ok (t.text :: names)
    else .error (.patternHolds t.label)

/-- The names that a parameter binds: one, those of a tuple pattern, or none. -/
def boundNames (param : Tree) : Except StandardizeError (List Variable) :=
  match param.kind with
  | .identifier => .ok [param.text]
  | .comma => patternNames param.children
  | .paren => .ok []
  | _ => .error (.unsupportedParameter param.label)

/-- Meets a structure and yields its number. -/
def meet (names : List Variable) (start : Tree) : Builder Nat :=
  modifyGet fun met => (met.length, met ++ [⟨names, start⟩])

/-- The reference to a structure in a body, before bodies are filled in. -/
def reference (index : Nat) (names : List Variable) : Item :=
  .delta ⟨index, names, [], .absent⟩

/-- The instruction of a node.  Only a tuple instruction records its number of components. -/
def instruction (kind : Kind) (text : Option String) (children : Nat) : Item :=
  .node kind text [] (if kind = .tau then children else 0)

mutual

/-- The items of an expression.  Of a conditional, the branches come first, in both the items
and the numbers. -/
def linearize : Tree → Builder (List Item)
  | ⟨kind, text, children, _⟩ =>
    match kind, children with
    | .lambda, [param, body] => do
      let names ← liftExcept (boundNames param)
      let index ← meet names body
      pure [reference index names]
    | .lambda, _ => throw .lambdaParts
    | .conditional, [condition, thenPart, elsePart] => do
      let thenBody ← linearize thenPart
      let elseBody ← linearize elsePart
      let rest ← linearize condition
      pure (.beta thenBody elseBody :: rest)
    | .conditional, _ => throw .conditionalParts
    | kind, children => do
      let rest ← linearizeAll children
      pure (instruction kind text children.length :: rest)

/-- The items of neighbours, one after the other. -/
def linearizeAll : List Tree → Builder (List Item)
  | [] => pure []
  | t :: ts => do
    let items ← linearize t
    let rest ← linearizeAll ts
    pure (items ++ rest)

end

/-- The bodies of the structures from number `k` on; `room` bounds how many there are. -/
def bodiesFrom : Nat → Nat → Builder (List (List Item))
  | 0, _ => pure []
  | room + 1, k => do
    match (← get)[k]? with
    | none => pure []
    | some pending =>
      let body ← linearize pending.start
      let rest ← bodiesFrom room (k + 1)
      pure (body :: rest)

/-- Builds the bodies of a program.  It has no more structures than the tree has nodes. -/
def build (t : Tree) : Except StandardizeError (List (List Item)) × List Pending :=
  (bodiesFrom (t.size + 1) 0).run.run [⟨[], t⟩]

/-! ## 2. Filling bodies in -/

mutual

/-- Puts the bodies of structures where a body refers to them. -/
def fill (bodyOf : Nat → List Item) : Item → Item
  | .delta c => .delta { c with body := bodyOf c.index }
  | .beta thenBody elseBody => .beta (fillAll bodyOf thenBody) (fillAll bodyOf elseBody)
  | .node kind text children arity => .node kind text children arity
  | .eta c => .eta c
  | .marker env => .marker env

/-- Puts bodies in place in several items. -/
def fillAll (bodyOf : Nat → List Item) : List Item → List Item
  | [] => []
  | i :: is => fill bodyOf i :: fillAll bodyOf is

end

/-- The body of a structure among several, by its number. -/
def bodyAmong (structures : List Closure) (index : Nat) : List Item :=
  match structures.find? fun c => c.index == index with
  | some c => c.body
  | none => []

/-- Fills in all bodies.  A structure refers only to later ones, so the last comes first. -/
def fillStructures : List Closure → List Closure
  | [] => []
  | c :: later =>
    let later := fillStructures later
    { c with body := fillAll (bodyAmong later) c.body } :: later

/-- Numbers the structures that were met and gives each its body. -/
def assemble (met : List Pending) (bodies : List (List Item)) : List Closure :=
  (met.zip bodies).zipIdx.map fun ((pending, body), index) =>
    ⟨index, pending.names, body, .absent⟩

/-! ## 3. Programs -/

/-- The control structures of a standardized tree, the program first. -/
def structures (t : Tree) : Except StandardizeError (List Closure) :=
  match build t with
  | (.ok bodies, met) => .ok (fillStructures (assemble met bodies))
  | (.error e, _) => .error e

/-- The names bound by each structure that is met, up to a failure. -/
def metNames (t : Tree) : List (List Variable) :=
  (build t).2.map (·.names)

/-- The structure of the program. -/
def root (structures : List Closure) : Closure :=
  structures.headD ⟨0, [], [], .absent⟩

/-- Filling bodies in keeps the number of structures. -/
theorem length_fillStructures (cs : List Closure) : (fillStructures cs).length = cs.length := by
  induction cs with
  | nil => rfl
  | cons c cs ih => simp [fillStructures, ih]

end Rpal.Control
