/-
# Standardizing trees

Every definition form of the language is sugar for functions and applications.  Eight rules
say so, each for one kind of node:

    let x = E in B                =>   (fn x . B) E
    B where x = E                 =>   let x = E in B
    f p1 .. pn = B                =>   f = fn p1 . .. fn pn . B
    fn p1 .. pn . B               =>   fn p1 . .. fn pn . B
    E1 @ N E2                     =>   N E1 E2
    x1 = E1 within x2 = E2        =>   x2 = (fn x1 . E2) E1
    x1 = E1 and .. and xn = En    =>   (x1, .., xn) = (E1, .., En)
    rec x = E                     =>   x = Y* (fn x . E)

`applyRule` applies the rule of one node; `standardize` applies them all, children before their
parent, so that each rule meets definitions that are already plain equations.  A node that does
not have the shape its rule needs is an error.
-/
import Rpal.Tree

namespace Rpal

/-! ## 1. Errors -/

/-- Why a tree has no standard form, or no control structures. -/
inductive StandardizeError where
  /-- A node has the wrong number of children. -/
  | childCount (kind : Kind) (least : Nat) (exact : Bool) (got : Nat)
  | letWithoutEquation
  | withinWithoutEquation
  | simultaneousWithoutEquation
  | recursionWithoutEquation
  /-- A tuple pattern holds something other than a name. -/
  | patternHolds (label : String)
  /-- A parameter is neither a name, nor a tuple pattern, nor `()`. -/
  | unsupportedParameter (label : String)
  | lambdaParts
  | conditionalParts
  deriving DecidableEq

/-- The wording of an error. -/
def StandardizeError.message : StandardizeError → String
  | childCount kind least exact got =>
    kind.name ++ ": expected " ++ (if exact then "" else "at least ") ++ toString least ++
      " children, got " ++ toString got
  | letWithoutEquation => "LET/WHERE: left child is not EQUAL"
  | withinWithoutEquation => "WITHIN: one of the children is not EQUAL"
  | simultaneousWithoutEquation => "SIMULTDEF: one of the children is not EQUAL"
  | recursionWithoutEquation => "REC: child is not EQUAL"
  | patternHolds label => "LAMBDA: tuple parameter holds " ++ label
  | unsupportedParameter label => "LAMBDA: unsupported parameter " ++ label
  | lambdaParts => "LAMBDA: expected a parameter and a body"
  | conditionalParts => "CONDITIONAL: expected condition, then and else parts"

namespace Tree

/-! ## 2. One rule at a time -/

/-- The error of a node that should have exactly `count` children. -/
def wrongCount (t : Tree) (count : Nat) : StandardizeError :=
  .childCount t.kind count true t.children.length

/-- The error of a node that should have at least `count` children. -/
def tooFew (t : Tree) (count : Nat) : StandardizeError :=
  .childCount t.kind count false t.children.length

/-- The two sides of an equation. -/
def sides (t : Tree) : Except StandardizeError (Tree × Tree) :=
  match t.children with
  | [left, right] => .ok (left, right)
  | _ => .error (wrongCount t 2)

/-- Functions of one parameter each, around a body. -/
def lambdaChain (params : List Tree) (body : Tree) : Tree :=
  params.foldr (fun param t => .branch .lambda [param, t]) body

/-- `let` with its definition and body: the equation becomes the function. -/
def applyLetRule (t definition body : Tree) : Except StandardizeError Tree :=
  if definition.kind = .equal then do
    let (pattern, value) ← definition.sides
    .ok { t with
      kind := .gamma
      children := [{ definition with kind := .lambda, children := [pattern, body] }, value] }
  else .error .letWithoutEquation

/-- The left and right sides of definitions that stand side by side. -/
def equations : List Tree → Except StandardizeError (List (Tree × Tree))
  | [] => .ok []
  | t :: ts =>
    if t.kind = .equal then do
      let pair ← t.sides
      let pairs ← equations ts
      .ok (pair :: pairs)
    else .error .simultaneousWithoutEquation

/-- Applies the rule of the root; a kind without a rule is left alone. -/
def applyRule (t : Tree) : Except StandardizeError Tree :=
  match t.kind with
  | .letIn =>
    match t.children with
    | [definition, body] => applyLetRule t definition body
    | _ => .error (wrongCount t 2)
  | .whereDef =>
    match t.children with
    | [body, definition] => applyLetRule t definition body
    | _ => .error (wrongCount t 2)
  | .functionForm =>
    match t.children with
    | name :: param :: more :: rest =>
      let params := param :: (more :: rest).dropLast
      let body := (more :: rest).getLast (List.cons_ne_nil _ _)
      .ok { t with kind := .equal, children := [name, lambdaChain params body] }
    | _ => .error (tooFew t 3)
  | .lambda =>
    match t.children with
    | [_, _] => .ok t
    | param :: next :: more :: rest =>
      let params := next :: (more :: rest).dropLast
      let body := (more :: rest).getLast (List.cons_ne_nil _ _)
      .ok { t with children := [param, lambdaChain params body] }
    | _ => .error (tooFew t 2)
  | .atCall =>
    match t.children with
    | [left, name, right] =>
      .ok { t with kind := .gamma, children := [.branch .gamma [name, left], right] }
    | _ => .error (wrongCount t 3)
  | .within =>
    match t.children with
    | [inner, outer] =>
      if inner.kind = .equal ∧ outer.kind = .equal then do
        let (x1, e1) ← inner.sides
        let (x2, e2) ← outer.sides
        .ok { t with
          kind := .equal
          children := [x2, .branch .gamma [.branch .lambda [x1, e2], e1]] }
      else .error .withinWithoutEquation
    | _ => .error (wrongCount t 2)
  | .simultDef => do
    let pairs ← equations t.children
    .ok { t with
      kind := .equal
      children := [.branch .comma (pairs.map Prod.fst), .branch .tau (pairs.map Prod.snd)] }
  | .recDef =>
    match t.children with
    | [equation] =>
      if equation.kind = .equal then do
        let (x, e) ← equation.sides
        let fixedPoint := .branch .gamma [.branch .yStar [], .branch .lambda [x, e]]
        .ok { t with kind := .equal, children := [x, fixedPoint] }
      else .error .recursionWithoutEquation
    | _ => .error (wrongCount t 1)
  | _ => .ok t

/-! ## 3. All rules -/

mutual

/-- The standard form of a tree: every rule applied, children before their parent. -/
def standardize : Tree → Except StandardizeError Tree
  | ⟨kind, text, children, arity⟩ => do
    let children ← standardizeAll children
    applyRule ⟨kind, text, children, arity⟩

/-- The standard forms of neighbours, from the left. -/
def standardizeAll : List Tree → Except StandardizeError (List Tree)
  | [] => .ok []
  | t :: ts => do
    let t ← t.standardize
    let ts ← standardizeAll ts
    .ok (t :: ts)

end

/-- Whether a kind has a rule. -/
def hasRule : Kind → Bool
  | .letIn | .whereDef | .functionForm | .lambda | .atCall | .within | .simultDef | .recDef => true
  | _ => false

mutual

/-- The kinds whose rules are tried while a tree is standardized, in order, up to and with the
first that fails. -/
def attempts : Tree → List Kind
  | ⟨kind, _, children, _⟩ =>
    let below := attemptsAll children
    match standardizeAll children with
    | .ok _ => if hasRule kind then below ++ [kind] else below
    | .error _ => below

/-- The kinds whose rules are tried below neighbours. -/
def attemptsAll : List Tree → List Kind
  | [] => []
  | t :: ts =>
    match t.standardize with
    | .ok _ => t.attempts ++ attemptsAll ts
    | .error _ => t.attempts

end

/-! ## 4. Standard forms -/

/-- The kinds that a standard form may hold. -/
def isCanonicalKind : Kind → Bool
  | .identifier | .integer | .string | .trueValue | .falseValue | .nil | .dummy | .yStar
  | .lambda | .gamma | .equal | .conditional | .tau | .comma | .paren
  | .or | .and | .not | .gr | .ge | .ls | .le | .eq | .ne
  | .plus | .minus | .neg | .mult | .div | .exp | .aug => true
  | _ => false

mutual

/-- Whether a tree is in standard form. -/
def isStandard : Tree → Bool
  | ⟨kind, _, children, _⟩ =>
    isCanonicalKind kind && (kind != .lambda || children.length == 2) && allStandard children

/-- Whether all neighbours are in standard form. -/
def allStandard : List Tree → Bool
  | [] => true
  | t :: ts => t.isStandard && allStandard ts

end

/-- A kind without a rule is left alone. -/
theorem applyRule_of_not_hasRule {t : Tree} (h : hasRule t.kind = false) : t.applyRule = .ok t := by
  unfold applyRule
  split <;> simp_all [hasRule]

end Tree

end Rpal
