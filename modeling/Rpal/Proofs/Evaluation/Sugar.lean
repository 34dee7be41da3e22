/-
# The whole language

`Term` and `Def` are the abstract syntax of the language as it is written, with its definitions
and its functions of several parameters.  Each form has a meaning of its own:

    let D in B, B where D      the value of D is bound to its names, and B evaluated there
    x = E                      E
    f p1 .. pn = E             a function of p1 whose value is one of p2 ...
    D1 within D2               the value of D1 is bound to its names, and D2 evaluated there
    D1 and .. and Dn           the tuple of the values, the last evaluated first
    rec D                      the recursive function of the names of D with the value of D
    a @ f b                    b, then a, then f; f applied to a, and the result to b

`desugar` takes a term to the core language and `meaning_desugar` says that it keeps its
meaning.  A function carries the label of the core function that it becomes.
-/
import Rpal.Proofs.Evaluation.Core
import Rpal.Proofs.Evaluation.Translation

namespace Rpal

/-! ## 1. Terms -/

/-- A parameter of a function: the label of the function of it alone, and the names it binds. -/
structure Parameter where
  label : Nat
  names : List Variable

mutual

/-- An expression as it is written. -/
inductive Term where
  | name (x : Variable)
  | literal (l : Literal) (text : Option String)
  | nil
  | tuple (parts : List Term)
  | apply (f a : Term)
  | unary (op : UnaryOperator) (x : Term)
  | binary (op : BinaryOperator) (x y : Term)
  | choice (condition thenPart elsePart : Term)
  | function (params : List Parameter) (body : Term)
  | letIn (label : Nat) (d : Def) (body : Term)
  | whereDef (label : Nat) (body : Term) (d : Def)
  | infixCall (left : Term) (f : Variable) (right : Term)

/-- A definition. -/
inductive Def where
  | equal (names : List Variable) (value : Term)
  | function (f : Variable) (params : List Parameter) (body : Term)
  | within (label : Nat) (first second : Def)
  | simultaneous (defs : List Def)
  | recursive (label : Nat) (d : Def)

end

mutual

/-- The names that a definition binds. -/
def Def.names : Def → List Variable
  | .equal names _ => names
  | .function f _ _ => [f]
  | .within _ _ second => second.names
  | .simultaneous defs => Def.namesAll defs
  | .recursive _ d => d.names

/-- The names that several definitions bind. -/
def Def.namesAll : List Def → List Variable
  | [] => []
  | d :: ds => d.names ++ Def.namesAll ds

end

/-- What the body of a function can be: an expression, or a definition that stands for its
value. -/
inductive Body where
  | expression (t : Term)
  | definition (d : Def)

/-! ## 2. Evaluation -/

section Meaning

variable (inner : Inner Body)

mutual

/-- The value of an expression in a scope. -/
def Term.meaning : Term → Scope Body → Eval (Value Body)
  | .name x, scope => Eval.lift (scope.value x)
  | .literal l text, _ => pure (.literal l text)
  | .nil, _ => pure (.tuple [])
  | .tuple parts, scope => do
    let vs ← Term.meaningAll parts scope
    pure (.tuple vs)
  | .apply f a, scope => do
    let argument ← a.meaning scope
    let function ← f.meaning scope
    inner.call function argument
  | .unary op x, scope => do
    let v ← x.meaning scope
    Eval.lift (Value.unary op v)
  | .binary op x y, scope => do
    let w ← y.meaning scope
    let v ← x.meaning scope
    Eval.lift (Value.binary op v w)
  | .choice condition thenPart elsePart, scope => do
    let v ← condition.meaning scope
    Core.choose v (thenPart.meaning scope) (elsePart.meaning scope)
  | .function [] body, scope => body.meaning scope
  | .function (p :: ps) body, scope =>
    pure (.closure ⟨p.label, p.names, .expression (.function ps body), scope⟩)
  | .letIn label d body, scope => do
    let v ← d.meaning scope
    inner.enter ⟨label, d.names, .expression body, scope⟩ v
  | .whereDef label body d, scope => do
    let v ← d.meaning scope
    inner.enter ⟨label, d.names, .expression body, scope⟩ v
  | .infixCall left f right, scope => do
    let b ← right.meaning scope
    let a ← left.meaning scope
    let function ← Eval.lift (scope.value f)
    let partly ← inner.call function a
    inner.call partly b

/-- The values of expressions side by side, the last evaluated first. -/
def Term.meaningAll : List Term → Scope Body → Eval (List (Value Body))
  | [], _ => pure []
  | t :: ts, scope => do
    let vs ← Term.meaningAll ts scope
    let v ← t.meaning scope
    pure (v :: vs)

/-- The value that a definition gives to its names. -/
def Def.meaning : Def → Scope Body → Eval (Value Body)
  | .equal _ value, scope => value.meaning scope
  | .function _ [] body, scope => body.meaning scope
  | .function _ (p :: ps) body, scope =>
    pure (.closure ⟨p.label, p.names, .expression (.function ps body), scope⟩)
  | .within label first second, scope => do
    let v ← first.meaning scope
    inner.enter ⟨label, first.names, .definition second, scope⟩ v
  | .simultaneous defs, scope => do
    let vs ← Def.meaningAll defs scope
    pure (.tuple vs)
  | .recursive label d, scope => pure (.recursive ⟨label, d.names, .definition d, scope⟩)

/-- The values of definitions side by side, the last evaluated first. -/
def Def.meaningAll : List Def → Scope Body → Eval (List (Value Body))
  | [], _ => pure []
  | d :: ds, scope => do
    let vs ← Def.meaningAll ds scope
    let v ← d.meaning scope
    pure (v :: vs)

end

/-- The value of a body in a scope. -/
def Body.meaning : Body → Scope Body → Eval (Value Body)
  | .expression t => t.meaning inner
  | .definition d => d.meaning inner

end Meaning

/-- The value of a program and the text it writes, within a budget. -/
def Term.evaluate (budget : Nat) (t : Term) : Option (Except Failure (Value Body) × String) :=
  t.meaning (inner Body.meaning budget) Scope.empty ""

/-! ## 3. The core language -/

/-- Functions of one parameter each, around a body. -/
def Core.curried (params : List Parameter) (body : Core) : Core :=
  params.foldr (fun p e => .lambda p.label p.names e) body

mutual

/-- An expression in the core language. -/
def Term.desugar : Term → Core
  | .name x => .name x
  | .literal l text => .literal l text
  | .nil => .nil none
  | .tuple parts => .tuple none (Term.desugarAll parts)
  | .apply f a => .apply none f.desugar a.desugar
  | .unary op x => .unary none op x.desugar
  | .binary op x y => .binary none op x.desugar y.desugar
  | .choice condition thenPart elsePart =>
    .choice condition.desugar thenPart.desugar elsePart.desugar
  | .function params body => Core.curried params body.desugar
  | .letIn label d body => .apply none (.lambda label d.names body.desugar) d.desugar
  | .whereDef label body d => .apply none (.lambda label d.names body.desugar) d.desugar
  | .infixCall left f right => .apply none (.apply none (.name f) left.desugar) right.desugar

/-- Expressions side by side in the core language. -/
def Term.desugarAll : List Term → List Core
  | [] => []
  | t :: ts => t.desugar :: Term.desugarAll ts

/-- The value of a definition in the core language. -/
def Def.desugar : Def → Core
  | .equal _ value => value.desugar
  | .function _ params body => Core.curried params body.desugar
  | .within label first second =>
    .apply none (.lambda label first.names second.desugar) first.desugar
  | .simultaneous defs => .tuple none (Def.desugarAll defs)
  | .recursive label d =>
    .apply none (.literal .yStar none) (.lambda label d.names d.desugar)

/-- The values of definitions side by side in the core language. -/
def Def.desugarAll : List Def → List Core
  | [] => []
  | d :: ds => d.desugar :: Def.desugarAll ds

end

/-- A body in the core language. -/
def Body.desugar : Body → Core
  | .expression t => t.desugar
  | .definition d => d.desugar

/-! ## 4. The meaning is kept -/

section Preservation

variable {i : Inner Body} {j : Inner Core}

theorem choose_map {γ δ : Type} (f : γ → δ) (v : Value γ) (thenPart elsePart : Eval (Value γ)) :
    Core.choose (v.map f) (Value.map f <$> thenPart) (Value.map f <$> elsePart) =
      Value.map f <$> Core.choose v thenPart elsePart := by
  have hwrong : (Eval.lift (.error ((v.map f).bare.mismatch "->" "condition" "truthvalue")) :
      Eval (Value δ)) =
        Value.map f <$> Eval.lift (.error (v.bare.mismatch "->" "condition" "truthvalue")) := by
    rw [Value.bare_map]
    rfl
  cases v with
  | literal l text =>
    cases l with
    | trueValue => rfl
    | falseValue => rfl
    | _ => exact hwrong
  | _ => exact hwrong

/-- Binding the value of a definition is applying the function that it becomes. -/
theorem enter_desugar (h : Translates Body.desugar i j) (label : Nat) (names : List Variable)
    (body : Body) (scope : Scope Body) (value : Eval (Value Body)) (e : Core) :
    Core.meaning j e (scope.map Body.desugar) = Value.map Body.desugar <$> value →
    Core.meaning j (.apply none (.lambda label names body.desugar) e) (scope.map Body.desugar) =
      Value.map Body.desugar <$> (value >>= i.enter ⟨label, names, body, scope⟩) := by
  intro he
  have henter : ∀ v, j.call (.closure ⟨label, names, body.desugar, scope.map Body.desugar⟩)
      (v.map Body.desugar) = Value.map Body.desugar <$> i.enter ⟨label, names, body, scope⟩ v :=
    h.enter ⟨label, names, body, scope⟩
  simp only [Core.meaning, he, bind_map_left, map_bind, pure_bind, henter]

mutual

/-- **Desugaring an expression keeps its meaning.** -/
theorem Term.meaning_desugar (h : Translates Body.desugar i j) : (t : Term) → ∀ scope : Scope Body,
    Core.meaning j t.desugar (scope.map Body.desugar) =
      Value.map Body.desugar <$> t.meaning i scope
  | .name x => fun scope => by
    simp only [Term.desugar, Core.meaning, Term.meaning, Scope.value_map, Eval.lift_map]
  | .literal l text => fun scope => rfl
  | .nil => fun scope => rfl
  | .tuple parts => fun scope => by
    simp only [Term.desugar, Core.meaning, Term.meaning]
    rw [Term.meaningAll_desugar h parts scope]
    simp only [bind_map_left, map_bind, map_pure]
    rfl
  | .apply f a => fun scope => by
    simp only [Term.desugar, Core.meaning, Term.meaning]
    rw [Term.meaning_desugar h f scope, Term.meaning_desugar h a scope]
    simp only [bind_map_left, map_bind, h.call]
  | .unary op x => fun scope => by
    simp only [Term.desugar, Core.meaning, Term.meaning]
    rw [Term.meaning_desugar h x scope]
    simp only [bind_map_left, map_bind, Value.unary_map, Eval.lift_map]
  | .binary op x y => fun scope => by
    simp only [Term.desugar, Core.meaning, Term.meaning]
    rw [Term.meaning_desugar h x scope, Term.meaning_desugar h y scope]
    simp only [bind_map_left, map_bind, Value.binary_map, Eval.lift_map]
  | .choice condition thenPart elsePart => fun scope => by
    simp only [Term.desugar, Core.meaning, Term.meaning]
    rw [Term.meaning_desugar h condition scope, Term.meaning_desugar h thenPart scope,
      Term.meaning_desugar h elsePart scope]
    simp only [bind_map_left, map_bind, choose_map]
  | .function [] body => fun scope => Term.meaning_desugar h body scope
  | .function (p :: ps) body => fun scope => rfl
  | .letIn label d body => fun scope =>
    enter_desugar h label d.names (.expression body) scope _ _ (Def.meaning_desugar h d scope)
  | .whereDef label body d => fun scope =>
    enter_desugar h label d.names (.expression body) scope _ _ (Def.meaning_desugar h d scope)
  | .infixCall left f right => fun scope => by
    simp only [Term.desugar, Core.meaning, Term.meaning]
    rw [Term.meaning_desugar h left scope, Term.meaning_desugar h right scope]
    simp only [bind_map_left, map_bind, Scope.value_map, Eval.lift_map, h.call, bind_assoc]

theorem Term.meaningAll_desugar (h : Translates Body.desugar i j) :
    (ts : List Term) → ∀ scope : Scope Body,
    Core.meaningAll j (Term.desugarAll ts) (scope.map Body.desugar) =
      Value.mapAll Body.desugar <$> Term.meaningAll i ts scope
  | [] => fun scope => rfl
  | t :: ts => fun scope => by
    simp only [Term.desugarAll, Core.meaningAll, Term.meaningAll]
    rw [Term.meaning_desugar h t scope, Term.meaningAll_desugar h ts scope]
    simp only [bind_map_left, map_bind, map_pure, Value.mapAll]

/-- **Desugaring a definition keeps its value.** -/
theorem Def.meaning_desugar (h : Translates Body.desugar i j) : (d : Def) → ∀ scope : Scope Body,
    Core.meaning j d.desugar (scope.map Body.desugar) =
      Value.map Body.desugar <$> d.meaning i scope
  | .equal names value => fun scope => Term.meaning_desugar h value scope
  | .function f [] body => fun scope => Term.meaning_desugar h body scope
  | .function f (p :: ps) body => fun scope => rfl
  | .within label first second => fun scope =>
    enter_desugar h label first.names (.definition second) scope _ _
      (Def.meaning_desugar h first scope)
  | .simultaneous defs => fun scope => by
    simp only [Def.desugar, Core.meaning, Def.meaning]
    rw [Def.meaningAll_desugar h defs scope]
    simp only [bind_map_left, map_bind, map_pure]
    rfl
  | .recursive label d => fun scope => rfl

theorem Def.meaningAll_desugar (h : Translates Body.desugar i j) :
    (ds : List Def) → ∀ scope : Scope Body,
    Core.meaningAll j (Def.desugarAll ds) (scope.map Body.desugar) =
      Value.mapAll Body.desugar <$> Def.meaningAll i ds scope
  | [] => fun scope => rfl
  | d :: ds => fun scope => by
    simp only [Def.desugarAll, Core.meaningAll, Def.meaningAll]
    rw [Def.meaning_desugar h d scope, Def.meaningAll_desugar h ds scope]
    simp only [bind_map_left, map_bind, map_pure, Value.mapAll]

end

end Preservation

/-- **Desugaring a program keeps its value and its text**, within the same budget. -/
theorem Term.evaluate_desugar (budget : Nat) (t : Term) :
    t.desugar.evaluate budget =
      (t.evaluate budget).map fun (r, out) => (r.map (Value.map Body.desugar), out) := by
  have hbody : ∀ (i : Inner Body) (j : Inner Core), Translates Body.desugar i j →
      ∀ (g : Body) (scope : Scope Body), Core.meaning j g.desugar (scope.map Body.desugar) =
        Value.map Body.desugar <$> g.meaning i scope := by
    intro i j h g
    cases g with
    | expression t => exact Term.meaning_desugar h t
    | definition d => exact Def.meaning_desugar h d
  have hmeaning := congrFun
    (Term.meaning_desugar (translates_inner Body.desugar hbody budget) t .empty) ""
  simp only [Scope.map] at hmeaning
  unfold Core.evaluate Term.evaluate
  rw [hmeaning, Eval.map_run]

end Rpal
