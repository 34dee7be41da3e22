/-
# What an instruction does

An execution of one instruction does one of six things:

    restore     a marker brings an environment back
    close       a function becomes a value, with the current environment
    branch      a branch is scheduled
    call        a function is entered, above a marker with the current environment
    unroll      a recursive function is pushed above itself, and two applications are scheduled
    result      some operands are replaced by one value

or it fails.  `Effect` lists the six with all their conditions, `Yields` says how the value of a
`result` arises from the operands, and `Refusal` lists the failures with the values that cause
them; `execute_outcome` says that there are no others.  What every step does to a state is derived
from these lists, and the instructions are not looked at again.

Here this is done for two properties.  The value of a `result` holds no function that was not in the
operands or the environment already (`Yields.derived`), so what is true of all functions in a state
stays true.  And where an instruction finds the operands that it needs, it does not fail for a
reason of the machine's own (`Refusal.not_ofMachine`).
-/
import Rpal.Machine
import Rpal.Proofs.Operator.Answers

namespace Rpal

/-! ## 1. The functions in a value -/

mutual

/-- Every function in a value, and in the environments of these functions, has the property. -/
def Item.All (P : Closure → Prop) : Item → Prop
  | .node _ _ children _ => Item.AllIn P children
  | .delta c => c.All P
  | .eta c => c.All P
  | .beta _ _ => False
  | .marker _ => False

/-- Every function in several values has the property. -/
def Item.AllIn (P : Closure → Prop) : List Item → Prop
  | [] => True
  | i :: is => i.All P ∧ Item.AllIn P is

/-- The function and every function in its environment has the property. -/
def Closure.All (P : Closure → Prop) : Closure → Prop
  | ⟨index, names, body, env⟩ => P ⟨index, names, body, env⟩ ∧ env.All P

/-- Every function in an environment has the property. -/
def Env.All (P : Closure → Prop) : Env → Prop
  | .absent => True
  | .frame parent => parent.All P
  | .binding _ value rest => value.All P ∧ rest.All P

end

/-- A property of functions that copying keeps. -/
def Stable (P : Closure → Prop) : Prop := ∀ c, P c → P c.copy

section All

variable {P : Closure → Prop}

theorem Item.allIn_iff {is : List Item} : Item.AllIn P is ↔ ∀ i ∈ is, i.All P := by
  induction is with
  | nil => simp [Item.AllIn]
  | cons i is ih => simp [Item.AllIn, ih]

theorem Closure.all_iff {c : Closure} : c.All P ↔ P c ∧ c.env.All P := by
  cases c
  rfl

theorem Item.all_children {i : Item} (h : i.All P) : ∀ c ∈ i.children, c.All P := by
  cases i with
  | node kind text children arity => exact Item.allIn_iff.mp h
  | _ => simp [Item.children]

theorem Item.IsLiteral.all {i : Item} (h : i.IsLiteral) : i.All P := by
  obtain ⟨l, text, rfl⟩ := h
  trivial

theorem Item.all_tuple {is : List Item} (h : ∀ i ∈ is, i.All P) : (Item.tuple is).All P :=
  Item.allIn_iff.mpr h

mutual

/-- **Copying a value** keeps what is true of its functions. -/
theorem Item.All.copy (hP : Stable P) : (i : Item) → i.All P → i.copy.All P
  | .node kind text children arity => fun h => by
    have hchildren := Item.AllIn.copyAll hP children h
    by_cases hk : kind = .tuple
    · simpa [Item.copy, hk, Item.All] using hchildren
    · simpa [Item.copy, hk, Item.All] using hchildren
  | .delta ⟨index, names, body, env⟩ => fun h => ⟨hP _ h.1, h.2⟩
  | .eta ⟨index, names, body, env⟩ => fun h => ⟨hP _ h.1, h.2⟩
  | .beta _ _ => fun h => h.elim
  | .marker _ => fun h => h.elim

theorem Item.AllIn.copyAll (hP : Stable P) : (is : List Item) → Item.AllIn P is →
    Item.AllIn P (Item.copyAll is)
  | [] => fun _ => trivial
  | i :: is => fun h => ⟨Item.All.copy hP i h.1, Item.AllIn.copyAll hP is h.2⟩

end

/-- A name that is looked up gives a copy of what was bound, in whatever frame. -/
theorem Env.All.lookup (hP : Stable P) {name : Variable} {v : Item} :
    (env : Env) → env.All P → env.lookup? name = some v → v.All P
  | .absent => fun _ h => by simp [Env.lookup?, Env.binding?] at h
  | .frame parent => fun henv h => Env.All.lookup hP parent henv h
  | .binding n value rest => fun henv h => by
    by_cases hn : n = name
    · simp only [Env.lookup?, Env.binding?, hn, if_true, Option.map_some, Option.some.injEq] at h
      subst h
      exact Item.All.copy hP value henv.1
    · have hrest : rest.lookup? name = some v := by
        simpa [Env.lookup?, Env.binding?, hn] using h
      exact Env.All.lookup hP rest henv.2 hrest

theorem Env.All.define (hP : Stable P) {env : Env} (h : env.All P) (name : Variable) {v : Item}
    (hv : v.All P) : (env.define name v).All P :=
  ⟨Item.All.copy hP v hv, h⟩

theorem Env.All.defineAll (hP : Stable P) {bindings : List (Variable × Item)}
    (hb : ∀ b ∈ bindings, b.2.All P) :
    ∀ {env : Env}, env.All P → (env.defineAll bindings).All P := by
  induction bindings with
  | nil => exact fun h => h
  | cons b bindings ih =>
    intro env h
    rw [List.forall_mem_cons] at hb
    exact ih hb.2 (h.define hP b.1 hb.1)

/-- The environment of a body holds the functions of its function and of the argument. -/
theorem Env.All.parameters (hP : Stable P) {c : Closure} {argument : Item} {env : Env}
    (hc : c.env.All P) (ha : argument.All P) (h : Machine.parameters c argument = .ok env) :
    env.All P := by
  have hframe : (Env.frame c.env).All P := hc
  unfold Machine.parameters at h
  split at h
  · cases h
    exact hframe
  · cases h
    exact hframe.define hP _ ha
  · split at h
    · split at h
      · cases h
        refine Env.All.defineAll hP (fun b hb => ?_) hframe
        exact Item.all_children ha b.2 (List.of_mem_zip hb).2
      · cases h
    · cases h

/-- What an operation makes holds only functions of what it is given. -/
theorem Item.Made.all (hP : Stable P) {operands : List Item} {v : Item} (h : v.Made operands)
    (hs : ∀ i ∈ operands, i.All P) : v.All P := by
  cases h with
  | written h => exact h.isLiteral.all
  | copy hi => exact Item.All.copy hP _ (hs _ hi)
  | tuple h =>
    refine Item.all_tuple (List.forall_mem_map.mpr fun i hi => Item.All.copy hP i ?_)
    rcases h i hi with hi | ⟨t, ht, hi⟩
    · exact hs i hi
    · exact Item.all_children (hs t ht) i hi

end All

/-! ## 2. Effects -/

/-- How many operands an instruction takes; an item of another kind is no instruction. -/
def Kind.operands (arity : Nat) : Kind → Option Nat
  | .identifier | .integer | .string | .trueValue | .falseValue | .dummy | .yStar | .nil => some 0
  | .tau => some arity
  | .gamma => some 2
  | kind =>
    match UnaryOperator.ofKind? kind, BinaryOperator.ofKind? kind with
    | some _, _ => some 1
    | none, some _ => some 2
    | none, none => none

theorem UnaryOperator.operands_of_ofKind? {kind : Kind} {op : UnaryOperator} (arity : Nat)
    (h : ofKind? kind = some op) : kind ≠ .gamma ∧ kind.operands arity = some 1 := by
  cases kind <;> first | exact ⟨Kind.noConfusion, rfl⟩ | cases h

theorem BinaryOperator.operands_of_ofKind? {kind : Kind} {op : BinaryOperator} (arity : Nat)
    (h : ofKind? kind = some op) : kind ≠ .gamma ∧ kind.operands arity = some 2 := by
  cases kind <;> first | exact ⟨Kind.noConfusion, rfl⟩ | cases h

namespace Machine

/-- `Yields env i operands v written`: the instruction `i` takes the operands from the values, the
first from the top, leaves `v` in their place and writes a text. -/
inductive Yields (env : Env) : Item → List Item → Item → String → Prop where
  | bound {text : Option String} {children : List Item} {arity : Nat} {v : Item}
      (h : env.lookup? text = some v) : Yields env (.node .identifier text children arity) [] v ""
  | name {text : Option String} {children : List Item} {arity : Nat} {b : Builtin}
      (h : env.lookup? text = none)
      (hb : builtin? (.node .identifier text children arity) = some b) :
      Yields env (.node .identifier text children arity) []
        (.node .identifier text children arity) ""
  | literal (l : Literal) (text : Option String) (children : List Item) (arity : Nat) :
      Yields env (.node l.kind text children arity) [] (.node l.kind text children arity) ""
  | nil (text : Option String) (children : List Item) (arity : Nat) :
      Yields env (.node .nil text children arity) [] (.tuple []) ""
  | collect (text : Option String) (children components : List Item) :
      Yields env (.node .tau text children components.length) components (.tuple components) ""
  | unary {kind : Kind} {text : Option String} {children : List Item} {arity : Nat}
      {op : UnaryOperator} {x v : Item} (hop : UnaryOperator.ofKind? kind = some op)
      (h : op.apply x = .ok v) : Yields env (.node kind text children arity) [x] v ""
  | binary {kind : Kind} {text : Option String} {children : List Item} {arity : Nat}
      {op : BinaryOperator} {x y v : Item} (hop : BinaryOperator.ofKind? kind = some op)
      (h : op.apply x y = .ok v) : Yields env (.node kind text children arity) [x, y] v ""
  | recursive {text starText : Option String} {children starChildren : List Item}
      {arity starArity : Nat} (c : Closure) :
      Yields env (.node .gamma text children arity)
        [.node .yStar starText starChildren starArity, .delta c] (.eta c) ""
  | select {text tupleText : Option String} {children components : List Item}
      {arity tupleArity : Nat} {index v : Item}
      (h : select (.node .tuple tupleText components tupleArity) index = .ok v) :
      Yields env (.node .gamma text children arity)
        [.node .tuple tupleText components tupleArity, index] v ""
  | wait {text : Option String} {children : List Item} {arity : Nat} {function argument : Item}
      {b : Builtin} (hb : builtin? function = some b)
      (hn : (function.children ++ [argument]).length < b.arity) :
      Yields env (.node .gamma text children arity) [function, argument]
        (.node .identifier function.text (function.children ++ [argument]) 0) ""
  | builtin {text : Option String} {children : List Item} {arity : Nat} {function argument v : Item}
      {b : Builtin} {written : String} (hb : builtin? function = some b)
      (hn : ¬ (function.children ++ [argument]).length < b.arity)
      (h : b.apply (function.children ++ [argument]) = .ok (v, written)) :
      Yields env (.node .gamma text children arity) [function, argument] v written

/-- What an instruction does to a state from which it has been taken. -/
inductive Effect (m : Machine) : Item → Machine → Prop where
  | restore (env : Env) : Effect m (.marker env) { m with env }
  | close (c : Closure) : Effect m (.delta c) (m.push (.delta { c with env := m.env }))
  | branch {thenBody elseBody body values : List Item} {v : Item} (hv : m.values = v :: values)
      (hb : v.kind = .trueValue ∧ body = thenBody ∨ v.kind = .falseValue ∧ body = elseBody) :
      Effect m (.beta thenBody elseBody) (schedule body { m with values })
  | call {text : Option String} {children values : List Item} {arity : Nat} {c : Closure}
      {argument : Item} {env : Env} (hv : m.values = .delta c :: argument :: values)
      (henv : parameters c argument = .ok env) :
      Effect m (.node .gamma text children arity)
        ⟨c.body.reverse ++ .marker m.env :: m.control, values, env, m.output, m.steps⟩
  | unroll {text : Option String} {children values : List Item} {arity : Nat} {c : Closure}
      (hv : m.values = .eta c :: values) (hn : values ≠ []) :
      Effect m (.node .gamma text children arity)
        ⟨.plain .gamma :: .plain .gamma :: m.control, .delta c.copy :: .eta c :: values, m.env,
          m.output, m.steps⟩
  | result {kind : Kind} {text : Option String} {children operands values : List Item} {arity : Nat}
      {v : Item} {written : String} (hv : m.values = operands ++ values)
      (hy : Yields m.env (.node kind text children arity) operands v written) :
      Effect m (.node kind text children arity)
        ⟨m.control, v :: values, m.env, m.output ++ written, m.steps⟩

/-- How an instruction fails on the values that it finds. -/
inductive Refusal (m : Machine) : Item → Failure → Prop where
  | stack {kind : Kind} {text : Option String} {children : List Item} {arity n : Nat}
      (hn : kind.operands arity = some n) (h : m.values.length < n) :
      Refusal m (.node kind text children arity) emptyStack
  | components {text : Option String} {children : List Item} {arity : Nat}
      (h : m.values.length < arity) :
      Refusal m (.node .tau text children arity)
        (.fault (.missingComponents arity m.values.length))
  | noCondition {thenBody elseBody : List Item} (h : m.values = []) :
      Refusal m (.beta thenBody elseBody) emptyStack
  | condition {thenBody elseBody values : List Item} {v : Item} (hv : m.values = v :: values)
      (ht : v.kind ≠ .trueValue) (hf : v.kind ≠ .falseValue) :
      Refusal m (.beta thenBody elseBody) (v.mismatch "->" "condition" "truthvalue")
  | recursive (c : Closure) : Refusal m (.eta c) (.fault (.notExecutable (Item.eta c).label))
  | kind {kind : Kind} {text : Option String} {children : List Item} {arity : Nat}
      (h : kind.operands arity = none) :
      Refusal m (.node kind text children arity)
        (.fault (.notExecutable (Item.node kind text children arity).label))
  | unbound {text : Option String} {children : List Item} {arity : Nat}
      (h : m.env.lookup? text = none)
      (hb : builtin? (.node .identifier text children arity) = none) :
      Refusal m (.node .identifier text children arity) (.fault (.unbound text))
  | unary {kind : Kind} {text : Option String} {children values : List Item} {arity : Nat}
      {op : UnaryOperator} {x : Item} {f : Failure} (hv : m.values = x :: values)
      (hop : UnaryOperator.ofKind? kind = some op) (h : op.apply x = .error f) :
      Refusal m (.node kind text children arity) f
  | binary {kind : Kind} {text : Option String} {children values : List Item} {arity : Nat}
      {op : BinaryOperator} {x y : Item} {f : Failure} (hv : m.values = x :: y :: values)
      (hop : BinaryOperator.ofKind? kind = some op) (h : op.apply x y = .error f) :
      Refusal m (.node kind text children arity) f
  | parameters {text : Option String} {children values : List Item} {arity : Nat} {c : Closure}
      {argument : Item} {f : Failure} (hv : m.values = .delta c :: argument :: values)
      (h : parameters c argument = .error f) : Refusal m (.node .gamma text children arity) f
  | star {text starText : Option String} {children starChildren values : List Item}
      {arity starArity : Nat} {argument : Item}
      (hv : m.values = .node .yStar starText starChildren starArity :: argument :: values)
      (h : ∀ c, argument ≠ .delta c) :
      Refusal m (.node .gamma text children arity) (argument.mismatch "Y*" "argument" "function")
  | select {text tupleText : Option String} {children components values : List Item}
      {arity tupleArity : Nat} {index : Item} {f : Failure}
      (hv : m.values = .node .tuple tupleText components tupleArity :: index :: values)
      (h : select (.node .tuple tupleText components tupleArity) index = .error f) :
      Refusal m (.node .gamma text children arity) f
  | builtin {text : Option String} {children values : List Item} {arity : Nat}
      {function argument : Item} {b : Builtin} {f : Failure}
      (hv : m.values = function :: argument :: values) (hb : builtin? function = some b)
      (hn : ¬ (function.children ++ [argument]).length < b.arity)
      (h : b.apply (function.children ++ [argument]) = .error f) :
      Refusal m (.node .gamma text children arity) f
  | notApplicable {text : Option String} {children values : List Item} {arity : Nat}
      {function argument : Item} (hv : m.values = function :: argument :: values)
      (hc : ∀ c, function ≠ .delta c ∧ function ≠ .eta c)
      (hk : function.kind ≠ .yStar ∧ function.kind ≠ .tuple) (hb : builtin? function = none) :
      Refusal m (.node .gamma text children arity) function.notApplicable

/-- The outcome of an instruction. -/
inductive Outcome (m : Machine) (i : Item) : Except Failure Machine → Prop where
  | ok {next : Machine} (h : Effect m i next) : Outcome m i (.ok next)
  | error {f : Failure} (h : Refusal m i f) : Outcome m i (.error f)

section Instructions

variable {m : Machine} {kind : Kind} {text : Option String} {children : List Item} {arity : Nat}

/-- A step that leaves a value in place of its operands and writes nothing. -/
theorem effect_result {operands values : List Item} {v : Item} (hv : m.values = operands ++ values)
    (hy : Yields m.env (.node kind text children arity) operands v "") :
    Effect m (.node kind text children arity) (push v { m with values }) := by
  have h := Effect.result hv hy
  rwa [String.append_empty] at h

/-- A name: its value, or the built-in function that has it. -/
theorem outcome_evalName :
    Outcome m (.node .identifier text children arity)
      (m.evalName (.node .identifier text children arity)) := by
  unfold evalName
  cases hl : m.env.lookup? (Item.node .identifier text children arity).text with
  | some v => exact .ok (effect_result rfl (.bound hl))
  | none =>
    cases hb : builtin? (.node .identifier text children arity) with
    | some b => exact .ok (effect_result rfl (.name hl hb))
    | none => exact .error (.unbound hl hb)

/-- The components of a tuple are taken from the values. -/
theorem outcome_collect : Outcome m (.node .tau text children arity) (m.collect arity) := by
  unfold collect
  by_cases hlt : m.values.length < arity
  · rw [if_pos hlt]
    exact .error (.components hlt)
  · rw [if_neg hlt]
    have hlen : (m.values.take arity).length = arity :=
      List.length_take_of_le (Nat.not_lt.mp hlt)
    have hy : Yields m.env (.node .tau text children arity) (m.values.take arity)
        (.tuple (m.values.take arity)) "" := by
      have h : Yields m.env _ _ _ _ := .collect text children (m.values.take arity)
      rwa [hlen] at h
    exact .ok (effect_result (List.take_append_drop arity m.values).symm hy)

/-- A conditional takes a truth value and nothing else. -/
theorem outcome_branch {thenBody elseBody : List Item} :
    Outcome m (.beta thenBody elseBody) (m.branch thenBody elseBody) := by
  unfold branch
  cases hv : m.values with
  | nil => exact .error (.noCondition hv)
  | cons v values =>
    simp only
    split
    case h_1 ht => exact .ok (.branch hv (.inl ⟨ht, rfl⟩))
    case h_2 hf => exact .ok (.branch hv (.inr ⟨hf, rfl⟩))
    case h_3 ht hf => exact .error (.condition hv ht hf)

theorem outcome_unary {op : UnaryOperator} (hop : UnaryOperator.ofKind? kind = some op) :
    Outcome m (.node kind text children arity) (m.unary op) := by
  unfold Machine.unary
  cases hv : m.values with
  | nil =>
    exact .error (.stack (UnaryOperator.operands_of_ofKind? arity hop).2 (by simp [hv]))
  | cons x values =>
    simp only
    cases h : op.apply x with
    | ok v => exact .ok (effect_result hv (.unary hop h))
    | error f => exact .error (.unary hv hop h)

theorem outcome_binary {op : BinaryOperator} (hop : BinaryOperator.ofKind? kind = some op) :
    Outcome m (.node kind text children arity) (m.binary op) := by
  have hn := (BinaryOperator.operands_of_ofKind? arity hop).2
  unfold Machine.binary
  match hv : m.values with
  | [] | [x] => exact .error (.stack hn (by simp [hv]))
  | x :: y :: values =>
    simp only
    cases h : op.apply x y with
    | ok v => exact .ok (effect_result hv (.binary hop h))
    | error f => exact .error (.binary hv hop h)

/-! ### Application -/

/-- A built-in function waits for its arguments, and runs when it has them all. -/
theorem outcome_applyBuiltin {b : Builtin} {function argument : Item} {values : List Item}
    (hv : m.values = function :: argument :: values) (hb : builtin? function = some b) :
    Outcome m (.node .gamma text children arity)
      (applyBuiltin b function argument { m with values }) := by
  unfold applyBuiltin
  simp only
  split
  case isTrue hn => exact .ok (effect_result hv (.wait hb hn))
  case isFalse hn =>
    cases h : b.apply (function.children ++ [argument]) with
    | ok r => exact .ok (.result hv (.builtin hb hn h))
    | error f => exact .error (.builtin hv hb hn h)

/-- **Application**, by the kind of function. -/
theorem outcome_applyTo {function argument : Item} {values : List Item}
    (hv : m.values = function :: argument :: values) :
    Outcome m (.node .gamma text children arity)
      (applyTo function argument { m with values }) := by
  cases function with
  | delta c =>
    simp only [applyTo, enter]
    cases h : parameters c argument with
    | ok env => exact .ok (.call hv h)
    | error f => exact .error (.parameters hv h)
  | eta c => exact .ok (.unroll hv (List.cons_ne_nil _ _))
  | beta t e =>
    exact .error (.notApplicable hv (fun _ => ⟨Item.noConfusion, Item.noConfusion⟩)
      ⟨Kind.noConfusion, Kind.noConfusion⟩ rfl)
  | marker env =>
    exact .error (.notApplicable hv (fun _ => ⟨Item.noConfusion, Item.noConfusion⟩)
      ⟨Kind.noConfusion, Kind.noConfusion⟩ rfl)
  | node k t cs a =>
    cases k with
    | yStar =>
      cases argument with
      | delta c => exact .ok (effect_result hv (.recursive c))
      | _ => exact .error (.star hv fun _ => Item.noConfusion)
    | tuple =>
      simp only [applyTo]
      cases h : select (.node .tuple t cs a) argument with
      | ok v => exact .ok (effect_result hv (.select h))
      | error f => exact .error (.select hv h)
    | identifier =>
      simp only [applyTo]
      cases hb : builtin? (.node .identifier t cs a) with
      | some b => exact outcome_applyBuiltin hv hb
      | none =>
        exact .error (.notApplicable hv (fun _ => ⟨Item.noConfusion, Item.noConfusion⟩)
          ⟨Kind.noConfusion, Kind.noConfusion⟩ hb)
    | _ =>
      exact .error (.notApplicable hv (fun _ => ⟨Item.noConfusion, Item.noConfusion⟩)
        ⟨Kind.noConfusion, Kind.noConfusion⟩ rfl)

/-- An application needs a function and an argument. -/
theorem outcome_gamma : Outcome m (.node .gamma text children arity) m.gamma := by
  unfold gamma
  match hv : m.values with
  | [] | [x] => exact .error (.stack (n := 2) rfl (by simp [hv]))
  | function :: argument :: values => exact outcome_applyTo hv

/-- **An instruction has one of the six effects**, or fails on the values that it finds. -/
theorem execute_outcome (m : Machine) (i : Item) : Outcome m i (execute i m) := by
  cases i with
  | delta c => exact .ok (.close c)
  | beta thenBody elseBody => exact outcome_branch
  | eta c => exact .error (.recursive c)
  | marker env => exact .ok (.restore env)
  | node kind text children arity =>
    have hself : ∀ l : Literal, Outcome m (.node l.kind text children arity)
        (.ok (m.push (.node l.kind text children arity))) :=
      fun l => .ok (effect_result rfl (.literal l text children arity))
    cases kind with
    | identifier => exact outcome_evalName
    | integer => exact hself .integer
    | string => exact hself .string
    | trueValue => exact hself .trueValue
    | falseValue => exact hself .falseValue
    | dummy => exact hself .dummy
    | yStar => exact hself .yStar
    | nil => exact .ok (effect_result rfl (.nil text children arity))
    | tau => exact outcome_collect
    | gamma => exact outcome_gamma
    | neg | not => exact outcome_unary rfl
    | or | and | gr | ge | ls | le | eq | ne | plus | minus | mult | div | exp | aug =>
      exact outcome_binary rfl
    | _ => exact .error (.kind rfl)

end Instructions

/-- What the next step of a state does. -/
theorem step_outcome {m : Machine} {i : Item} {rest : List Item} (hc : m.control = i :: rest) :
    Outcome (m.take rest) i m.step := by
  have h := execute_outcome (m.take rest) i
  unfold step
  rwa [hc]

/-- A step that succeeds has an effect. -/
theorem effect_of_step {m next : Machine} {i : Item} {rest : List Item}
    (hc : m.control = i :: rest) (hs : m.step = .ok next) : Effect (m.take rest) i next := by
  have h := step_outcome hc
  rw [hs] at h
  cases h with
  | ok h => exact h

/-- A step that fails is a refusal of the next instruction. -/
theorem refusal_of_step {m : Machine} {i : Item} {rest : List Item} {f : Failure}
    (hc : m.control = i :: rest) (hs : m.step = .error f) : Refusal (m.take rest) i f := by
  have h := step_outcome hc
  rw [hs] at h
  cases h with
  | error h => exact h

/-! ## 3. Results -/

/-- A function is not named like `Y*`. -/
theorem describe_ne_star (c : Closure) (sort : String) : c.describe sort ≠ "Y*" := by
  intro h
  have hlist := congrArg String.toList h
  simp only [Closure.describe, String.toList_append] at hlist
  cases hlist

/-- What a built-in function is applied to: the arguments that it has, and one more. -/
theorem forall_arguments {P : Item → Prop} {function argument : Item}
    (hchildren : P function → ∀ i ∈ function.children, P i)
    (h : ∀ i ∈ [function, argument], P i) : ∀ i ∈ function.children ++ [argument], P i := by
  rw [List.forall_mem_cons] at h
  exact List.forall_mem_append.mpr ⟨hchildren h.1, h.2⟩

section Results

variable {env : Env} {kind : Kind} {text : Option String} {children operands : List Item}
  {arity : Nat} {v : Item} {written : String}

/-- An instruction takes as many operands as its kind says. -/
theorem Yields.length_operands (h : Yields env (.node kind text children arity) operands v written) :
    kind.operands arity = some operands.length := by
  cases h with
  | literal l => cases l <;> rfl
  | unary hop => exact (UnaryOperator.operands_of_ofKind? arity hop).2
  | binary hop => exact (BinaryOperator.operands_of_ofKind? arity hop).2
  | _ => rfl

/-- An application of a function leaves no value yet. -/
theorem Yields.not_call (h : Yields env (.node kind text children arity) operands v written)
    (hk : kind = .gamma) (c : Closure) (values rest : List Item) :
    operands ++ values ≠ .delta c :: rest := by
  intro heq
  cases operands with
  | nil =>
    subst hk
    cases h.length_operands
  | cons x operands =>
    obtain rfl : x = .delta c := (List.cons.inj heq).1
    cases h with
    | collect => cases hk
    | unary hop => exact (UnaryOperator.operands_of_ofKind? arity hop).1 hk
    | binary hop => exact (BinaryOperator.operands_of_ofKind? arity hop).1 hk
    | wait hb => cases hb
    | builtin hb => cases hb

/-- Entering a function reads no integer. -/
theorem answers_parameters (c : Closure) (argument : Item) :
    Answers (Failure.OfOperation [] fun _ => False)
      (fun env => parameters c argument = .ok env) (parameters c argument) := by
  cases h : parameters c argument with
  | ok env => exact .ok rfl
  | error f =>
    refine .error ?_
    unfold parameters at h
    split at h
    · cases h
    · cases h
    · split at h
      · split at h
        · cases h
        · cases h
          exact .fault trivial
      · cases h
        exact .fault (describe_ne_star c _)

/-- Selecting answers a component. -/
theorem answers_select (tuple index : Item) :
    Answers (Failure.OfOperation [index] fun _ => False) (· ∈ tuple.children)
      (select tuple index) := by
  unfold select
  split
  · rename_i hk
    refine (Item.answers_integer List.mem_cons_self hk).bind fun n _ => ?_
    split
    · cases hc : tuple.children[n.toNat - 1]? with
      | none => exact .error (.fault trivial)
      | some c => exact .ok (List.mem_of_getElem? hc)
    · exact .error (.fault trivial)
  · exact Item.answers_mismatch (by decide) _ _ index

/-- `Derived env sources v`: every function in `v` is one in the environment or in a source. -/
def Derived (env : Env) (sources : List Item) (v : Item) : Prop :=
  ∀ P, Stable P → env.All P → (∀ i ∈ sources, i.All P) → v.All P

/-- **A result brings no function in.** -/
theorem Yields.derived (h : Yields env (.node kind text children arity) operands v written) :
    Derived env (children ++ operands) v := by
  intro P hP henv hs
  rw [List.forall_mem_append] at hs
  obtain ⟨hchildren, hoperands⟩ := hs
  cases h with
  | bound h => exact henv.lookup hP _ h
  | name => exact Item.allIn_iff.mpr hchildren
  | literal => exact Item.allIn_iff.mpr hchildren
  | nil => trivial
  | collect => exact Item.all_tuple hoperands
  | unary _ h => exact ((UnaryOperator.answers_apply _ _).of_ok h).isLiteral.all
  | binary _ h => exact ((BinaryOperator.made_apply _ _ _).of_ok h).all hP hoperands
  | recursive c => exact hoperands (.delta c) (by simp)
  | select h =>
    have htuple := hoperands _ List.mem_cons_self
    exact Item.all_children htuple _ ((answers_select _ _).of_ok h)
  | wait => exact Item.allIn_iff.mpr (forall_arguments Item.all_children hoperands)
  | builtin _ _ h =>
    exact ((Builtin.made_apply _ _).of_ok h).all hP (forall_arguments Item.all_children hoperands)

end Results

/-! ## 4. Failures -/

/-- Whether a state has the values that an instruction needs. -/
def Enough (m : Machine) : Item → Prop
  | .node kind _ _ arity => ∃ n, kind.operands arity = some n ∧ n ≤ m.values.length
  | .beta _ _ => 1 ≤ m.values.length
  | .eta _ => False
  | .delta _ => True
  | .marker _ => True

section Failures

variable {m : Machine} {i : Item} {f : Failure}

/-- **An instruction with enough values** does not fail for a reason of the machine's own. -/
theorem Refusal.not_ofMachine (h : Refusal m i f) (he : Enough m i) : ¬ f.OfMachine := by
  cases h with
  | stack hn h =>
    obtain ⟨k, hk, hle⟩ := he
    cases hn.symm.trans hk
    exact absurd h (Nat.not_lt.mpr hle)
  | components h =>
    obtain ⟨k, hk, hle⟩ := he
    cases hk
    exact absurd h (Nat.not_lt.mpr hle)
  | noCondition h => simp [Enough, h] at he
  | recursive c => exact he.elim
  | kind h =>
    obtain ⟨k, hk, -⟩ := he
    cases h.symm.trans hk
  | unary _ _ h => exact ((UnaryOperator.answers_apply _ _).of_error h).not_ofMachine id
  | binary _ _ h => exact ((BinaryOperator.made_apply _ _ _).of_error h).not_ofMachine nofun
  | parameters _ h => exact ((answers_parameters _ _).of_error h).not_ofMachine id
  | select _ h => exact ((answers_select _ _).of_error h).not_ofMachine id
  | builtin _ _ _ h => exact ((Builtin.made_apply _ _).of_error h).not_ofMachine nofun
  | _ => exact id

/-- **An undeclared identifier** is a name that is looked up, that is not bound, and that is not
the name of a built-in function. -/
theorem Refusal.unbound_inv {x : Variable} (h : Refusal m i (.fault (.unbound x))) :
    ∃ children arity, i = .node .identifier x children arity ∧ m.env.isBound x = false ∧
      x.bind Builtin.ofName? = none := by
  generalize hf : Failure.fault (.unbound x) = f at h
  have hname : f.OfName := hf ▸ trivial
  cases h with
  | @unbound text children arity hlookup hb =>
    cases hf
    refine ⟨children, arity, rfl, ?_, ?_⟩
    · rw [← Env.lookup?_isSome]
      exact Option.isSome_eq_false_iff.mpr (Option.isNone_iff_eq_none.mpr hlookup)
    · cases x with
      | none => rfl
      | some name => exact hb
  | unary _ _ h => exact absurd hname ((UnaryOperator.answers_apply _ _).of_error h).not_ofName
  | binary _ _ h => exact absurd hname ((BinaryOperator.made_apply _ _ _).of_error h).not_ofName
  | parameters _ h => exact absurd hname ((answers_parameters _ _).of_error h).not_ofName
  | select _ h => exact absurd hname ((answers_select _ _).of_error h).not_ofName
  | builtin _ _ _ h => exact absurd hname ((Builtin.made_apply _ _).of_error h).not_ofName
  | _ => cases hf

end Failures

end Machine

end Rpal
