/-
# Values

What the machine computes with, by kinds:

    INTEGER      its text is a numeral
    STRING       it has a text
    TRUE FALSE DUMMY
    TUPLE        its components are values
    DELTA        a function with the environment it was made in, where all bindings are values
    ETA          such a function, made recursive
    IDENTIFIER   a built-in function that waits for arguments, those it has being values

`Y*` is none of them.  It is an instruction, and it stands in one place only, between the function
that it makes recursive and the application (`Runnable.recursion`).

Values refer to bodies and to environments, and environments to values, so the four predicates are
defined together.  Copies of values are values (`Item.IsValue.copy`).
-/
import Rpal.Machine
import Rpal.Proofs.Number.Numeral

namespace Rpal

/-- What an instruction needs besides its kind: an integer a numeral, a string a text.  `Y*` is no
plain instruction. -/
def Kind.IsPlain : Kind → Option String → Prop
  | .integer, text => ∃ digits, text = some digits ∧ Number.IsNumeral digits
  | .string, text => ∃ characters, text = some characters
  | .yStar, _ => False
  | _, _ => True

mutual

/-- A value of the language. -/
inductive Item.IsValue : Item → Prop where
  | integer {digits : String} (h : Number.IsNumeral digits) (arity : Nat) :
      Item.IsValue (.node .integer (some digits) [] arity)
  | string (characters : String) (arity : Nat) :
      Item.IsValue (.node .string (some characters) [] arity)
  | constant {kind : Kind} (hk : kind = .trueValue ∨ kind = .falseValue ∨ kind = .dummy)
      (text : Option String) (arity : Nat) : Item.IsValue (.node kind text [] arity)
  | tuple {components : List Item} (h : ∀ i ∈ components, Item.IsValue i) :
      Item.IsValue (.tuple components)
  | function {c : Closure} (h : Closure.IsFunction c) : Item.IsValue (.delta c)
  | recursive {c : Closure} (h : Closure.IsFunction c) : Item.IsValue (.eta c)
  | builtin {name : String} {b : Builtin} {args : List Item} (hb : Builtin.ofName? name = some b)
      (hn : args.length < b.arity) (h : ∀ i ∈ args, Item.IsValue i) (arity : Nat) :
      Item.IsValue (.node .identifier (some name) args arity)

/-- A function with an environment of values. -/
inductive Closure.IsFunction : Closure → Prop where
  | mk (index : Nat) (names : List Variable) {body : List Item} {env : Env}
      (hbody : Runnable body.reverse) (henv : env ≠ .absent) (hvalues : Env.HoldsValues env) :
      Closure.IsFunction ⟨index, names, body, env⟩

/-- Every binding of the environment, in whatever frame, is a value. -/
inductive Env.HoldsValues : Env → Prop where
  | absent : Env.HoldsValues .absent
  | frame {parent : Env} (h : Env.HoldsValues parent) : Env.HoldsValues (.frame parent)
  | binding (name : Variable) {value : Item} {rest : Env} (hv : Item.IsValue value)
      (h : Env.HoldsValues rest) : Env.HoldsValues (.binding name value rest)

/-- A control, its top at the front.  The bodies of its functions and its branches can run as well,
and its markers hold values. -/
inductive Runnable : List Item → Prop where
  | nil : Runnable []
  | node {kind : Kind} {text : Option String} (h : kind.IsPlain text) (arity : Nat)
      {rest : List Item} (hr : Runnable rest) : Runnable (.node kind text [] arity :: rest)
  | delta {c : Closure} (hbody : Runnable c.body.reverse) {rest : List Item} (hr : Runnable rest) :
      Runnable (.delta c :: rest)
  | beta {thenBody elseBody : List Item} (ht : Runnable thenBody.reverse)
      (he : Runnable elseBody.reverse) {rest : List Item} (hr : Runnable rest) :
      Runnable (.beta thenBody elseBody :: rest)
  | marker {env : Env} (henv : env ≠ .absent) (hvalues : Env.HoldsValues env) {rest : List Item}
      (hr : Runnable rest) : Runnable (.marker env :: rest)
  | recursion {c : Closure} (hbody : Runnable c.body.reverse) {rest : List Item}
      (hr : Runnable rest) : Runnable (.delta c :: .plain .yStar :: .plain .gamma :: rest)

end

/-! ## 1. Control -/

theorem Runnable.append {is js : List Item} (h : Runnable is) (hj : Runnable js) :
    Runnable (is ++ js) := by
  match h with
  | .nil => exact hj
  | .node h arity hr => exact .node h arity (hr.append hj)
  | .delta hbody hr => exact .delta hbody (hr.append hj)
  | .beta ht he hr => exact .beta ht he (hr.append hj)
  | .marker henv hvalues hr => exact .marker henv hvalues (hr.append hj)
  | .recursion hbody hr => exact .recursion hbody (hr.append hj)

/-- The markers of a control hold values. -/
theorem Runnable.holdsValues {control : List Item} (h : Runnable control) {env : Env}
    (hm : .marker env ∈ control) : env.HoldsValues := by
  match h with
  | .node _ _ hr | .delta _ hr | .beta _ _ hr =>
    rcases List.mem_cons.mp hm with heq | hm
    · cases heq
    · exact hr.holdsValues hm
  | .marker _ hvalues hr =>
    rcases List.mem_cons.mp hm with heq | hm
    · cases heq
      exact hvalues
    · exact hr.holdsValues hm
  | .recursion _ hr =>
    simp only [Item.plain, List.mem_cons, reduceCtorEq, false_or] at hm
    exact hr.holdsValues hm

/-! ## 2. Copies -/

/-- A plain instruction is its own copy, unless it is a tuple. -/
theorem Item.copy_plain {kind : Kind} (h : kind ≠ .tuple) (text : Option String) (arity : Nat) :
    (Item.node kind text [] arity).copy = .node kind text [] arity := by
  simp [Item.copy, Item.copyAll, h]

mutual

/-- **The copy of a value is a value.** -/
theorem Item.IsValue.copy {i : Item} : i.IsValue → i.copy.IsValue
  | .integer h arity => .integer h arity
  | .string characters arity => .string characters arity
  | .constant hk text arity => by
    rcases hk with rfl | rfl | rfl
    · exact .constant (.inl rfl) text arity
    · exact .constant (.inr (.inl rfl)) text arity
    · exact .constant (.inr (.inr rfl)) text arity
  | .tuple h => by
    rw [Item.copy_tuple]
    exact .tuple (List.forall_mem_map.mpr fun i hi => Item.IsValue.copy (h i hi))
  | .function h => .function (Closure.IsFunction.copy h)
  | .recursive h => .recursive (Closure.IsFunction.copy h)
  | @Item.IsValue.builtin _ _ args hb hn h arity => by
    refine .builtin hb ?_ ?_ arity
    · rwa [Item.copyAll_eq_map, List.length_map]
    · rw [Item.copyAll_eq_map]
      exact List.forall_mem_map.mpr fun i hi => Item.IsValue.copy (h i hi)

theorem Closure.IsFunction.copy {c : Closure} : c.IsFunction → c.copy.IsFunction
  | .mk index names hbody henv hvalues => by
    refine .mk index names ?_ henv hvalues
    rw [Item.copyAll_eq_map, ← List.map_reverse]
    exact Runnable.copy hbody

theorem Runnable.copy {is : List Item} : Runnable is → Runnable (is.map Item.copy)
  | .nil => .nil
  | @Runnable.node kind _ h arity rest hr => by
    by_cases hk : kind = .tuple
    · subst hk
      have hplain : Kind.tuple.IsPlain none := trivial
      exact .node hplain 0 (Runnable.copy hr)
    · rw [List.map_cons, Item.copy_plain hk]
      exact .node h arity (Runnable.copy hr)
  | .delta (c := ⟨_, _, _, _⟩) hbody hr => by
    refine .delta ?_ (Runnable.copy hr)
    rw [Closure.copy, Item.copyAll_eq_map, ← List.map_reverse]
    exact Runnable.copy hbody
  | .beta ht he hr => by
    refine .beta ?_ ?_ (Runnable.copy hr)
    · rw [Item.copyAll_eq_map, ← List.map_reverse]
      exact Runnable.copy ht
    · rw [Item.copyAll_eq_map, ← List.map_reverse]
      exact Runnable.copy he
  | .marker henv hvalues hr => .marker henv hvalues (Runnable.copy hr)
  | .recursion (c := ⟨_, _, _, _⟩) hbody hr => by
    refine .recursion ?_ (Runnable.copy hr)
    rw [Closure.copy, Item.copyAll_eq_map, ← List.map_reverse]
    exact Runnable.copy hbody

end

/-! ## 3. Parts of values -/

theorem Item.IsValue.children {i : Item} (h : i.IsValue) : ∀ c ∈ i.children, c.IsValue := by
  cases h with
  | tuple h => exact h
  | builtin _ _ h => exact h
  | _ => exact List.forall_mem_nil _

/-- `Y*` is no value. -/
theorem Item.IsValue.kind_ne {i : Item} (h : i.IsValue) : i.kind ≠ .yStar := by
  cases h with
  | constant hk => rcases hk with rfl | rfl | rfl <;> exact Kind.noConfusion
  | _ => exact Kind.noConfusion

/-- An integer value is a numeral. -/
theorem Item.IsValue.text_of_integer {i : Item} (h : i.IsValue) (hk : i.kind = .integer) :
    ∃ digits, i.text = some digits ∧ Number.IsNumeral digits := by
  cases h with
  | integer h arity => exact ⟨_, rfl, h⟩
  | constant hkind => rcases hkind with rfl | rfl | rfl <;> cases hk
  | _ => cases hk

/-! ## 4. Environments -/

namespace Env

theorem HoldsValues.lookup {env : Env} (h : env.HoldsValues) {name : Variable} {v : Item}
    (hv : env.lookup? name = some v) : v.IsValue := by
  cases h with
  | absent => cases hv
  | frame h => exact h.lookup hv
  | binding n hvalue h =>
    by_cases hn : n = name
    · simp only [lookup?, binding?, if_pos hn, Option.map_some, Option.some.injEq] at hv
      exact hv ▸ hvalue.copy
    · simp only [lookup?, binding?, if_neg hn] at hv
      exact h.lookup hv

theorem HoldsValues.defineAll {bindings : List (Variable × Item)}
    (hb : ∀ b ∈ bindings, b.2.IsValue) :
    ∀ {env : Env}, env ≠ .absent → env.HoldsValues →
      env.defineAll bindings ≠ .absent ∧ (env.defineAll bindings).HoldsValues := by
  induction bindings with
  | nil => exact fun hne h => ⟨hne, h⟩
  | cons b bindings ih =>
    intro env _ h
    rw [List.forall_mem_cons] at hb
    exact ih hb.2 Env.noConfusion (.binding b.1 hb.1.copy h)

/-- **The environment of a body** is made of values, if the function and the argument are. -/
theorem HoldsValues.parameters {c : Closure} (hc : c.IsFunction) {argument : Item}
    (ha : argument.IsValue) {env : Env} (h : Machine.parameters c argument = .ok env) :
    env ≠ .absent ∧ env.HoldsValues := by
  have hframe : (Env.frame c.env).HoldsValues := by
    cases hc with
    | mk index names hbody henv hvalues => exact .frame hvalues
  unfold Machine.parameters at h
  split at h
  · cases h
    exact ⟨Env.noConfusion, hframe⟩
  · cases h
    exact ⟨Env.noConfusion, .binding _ ha.copy hframe⟩
  · split at h
    · split at h
      · cases h
        refine HoldsValues.defineAll (fun b hb => ?_) Env.noConfusion hframe
        exact ha.children b.2 (List.of_mem_zip hb).2
      · cases h
    · cases h

end Env

end Rpal
