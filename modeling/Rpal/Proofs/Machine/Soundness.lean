/-
# States of values

In every state of a run of a program, all values on the stack are values of the language, and so
are all bindings of its environments, but for one passage.  Where a recursive function is made,

    delta  Y*  gamma  ..        ..
           Y*  gamma  ..        delta  ..
               gamma  ..        Y*  delta  ..
                      ..        eta  ..

`Y*` is on the stack for one step, right above a function and right before the application
(`Machine.Sound`).  So `Y*` never meets anything but a function, and it is never bound, never part
of a tuple and never a result.

A step from such a state leads to such a state, reports a fault, or breaks down at a limit of
numbers; `Machine.Exceeds` lists where (`Sound.step`).
-/
import Rpal.Proofs.Machine.Effects
import Rpal.Proofs.Machine.Steps
import Rpal.Proofs.Operator.Results

namespace Rpal.Machine

/-! ## 1. States -/

/-- A state of values, apart from `Y*`. -/
structure Settled (m : Machine) : Prop where
  control : Runnable m.control
  values : ∀ v ∈ m.values, v.IsValue
  scope : m.env ≠ .absent
  bindings : m.env.HoldsValues

/-- A state of values, or one of the two in which `Y*` passes. -/
inductive Sound : Machine → Prop where
  | settled {m : Machine} (h : m.Settled) : Sound m
  | star {c : Closure} {control values : List Item} {env : Env} {output : String} {steps : Nat}
      (h : Settled ⟨control, .delta c :: values, env, output, steps⟩) :
      Sound ⟨.plain .yStar :: .plain .gamma :: control, .delta c :: values, env, output, steps⟩
  | knot {c : Closure} {control values : List Item} {env : Env} {output : String} {steps : Nat}
      (h : Settled ⟨control, .delta c :: values, env, output, steps⟩) :
      Sound ⟨.plain .gamma :: control, .plain .yStar :: .delta c :: values, env, output, steps⟩

/-- Why an instruction breaks down on the values that it finds. -/
inductive Exceeds : Item → List Item → Breakdown → Prop where
  | unary {op : UnaryOperator} {kind : Kind} {text : Option String} {children values : List Item}
      {arity : Nat} {x : Item} (hop : UnaryOperator.ofKind? kind = some op) (h : x.IsLong) :
      Exceeds (.node kind text children arity) (x :: values) .tooManyDigits
  | binary {op : BinaryOperator} {kind : Kind} {text : Option String}
      {children values : List Item} {arity : Nat} {x y : Item} {b : Breakdown}
      (hop : BinaryOperator.ofKind? kind = some op) (h : op.Overflows x y b) :
      Exceeds (.node kind text children arity) (x :: y :: values) b
  | selection {text : Option String} {children components values : List Item} {arity : Nat}
      {index : Item} (h : index.IsLong) :
      Exceeds (.node .gamma text children arity) (.tuple components :: index :: values)
        .tooManyDigits
  | order {text : Option String} {children values : List Item} {arity k : Nat} {argument : Item}
      (h : 10 ^ Number.digitLimit ≤ argument.children.length) :
      Exceeds (.node .gamma text children arity)
        (.node .identifier (some Builtin.order.name) [] k :: argument :: values) .tooManyDigits

/-! ## 2. Results

The operands of a result are values, and so is what it makes of them. -/

section Instructions

variable {m next : Machine} {kind : Kind} {text : Option String} {arity : Nat}

theorem name_of_ofName? {s : String} {b : Builtin} (h : Builtin.ofName? s = some b) :
    s = b.name := by
  have hname := List.find?_some (p := fun b : Builtin => b.name == s) h
  exact (eq_of_beq hname).symm

/-- An item that names a built-in function. -/
theorem builtin?_eq_some {i : Item} {b : Builtin} (h : builtin? i = some b) :
    ∃ args k, i = .node .identifier (some b.name) args k ∧ Builtin.ofName? b.name = some b := by
  unfold builtin? at h
  split at h
  · obtain rfl := name_of_ofName? h
    exact ⟨_, _, rfl, h⟩
  · cases h

/-- A built-in function that is a value waits for an argument: with one more it has at most as many
as it takes. -/
theorem length_arguments {function argument : Item} {b : Builtin} (hf : function.IsValue)
    (hb : builtin? function = some b) (hn : ¬ (function.children ++ [argument]).length < b.arity) :
    (function.children ++ [argument]).length = b.arity := by
  obtain ⟨args, k, rfl, hname⟩ := builtin?_eq_some hb
  cases hf with
  | constant hk => rcases hk with hk | hk | hk <;> cases hk
  | builtin hb' hmore =>
    cases hname.symm.trans hb'
    have hchildren : (Item.node .identifier (some b.name) args k).children = args := rfl
    rw [hchildren, List.length_append, List.length_singleton] at hn ⊢
    omega

/-- **A plain instruction** leaves a value. -/
theorem Yields.isValue {operands : List Item} {v : Item} {written : String}
    (hm : m.env.HoldsValues) (hplain : kind.IsPlain text)
    (hvalues : ∀ i ∈ operands, i.IsValue)
    (h : Yields m.env (.node kind text [] arity) operands v written) : v.IsValue := by
  cases h with
  | bound h => exact hm.lookup h
  | @name _ _ _ b _ hb =>
    obtain ⟨args, k, heq, hname⟩ := builtin?_eq_some hb
    cases heq
    exact .builtin hname (by cases b <;> decide) (List.forall_mem_nil _) arity
  | literal l =>
    cases l with
    | integer =>
      obtain ⟨digits, rfl, hnumeral⟩ := hplain
      exact .integer hnumeral arity
    | string =>
      obtain ⟨characters, rfl⟩ := hplain
      exact .string characters arity
    | trueValue => exact .constant (.inl rfl) text arity
    | falseValue => exact .constant (.inr (.inl rfl)) text arity
    | dummy => exact .constant (.inr (.inr rfl)) text arity
    | yStar => exact hplain.elim
  | nil => exact .tuple (List.forall_mem_nil _)
  | collect => exact .tuple hvalues
  | @unary _ _ _ _ op x v hop h =>
    exact (op.value_apply (List.forall_mem_singleton.mp hvalues)).of_ok h
  | binary hop h =>
    rw [List.forall_mem_cons, List.forall_mem_singleton] at hvalues
    exact (BinaryOperator.value_apply hvalues.1 hvalues.2).of_ok h
  | recursive c => exact absurd rfl (hvalues _ List.mem_cons_self).kind_ne
  | select h => exact (hvalues _ List.mem_cons_self).children v ((answers_select _ _).of_ok h)
  | @wait _ _ _ function argument b hb hn =>
    obtain ⟨args, k, rfl, hname⟩ := builtin?_eq_some hb
    exact .builtin hname hn (forall_arguments Item.IsValue.children hvalues) 0
  | builtin hb hn h =>
    have hlength := length_arguments (hvalues _ List.mem_cons_self) hb hn
    exact (Builtin.value_apply hlength (forall_arguments Item.IsValue.children hvalues)).of_ok h

/-! ## 3. Instructions -/

theorem Settled.push (h : m.Settled) {v : Item} (hv : v.IsValue) : (m.push v).Settled :=
  ⟨h.control, List.forall_mem_cons.mpr ⟨hv, h.values⟩, h.scope, h.bindings⟩

/-- **The effect of a plain instruction** is a state of values. -/
theorem Settled.effect_plain (hm : m.Settled) (hplain : kind.IsPlain text)
    (h : Effect m (.node kind text [] arity) next) : next.Settled := by
  have hvalues := hm.values
  cases h with
  | @call _ _ values _ c argument env hv henv =>
    rw [hv, List.forall_mem_cons, List.forall_mem_cons] at hvalues
    obtain ⟨hfunction, hargument, hrest⟩ := hvalues
    cases hfunction with
    | function hc =>
      obtain ⟨hscope, hbindings⟩ := Env.HoldsValues.parameters hc hargument henv
      cases hc with
      | mk index names hbody =>
        exact ⟨hbody.append (.marker hm.scope hm.bindings hm.control), hrest, hscope, hbindings⟩
  | @unroll _ _ values _ c hv hn =>
    rw [hv, List.forall_mem_cons] at hvalues
    obtain ⟨hfunction, hrest⟩ := hvalues
    cases hfunction with
    | recursive hc =>
      have hgamma : Kind.gamma.IsPlain none := trivial
      refine ⟨.node hgamma 0 (.node hgamma 0 hm.control), ?_, hm.scope, hm.bindings⟩
      exact List.forall_mem_cons.mpr ⟨.function hc.copy, List.forall_mem_cons.mpr
        ⟨.recursive hc, hrest⟩⟩
  | @result _ _ _ operands values _ v written hv hy =>
    rw [hv, List.forall_mem_append] at hvalues
    have hvalue : v.IsValue := hy.isValue hm.bindings hplain hvalues.1
    exact ⟨hm.control, List.forall_mem_cons.mpr ⟨hvalue, hvalues.2⟩, hm.scope, hm.bindings⟩

/-- The effect of a branching is a state of values. -/
theorem Settled.effect_beta (hm : m.Settled) {thenBody elseBody : List Item}
    (ht : Runnable thenBody.reverse) (he : Runnable elseBody.reverse)
    (h : Effect m (.beta thenBody elseBody) next) : next.Settled := by
  cases h with
  | @branch _ _ body values v hv hb =>
    have hvalues := hm.values
    rw [hv, List.forall_mem_cons] at hvalues
    have hbody : Runnable body.reverse := by
      rcases hb with ⟨-, rfl⟩ | ⟨-, rfl⟩
      · exact ht
      · exact he
    exact ⟨hbody.append hm.control, hvalues.2, hm.scope, hm.bindings⟩

/-- **An instruction on a state of values** reports a fault, and not that of `Y*`, or breaks down for
want of values or at a limit of numbers. -/
theorem Settled.refusal (hm : m.Settled) {i : Item} {f : Failure} (h : Refusal m i f) :
    f.Within fun b => b = .emptyStack ∨ Exceeds i m.values b := by
  have hvalues := hm.values
  cases h with
  | stack => exact .breakdown (.inl rfl)
  | noCondition => exact .breakdown (.inl rfl)
  | condition =>
    have hname : "->" ≠ "Y*" := by decide
    exact .fault hname
  | @unary _ _ _ _ _ op x f hv hop h =>
    rw [hv, List.forall_mem_cons] at hvalues
    refine ((op.value_apply hvalues.1).of_error h).mono fun b hb => .inr ?_
    rw [hv, hb.1]
    exact .unary hop hb.2
  | binary hv hop h =>
    rw [hv, List.forall_mem_cons, List.forall_mem_cons] at hvalues
    refine ((BinaryOperator.value_apply hvalues.1 hvalues.2.1).of_error h).mono fun b hb => .inr ?_
    rw [hv]
    exact .binary hop hb
  | parameters hv h =>
    exact ((answers_parameters _ _).of_error h).within (List.forall_mem_nil _)
      (List.forall_mem_nil _) fun _ => False.elim
  | star hv =>
    rw [hv, List.forall_mem_cons] at hvalues
    exact absurd rfl hvalues.1.kind_ne
  | @select _ tupleText _ components values _ tupleArity index f hv h =>
    rw [hv, List.forall_mem_cons, List.forall_mem_cons] at hvalues
    refine ((answers_select _ _).of_error h).within (List.forall_mem_singleton.mpr hvalues.2.1)
      (List.forall_mem_singleton.mpr fun hlong => .inr ?_) fun _ => False.elim
    rw [hv]
    cases hvalues.1 with
    | tuple => exact .selection hlong
    | constant hk => rcases hk with hk | hk | hk <;> cases hk
  | @builtin _ _ _ _ function argument b f hv hb hn h =>
    rw [hv, List.forall_mem_cons, List.forall_mem_cons] at hvalues
    obtain ⟨hfunction, hargument, -⟩ := hvalues
    have harguments : ∀ i ∈ function.children ++ [argument], i.IsValue :=
      List.forall_mem_append.mpr ⟨hfunction.children, List.forall_mem_singleton.mpr hargument⟩
    have hlength := length_arguments hfunction hb hn
    refine ((Builtin.value_apply hlength harguments).of_error h).mono fun e he => .inr ?_
    obtain ⟨rfl, rfl, i, hi, hlarge⟩ := he
    obtain ⟨args, k, rfl, -⟩ := builtin?_eq_some hb
    -- what is counted is the only argument
    obtain ⟨rfl, rfl⟩ : args = [] ∧ argument = i := by
      cases args with
      | nil => exact ⟨rfl, (List.cons.inj hi).1⟩
      | cons a args => simp [Item.children] at hi
    rw [hv]
    exact .order hlarge
  | _ => exact .fault id

end Instructions

/-! ## 4. Steps -/

variable {m : Machine}

/-- The instruction that comes next, on the values that it finds. -/
def Breaks (m : Machine) (b : Breakdown) : Prop :=
  ∃ i rest, m.control = i :: rest ∧ Exceeds i m.values b

/-- What a step of a state of values comes to. -/
abbrev Advances (m : Machine) (r : Except Failure Machine) : Prop :=
  Answers (Failure.Within fun b => b = .emptyStack ∨ m.Breaks b) Sound r

theorem advances_of_effect {i : Item} {rest : List Item} (hc : m.control = i :: rest)
    (hm : (m.take rest).Settled) (h : ∀ next, Effect (m.take rest) i next → next.Settled) :
    Advances m m.step := by
  have hout := step_outcome hc
  generalize m.step = r at hout
  cases hout with
  | ok he => exact .ok (.settled (h _ he))
  | error hr =>
    exact .error ((hm.refusal hr).mono fun b hb => hb.imp_right fun hx => ⟨i, rest, hc, hx⟩)

/-- **A step keeps a state sound**, or it fails; and where it breaks down, the stack is too short or
a number exceeds a limit. -/
theorem Sound.step (hm : m.Sound) : Advances m m.step := by
  cases hm with
  | star h => exact .ok (.knot ⟨h.control, h.values, h.scope, h.bindings⟩)
  | knot h =>
    have hvalues := h.values
    rw [List.forall_mem_cons] at hvalues
    cases hvalues.1 with
    | function hf =>
      exact .ok (.settled ⟨h.control, List.forall_mem_cons.mpr ⟨.recursive hf, hvalues.2⟩,
        h.scope, h.bindings⟩)
  | settled h =>
    obtain ⟨control, values, env, output, steps⟩ := m
    obtain ⟨hc, hv, hs, hb⟩ := h
    have htake : ∀ {rest : List Item}, Runnable rest →
        Settled (take rest ⟨control, values, env, output, steps⟩) :=
      fun hr => ⟨hr, hv, hs, hb⟩
    cases hc with
    | nil => exact .ok (.settled ⟨.nil, hv, hs, hb⟩)
    | node hplain arity hr =>
      exact advances_of_effect rfl (htake hr) fun _ => (htake hr).effect_plain hplain
    | @delta c hbody rest hr =>
      have hfunction : Closure.IsFunction { c with env } := .mk c.index c.names hbody hs hb
      exact .ok (.settled ((htake hr).push (.function hfunction)))
    | beta ht he hr =>
      exact advances_of_effect rfl (htake hr) fun _ => (htake hr).effect_beta ht he
    | marker henv hvalues hr => exact .ok (.settled ⟨hr, hv, henv, hvalues⟩)
    | @recursion c hbody rest hr =>
      have hfunction : Closure.IsFunction { c with env } := .mk c.index c.names hbody hs hb
      have hpushed := (htake hr).push (.function hfunction)
      exact .ok (.star ⟨hpushed.control, hpushed.values, hpushed.scope, hpushed.bindings⟩)

end Rpal.Machine
