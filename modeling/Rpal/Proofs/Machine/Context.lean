/-
# Runs in a context

The machine works at the top of its two stacks.  What lies further down, items that wait on the
control and values of pending instructions, is neither read nor changed:

    control   C       -->  C'              C ++ K       -->  C' ++ K
    values    V       -->  V'              V ++ W       -->  V' ++ W

with the same environment and the same output.  The stacks are looked at in one respect only,
whether they hold enough values; so the run on top may go on where the run alone underflows, and
every other failure is the same (`Behaves`).  Nothing is asked of the items: bodies may be malformed
and values may be any.

One lemma for each instruction says so of a single execution (`behaves_execute`); a run is an
induction over its steps (`steps_atop`).
-/
import Rpal.Proofs.Machine.Steps

namespace Rpal

/-- The failures of an instruction that finds too few values. -/
inductive Failure.IsUnderflow : Failure → Prop where
  | emptyStack : IsUnderflow (.breakdown .emptyStack)
  | missingComponents (needed got : Nat) : IsUnderflow (.fault (.missingComponents needed got))

namespace Machine

/-- The state on top of further control items and further values. -/
def atop (items values : List Item) (m : Machine) : Machine :=
  { m with control := m.control ++ items, values := m.values ++ values }

variable {items below : List Item}

/-! ## 1. Outcomes in a context -/

/-- `Behaves items below r r'`: where an execution comes to `r`, it comes to `r'` on top of `items`
and `below`.  After an underflow anything may happen. -/
inductive Behaves (items below : List Item) :
    Except Failure Machine → Except Failure Machine → Prop where
  | ok {m m' : Machine} (h : m.atop items below = m') : Behaves items below (.ok m) (.ok m')
  | error (f : Failure) : Behaves items below (.error f) (.error f)
  | underflow {f : Failure} (h : f.IsUnderflow) (r : Except Failure Machine) :
      Behaves items below (.error f) r

/-- A success alone is a success in the context. -/
theorem Behaves.of_ok {m : Machine} {r : Except Failure Machine}
    (h : Behaves items below (.ok m) r) : r = .ok (m.atop items below) := by
  cases h with
  | ok h => rw [h]

/-- So is a failure, unless it is an underflow. -/
theorem Behaves.of_error {f : Failure} {r : Except Failure Machine}
    (h : Behaves items below (.error f) r) (hf : ¬ f.IsUnderflow) : r = .error f := by
  cases h with
  | error => rfl
  | underflow h => exact absurd h hf

/-- A computation that looks at no stack, and then an execution. -/
theorem behaves_bind {α : Type} (x : Except Failure α) {f f' : α → Except Failure Machine}
    (h : ∀ a, Behaves items below (f a) (f' a)) : Behaves items below (x >>= f) (x >>= f') := by
  cases x with
  | error e => exact .error e
  | ok a => exact h a

@[simp] theorem atop_push (v : Item) (m : Machine) :
    (m.push v).atop items below = (m.atop items below).push v := rfl

@[simp] theorem atop_schedule (body : List Item) (m : Machine) :
    (m.schedule body).atop items below = (m.atop items below).schedule body := by
  simp [atop, schedule]

/-! ## 2. Application -/

variable {m : Machine}

/-- A body goes on top of what waits on the control. -/
theorem behaves_enter (c : Closure) (argument : Item) :
    Behaves items below (m.enter c argument) ((m.atop items below).enter c argument) := by
  refine behaves_bind (parameters c argument) fun env => .ok ?_
  rw [atop_schedule]
  rfl

/-- A built-in sees its arguments and no stack. -/
theorem behaves_applyBuiltin (b : Builtin) (function argument : Item) :
    Behaves items below (m.applyBuiltin b function argument)
      ((m.atop items below).applyBuiltin b function argument) := by
  unfold applyBuiltin
  simp only
  split
  · exact .ok rfl
  · exact behaves_bind _ fun r => .ok rfl

/-- **Application**, by the kind of function. -/
theorem behaves_applyTo (function argument : Item) :
    Behaves items below (applyTo function argument m)
      (applyTo function argument (m.atop items below)) := by
  cases function with
  | delta c => exact behaves_enter c argument
  | eta c => exact .ok rfl
  | beta thenBody elseBody => exact .error _
  | marker env => exact .error _
  | node kind text children arity =>
    cases kind with
    | yStar =>
      cases argument with
      | delta c => exact .ok rfl
      | _ => exact .error _
    | tuple => exact behaves_bind _ fun v => .ok rfl
    | identifier =>
      simp only [applyTo]
      cases builtin? (.node .identifier text children arity) with
      | some b => exact behaves_applyBuiltin b _ argument
      | none => exact .error _
    | _ => exact .error _

/-! ## 3. Instructions -/

/-- A name is looked up in the environment, which the context shares. -/
theorem behaves_evalName (i : Item) :
    Behaves items below (m.evalName i) ((m.atop items below).evalName i) := by
  have henv : (m.atop items below).env = m.env := rfl
  unfold evalName
  rw [henv]
  cases m.env.lookup? i.text with
  | some v => exact .ok rfl
  | none =>
    cases builtin? i with
    | some b => exact .ok rfl
    | none => exact .error _

/-- A tuple takes its components from the top; with too few of them it underflows alone. -/
theorem behaves_collect (arity : Nat) :
    Behaves items below (m.collect arity) ((m.atop items below).collect arity) := by
  have hvalues : (m.atop items below).values = m.values ++ below := rfl
  unfold collect
  by_cases hshort : m.values.length < arity
  · rw [if_pos hshort]
    exact .underflow (.missingComponents _ _) _
  · -- the components come from the values on top
    have henough : arity ≤ m.values.length := Nat.not_lt.mp hshort
    have hmore : ¬ (m.values ++ below).length < arity := by
      rw [List.length_append]
      omega
    rw [if_neg hshort, hvalues, if_neg hmore, List.take_append_of_le_length henough,
      List.drop_append_of_le_length henough]
    exact .ok rfl

/-- A conditional looks at one value. -/
theorem behaves_branch (thenBody elseBody : List Item) :
    Behaves items below (m.branch thenBody elseBody)
      ((m.atop items below).branch thenBody elseBody) := by
  have hvalues : (m.atop items below).values = m.values ++ below := rfl
  unfold branch
  rw [hvalues]
  cases m.values with
  | nil => exact .underflow .emptyStack _
  | cons v values =>
    simp only [List.cons_append]
    cases v.kind with
    | trueValue => exact .ok (atop_schedule _ _)
    | falseValue => exact .ok (atop_schedule _ _)
    | _ => exact .error _

/-- An application takes a function and its argument. -/
theorem behaves_gamma : Behaves items below m.gamma (m.atop items below).gamma := by
  have hvalues : (m.atop items below).values = m.values ++ below := rfl
  unfold gamma
  rw [hvalues]
  rcases m.values with _ | ⟨function, _ | ⟨argument, values⟩⟩
  · exact .underflow .emptyStack _
  · exact .underflow .emptyStack _
  · exact behaves_applyTo function argument

theorem behaves_unary (op : UnaryOperator) :
    Behaves items below (m.unary op) ((m.atop items below).unary op) := by
  have hvalues : (m.atop items below).values = m.values ++ below := rfl
  unfold Machine.unary
  rw [hvalues]
  rcases m.values with _ | ⟨x, values⟩
  · exact .underflow .emptyStack _
  · exact behaves_bind _ fun v => .ok rfl

theorem behaves_binary (op : BinaryOperator) :
    Behaves items below (m.binary op) ((m.atop items below).binary op) := by
  have hvalues : (m.atop items below).values = m.values ++ below := rfl
  unfold Machine.binary
  rw [hvalues]
  rcases m.values with _ | ⟨x, _ | ⟨y, values⟩⟩
  · exact .underflow .emptyStack _
  · exact .underflow .emptyStack _
  · exact behaves_bind _ fun v => .ok rfl

/-- **An instruction does in a context what it does alone**, unless it underflows alone. -/
theorem behaves_execute (i : Item) :
    Behaves items below (execute i m) (execute i (m.atop items below)) := by
  cases i with
  | delta c => exact .ok rfl
  | beta thenBody elseBody => exact behaves_branch thenBody elseBody
  | marker env => exact .ok rfl
  | eta c => exact .error _
  | node kind text children arity =>
    cases kind with
    | identifier => exact behaves_evalName _
    | integer | string | trueValue | falseValue | dummy | yStar => exact .ok rfl
    | nil => exact .ok rfl
    | tau => exact behaves_collect arity
    | gamma => exact behaves_gamma
    | neg | not => exact behaves_unary _
    | or | and | gr | ge | ls | le | eq | ne | plus | minus | mult | div | exp | aug =>
      exact behaves_binary _
    | _ => exact .error _

/-! ## 4. Runs -/

/-- A step of a state that is not over. -/
theorem behaves_step (items below : List Item) (hbusy : m.control ≠ []) :
    Behaves items below m.step (m.atop items below).step := by
  obtain ⟨control, values, env, output, steps⟩ := m
  cases control with
  | nil => exact absurd rfl hbusy
  | cons i rest => exact behaves_execute i

theorem control_atop_ne (hbusy : m.control ≠ []) : (m.atop items below).control ≠ [] := by
  intro hnil
  exact hbusy (List.append_eq_nil_iff.mp hnil).1

/-- By induction on the number of steps, each of which is one execution. -/
theorem Steps.atop {n : Nat} {last : Machine} (h : Steps n m last) :
    Steps n (m.atop items below) (last.atop items below) := by
  induction h with
  | refl m => exact .refl _
  | @head n m next last busy step rest ih =>
    have hbehaves := behaves_step items below busy
    rw [step] at hbehaves
    exact .head (control_atop_ne busy) hbehaves.of_ok ih

/-- The execution that fails is the next one in the context as well. -/
theorem Fails.atop {f : Failure} (h : Fails m f) (hf : ¬ f.IsUnderflow) :
    Fails (m.atop items below) f := by
  obtain ⟨busy, step⟩ := h
  have hbehaves := behaves_step items below busy
  rw [step] at hbehaves
  exact ⟨control_atop_ne busy, hbehaves.of_error hf⟩

/-- **Runs do not depend on their context.**  What lies beneath the two stacks of a state stays
there: steps lead on top of it to the same control, values, environment and output as they do alone;
and where the next step fails, it fails alike on top of it, after the same output, unless it fails
for lack of values. -/
theorem steps_atop (items below : List Item) {n : Nat} {last : Machine} (h : Steps n m last) :
    Steps n (m.atop items below) (last.atop items below) ∧
      ∀ f, Fails last f → ¬ f.IsUnderflow →
        Fails (last.atop items below) f ∧ (last.atop items below).output = last.output :=
  ⟨h.atop, fun _ hf hunderflow => ⟨hf.atop hunderflow, rfl⟩⟩

/-- `(fn x . x) 0`, to be negated by an operator for truth values, on top of a tuple of which a
component is there. -/
theorem steps_atop_call :
    let m : Machine := ⟨[.plain .gamma, .plain .not],
      [.delta ⟨1, [some "x"], [.node .identifier (some "x") [] 0], Env.empty⟩,
        .literal .integer "0"], Env.empty, "", 0⟩
    let last : Machine := ⟨[.plain .not], [.literal .integer "0"], Env.empty, "", 3⟩
    let f : Failure := .fault (.wrongKind "not" "operand" "truthvalue" "integer")
    let items : List Item := [.node .tau none [] 2]
    Steps 3 m last ∧ Fails last f ∧ ¬ f.IsUnderflow ∧
      Steps 3 (m.atop items [.dummy]) (last.atop items [.dummy]) ∧
      Fails (last.atop items [.dummy]) f := by
  intro m last f items
  have hsteps : Steps 3 m last :=
    .head (List.cons_ne_nil _ _) rfl
      (.head (List.cons_ne_nil _ _) rfl (.head (List.cons_ne_nil _ _) rfl (.refl _)))
  have hfails : Fails last f := ⟨List.cons_ne_nil _ _, rfl⟩
  have hf : ¬ f.IsUnderflow := by
    dsimp only [f]
    rintro ⟨⟩
  obtain ⟨hcontext, hagain⟩ := steps_atop items [.dummy] hsteps
  exact ⟨hsteps, hfails, hf, hcontext, (hagain f hfails hf).1⟩

end Machine

end Rpal
