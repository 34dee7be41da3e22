/-
# The machine refines evaluation

The machine executes the instructions of an expression where evaluation recurses.  This module
proves that the two do the same: with the instructions of `e` on top of any control `K`, and any
values `V` below,

    evaluation of e          the machine
    value v, text out        gets to K with v on V, in the same environment, having written out
    failure f, text out      gets to a step that fails with f, having written out
    nothing within budget n  can do more than n steps

The statement is for every `K` and `V`, so the parts of an expression can be put together, and
the body of a function runs above the marker that brings the caller's environment back.  The
induction is on the budget, and on the expression within one budget.
-/
import Rpal.Proofs.Control.Building
import Rpal.Proofs.Machine.Steps

namespace Rpal

open Machine

/-! ## 1. Following an evaluation -/

/-- `Follows n m arrive result`: from `m` the machine does what the result of an evaluation says.
`arrive` is the state after a value; without a result more than `n` steps can be done. -/
def Follows {α : Type} (n : Nat) (m : Machine) (arrive : α → String → Nat → Machine) :
    Option (Except Failure α × String) → Prop
  | none => ∃ k last, n ≤ k ∧ Steps k m last
  | some (.error f, out) => ∃ k last, Steps k m last ∧ Fails last f ∧ last.output = out
  | some (.ok a, out) => ∃ k steps, Steps k m (arrive a out steps)

namespace Follows

variable {α β : Type} {n : Nat} {m : Machine} {arrive : α → String → Nat → Machine}
  {arrive' : β → String → Nat → Machine}

theorem mono {k : Nat} {r : Option (Except Failure α × String)} (h : Follows n m arrive r)
    (hk : k ≤ n) : Follows k m arrive r := by
  rcases r with _ | ⟨_ | a, out⟩
  · obtain ⟨j, last, hj, hs⟩ := h
    exact ⟨j, last, Nat.le_trans hk hj, hs⟩
  · exact h
  · exact h

/-- Steps before an evaluation. -/
theorem steps {k : Nat} {m' : Machine} {r : Option (Except Failure α × String)}
    (hs : Steps k m m') (h : Follows n m' arrive r) : Follows (k + n) m arrive r := by
  rcases r with _ | ⟨_ | a, out⟩
  · obtain ⟨j, last, hj, hs'⟩ := h
    exact ⟨k + j, last, by omega, hs.trans hs'⟩
  · obtain ⟨j, last, hs', hf⟩ := h
    exact ⟨k + j, last, hs.trans hs', hf⟩
  · obtain ⟨j, steps, hs'⟩ := h
    exact ⟨k + j, steps, hs.trans hs'⟩

/-- One evaluation after the other. -/
theorem bind {x : Eval α} {f : α → Eval β} {out : String} (hx : Follows n m arrive (x out))
    (hf : ∀ a out' s, x out = some (.ok a, out') → Follows n (arrive a out' s) arrive' (f a out')) :
    Follows n m arrive' ((x >>= f) out) := by
  rw [Eval.bind_run]
  rcases hr : x out with _ | ⟨_ | a, out'⟩
  · rw [hr] at hx
    exact hx
  · rw [hr] at hx
    exact hx
  · rw [hr] at hx
    obtain ⟨k, s, hs⟩ := hx
    exact (steps hs (hf a out' s hr)).mono (Nat.le_add_left n k)

/-- An instruction that ends with a value or fails. -/
theorem instruction {i : Item} {control values : List Item} {env : Env} {out : String} {s : Nat}
    {r : Except Failure α} (n : Nat)
    (h : execute i ⟨control, values, env, out, s + 1⟩ = r.map fun a => arrive a out (s + 1)) :
    Follows n ⟨i :: control, values, env, out, s⟩ arrive (Eval.lift r out) := by
  cases r with
  | ok a => exact ⟨1, s + 1, .one h⟩
  | error f => exact ⟨0, _, .refl _, ⟨by simp, h⟩, rfl⟩

end Follows

/-! ## 2. Instructions -/

namespace Core

variable {inner : Inner Core} {n : Nat}

/-- The state after a value, with the control and the values that were there before. -/
def pushed (control values : List Item) (env : Env) (v : Value Core) (out : String) (s : Nat) :
    Machine :=
  ⟨control, v.item code :: values, env, out, s⟩

/-- The state after several values. -/
def pushedAll (control values : List Item) (env : Env) (vs : List (Value Core)) (out : String)
    (s : Nat) : Machine :=
  ⟨control, Value.items code vs ++ values, env, out, s⟩

/-- **The machine does what `inner` says**: it evaluates bodies and applies functions so, and
without a result it can do more than `n` steps. -/
structure Simulated (inner : Inner Core) (n : Nat) : Prop where
  evaluate : ∀ (e : Core) (scope : Scope Core) control values out s,
    Follows n ⟨e.code.reverse ++ control, values, scope.env code, out, s⟩
      (pushed control values (scope.env code)) (inner.evaluate e scope out)
  apply : ∀ (f a : Value Core) note control values env out s,
    Follows n ⟨.node .gamma note [] 0 :: control, f.item code :: a.item code :: values, env, out, s⟩
      (pushed control values env) (inner.apply f a out)

/-- A known value or failure in place of a name. -/
theorem execute_name (x : Variable) (scope : Scope Core) (control values : List Item)
    (out : String) (s : Nat) :
    execute (.node .identifier x [] 0) ⟨control, values, scope.env code, out, s⟩ =
      (scope.value x).map fun v => pushed control values (scope.env code) v out s := by
  have hlook := Scope.lookup?_env settled_code x scope
  have hexec : execute (.node .identifier x [] 0) ⟨control, values, scope.env code, out, s⟩ =
      evalName (.node .identifier x [] 0) ⟨control, values, scope.env code, out, s⟩ := rfl
  rw [hexec, evalName, Scope.value]
  simp only [Item.text, hlook]
  cases scope.lookup? x with
  | some v => rfl
  | none =>
    cases x with
    | none => rfl
    | some name =>
      simp only [Option.map_none, builtin?, Option.bind_some]
      cases hb : Builtin.ofName? name with
      | none => rfl
      | some b =>
        have hname : b.name = name := by
          have := List.find?_some hb
          simpa using this
        subst hname
        rfl

theorem execute_unary (op : UnaryOperator) (note : Option String) (v : Value Core)
    (control values : List Item) (env : Env) (out : String) (s : Nat) :
    execute (.node op.kind note [] 0) ⟨control, v.item code :: values, env, out, s⟩ =
      (Value.unary op v).map fun w => pushed control values env w out s := by
  have hexec : execute (.node op.kind note [] 0) ⟨control, v.item code :: values, env, out, s⟩ =
      Machine.unary op ⟨control, v.item code :: values, env, out, s⟩ := by
    cases op <;> rfl
  rw [hexec, Machine.unary]
  simp only [← Value.item_unary]
  cases Value.unary op v <;> rfl

theorem execute_binary (op : BinaryOperator) (note : Option String) (v w : Value Core)
    (control values : List Item) (env : Env) (out : String) (s : Nat) :
    execute (.node op.kind note [] 0)
        ⟨control, v.item code :: w.item code :: values, env, out, s⟩ =
      (Value.binary op v w).map fun u => pushed control values env u out s := by
  have hexec : execute (.node op.kind note [] 0)
        ⟨control, v.item code :: w.item code :: values, env, out, s⟩ =
      Machine.binary op ⟨control, v.item code :: w.item code :: values, env, out, s⟩ := by
    cases op <;> rfl
  rw [hexec, Machine.binary]
  simp only [← Value.item_binary settled_code]
  cases Value.binary op v w <;> rfl

theorem execute_tau (note : Option String) (vs : List (Value Core)) (control values : List Item)
    (env : Env) (out : String) (s : Nat) :
    execute (.node .tau note [] vs.length)
        ⟨control, Value.items code vs ++ values, env, out, s⟩ =
      .ok (pushed control values env (.tuple vs) out s) := by
  have hexec : execute (.node .tau note [] vs.length)
        ⟨control, Value.items code vs ++ values, env, out, s⟩ =
      collect vs.length ⟨control, Value.items code vs ++ values, env, out, s⟩ := rfl
  have hlen := Value.length_items code vs
  rw [hexec, collect]
  simp only [List.length_append, hlen, Nat.not_lt.mpr (Nat.le_add_right _ _), if_false, push,
    List.take_left' hlen, List.drop_left' hlen]
  rfl

/-- **A branch** is taken as evaluation takes it. -/
theorem choose_follows {scope : Scope Core} {thenPart elsePart : Core} (v : Value Core)
    (control values : List Item) (out : String) (s : Nat)
    {thenEval elseEval : Eval (Value Core)}
    (hthen : ∀ s, Follows n ⟨thenPart.code.reverse ++ control, values, scope.env code, out, s⟩
      (pushed control values (scope.env code)) (thenEval out))
    (helse : ∀ s, Follows n ⟨elsePart.code.reverse ++ control, values, scope.env code, out, s⟩
      (pushed control values (scope.env code)) (elseEval out)) :
    Follows n ⟨.beta thenPart.code elsePart.code :: control, v.item code :: values,
      scope.env code, out, s⟩ (pushed control values (scope.env code))
      (choose v thenEval elseEval out) := by
  have hstep : ∀ branch : Core, ∀ result,
      execute (.beta thenPart.code elsePart.code)
        ⟨control, v.item code :: values, scope.env code, out, s + 1⟩ =
          .ok ⟨branch.code.reverse ++ control, values, scope.env code, out, s + 1⟩ →
      Follows n ⟨branch.code.reverse ++ control, values, scope.env code, out, s + 1⟩
        (pushed control values (scope.env code)) result →
      Follows n ⟨.beta thenPart.code elsePart.code :: control, v.item code :: values,
        scope.env code, out, s⟩ (pushed control values (scope.env code)) result :=
    fun branch result hb hr => (Follows.steps (.one hb) hr).mono (Nat.le_add_left n 1)
  cases v with
  | literal l text =>
    cases l with
    | trueValue => exact hstep thenPart _ rfl (hthen _)
    | falseValue => exact hstep elsePart _ rfl (helse _)
    | _ => exact Follows.instruction n rfl
  | _ => exact Follows.instruction n rfl

/-! ## 3. Application -/

/-- The body of a function is executed above a marker, which brings the environment back. -/
theorem enter_follows (h : Simulated inner n) (f : Lambda Core) (a : Value Core)
    (note : Option String) (control values : List Item) (env : Env) (out : String) (s : Nat) :
    Follows (n + 1) ⟨.node .gamma note [] 0 :: control,
      .delta (f.closure code) :: a.item code :: values, env, out, s⟩
      (pushed control values env) (inner.enter f a out) := by
  have hexec : execute (.node .gamma note [] 0)
      ⟨control, .delta (f.closure code) :: a.item code :: values, env, out, s + 1⟩ =
        (f.bind a).map fun scope =>
          ⟨f.code.code.reverse ++ .marker env :: control, values, scope.env code, out, s + 1⟩ := by
    have henter : execute (.node .gamma note [] 0)
        ⟨control, .delta (f.closure code) :: a.item code :: values, env, out, s + 1⟩ =
      Machine.enter (f.closure code) (a.item code) ⟨control, values, env, out, s + 1⟩ := rfl
    have hbody : (f.closure code).body = f.code.code := by
      cases f
      rfl
    rw [henter, Machine.enter, ← Lambda.env_bind settled_code, hbody]
    cases f.bind a <;> rfl
  unfold Inner.enter
  cases hb : f.bind a with
  | error failure =>
    rw [hb] at hexec
    exact ⟨0, _, .refl _, ⟨by simp, hexec⟩, rfl⟩
  | ok scope =>
    rw [hb] at hexec
    -- the marker is the last step of the call
    have hbody : Follows n
        ⟨f.code.code.reverse ++ .marker env :: control, values, scope.env code, out, s + 1⟩
        (pushed control values env) (inner.evaluate f.code scope out) := by
      have hrestore : ∀ v out s, Follows n
          (pushed (.marker env :: control) values (scope.env code) v out s)
          (pushed control values env) ((pure v : Eval (Value Core)) out) :=
        fun v out s => ⟨1, s + 1, .one rfl⟩
      have := (h.evaluate f.code scope _ values out (s + 1)).bind fun v out s _ => hrestore v out s
      rwa [bind_pure] at this
    exact (Follows.steps (.one hexec) hbody).mono (Nat.le_of_eq (Nat.add_comm n 1))

theorem execute_select (xs : List (Value Core)) (a : Value Core) (note : Option String)
    (control values : List Item) (env : Env) (out : String) (s : Nat) :
    execute (.node .gamma note [] 0)
        ⟨control, (Value.tuple xs).item code :: a.item code :: values, env, out, s⟩ =
      (Value.select xs a).map fun v => pushed control values env v out s := by
  have hexec : execute (.node .gamma note [] 0)
        ⟨control, (Value.tuple xs).item code :: a.item code :: values, env, out, s⟩ =
      (select ((Value.tuple xs).item code) (a.item code) >>= fun v =>
        .ok (push v ⟨control, values, env, out, s⟩)) := rfl
  rw [hexec, ← Value.item_select]
  cases Value.select xs a <;> rfl

theorem applyBuiltin_follows (b : Builtin) (args : List (Value Core)) (a : Value Core)
    (note : Option String) (control values : List Item) (env : Env) (out : String) (s : Nat) :
    Follows n ⟨.node .gamma note [] 0 :: control,
      (Value.builtin b args).item code :: a.item code :: values, env, out, s⟩
      (pushed control values env) (inner.call (.builtin b args) a out) := by
  have hexec : ∀ s, execute (.node .gamma note [] 0)
        ⟨control, (Value.builtin b args).item code :: a.item code :: values, env, out, s⟩ =
      applyBuiltin b ((Value.builtin b args).item code) (a.item code)
        ⟨control, values, env, out, s⟩ := by
    intro s
    have happly : execute (.node .gamma note [] 0)
        ⟨control, (Value.builtin b args).item code :: a.item code :: values, env, out, s⟩ =
      applyTo ((Value.builtin b args).item code) (a.item code)
        ⟨control, values, env, out, s⟩ := rfl
    rw [happly]
    simp only [Value.item, applyTo, builtin?, Builtin.ofName?_name]
  have hargs : ((Value.builtin b args).item code).children ++ [a.item code] =
      Value.items code (args ++ [a]) := by
    simp [Value.item, Item.children, Value.items_eq_map]
  simp only [applyBuiltin, hargs, Value.length_items, List.length_append, List.length_singleton]
    at hexec
  by_cases hlen : args.length + 1 < b.arity
  · simp only [hlen, if_true] at hexec
    simp only [Inner.call, hlen, if_true]
    exact ⟨1, s + 1, .one (hexec _)⟩
  · simp only [hlen, if_false, ← Value.item_applyAll settled_code] at hexec
    simp only [Inner.call, hlen, if_false]
    cases hv : Value.applyAll b (args ++ [a]) with
    | error f =>
      rw [hv] at hexec
      exact ⟨0, _, .refl _, ⟨by simp, hexec _⟩, rfl⟩
    | ok r =>
      obtain ⟨v, text⟩ := r
      rw [hv] at hexec
      exact ⟨1, s + 1, .one (hexec _)⟩

/-- **Application**, by the kind of function. -/
theorem call_follows (h : Simulated inner n) (f a : Value Core) (note : Option String)
    (control values : List Item) (env : Env) (out : String) (s : Nat) :
    Follows (n + 1) ⟨.node .gamma note [] 0 :: control,
      f.item code :: a.item code :: values, env, out, s⟩
      (pushed control values env) (inner.call f a out) := by
  cases f with
  | literal l text =>
    cases l with
    | yStar =>
      cases a with
      | closure f => exact ⟨1, s + 1, .one rfl⟩
      | _ => exact Follows.instruction _ rfl
    | _ => exact Follows.instruction _ rfl
  | tuple xs => exact Follows.instruction _ (execute_select xs a note control values env out _)
  | builtin b args => exact applyBuiltin_follows b args a note control values env out s
  | closure f => exact enter_follows h f a note control values env out s
  | recursive f =>
    have hcopy : (f.closure code).copy = f.closure code := by
      have := Value.copy_item settled_code (.closure f)
      simpa [Value.item, Item.copy] using this
    have hexec : execute (.node .gamma note [] 0)
        ⟨control, (Value.recursive f).item code :: a.item code :: values, env, out, s + 1⟩ =
      .ok ⟨.plain .gamma :: .plain .gamma :: control,
        .delta (f.closure code) :: (Value.recursive f).item code :: a.item code :: values, env,
        out, s + 1⟩ := by
      have : execute (.node .gamma note [] 0)
          ⟨control, (Value.recursive f).item code :: a.item code :: values, env, out, s + 1⟩ =
        .ok ⟨.plain .gamma :: .plain .gamma :: control,
          .delta (f.closure code).copy :: (Value.recursive f).item code :: a.item code :: values,
          env, out, s + 1⟩ := rfl
      rw [this, hcopy]
    -- the function is applied to itself first, and the result to the argument
    have hself := (enter_follows h f (.recursive f) none (.plain .gamma :: control)
      (a.item code :: values) env out (s + 1)).mono (Nat.le_succ n)
    have happly : ∀ v out s, Follows n
        (pushed (.plain .gamma :: control) (a.item code :: values) env v out s)
        (pushed control values env) (inner.apply v a out) :=
      fun v out s => h.apply v a none control values env out s
    have hboth := hself.bind fun v out s _ => happly v out s
    exact (Follows.steps (.one hexec) hboth).mono (Nat.le_of_eq (Nat.add_comm n 1))

/-! ## 4. Expressions -/

/-- Every part has a value. -/
theorem length_of_meaningAll {es : List Core} {scope : Scope Core} {out out' : String}
    {vs : List (Value Core)} (h : meaningAll inner es scope out = some (.ok vs, out')) :
    vs.length = es.length := by
  induction es generalizing vs out' with
  | nil =>
    cases h
    rfl
  | cons e es ih =>
    simp only [meaningAll, Eval.bind_run] at h
    rcases hes : meaningAll inner es scope out with _ | ⟨_ | ws, out₁⟩
    · simp [hes] at h
    · simp [hes] at h
    · simp only [hes] at h
      rcases he : meaning inner e scope out₁ with _ | ⟨_ | w, out₂⟩
      · simp [he] at h
      · simp [he] at h
      · simp only [he] at h
        cases h
        rw [List.length_cons, List.length_cons, ih hes]

mutual

/-- **The instructions of an expression** do what its evaluation says. -/
theorem meaning_follows (h : Simulated inner n) : (e : Core) → ∀ (scope : Scope Core)
    (control values : List Item) (out : String) (s : Nat),
    Follows (n + 1) ⟨e.code.reverse ++ control, values, scope.env code, out, s⟩
      (pushed control values (scope.env code)) (meaning inner e scope out)
  | .name x => fun scope control values out s =>
    Follows.instruction _ (execute_name x scope control values out (s + 1))
  | .literal l text => fun scope control values out s => by
    refine ⟨1, s + 1, .one ?_⟩
    cases l <;> rfl
  | .nil note => fun scope control values out s => ⟨1, s + 1, .one rfl⟩
  | .tuple note parts => fun scope control values out s => by
    simp only [code, List.reverse_cons, List.append_assoc, List.singleton_append, meaning]
    refine (meaningAll_follows h parts scope _ values out s).bind fun vs out s hvs => ?_
    rw [← length_of_meaningAll hvs]
    exact ⟨1, s + 1, .one (execute_tau note vs control values _ out _)⟩
  | .apply note f a => fun scope control values out s => by
    simp only [code, List.reverse_cons, List.reverse_append, List.append_assoc,
      List.singleton_append, meaning]
    refine (meaning_follows h a scope _ values out s).bind fun v out s _ => ?_
    refine (meaning_follows h f scope _ _ out s).bind fun w out s _ => ?_
    exact call_follows h w v note control values _ out s
  | .unary note op x => fun scope control values out s => by
    simp only [code, List.reverse_cons, List.append_assoc, List.singleton_append, meaning]
    refine (meaning_follows h x scope _ values out s).bind fun v out s _ => ?_
    exact Follows.instruction _ (execute_unary op note v control values _ out _)
  | .binary note op x y => fun scope control values out s => by
    simp only [code, List.reverse_cons, List.reverse_append, List.append_assoc,
      List.singleton_append, meaning]
    refine (meaning_follows h y scope _ values out s).bind fun w out s _ => ?_
    refine (meaning_follows h x scope _ _ out s).bind fun v out s _ => ?_
    exact Follows.instruction _ (execute_binary op note v w control values _ out _)
  | .choice condition thenPart elsePart => fun scope control values out s => by
    simp only [code, List.reverse_cons, List.append_assoc, List.singleton_append, meaning]
    refine (meaning_follows h condition scope _ values out s).bind fun v out s _ => ?_
    exact choose_follows v control values out s
      (fun s => meaning_follows h thenPart scope control values out s)
      (fun s => meaning_follows h elsePart scope control values out s)
  | .lambda label names body => fun scope control values out s => ⟨1, s + 1, .one rfl⟩

theorem meaningAll_follows (h : Simulated inner n) : (es : List Core) → ∀ (scope : Scope Core)
    (control values : List Item) (out : String) (s : Nat),
    Follows (n + 1) ⟨(codeAll es).reverse ++ control, values, scope.env code, out, s⟩
      (pushedAll control values (scope.env code)) (meaningAll inner es scope out)
  | [] => fun scope control values out s => ⟨0, s, .refl _⟩
  | e :: es => fun scope control values out s => by
    simp only [codeAll, List.reverse_append, List.append_assoc, meaningAll]
    refine (meaningAll_follows h es scope _ values out s).bind fun vs out s _ => ?_
    refine (meaning_follows h e scope control _ out s).bind fun v out s _ => ?_
    exact ⟨0, s, .refl _⟩

end

/-! ## 5. Programs -/

/-- **Within any budget the machine follows evaluation.** -/
theorem simulated_inner (budget : Nat) : Simulated (Rpal.inner meaning budget) budget := by
  induction budget with
  | zero =>
    exact ⟨fun _ _ _ _ _ _ => ⟨0, _, Nat.le_refl 0, .refl _⟩,
      fun _ _ _ _ _ _ _ _ => ⟨0, _, Nat.le_refl 0, .refl _⟩⟩
  | succ budget ih => exact ⟨meaning_follows ih, call_follows ih⟩

/-- What the machine shows of an evaluation. -/
def shown (r : Except Failure (Value Core) × String) : Result :=
  ⟨r.2, r.1.map (Value.item code)⟩

section Programs

variable {e : Core} {root : Closure} (hroot : root.body = e.code)

include hroot

theorem evaluate_follows (budget : Nat) :
    Follows (budget + 1) (start root) (pushed [] [] Env.empty) (e.evaluate budget) := by
  have hstart : start root =
      ⟨e.code.reverse ++ [], [], (Scope.empty : Scope Core).env code, "", 0⟩ := by
    rw [start, hroot, copyAll_code, List.append_nil]
    rfl
  rw [hstart]
  exact meaning_follows (simulated_inner budget) e .empty [] [] "" 0

/-- An evaluation that is over gives the result of the run. -/
theorem run_of_evaluate {budget : Nat} {r : Except Failure (Value Core) × String}
    (h : e.evaluate budget = some r) : ∃ n, run n (start root) = some (shown r) := by
  have hf := evaluate_follows hroot budget
  obtain ⟨_ | v, out⟩ := r
  · rw [h] at hf
    obtain ⟨k, last, hs, hfail, rfl⟩ := hf
    exact ⟨k + 1, by rw [run_of_steps hs, run_of_fails hfail]; rfl⟩
  · rw [h] at hf
    obtain ⟨k, s, hs⟩ := hf
    exact ⟨k + 0, by rw [run_of_steps hs, run_of_control_nil rfl]; rfl⟩

/-- An evaluation that is not over leaves the run without a result within the same budget. -/
theorem run_eq_none_of_evaluate {budget : Nat} (h : e.evaluate budget = none) :
    run budget (start root) = none := by
  have hf := evaluate_follows hroot budget
  rw [h] at hf
  obtain ⟨k, last, hk, hs⟩ := hf
  exact run_eq_none_of_steps hs hk

/-- **Runs and evaluations have the same results.** -/
theorem run_iff_evaluate (r : Result) :
    (∃ n, run n (start root) = some r) ↔ ∃ n a, e.evaluate n = some a ∧ r = shown a := by
  constructor
  · rintro ⟨n, hn⟩
    cases ha : e.evaluate n with
    | none =>
      rw [run_eq_none_of_evaluate hroot ha] at hn
      cases hn
    | some a =>
      obtain ⟨k, hk⟩ := run_of_evaluate hroot ha
      exact ⟨n, a, ha, run_unique hn hk⟩
  · rintro ⟨n, a, ha, rfl⟩
    exact run_of_evaluate hroot ha

/-- Runs and evaluations are unending together. -/
theorem run_eq_none_iff_evaluate :
    (∀ n, run n (start root) = none) ↔ ∀ n, e.evaluate n = none := by
  constructor
  · intro h n
    cases ha : e.evaluate n with
    | none => rfl
    | some a =>
      obtain ⟨k, hk⟩ := run_of_evaluate hroot ha
      rw [h k] at hk
      cases hk
  · intro h n
    exact run_eq_none_of_evaluate hroot (h n)

end Programs

end Core

namespace Tree

/-- A core tree as an expression; the label of a function is the number of its structure. -/
def program (t : Tree) : Core := expression t.number [] t

/-- **The control structures belong to the functions of a tree**: that of a function stands at
the number of the function, with the names of its parameter and the instructions of its body,
and different functions have different numbers. -/
structure Numbers (t : Tree) (cs : List Closure) : Prop where
  length : cs.length = t.sites.length
  at_number : ∀ s ∈ t.root :: functions [] t, cs[t.number s.place]? =
    some ⟨t.number s.place, s.param.parameterNames, (expression t.number s.place s.body).code,
      .absent⟩
  apart : ∀ s ∈ t.root :: functions [] t, ∀ s' ∈ t.root :: functions [] t,
    t.number s.place = t.number s'.place → s = s'

theorem CoreShape.numbers {P : Tree → Prop} {t : Tree} (_ : CoreShape P t) :
    t.Numbers (t.sites.map (Control.structureOf t.number)) where
  length := List.length_map _
  at_number s hs := by
    obtain ⟨i, hi⟩ := List.mem_iff_getElem?.mp (t.sites_perm.symm.subset hs)
    rw [Tree.number_of_getElem? hi, List.getElem?_map, hi, Option.map_some, Control.structureOf,
      Tree.number_of_getElem? hi]
    rfl
  apart s hs s' hs' heq := by
    obtain ⟨i, hi⟩ := List.mem_iff_getElem?.mp (t.sites_perm.symm.subset hs)
    obtain ⟨j, hj⟩ := List.mem_iff_getElem?.mp (t.sites_perm.symm.subset hs')
    rw [Tree.number_of_getElem? hi, Tree.number_of_getElem? hj] at heq
    subst heq
    exact Option.some.inj (hi.symm.trans hj)

/-- The first structure is that of the program. -/
theorem root_body {t : Tree} :
    (Control.root (t.sites.map (Control.structureOf t.number))).body = t.program.code := rfl

/-- **The machine refines evaluation.**  For every core tree the control structures can be built,
one for each function, and running the first comes to exactly what evaluation comes to: the same
text with the same value, the same text with the same failure, or no end at all. -/
theorem run_structures_iff_evaluate {t : Tree} (h : t.IsCore) :
    ∃ cs, Control.structures t = .ok cs ∧ t.Numbers cs ∧
      (∀ r, (∃ n, run n (start (Control.root cs)) = some r) ↔
        ∃ n a, t.program.evaluate n = some a ∧ r = Core.shown a) ∧
      ((∀ n, run n (start (Control.root cs)) = none) ↔ ∀ n, t.program.evaluate n = none) :=
  ⟨_, (Control.structures_eq_ok_iff h).mpr ⟨h, rfl⟩, h.numbers,
    Core.run_iff_evaluate root_body, Core.run_eq_none_iff_evaluate root_body⟩

/-- The application `Y* (fn f . fn (b, r) . b -> f (false, r aug b) | r) (true, nil)`, in which
the function calls itself once. -/
def recursion : Tree :=
  .branch .gamma [
    .branch .gamma [
      .branch .yStar [],
      .branch .lambda [.leaf .identifier "f",
        .branch .lambda [.branch .comma [.leaf .identifier "b", .leaf .identifier "r"],
          .branch .conditional [
            .leaf .identifier "b",
            .branch .gamma [.leaf .identifier "f",
              .branch .tau [.branch .falseValue [],
                .branch .aug [.leaf .identifier "r", .leaf .identifier "b"]]],
            .leaf .identifier "r"]]]],
    .branch .tau [.branch .trueValue [], .branch .nil []]]

theorem isCore_recursion : recursion.IsCore := by
  have hleaf : ∀ (kind : Kind) (text : Option String), kind.Admits 0 →
      IsCore ⟨kind, text, [], 0⟩ := fun kind text hk => .node hk (by simp)
  have hpair : ∀ (kind : Kind) (x y : Tree), kind.Admits 2 → x.IsCore → y.IsCore →
      IsCore (.branch kind [x, y]) :=
    fun kind x y hk hx hy => .node hk (by simp [hx, hy])
  refine hpair _ _ _ rfl (hpair _ _ _ rfl (hleaf _ _ rfl) ?_)
    (hpair _ _ _ trivial (hleaf _ _ rfl) (hleaf _ _ rfl))
  refine .lambda (.name _ _ _) (.lambda (.names _ _ _ ?_) (.choice (hleaf _ _ rfl) ?_
    (hleaf _ _ rfl)))
  · simp [leaf]
  · refine hpair _ _ _ rfl (hleaf _ _ rfl) (hpair _ _ _ trivial (hleaf _ _ rfl) ?_)
    exact hpair _ _ _ rfl (hleaf _ _ rfl) (hleaf _ _ rfl)

/-- The machine comes to the tuple that evaluation comes to. -/
theorem run_structures_recursion : recursion.IsCore ∧
    ∃ cs, Control.structures recursion = .ok cs ∧
      ∃ n, run n (start (Control.root cs)) = some ⟨"", .ok (.tuple [.truth true])⟩ := by
  obtain ⟨cs, hcs, -, hrun, -⟩ := run_structures_iff_evaluate isCore_recursion
  exact ⟨isCore_recursion, cs, hcs, (hrun _).mpr ⟨4, _, rfl, rfl⟩⟩

end Tree

end Rpal
