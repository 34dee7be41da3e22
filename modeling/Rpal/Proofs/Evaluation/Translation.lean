/-
# Evaluations of translated code

Two evaluators may work on different code, one on a language and the other on what it is
translated to.  Their values then differ in the bodies of functions and in nothing else: if `f`
translates code, `Value.map f` translates values, and every operation commutes with it.

    unary op (v.map f)      =  (unary op v).map f
    call (g.map f) (v.map f)  =  (call g v).map f        if bodies are evaluated alike

So a translation that keeps the meaning of one body at a time keeps that of whole evaluations.
-/
import Rpal.Proofs.Evaluation.Apply

namespace Rpal

variable {γ δ : Type} (f : γ → δ)

/-! ## 1. Translated values -/

mutual

/-- The value with the bodies of its functions translated. -/
def Value.map : Value γ → Value δ
  | .literal l text => .literal l text
  | .tuple vs => .tuple (Value.mapAll vs)
  | .builtin b args => .builtin b (Value.mapAll args)
  | .closure g => .closure g.map
  | .recursive g => .recursive g.map

/-- The values with the bodies of their functions translated. -/
def Value.mapAll : List (Value γ) → List (Value δ)
  | [] => []
  | v :: vs => v.map :: Value.mapAll vs

/-- The function with its body translated, and those of the values in its scope. -/
def Lambda.map : Lambda γ → Lambda δ
  | ⟨label, names, code, scope⟩ => ⟨label, names, f code, scope.map⟩

/-- The scope with the bodies of all functions in it translated. -/
def Scope.map : Scope γ → Scope δ
  | .empty => .empty
  | .frame outer => .frame outer.map
  | .binding name value rest => .binding name value.map rest.map

end

theorem Value.mapAll_eq_map (vs : List (Value γ)) : Value.mapAll f vs = vs.map (Value.map f) := by
  induction vs with
  | nil => rfl
  | cons v vs ih => simp [Value.mapAll, ih]

@[simp] theorem Value.length_mapAll (vs : List (Value γ)) :
    (Value.mapAll f vs).length = vs.length := by
  simp [Value.mapAll_eq_map]

mutual

/-- **Translating and compiling** is compiling what is translated. -/
theorem Value.item_map (c : δ → List Item) : (v : Value γ) →
    (v.map f).item c = v.item (c ∘ f)
  | .literal _ _ => rfl
  | .tuple vs => by
    simp only [Value.map, Value.item]
    rw [Value.items_mapAll c vs]
  | .builtin b args => by
    simp only [Value.map, Value.item]
    rw [Value.items_mapAll c args]
  | .closure g => by
    simp only [Value.map, Value.item]
    rw [Lambda.closure_map c g]
  | .recursive g => by
    simp only [Value.map, Value.item]
    rw [Lambda.closure_map c g]

/-- Lists of values. -/
theorem Value.items_mapAll (c : δ → List Item) : (vs : List (Value γ)) →
    Value.items c (Value.mapAll f vs) = Value.items (c ∘ f) vs
  | [] => rfl
  | v :: vs => by
    simp only [Value.mapAll, Value.items]
    rw [Value.item_map c v, Value.items_mapAll c vs]

/-- Functions: the scope may hold any values, so it is part of the same recursion. -/
theorem Lambda.closure_map (c : δ → List Item) : (g : Lambda γ) →
    (g.map f).closure c = g.closure (c ∘ f)
  | ⟨label, names, code, scope⟩ => by
    simp only [Lambda.map, Lambda.closure]
    rw [Scope.env_map c scope]
    rfl

/-- Scopes, frame by frame. -/
theorem Scope.env_map (c : δ → List Item) : (scope : Scope γ) →
    (scope.map f).env c = scope.env (c ∘ f)
  | .empty => rfl
  | .frame outer => by
    simp only [Scope.map, Scope.env]
    rw [Scope.env_map c outer]
  | .binding name value rest => by
    simp only [Scope.map, Scope.env]
    rw [Value.item_map c value, Scope.env_map c rest]

end

/-- Without its bodies a value is the same before and after.  Operators, messages and prints see
values in this form. -/
@[simp] theorem Value.bare_map (v : Value γ) : (v.map f).bare = v.bare :=
  Value.item_map f (fun _ => []) v

/-! ## 2. Translated operations -/

/-- **Operators** do not look into functions. -/
theorem Value.unary_map (op : UnaryOperator) (x : Value γ) :
    Value.unary op (x.map f) = (Value.unary op x).map (Value.map f) := by
  simp only [Value.unary, Value.bare_map]
  cases op.apply x.bare <;> rfl

/-- The extension of a tuple is the one operator that keeps its operands, and may keep functions. -/
theorem Value.binary_map (op : BinaryOperator) (x y : Value γ) :
    Value.binary op (x.map f) (y.map f) = (Value.binary op x y).map (Value.map f) := by
  have hplain : ((op.apply (x.map f).bare (y.map f).bare).map Value.ofItem : Except _ (Value δ)) =
      ((op.apply x.bare y.bare).map Value.ofItem).map (Value.map f) := by
    simp only [Value.bare_map]
    cases op.apply x.bare y.bare <;> rfl
  cases op with
  | aug =>
    cases x with
    | tuple xs => simp [Value.map, Value.binary, Except.map, Value.mapAll_eq_map]
    | _ => exact hplain
  | _ => exact hplain

/-- A component is selected before or after the translation. -/
theorem Value.select_map (xs : List (Value γ)) (index : Value γ) :
    Value.select (Value.mapAll f xs) (index.map f) =
      (Value.select xs index).map (Value.map f) := by
  have hprint : (Value.tuple (Value.mapAll f xs)).bare = (Value.tuple xs).bare :=
    Value.bare_map f (.tuple xs)
  simp only [Value.select, Value.bare_map, hprint]
  by_cases hk : index.bare.kind = .integer
  · simp only [hk, if_true]
    cases index.bare.integer with
    | error e => rfl
    | ok n =>
      have hget : (Value.mapAll f xs)[n.toNat - 1]? = xs[n.toNat - 1]?.map (Value.map f) := by
        rw [Value.mapAll_eq_map, List.getElem?_map]
      simp only [bind, Except.bind, hget]
      by_cases hn : 1 ≤ n
      · simp only [hn, if_true]
        cases xs[n.toNat - 1]? <;> rfl
      · simp only [hn, if_false]
        rfl
  · simp only [hk, if_false]
    rfl

/-- The built-ins that pass on their arguments as they are. -/
theorem Value.passed?_map (b : Builtin) (args : List (Value γ)) :
    Value.passed? b (Value.mapAll f args) = (Value.passed? b args).map (Value.map f) := by
  cases b with
  | identity =>
    match args with
    | [] | [x] | x :: y :: rest => rfl
  | conc =>
    match args with
    | [] => rfl
    | [x] => cases x <;> rfl
    | x :: y :: z :: rest => cases x <;> cases y <;> rfl
    | [x, y] =>
      cases x with
      | tuple xs =>
        cases y with
        | tuple ys => simp [Value.map, Value.mapAll, Value.passed?, Value.mapAll_eq_map]
        | _ => rfl
      | _ => rfl
  | _ => rfl

/-- **Built-ins**: the value is translated, and the text that is printed is the same. -/
theorem Value.applyAll_map (b : Builtin) (args : List (Value γ)) :
    Value.applyAll b (Value.mapAll f args) =
      (Value.applyAll b args).map fun (v, text) => (v.map f, text) := by
  have hbare : (Value.mapAll f args).map Value.bare = args.map Value.bare := by
    simp [Value.mapAll_eq_map, Function.comp_def]
  simp only [Value.applyAll, Value.passed?_map, hbare]
  cases Value.passed? b args with
  | some v => rfl
  | none =>
    cases b.apply (args.map Value.bare) <;> rfl

/-- Names are found in the same frames. -/
theorem Scope.lookup?_map (name : Variable) (scope : Scope γ) :
    (scope.map f).lookup? name = (scope.lookup? name).map (Value.map f) := by
  match scope with
  | .empty => rfl
  | .frame outer => exact Scope.lookup?_map name outer
  | .binding n value rest =>
    have ih := Scope.lookup?_map name rest
    by_cases h : n = name
    · simp [Scope.map, Scope.lookup?, h]
    · simpa [Scope.map, Scope.lookup?, h] using ih

theorem Scope.value_map (name : Variable) (scope : Scope γ) :
    (scope.map f).value name = (scope.value name).map (Value.map f) := by
  simp only [Scope.value, Scope.lookup?_map]
  cases scope.lookup? name with
  | some v => rfl
  | none =>
    cases name.bind Builtin.ofName? <;> rfl

/-- Names are bound to translated values. -/
theorem Scope.bindAll_map (scope : Scope γ) (names : List Variable) (vs : List (Value γ)) :
    (scope.map f).bindAll (names.zip (Value.mapAll f vs)) =
      (scope.bindAll (names.zip vs)).map f := by
  induction names generalizing scope vs with
  | nil => rfl
  | cons name names ih =>
    cases vs with
    | nil => rfl
    | cons v vs => exact ih (.binding name v scope) vs

/-- **Parameters** are bound alike, and an argument that does not fit is refused with the same
message. -/
theorem Lambda.bind_map (g : Lambda γ) (argument : Value γ) :
    (g.map f).bind (argument.map f) = (g.bind argument).map (Scope.map f) := by
  obtain ⟨label, names, code, scope⟩ := g
  match names with
  | [] => rfl
  | [name] => rfl
  | x :: y :: rest =>
    have hwrong : ∀ operation expected,
        (argument.map f).bare.mismatch operation "argument" expected =
          argument.bare.mismatch operation "argument" expected := by
      intro operation expected
      rw [Value.bare_map]
    cases argument with
    | tuple vs =>
      simp only [Lambda.map, Value.map, Lambda.bind, Value.length_mapAll]
      by_cases hlen : vs.length = (x :: y :: rest).length
      · simp only [hlen, if_true, Except.map]
        exact congrArg Except.ok (Scope.bindAll_map f (.frame scope) _ vs)
      · simp only [hlen, if_false]
        rfl
    | _ => exact congrArg Except.error (hwrong _ _)

/-! ## 3. Translated evaluation -/

theorem Eval.lift_map {α β : Type} (g : α → β) (r : Except Failure α) :
    Eval.lift (r.map g) = g <$> Eval.lift r := by
  cases r <;> rfl

theorem Eval.map_run {α β : Type} (g : α → β) (x : Eval α) (out : String) :
    (g <$> x) out = (x out).map fun (r, out) => (r.map g, out) := by
  show (x >>= fun a => pure (g a)) out = _
  rw [Eval.bind_run]
  rcases x out with _ | ⟨_ | _, _⟩ <;> rfl

/-- `Translates f i j`: what `j` does with translated code and values is what `i` does. -/
structure Translates (i : Inner γ) (j : Inner δ) : Prop where
  evaluate : ∀ g scope, j.evaluate (f g) (scope.map f) = Value.map f <$> i.evaluate g scope
  apply : ∀ v a, j.apply (v.map f) (a.map f) = Value.map f <$> i.apply v a

section Application

variable {f} {i : Inner γ} {j : Inner δ} (h : Translates f i j)

include h

/-- A body is evaluated in a scope of its own. -/
theorem Translates.enter (g : Lambda γ) (a : Value γ) :
    j.enter (g.map f) (a.map f) = Value.map f <$> i.enter g a := by
  have hcode : (g.map f).code = f g.code := by
    cases g
    rfl
  simp only [Inner.enter, Lambda.bind_map, Eval.lift_map, bind_map_left, map_bind, hcode,
    h.evaluate]

/-- **Application of translated functions.** -/
theorem Translates.call (v a : Value γ) :
    j.call (v.map f) (a.map f) = Value.map f <$> i.call v a := by
  cases v with
  | literal l text =>
    cases l with
    | yStar =>
      have hwrong : (Eval.lift (.error ((a.map f).bare.mismatch "Y*" "argument" "function")) :
          Eval (Value δ)) =
            Value.map f <$> Eval.lift (.error (a.bare.mismatch "Y*" "argument" "function")) := by
        rw [Value.bare_map]
        rfl
      cases a with
      | closure g => rfl
      | _ => exact hwrong
    | _ => rfl
  | tuple vs =>
    simp only [Value.map, Inner.call, Value.select_map, Eval.lift_map]
  | builtin b args =>
    have hargs : Value.mapAll f args ++ [a.map f] = Value.mapAll f (args ++ [a]) := by
      simp [Value.mapAll_eq_map]
    simp only [Value.map, Inner.call, hargs, Value.length_mapAll, Value.applyAll_map, Eval.lift_map]
    split
    · rfl
    · simp only [bind_map_left, map_bind, map_pure]
  | closure g => exact h.enter g a
  | recursive g =>
    have hself : j.enter (g.map f) (.recursive (g.map f)) =
        Value.map f <$> i.enter g (.recursive g) := h.enter g (.recursive g)
    simp only [Value.map, Inner.call, hself, bind_map_left, map_bind, h.apply]

end Application

/-- **Evaluators that agree on one body at a time agree within any budget.** -/
theorem translates_inner {meaning : Inner γ → γ → Scope γ → Eval (Value γ)}
    {meaning' : Inner δ → δ → Scope δ → Eval (Value δ)}
    (h : ∀ i j, Translates f i j → ∀ g scope,
      meaning' j (f g) (scope.map f) = Value.map f <$> meaning i g scope) (budget : Nat) :
    Translates f (inner meaning budget) (inner meaning' budget) := by
  induction budget with
  | zero => exact ⟨fun _ _ => rfl, fun _ _ => rfl⟩
  | succ budget ih => exact ⟨h _ _ ih, ih.call⟩

end Rpal
