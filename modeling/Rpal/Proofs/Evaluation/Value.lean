/-
# Values of an evaluation

An evaluator that works on expressions has no items: its functions keep the code of their body
as it is written, and the scope they were made in.  `Value γ` is the type of its values, for
code of a type `γ`; every function carries a label, the number that its printed form shows.

The operators and built-in functions of the machine serve values as well.  They see no more of a
function than what it prints, so they are applied to the *bare* items of the operands, in which
functions have no body at all; only `aug`, `Conc` and `Identity`, which pass components on,
are said again for values.

`Value.item code` turns a value into the item of the machine, given how bodies are compiled.
All operations commute with it (`item_binary`, `item_applyAll`, `item_select`,
`env_bind`, `lookup?_env`), which is all that a comparison with the machine needs to know
about values.
-/
import Rpal.Machine
import Rpal.Proofs.Operator.Answers

namespace Rpal

/-! ## 1. Values and scopes -/

mutual

/-- A value of an evaluation. -/
inductive Value (γ : Type) where
  | literal (l : Literal) (text : Option String)
  | tuple (components : List (Value γ))
  /-- A built-in function with the arguments it has so far. -/
  | builtin (b : Builtin) (args : List (Value γ))
  | closure (f : Lambda γ)
  /-- What `Y*` makes of a function. -/
  | recursive (f : Lambda γ)

/-- A function: its label, the names of its parameter, the code of its body, and the scope that
it was made in. -/
structure Lambda (γ : Type) where
  label : Nat
  names : List Variable
  code : γ
  scope : Scope γ

/-- A scope: frames within frames, the newest binding of a frame first. -/
inductive Scope (γ : Type) where
  | empty
  | frame (outer : Scope γ)
  | binding (name : Variable) (value : Value γ) (rest : Scope γ)

end

variable {γ : Type}

/-- The newest binding of a name in the nearest frame that has one. -/
def Scope.lookup? (name : Variable) : Scope γ → Option (Value γ)
  | .empty => none
  | .frame outer => outer.lookup? name
  | .binding n value rest => if n = name then some value else rest.lookup? name

/-- Further bindings in the newest frame, from the left. -/
def Scope.bindAll (scope : Scope γ) (bindings : List (Variable × Value γ)) : Scope γ :=
  bindings.foldl (fun scope (name, value) => .binding name value scope) scope

mutual

/-- A value as an item of the machine, for compiled bodies. -/
def Value.item (code : γ → List Item) : Value γ → Item
  | .literal l text => .node l.kind text [] 0
  | .tuple vs => .tuple (Value.items code vs)
  | .builtin b args => .node .identifier (some b.name) (Value.items code args) 0
  | .closure f => .delta (f.closure code)
  | .recursive f => .eta (f.closure code)

/-- Several values as items. -/
def Value.items (code : γ → List Item) : List (Value γ) → List Item
  | [] => []
  | v :: vs => v.item code :: Value.items code vs

/-- A function as a control structure. -/
def Lambda.closure (code : γ → List Item) : Lambda γ → Closure
  | ⟨label, names, body, scope⟩ => ⟨label, names, code body, scope.env code⟩

/-- A scope as an environment. -/
def Scope.env (code : γ → List Item) : Scope γ → Env
  | .empty => Env.empty
  | .frame outer => .frame (outer.env code)
  | .binding name value rest => .binding name (value.item code) (rest.env code)

end

theorem Value.items_eq_map (code : γ → List Item) (vs : List (Value γ)) :
    Value.items code vs = vs.map (Value.item code) := by
  induction vs with
  | nil => rfl
  | cons v vs ih => simp [Value.items, ih]

@[simp] theorem Value.length_items (code : γ → List Item) (vs : List (Value γ)) :
    (Value.items code vs).length = vs.length := by
  simp [Value.items_eq_map]

/-! ## 2. What a value shows

The printed form of a value tells the label and the first name of a function and nothing of
its body, so it is the same for all ways of compiling. -/

mutual

theorem Value.print_item (c c' : γ → List Item) : (v : Value γ) →
    (v.item c).print = (v.item c').print
  | .literal l text => by simp [Value.item]
  | .tuple [] => by simp [Value.item, Value.items]
  | .tuple (v :: vs) => by
    simp only [Value.item, Value.items, Item.print_tuple_cons]
    rw [Value.print_item c c' v, Value.printRest_items c c' vs]
  | .builtin b args => by simp [Value.item, Item.print]
  | .closure ⟨label, names, code, scope⟩ => by
    simp [Value.item, Item.print, Lambda.closure, Closure.describe, Closure.firstName]
  | .recursive ⟨label, names, code, scope⟩ => by
    simp [Value.item, Item.print, Lambda.closure, Closure.describe, Closure.firstName]

theorem Value.printRest_items (c c' : γ → List Item) : (vs : List (Value γ)) →
    Item.printRest (Value.items c vs) = Item.printRest (Value.items c' vs)
  | [] => by simp [Value.items]
  | v :: vs => by
    simp only [Value.items, Item.printRest]
    rw [Value.print_item c c' v, Value.printRest_items c c' vs]

end

/-- The item of a value without the bodies of its functions. -/
def Value.bare (v : Value γ) : Item := v.item fun _ => []

theorem Value.face_item (c : γ → List Item) (v : Value γ) : (v.item c).face = v.bare.face := by
  cases v <;> rfl

theorem Value.kind_item (c : γ → List Item) (v : Value γ) : (v.item c).kind = v.bare.kind := by
  cases v <;> rfl

theorem Value.length_children_item (c : γ → List Item) (v : Value γ) :
    (v.item c).children.length = v.bare.children.length := by
  cases v <;> simp [Value.item, Value.bare, Item.tuple, Item.children]

theorem Value.mismatch_item (c : γ → List Item) (operation position expected : String)
    (v : Value γ) :
    (v.item c).mismatch operation position expected =
      v.bare.mismatch operation position expected := by
  cases v <;> rfl

/-- Whether a value is a tuple shows in its item. -/
theorem Value.kind_item_eq_tuple (c : γ → List Item) (v : Value γ) :
    (v.item c).kind = .tuple ↔ ∃ vs, v = .tuple vs := by
  cases v with
  | literal l text => cases l <;> simp [Value.item, Item.kind, Literal.kind]
  | tuple vs => simp [Value.item, Item.kind, Item.tuple]
  | _ => simp [Value.item, Item.kind]

/-- Bodies that copying leaves as they are. -/
def Settled (code : γ → List Item) : Prop := ∀ g, Item.copyAll (code g) = code g

mutual

/-- **The item of a value is its own copy**, if the bodies of its functions are. -/
theorem Value.copy_item {c : γ → List Item} (hc : Settled c) : (v : Value γ) →
    (v.item c).copy = v.item c
  | .literal l text => by
    have hl : l.kind ≠ .tuple := by cases l <;> decide
    simp [Value.item, Item.copy, Item.copyAll, hl]
  | .tuple vs => by
    simp only [Value.item, Item.tuple, Item.copy, if_true]
    rw [Value.copyAll_items hc vs]
  | .builtin b args => by
    simp only [Value.item, Item.copy, reduceCtorEq, if_false]
    rw [Value.copyAll_items hc args]
  | .closure ⟨label, names, code, scope⟩ => by
    simp only [Value.item, Item.copy, Lambda.closure, Closure.copy, hc code]
  | .recursive ⟨label, names, code, scope⟩ => by
    simp only [Value.item, Item.copy, Lambda.closure, Closure.copy, hc code]

theorem Value.copyAll_items {c : γ → List Item} (hc : Settled c) : (vs : List (Value γ)) →
    Item.copyAll (Value.items c vs) = Value.items c vs
  | [] => rfl
  | v :: vs => by
    simp only [Value.items, Item.copyAll]
    rw [Value.copy_item hc v, Value.copyAll_items hc vs]

end

/-! ## 3. Operations -/

namespace Value

/-- The value of a literal item. -/
def ofItem (i : Item) : Value γ := .literal ((Literal.ofKind? i.kind).getD .dummy) i.text

theorem item_ofItem (c : γ → List Item) {i : Item} (h : i.IsLiteral) :
    (ofItem i : Value γ).item c = i := by
  obtain ⟨l, text, rfl⟩ := h
  simp [ofItem, item, Item.kind, Item.text]

/-- The result of an operator of one operand. -/
def unary (op : UnaryOperator) (x : Value γ) : Except Failure (Value γ) :=
  (op.apply x.bare).map ofItem

/-- The result of an operator of two operands. -/
def binary (op : BinaryOperator) (x y : Value γ) : Except Failure (Value γ) :=
  match op, x with
  | .aug, .tuple xs => .ok (.tuple (xs ++ [y]))
  | op, x => (op.apply x.bare y.bare).map ofItem

/-- The component of a tuple at an index, from 1. -/
def select (xs : List (Value γ)) (index : Value γ) : Except Failure (Value γ) := do
  if index.bare.kind = .integer then
    let n ← index.bare.integer
    match if 1 ≤ n then xs[n.toNat - 1]? else none with
    | some x => .ok x
    | none => .error (.fault (.indexOutOfRange n (tuple xs).bare.print))
  else .error (index.bare.mismatch "Tuple selection" "index" "integer")

/-- What a built-in function makes of values that it passes on. -/
def passed? (b : Builtin) (args : List (Value γ)) : Option (Value γ) :=
  match b, args with
  | .conc, [.tuple xs, .tuple ys] => some (.tuple (xs ++ ys))
  | .identity, [x] => some x
  | _, _ => none

/-- The result of a built-in function with all its arguments, and the text it writes. -/
def applyAll (b : Builtin) (args : List (Value γ)) : Except Failure (Value γ × String) :=
  match passed? b args with
  | some v => .ok (v, "")
  | none => (b.apply (args.map bare)).map fun (r, text) => (ofItem r, text)

end Value

/-- The scope in which the body of a function is evaluated: a new frame within the scope of the
function, with the names of the parameter bound to an argument. -/
def Lambda.bind (f : Lambda γ) (argument : Value γ) : Except Failure (Scope γ) :=
  let scope := Scope.frame f.scope
  let self := (f.closure fun _ => []).describe "lambda"
  match f.names with
  | [] => .ok scope
  | [name] => .ok (.binding name argument scope)
  | names =>
    match argument with
    | .tuple vs =>
      if vs.length = names.length then .ok (scope.bindAll (names.zip vs))
      else .error (.fault (.wrongCount self names.length vs.length))
    | argument =>
      .error (argument.bare.mismatch self "argument" ("tuple of " ++ toString names.length))

/-- The value of a name: its binding, or else the built-in function of that name. -/
def Scope.value (name : Variable) (scope : Scope γ) : Except Failure (Value γ) :=
  match scope.lookup? name with
  | some v => .ok v
  | none =>
    match name.bind Builtin.ofName? with
    | some b => .ok (.builtin b [])
    | none => .error (.fault (.unbound name))

/-! ## 4. Operations and items -/

section Items

variable {c : γ → List Item}

/-- A result that is a literal for the machine is the same for an evaluation. -/
theorem map_item_ofItem {r : Except Failure Item} (h : ∀ v, r = .ok v → v.IsLiteral) :
    (r.map Value.ofItem).map (Value.item c) = r := by
  cases r with
  | ok v => simp [Except.map, Value.item_ofItem c (h v rfl)]
  | error f => rfl

theorem Value.item_unary (op : UnaryOperator) (x : Value γ) :
    (Value.unary op x).map (Value.item c) = op.apply (x.item c) := by
  have hlit : ∀ v, op.apply x.bare = .ok v → v.IsLiteral :=
    fun v hv => ((op.answers_apply _).of_ok hv).isLiteral
  rw [Value.unary, map_item_ofItem hlit, ← op.apply_face x.bare, ← op.apply_face (x.item c),
    Value.face_item]

theorem Value.item_binary_of_ne {op : BinaryOperator} (h : op ≠ .aug) (x y : Value γ) :
    ((op.apply x.bare y.bare).map Value.ofItem).map (Value.item c) =
      op.apply (x.item c) (y.item c) := by
  have hlit : ∀ v, op.apply x.bare y.bare = .ok v → v.IsLiteral :=
    fun v hv => ((BinaryOperator.answers_apply h).of_ok hv).isLiteral
  rw [map_item_ofItem hlit, ← BinaryOperator.apply_face h x.bare,
    ← BinaryOperator.apply_face h (x.item c), Value.face_item, Value.face_item]

/-- **The operators on values are those on items.** -/
theorem Value.item_binary (hc : Settled c) (op : BinaryOperator) (x y : Value γ) :
    (Value.binary op x y).map (Value.item c) = op.apply (x.item c) (y.item c) := by
  by_cases h : op = .aug
  · subst h
    simp only [BinaryOperator.apply, BinaryOperator.augment_eq]
    by_cases hx : ∃ vs, x = .tuple vs
    · obtain ⟨vs, rfl⟩ := hx
      simp [Value.binary, Except.map, Value.item, Item.tuple, Item.kind, Item.children,
        Value.copy_item hc, Value.items_eq_map]
    · have hk : (x.item c).kind ≠ .tuple := by
        rwa [ne_eq, Value.kind_item_eq_tuple]
      have hb : x.bare.kind ≠ .tuple := by
        rwa [← Value.kind_item c]
      have hbin : Value.binary .aug x y =
          (BinaryOperator.aug.apply x.bare y.bare).map Value.ofItem := by
        cases x with
        | tuple vs => exact absurd ⟨vs, rfl⟩ hx
        | _ => rfl
      rw [hbin]
      simp [BinaryOperator.apply, BinaryOperator.augment_eq, hk, hb, Except.map,
        Value.mismatch_item c]
  · have hbin : Value.binary op x y = (op.apply x.bare y.bare).map Value.ofItem := by
      cases op with
      | aug => exact absurd rfl h
      | _ => rfl
    rw [hbin, Value.item_binary_of_ne h]

theorem Value.integer_item (v : Value γ) : (v.item c).integer = v.bare.integer := by
  cases v <;> rfl

theorem Value.getElem?_items (vs : List (Value γ)) (n : Nat) :
    (Value.items c vs)[n]? = vs[n]?.map (Value.item c) := by
  rw [Value.items_eq_map, List.getElem?_map]

/-- Selecting from a tuple of values is selecting from its item. -/
theorem Value.item_select (xs : List (Value γ)) (index : Value γ) :
    (Value.select xs index).map (Value.item c) =
      Machine.select ((Value.tuple xs).item c) (index.item c) := by
  have hp : ((Value.tuple xs).item c).print = (Value.tuple xs).bare.print :=
    Value.print_item _ _ _
  simp only [Value.select, Machine.select, Value.kind_item c index, Value.integer_item,
    Value.mismatch_item c, hp]
  by_cases hk : index.bare.kind = .integer
  · simp only [hk, if_true]
    cases index.bare.integer with
    | error f => rfl
    | ok n =>
      simp only [bind, Except.bind]
      by_cases hn : 1 ≤ n
      · have hg : ((Value.tuple xs).item c).children[n.toNat - 1]? =
            xs[n.toNat - 1]?.map (Value.item c) := Value.getElem?_items xs _
        simp only [hn, if_true, hg]
        cases xs[n.toNat - 1]? <;> rfl
      · simp only [hn, if_false]
        rfl
  · simp only [hk, if_false]
    rfl

theorem Value.item_applyOne {b : Builtin} (hb : b ≠ .identity) (x : Value γ) :
    ((b.apply [x.bare]).map fun (r, text) => ((Value.ofItem r : Value γ), text)).map
        (fun (v, text) => (v.item c, text)) =
      b.apply [x.item c] := by
  have hone : b.applyOne (x.item c) = b.applyOne x.bare :=
    Builtin.applyOne_congr hb (x.face_item c) (x.length_children_item c)
  have hw : Builtin.written (x.item c) = Builtin.written x.bare := by
    rw [Builtin.written, Builtin.written, Value.print_item c fun _ => []]
    rfl
  rw [Builtin.apply_singleton, Builtin.apply_singleton, hone, hw]
  have hlit := Builtin.answers_applyOne hb x.bare
  generalize b.applyOne x.bare = r at hlit
  cases hlit with
  | ok h => simp [bind, Except.bind, Except.map, Value.item_ofItem c h.isLiteral]
  | error h => rfl

theorem Value.item_concatenate (hc : Settled c) (x y : Value γ) :
    (Value.applyAll .conc [x, y]).map (fun (v, text) => (v.item c, text)) =
      Builtin.conc.apply [x.item c, y.item c] := by
  by_cases hxy : (∃ xs, x = .tuple xs) ∧ ∃ ys, y = .tuple ys
  · obtain ⟨⟨xs, rfl⟩, ys, rfl⟩ := hxy
    have hcopy : (Value.items c (xs ++ ys)).map Item.copy = Value.items c (xs ++ ys) := by
      rw [← Item.copyAll_eq_map, Value.copyAll_items hc]
    have hcat : Value.items c xs ++ Value.items c ys = Value.items c (xs ++ ys) := by
      simp [Value.items_eq_map]
    simp only [Value.applyAll, Value.passed?, Builtin.apply, Builtin.concatenate, Except.map,
      bind, Except.bind, Value.item, Item.tuple, Item.kind, Item.children, hcat, hcopy]
  · have hk : ¬ ((x.item c).kind = .tuple ∧ (y.item c).kind = .tuple) := by
      rwa [Value.kind_item_eq_tuple, Value.kind_item_eq_tuple]
    have hb : ¬ (x.bare.kind = .tuple ∧ y.bare.kind = .tuple) := by
      rwa [← Value.kind_item c x, ← Value.kind_item c y]
    have happly : Value.applyAll .conc [x, y] =
        (Builtin.conc.apply [x.bare, y.bare]).map fun (r, text) => (Value.ofItem r, text) := by
      cases x with
      | tuple xs =>
        cases y with
        | tuple ys => exact absurd ⟨⟨xs, rfl⟩, ys, rfl⟩ hxy
        | _ => rfl
      | _ => rfl
    -- two operands that are not both tuples show all that matters in their faces
    have hface : Builtin.concatenate (x.item c) (y.item c) =
        Builtin.concatenate x.bare y.bare := by
      rw [← Builtin.concatenate_face hk, ← Builtin.concatenate_face hb, Value.face_item,
        Value.face_item]
    have hlit : Answers (Builtin.conc.Fails [x.bare, y.bare]) Item.IsLiteral
        (Builtin.concatenate x.bare y.bare) := by
      refine (Builtin.answers_concatenate _ _).mono (fun _ => id) fun r hr => ?_
      rcases hr with h | ⟨hx, hy, -⟩
      · exact h.isLiteral
      · exact absurd ⟨hx, hy⟩ hb
    rw [happly]
    simp only [Builtin.apply, hface]
    generalize Builtin.concatenate x.bare y.bare = r at hlit
    cases hlit with
    | ok h => simp [bind, Except.bind, Except.map, Value.item_ofItem c h]
    | error h => rfl

/-- **The built-in functions on values are those on items.** -/
theorem Value.item_applyAll (hc : Settled c) (b : Builtin) (args : List (Value γ)) :
    (Value.applyAll b args).map (fun (v, text) => (v.item c, text)) =
      b.apply (Value.items c args) := by
  match args with
  | [] => cases b <;> rfl
  | [x] =>
    by_cases hb : b = .identity
    · subst hb
      simp [Value.applyAll, Value.passed?, Builtin.apply, Builtin.applyOne, Except.map, bind,
        Except.bind, Value.items, Value.copy_item hc, Builtin.writes]
    · have happly : Value.applyAll b [x] =
          (b.apply [x.bare]).map fun (r, text) => (Value.ofItem r, text) := by
        cases b with
        | identity => exact absurd rfl hb
        | conc => cases x <;> rfl
        | _ => rfl
      rw [happly, Value.item_applyOne hb]
      rfl
  | [x, y] =>
    by_cases hb : b = .conc
    · subst hb
      exact Value.item_concatenate hc x y
    · cases b with
      | conc => exact absurd rfl hb
      | _ => rfl
  | x :: y :: z :: rest =>
    cases b with
    | conc => cases x <;> cases y <;> rfl
    | _ => rfl

/-- Looking a name up finds the item of its value. -/
theorem Scope.lookup?_env (hc : Settled c) (name : Variable) (scope : Scope γ) :
    (scope.env c).lookup? name = (scope.lookup? name).map (Value.item c) := by
  match scope with
  | .empty => rfl
  | .frame outer => exact Scope.lookup?_env hc name outer
  | .binding n value rest =>
    have ih := Scope.lookup?_env hc name rest
    by_cases h : n = name
    · simp [Scope.env, Env.lookup?, Env.binding?, Scope.lookup?, h, Value.copy_item hc]
    · simpa [Scope.env, Env.lookup?, Env.binding?, Scope.lookup?, h] using ih

theorem Scope.env_bindAll (hc : Settled c) (scope : Scope γ) (names : List Variable)
    (vs : List (Value γ)) :
    (scope.bindAll (names.zip vs)).env c =
      (scope.env c).defineAll (names.zip (Value.items c vs)) := by
  induction names generalizing scope vs with
  | nil => rfl
  | cons name names ih =>
    cases vs with
    | nil => rfl
    | cons v vs =>
      have := ih (.binding name v scope) vs
      simp only [Scope.bindAll, Env.defineAll, Value.items, List.zip_cons_cons,
        List.foldl_cons] at this ⊢
      rw [this]
      simp [Scope.env, Env.define, Value.copy_item hc]

/-- **Binding a parameter** extends the scope as entering the function extends its
environment. -/
theorem Lambda.env_bind (hc : Settled c) (f : Lambda γ) (argument : Value γ) :
    (f.bind argument).map (Scope.env c) =
      Machine.parameters (f.closure c) (argument.item c) := by
  obtain ⟨label, names, body, scope⟩ := f
  match names with
  | [] => rfl
  | [name] =>
    simp [Lambda.bind, Machine.parameters, Lambda.closure, Except.map, Scope.env, Env.define,
      Value.copy_item hc]
  | x :: y :: rest =>
    by_cases h : ∃ vs, argument = .tuple vs
    · obtain ⟨vs, rfl⟩ := h
      have hl : ((Value.tuple vs).item c).children.length = vs.length := Value.length_items c vs
      have hk : ((Value.tuple vs).item c).kind = .tuple := rfl
      simp only [Lambda.bind, Machine.parameters, Lambda.closure, hk, hl, if_true]
      by_cases hlen : vs.length = (x :: y :: rest).length
      · simp only [hlen, if_true, Except.map]
        rw [Scope.env_bindAll hc]
        rfl
      · simp only [hlen, if_false]
        rfl
    · have hk : ((argument.item c).kind = .tuple) = False := by
        rw [eq_iff_iff, iff_false, Value.kind_item_eq_tuple]
        exact h
      simp only [Machine.parameters, Lambda.closure, hk, if_false, Value.mismatch_item c]
      cases argument with
      | tuple vs => exact absurd ⟨vs, rfl⟩ h
      | _ => rfl

end Items

end Rpal
