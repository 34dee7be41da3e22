/-
# Tuples and strings as sequences

A tuple is the sequence of its components and a string that of its characters.  `Conc` puts two of
them one behind the other, `aug` adds a component at the end, and an application of a tuple to an
index, from 1, selects a component:

    Conc a b i      a i             up to  Order a
                    b (i - Order a)     behind that
    (a aug v) i     a i             up to  Order a
                    v               at     Order a + 1

The laws are about what the machine does: `Computes` says that some instructions replace the values
on top of the stack by another, in whatever state, and `Raises` that they fail.  They hold for
indices that can be read.  A numeral of more digits selects nothing, and is no fault either
(`sequence_laws`).
-/
import Rpal.Proofs.Evaluation.Core
import Rpal.Proofs.Item.Copying
import Rpal.Proofs.Machine.Steps
import Rpal.Proofs.Operator.Exactness

namespace Rpal

open Number

/-! ## 1. What instructions compute -/

namespace Machine

/-- The state with further instructions on its control and further values on its stack. -/
def loaded (code args : List Item) (m : Machine) : Machine :=
  { m with control := code ++ m.control, values := args ++ m.values }

/-- In any state, the instructions take the values from the stack and leave another in their place.
Nothing else changes. -/
def Computes (code args : List Item) (v : Item) : Prop :=
  ∀ m : Machine, Steps code.length (m.loaded code args)
    { m with values := v :: m.values, steps := m.steps + code.length }

/-- In any state, one of the instructions fails, and nothing has been written. -/
def Raises (code args : List Item) (f : Failure) : Prop :=
  ∀ m : Machine, ∃ n last, n < code.length ∧ Steps n (m.loaded code args) last ∧ Fails last f ∧
    last.output = m.output

/-- One application after another of a function to arguments. -/
def applications (args : List Item) : List Item := args.map fun _ => .plain .gamma

/-- Applied to the arguments one after the other, the function returns the value. -/
def Returns (function : Item) (args : List Item) (v : Item) : Prop :=
  Computes (applications args) (function :: args) v

/-- Applied to the arguments one after the other, the function fails. -/
def Rejects (function : Item) (args : List Item) (f : Failure) : Prop :=
  Raises (applications args) (function :: args) f

/-- The operator has the value for the operands. -/
def Operates (op : BinaryOperator) (x y v : Item) : Prop := Computes [.plain op.kind] [x, y] v

/-- A chain of steps leads to one state. -/
theorem Steps.unique {n : ℕ} {m a b : Machine} (ha : Steps n m a) (hb : Steps n m b) : a = b := by
  induction ha with
  | refl m =>
    cases hb
    rfl
  | head _ hstep _ ih =>
    cases hb with
    | head _ hstep' hrest =>
      rw [hstep, Except.ok.injEq] at hstep'
      subst hstep'
      exact ih hrest

/-- **Instructions compute one value.** -/
theorem Computes.iff_eq {code args : List Item} {v w : Item} (h : Computes code args v) :
    Computes code args w ↔ w = v := by
  constructor
  · intro hw
    have hvalues := congrArg Machine.values ((h (start default)).unique (hw (start default)))
    exact (List.cons.inj hvalues).1.symm
  · rintro rfl
    exact h

section Single

variable {i v : Item} {args : List Item} {r : Except Failure Item} {f : Failure}

/-- The instruction replaces the values by a result that depends on them alone. -/
def HasResult (i : Item) (args : List Item) (r : Except Failure Item) : Prop :=
  ∀ m : Machine, execute i { m with values := args ++ m.values } = r >>= fun v => .ok (m.push v)

theorem HasResult.step (h : HasResult i args r) (m : Machine) :
    (m.loaded [i] args).step = r >>= fun v => .ok (push v { m with steps := m.steps + 1 }) :=
  h { m with steps := m.steps + 1 }

/-- **An instruction computes its result**, -/
theorem HasResult.computes_iff (h : HasResult i args r) : Computes [i] args v ↔ r = .ok v := by
  constructor
  · intro hv
    cases hv (start default) with
    | head _ hstep hrest =>
      rw [h.step] at hstep
      obtain ⟨w, rfl, hw⟩ := bind_eq_ok_iff.mp hstep
      cases hrest
      cases hw
      rfl
  · rintro rfl m
    exact .head (List.cons_ne_nil _ _) (h.step m) (.refl _)

/-- **and it fails if there is none.** -/
theorem HasResult.raises_iff (h : HasResult i args r) : Raises [i] args f ↔ r = .error f := by
  constructor
  · intro hf
    obtain ⟨n, last, hn, hsteps, ⟨-, hfails⟩, -⟩ := hf (start default)
    obtain rfl : n = 0 := Nat.lt_one_iff.mp hn
    cases hsteps
    rw [h.step] at hfails
    cases r with
    | ok v => cases hfails
    | error e =>
      cases hfails
      rfl
  · rintro rfl m
    exact ⟨0, _, Nat.zero_lt_one, .refl _, ⟨List.cons_ne_nil _ _, h.step m⟩, rfl⟩

end Single

/-- An operator has the result of its operands. -/
theorem hasResult_operator (op : BinaryOperator) (x y : Item) :
    HasResult (.plain op.kind) [x, y] (op.apply x y) := by
  intro m
  cases op <;> rfl

theorem operates_iff {op : BinaryOperator} {x y v : Item} :
    Operates op x y v ↔ op.apply x y = .ok v :=
  (hasResult_operator op x y).computes_iff

/-- A tuple selects a component. -/
theorem hasResult_tuple (components : List Item) (i : Item) :
    HasResult (.plain .gamma) [.tuple components, i] (select (.tuple components) i) :=
  fun _ => rfl

end Machine

/-- A built-in function as a value, without arguments. -/
def Builtin.item (b : Builtin) : Item := .literal .identifier b.name

namespace Machine

theorem applyTo_builtin (b : Builtin) (args : List Item) (x : Item) (m : Machine) :
    applyTo (.node .identifier (some b.name) args 0) x m =
      m.applyBuiltin b (.node .identifier (some b.name) args 0) x := by
  have hb : builtin? (.node .identifier (some b.name) args 0) = some b := b.ofName?_name
  simp only [applyTo, hb]

/-- A built-in function of one argument that writes nothing has the result of its argument. -/
theorem hasResult_builtin {b : Builtin} (harity : b.arity = 1) (hwrites : b.writes = false)
    (x : Item) : HasResult (.plain .gamma) [b.item, x] (b.applyOne x) := by
  intro m
  have hbuiltin : execute (.plain .gamma) { m with values := [b.item, x] ++ m.values } =
      m.applyBuiltin b b.item x := applyTo_builtin b [] x m
  have happly : b.apply [x] = b.applyOne x >>= fun v => .ok (v, "") := by
    simp only [Builtin.apply_singleton, hwrites, Bool.false_eq_true, if_false]
  have hcomplete : ¬ (b.item.children ++ [x]).length < b.arity := by
    rw [harity]
    exact Nat.lt_irrefl 1
  rw [hbuiltin, applyBuiltin, if_neg hcomplete]
  change (b.apply [x] >>= _) = _
  rw [happly]
  cases b.applyOne x with
  | error f => rfl
  | ok v =>
    change Except.ok (push v { m with output := m.output ++ "" }) = .ok (m.push v)
    rw [String.append_empty]

theorem returns_builtin_iff {b : Builtin} (harity : b.arity = 1) (hwrites : b.writes = false)
    {x v : Item} : Returns b.item [x] v ↔ b.applyOne x = .ok v :=
  (hasResult_builtin harity hwrites x).computes_iff

/-- `Conc` waits for its second argument. -/
theorem returns_conc {x y v : Item} (h : Builtin.concatenate x y = .ok v) :
    Returns Builtin.conc.item [x, y] v := by
  intro m
  have hsecond : applyTo (.node .identifier (some Builtin.conc.name) [x] 0) y
      { m with steps := m.steps + 1 + 1 } =
        .ok { m with values := v :: m.values, steps := m.steps + 2 } := by
    rw [applyTo_builtin]
    change (Builtin.apply .conc [x, y] >>= _) = _
    rw [Builtin.apply, h]
    change Except.ok (push v { m with output := m.output ++ "", steps := m.steps + 1 + 1 }) = _
    rw [String.append_empty]
    rfl
  exact .head (List.cons_ne_nil _ _) (applyTo_builtin .conc [] x _)
    (.head (List.cons_ne_nil _ _) hsecond (.refl _))

end Machine

/-! ## 2. Tuples -/

namespace Item

theorem PlainTuplesAll.append {is js : List Item} (hi : PlainTuplesAll is)
    (hj : PlainTuplesAll js) : PlainTuplesAll (is ++ js) := by
  induction is with
  | nil => exact hj
  | cons i is ih => exact ⟨hi.1, ih hi.2⟩

/-- Items whose tuples have components and nothing else are their own copies. -/
theorem PlainTuplesAll.map_copy {is : List Item} (h : PlainTuplesAll is) :
    is.map Item.copy = is := by
  rw [← copyAll_eq_map, copyAll_eq_self_iff]
  exact h

theorem writes_int (n : ℤ) : (int n).Writes (integerText n) :=
  ⟨rfl, rfl, isNumeral_integerText n⟩

theorem int_inj {m n : ℤ} : int m = int n ↔ m = n := by
  constructor
  · intro h
    have htext : integerText m = integerText n := Option.some.inj (congrArg Item.text h)
    rw [← numeralValue_integerText m, htext, numeralValue_integerText]
  · rintro rfl
    rfl

end Item

namespace Machine

open Item BinaryOperator

section Tuples

variable {a b : List Item} {v x : Item}

theorem returns_conc_tuple (ha : PlainTuplesAll a) (hb : PlainTuplesAll b) :
    Returns Builtin.conc.item [.tuple a, .tuple b] (.tuple (a ++ b)) := by
  refine returns_conc ?_
  change Except.ok (Item.tuple ((a ++ b).map Item.copy)) = _
  rw [(ha.append hb).map_copy]

theorem operates_aug (ha : PlainTuplesAll a) (hv : v.PlainTuples) :
    Operates .aug (.tuple a) v (.tuple (a ++ [v])) := by
  have hkinds : checkOperands "aug" "tuple" [.tuple] [.tuple a] = .ok () :=
    checkOperands_one _ _ _ _
  rw [operates_iff, apply, augment, hkinds, ok_bind]
  change Except.ok (Item.tuple (a.map Item.copy ++ [v.copy])) = _
  rw [ha.map_copy, (copy_eq_self_iff v).mpr hv]

theorem returns_order_iff :
    Returns Builtin.order.item [.tuple a] x ↔ Fits a.length ∧ x = .int a.length := by
  have hkind : (Item.tuple a).kind = .tuple := rfl
  rw [returns_builtin_iff rfl rfl, Builtin.applyOne, Builtin.components, if_pos hkind, ok_bind,
    Item.tuple, Item.children, ofInteger_eq_ok_iff]

theorem returns_null : Returns Builtin.null.item [.tuple a] (.truth a.isEmpty) :=
  (returns_builtin_iff rfl rfl).mpr rfl

end Tuples

/-! ## 3. Selection -/

section Selection

variable {a : List Item} {i x : Item} {s : String} {n : ℤ} {f : Failure}

/-- **The component at an index** that can be read, or the fault. -/
theorem select_eq_of_integer (hk : i.kind = .integer) (hn : i.integer = .ok n) :
    select (.tuple a) i =
      if 1 ≤ n then
        match a[n.toNat - 1]? with
        | some x => .ok x
        | none => .error (.fault (.indexOutOfRange n (tuple a).print))
      else .error (.fault (.indexOutOfRange n (tuple a).print)) := by
  rw [select, if_pos hk, hn, ok_bind]
  rfl

/-- An index selects a component if it is one of the numbers from 1 to the length. -/
theorem select_eq_ok_iff (hk : i.kind = .integer) (hn : i.integer = .ok n) :
    select (.tuple a) i = .ok x ↔ 1 ≤ n ∧ a[n.toNat - 1]? = some x := by
  rw [select_eq_of_integer hk hn]
  by_cases hpos : 1 ≤ n
  · rw [if_pos hpos, and_iff_right hpos]
    cases a[n.toNat - 1]? with
    | none => exact iff_of_false nofun nofun
    | some y => simp only [Except.ok.injEq, Option.some.injEq]
  · rw [if_neg hpos]
    exact iff_of_false nofun fun h => hpos h.1

/-- Every other index is a fault. -/
theorem select_eq_error_iff (hk : i.kind = .integer) (hn : i.integer = .ok n) :
    select (.tuple a) i = .error f ↔
      (n < 1 ∨ a.length < n) ∧ f = .fault (.indexOutOfRange n (tuple a).print) := by
  rw [select_eq_of_integer hk hn]
  by_cases hpos : 1 ≤ n
  · rw [if_pos hpos]
    by_cases hlast : n ≤ a.length
    · have hlt : n.toNat - 1 < a.length := by omega
      rw [List.getElem?_eq_getElem hlt]
      exact iff_of_false nofun fun h => by omega
    · have hnone : a[n.toNat - 1]? = none := List.getElem?_eq_none (by omega)
      rw [hnone, and_iff_right (.inr (by omega)), Except.error.injEq, eq_comm]
  · rw [if_neg hpos, and_iff_right (.inl (by omega)), Except.error.injEq, eq_comm]

/-- An index that is not read selects nothing, and it is no fault either. -/
theorem select_of_long (hi : i.Writes s) (hs : ¬ IsShort s) :
    select (.tuple a) i = .error (.ofConversion .tooManyDigits) := by
  have hread : readInteger s = .error .tooManyDigits := by
    rcases hi.numeral.read with ⟨n, hn⟩ | ⟨herror, -⟩
    · exact absurd (hi.numeral.readInteger_eq_ok_iff.mp hn).1 hs
    · exact herror
  have hinteger : i.integer = .error (.ofConversion .tooManyDigits) := by
    rw [integer, hi.text]
    simp only [hread]
    rfl
  rw [select, if_pos hi.kind, hinteger]
  rfl

end Selection

end Machine

/-! ## 4. Laws -/

namespace Machine

open Item BinaryOperator

/-- `Conc`, `aug`, `Order` and `Null` on tuples. -/
structure TupleLaws (a b c : List Item) (v : Item) : Prop where
  conc : Returns Builtin.conc.item [.tuple a, .tuple b] (.tuple (a ++ b))
  conc_assoc : ∃ x y z, Returns Builtin.conc.item [.tuple a, .tuple b] x ∧
    Returns Builtin.conc.item [.tuple b, .tuple c] y ∧
    Returns Builtin.conc.item [x, .tuple c] z ∧ Returns Builtin.conc.item [.tuple a, y] z
  conc_nil : Returns Builtin.conc.item [.tuple a, .tuple []] (.tuple a)
  nil_conc : Returns Builtin.conc.item [.tuple [], .tuple a] (.tuple a)
  aug : Operates .aug (.tuple a) v (.tuple (a ++ [v]))
  order : Fits a.length → Returns Builtin.order.item [.tuple a] (.int a.length)
  order_conc : ∀ t x y z, Returns Builtin.conc.item [.tuple a, .tuple b] t →
    Returns Builtin.order.item [.tuple a] x → Returns Builtin.order.item [.tuple b] y →
    (Returns Builtin.order.item [t] z ↔ Operates .plus x y z)
  order_aug : ∀ t x z, Operates .aug (.tuple a) v t → Returns Builtin.order.item [.tuple a] x →
    (Returns Builtin.order.item [t] z ↔ Operates .plus x (.int 1) z)
  null : ∃ isNull, Returns Builtin.null.item [.tuple a] (.truth isNull)
  null_iff : Returns Builtin.null.item [.tuple a] (.truth true) ↔
    Returns Builtin.order.item [.tuple a] (.int 0)

/-- Selection from tuples, from what `Conc` makes of two and from what `aug` makes of one.  The
index is an integer and writes the number. -/
structure SelectionLaws (a b : List Item) (v i : Item) (n : ℤ) : Prop where
  component : ∀ x, Returns (.tuple a) [i] x ↔ 1 ≤ n ∧ a[n.toNat - 1]? = some x
  fault : ∀ f, Rejects (.tuple a) [i] f ↔
    (n < 1 ∨ a.length < n) ∧ f = .fault (.indexOutOfRange n (tuple a).print)
  conc_left : n ≤ a.length → ∀ t, Returns Builtin.conc.item [.tuple a, .tuple b] t →
    ∀ x, Returns t [i] x ↔ Returns (.tuple a) [i] x
  conc_right : a.length < n → ∀ t, Returns Builtin.conc.item [.tuple a, .tuple b] t →
    ∃ k j, Returns Builtin.order.item [.tuple a] k ∧ Operates .minus i k j ∧
      ∀ x, Returns t [i] x ↔ Returns (.tuple b) [j] x
  aug_left : n ≤ a.length → ∀ t, Operates .aug (.tuple a) v t →
    ∀ x, Returns t [i] x ↔ Returns (.tuple a) [i] x
  aug_last : n = a.length + 1 → ∀ t, Operates .aug (.tuple a) v t → Returns t [i] v

/-- `Conc`, `Stem` and `Stern` on strings. -/
structure StringLaws (s t u : String) : Prop where
  conc : Returns Builtin.conc.item [.string s, .string t] (.string (s ++ t))
  conc_assoc : ∃ x y z, Returns Builtin.conc.item [.string s, .string t] x ∧
    Returns Builtin.conc.item [.string t, .string u] y ∧
    Returns Builtin.conc.item [x, .string u] z ∧ Returns Builtin.conc.item [.string s, y] z
  conc_empty : Returns Builtin.conc.item [.string s, .string ""] (.string s)
  empty_conc : Returns Builtin.conc.item [.string "", .string s] (.string s)
  fault : ∀ b ∈ [Builtin.stem, Builtin.stern], ∀ f,
    Rejects b.item [.string s] f ↔ s = "" ∧ f = .fault (.emptyString b.name)
  split : s ≠ "" → ∃ x y, Returns Builtin.stem.item [.string s] x ∧
    Returns Builtin.stern.item [.string s] y ∧ Returns Builtin.conc.item [x, y] (.string s)

theorem operates_arithmetic_int_iff {op : BinaryOperator} {f : ℤ → ℤ → ℤ}
    (hop : ∀ x y, op.apply x y = op.arithmetic f x y) {m n : ℤ} (hm : Fits m) (hn : Fits n)
    {v : Item} : Operates op (.int m) (.int n) v ↔ Fits (f m n) ∧ v = .int (f m n) := by
  rw [operates_iff, hop, arithmetic_eq_ok_iff (writes_int m) (writes_int n)]
  simp only [isShort_integerText, numeralValue_integerText, hm, hn, true_and]

section Laws

variable {a b c : List Item} {v i : Item} {s : String}

theorem tupleLaws (ha : PlainTuplesAll a) (hb : PlainTuplesAll b) (hc : PlainTuplesAll c)
    (hv : v.PlainTuples) : TupleLaws a b c v where
  conc := returns_conc_tuple ha hb
  conc_assoc := by
    refine ⟨_, _, .tuple (a ++ b ++ c), returns_conc_tuple ha hb, returns_conc_tuple hb hc,
      returns_conc_tuple (ha.append hb) hc, ?_⟩
    rw [List.append_assoc]
    exact returns_conc_tuple ha (hb.append hc)
  conc_nil := by
    have hconc := returns_conc_tuple (b := []) ha trivial
    rwa [List.append_nil] at hconc
  nil_conc := returns_conc_tuple (a := []) trivial ha
  aug := operates_aug ha hv
  order h := returns_order_iff.mpr ⟨h, rfl⟩
  order_conc t x y z ht hx hy := by
    obtain rfl := (returns_conc_tuple ha hb).iff_eq.mp ht
    obtain ⟨hfits, rfl⟩ := returns_order_iff.mp hx
    obtain ⟨hfits', rfl⟩ := returns_order_iff.mp hy
    rw [returns_order_iff, operates_arithmetic_int_iff (fun _ _ => rfl) hfits hfits', List.length_append,
      Nat.cast_add]
  order_aug t x z ht hx := by
    obtain rfl := (operates_aug ha hv).iff_eq.mp ht
    obtain ⟨hfits, rfl⟩ := returns_order_iff.mp hx
    have hone : Fits 1 := fits_of_natAbs_le_one (le_refl 1)
    rw [returns_order_iff, operates_arithmetic_int_iff (fun _ _ => rfl) hfits hone,
      List.length_append, List.length_singleton, Nat.cast_add, Nat.cast_one]
  null := ⟨_, returns_null⟩
  null_iff := by
    have hzero : Fits 0 := fits_of_natAbs_le_one (Nat.zero_le 1)
    refine (Computes.iff_eq returns_null).trans (Iff.trans ?_ returns_order_iff.symm)
    cases a with
    | nil => exact iff_of_true rfl ⟨hzero, rfl⟩
    | cons x a =>
      refine iff_of_false nofun fun h => ?_
      have hlength := int_inj.mp h.2
      rw [List.length_cons] at hlength
      omega

theorem returns_tuple_iff {n : ℤ} (hk : i.kind = .integer) (hn : i.integer = .ok n) {x : Item} :
    Returns (.tuple a) [i] x ↔ 1 ≤ n ∧ a[n.toNat - 1]? = some x :=
  (hasResult_tuple a i).computes_iff.trans (select_eq_ok_iff hk hn)

theorem selectionLaws (ha : PlainTuplesAll a) (hb : PlainTuplesAll b) (hv : v.PlainTuples)
    (hi : i.Writes s) (hs : IsShort s) : SelectionLaws a b v i (numeralValue s) := by
  have hread : i.integer = .ok (numeralValue s) := hi.integer_eq_ok_iff.mpr ⟨hs, rfl⟩
  -- an index within the first tuple selects from it, whatever stands behind
  have hleft : ∀ c : List Item, numeralValue s ≤ a.length →
      ∀ x, Returns (.tuple (a ++ c)) [i] x ↔ Returns (.tuple a) [i] x := by
    intro c hle x
    rw [returns_tuple_iff hi.kind hread, returns_tuple_iff hi.kind hread]
    refine and_congr_right fun hpos => ?_
    rw [List.getElem?_append_left (by omega)]
  refine
    { component := fun x => returns_tuple_iff hi.kind hread
      fault := fun f =>
        (hasResult_tuple a i).raises_iff.trans (select_eq_error_iff hi.kind hread)
      conc_left := ?conc_left
      conc_right := ?conc_right
      aug_left := ?aug_left
      aug_last := ?aug_last }
  case conc_left =>
    intro hle t ht
    obtain rfl := (returns_conc_tuple ha hb).iff_eq.mp ht
    exact hleft b hle
  case conc_right =>
    intro hlt t ht
    obtain rfl := (returns_conc_tuple ha hb).iff_eq.mp ht
    have hsmaller : ∀ m : ℤ, 0 ≤ m → m ≤ numeralValue s → Fits m := fun m _ _ =>
      Nat.lt_of_le_of_lt (by omega)
        (natAbs_lt_of_readInteger (hi.numeral.readInteger_eq_ok_iff.mpr ⟨hs, rfl⟩))
    have hlength : Fits a.length := hsmaller _ (by omega) (by omega)
    have hdifference : Fits (numeralValue s - a.length) := hsmaller _ (by omega) (by omega)
    have hminus : Operates .minus i (int a.length) (int (numeralValue s - a.length)) := by
      rw [operates_iff, apply, arithmetic_eq_ok_iff hi (writes_int _), isShort_integerText,
        numeralValue_integerText]
      exact ⟨hs, hlength, hdifference, rfl⟩
    refine ⟨_, _, returns_order_iff.mpr ⟨hlength, rfl⟩, hminus, fun x => ?_⟩
    rw [returns_tuple_iff hi.kind hread, returns_tuple_iff rfl (integer_int hdifference)]
    have hindex : (numeralValue s).toNat - 1 - a.length =
        (numeralValue s - a.length).toNat - 1 := by omega
    rw [List.getElem?_append_right (by omega), hindex]
    exact and_congr_left' (by omega)
  case aug_left =>
    intro hle t ht
    obtain rfl := (operates_aug ha hv).iff_eq.mp ht
    exact hleft [v] hle
  case aug_last =>
    intro heq t ht
    obtain rfl := (operates_aug ha hv).iff_eq.mp ht
    refine (returns_tuple_iff hi.kind hread).mpr ⟨by omega, ?_⟩
    have hindex : (numeralValue s).toNat - 1 = a.length := by omega
    rw [hindex, List.getElem?_concat_length]

end Laws

theorem returns_conc_string (s t : String) :
    Returns Builtin.conc.item [.string s, .string t] (.string (s ++ t)) :=
  returns_conc rfl

theorem splitString_string (function s : String) :
    Builtin.splitString function (.string s) =
      match s.toList with
      | [] => .error (.fault (.emptyString function))
      | c :: rest => .ok (c, rest) := rfl

theorem stringLaws (s t u : String) : StringLaws s t u where
  conc := returns_conc_string s t
  conc_assoc := by
    refine ⟨_, _, .string (s ++ t ++ u), returns_conc_string s t, returns_conc_string t u,
      returns_conc_string _ u, ?_⟩
    rw [String.append_assoc]
    exact returns_conc_string s _
  conc_empty := by
    have hconc := returns_conc_string s ""
    rwa [String.append_empty] at hconc
  empty_conc := by
    have hconc := returns_conc_string "" s
    rwa [String.empty_append] at hconc
  fault b hb f := by
    have hresult : HasResult (.plain .gamma) [b.item, .string s] (b.applyOne (.string s)) := by
      simp only [List.mem_cons, List.not_mem_nil, or_false] at hb
      rcases hb with rfl | rfl <;> exact hasResult_builtin rfl rfl _
    refine hresult.raises_iff.trans ?_
    rw [← String.toList_eq_nil_iff]
    simp only [List.mem_cons, List.not_mem_nil, or_false] at hb
    cases hs : s.toList with
    | nil =>
      have hempty : b.applyOne (.string s) = .error (.fault (.emptyString b.name)) := by
        rcases hb with rfl | rfl <;>
          simp only [Builtin.applyOne, splitString_string, hs] <;> rfl
      rw [hempty, Except.error.injEq, eq_comm, and_iff_right rfl]
    | cons c rest =>
      refine iff_of_false (fun h => ?_) fun h => absurd h.1 (List.cons_ne_nil c rest)
      rcases hb with rfl | rfl <;>
        simp only [Builtin.applyOne, splitString_string, hs] at h <;> cases h
  split hs := by
    cases hchars : s.toList with
    | nil => exact absurd (String.toList_eq_nil_iff.mp hchars) hs
    | cons c rest =>
      refine ⟨.string (String.singleton c), .string (String.ofList rest), ?_, ?_, ?_⟩
      · rw [returns_builtin_iff rfl rfl, Builtin.applyOne, splitString_string, hchars]
        rfl
      · rw [returns_builtin_iff rfl rfl, Builtin.applyOne, splitString_string, hchars]
        rfl
      · have hjoin : String.singleton c ++ String.ofList rest = s := by
          rw [← String.toList_inj, String.toList_append, String.toList_singleton,
            String.toList_ofList, hchars]
          rfl
        have hconc := returns_conc_string (String.singleton c) (String.ofList rest)
        rwa [hjoin] at hconc

end Machine

open Machine in
/-- **Tuples and strings are sequences**, as far as indices can be read.  The tuples inside the
components have components and nothing else, as those of programs do. -/
theorem sequence_laws {a b c : List Item} (ha : Item.PlainTuplesAll a) (hb : Item.PlainTuplesAll b)
    (hc : Item.PlainTuplesAll c) {v : Item} (hv : v.PlainTuples) {i : Item} {s : String}
    (hi : i.Writes s) (t u w : String) :
    TupleLaws a b c v ∧
      (IsShort s → SelectionLaws a b v i (numeralValue s)) ∧
      (¬ IsShort s → Rejects (.tuple a) [i] (.ofConversion .tooManyDigits)) ∧
      StringLaws t u w := by
  refine ⟨tupleLaws ha hb hc hv, fun hs => selectionLaws ha hb hv hi hs, fun hs => ?_,
    stringLaws t u w⟩
  exact (hasResult_tuple a i).raises_iff.mpr (select_of_long hi hs)

open Machine in
/-- A tuple that is added to another becomes its last component. -/
theorem sequence_laws_nested :
    let a := [Item.string "x"]
    let v := Item.tuple [Item.string "y", Item.string "z"]
    let i := Item.literal .integer "02"
    Item.PlainTuplesAll a ∧ v.PlainTuples ∧ i.Writes "02" ∧
      Operates .aug (.tuple a) v (.tuple [.string "x", v]) ∧
      Returns (.tuple [.string "x", v]) [i] v := by
  intro a v i
  have ha : Item.PlainTuplesAll a := ⟨⟨nofun, trivial⟩, trivial⟩
  have hv : v.PlainTuples :=
    ⟨fun _ => ⟨rfl, rfl⟩, ⟨nofun, trivial⟩, ⟨nofun, trivial⟩, trivial⟩
  have hi : i.Writes "02" := ⟨rfl, rfl, by decide⟩
  obtain ⟨htuples, hselection, -, -⟩ := sequence_laws ha ha ha hv hi "" "" ""
  exact ⟨ha, hv, hi, htuples.aug, (hselection (by decide)).aug_last (by decide) _ htuples.aug⟩

open Machine in
/-- An index of 4301 digits is beyond the length of every tuple, but no fault reports it. -/
theorem not_sequence_laws :
    ¬ ∀ (a : List Item) (i : Item) (s : String), i.Writes s →
      (numeralValue s < 1 ∨ a.length < numeralValue s) →
        ∃ f, Rejects (.tuple a) [i] (.fault f) := by
  intro h
  have hlong : ¬ IsShort (integerText (10 ^ digitLimit)) := by
    have hten : Int.natAbs 10 = 10 := rfl
    rw [isShort_integerText, Fits, Int.natAbs_pow, hten]
    exact Nat.lt_irrefl _
  have hbeyond : (([] : List Item).length : ℤ) < numeralValue (integerText (10 ^ digitLimit)) := by
    rw [numeralValue_integerText]
    exact Int.pow_pos (by decide)
  obtain ⟨f, hf⟩ := h [] (.int (10 ^ digitLimit)) _ (Item.writes_int _) (.inr hbeyond)
  have hresult := (hasResult_tuple [] _).raises_iff.mp hf
  rw [select_of_long (Item.writes_int _) hlong] at hresult
  cases hresult

end Rpal
