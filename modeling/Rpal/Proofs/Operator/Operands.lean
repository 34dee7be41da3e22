/-
# What operators see of their operands

All operators but `aug` see no more of an operand than its *face*, its kind and its text
(`BinaryOperator.apply_face`); no operator looks into a function or an environment.  The built-in
functions see the face as well, and how many components there are.  The exceptions are the
operations that pass components on as they are: `aug`, `Conc` on tuples and `Identity`.
-/
import Rpal.Builtin

namespace Rpal

/-! ## 1. Results that may be failures -/

section Results

variable {ε α β : Type}

theorem bind_eq_ok_iff {x : Except ε α} {f : α → Except ε β} {b : β} :
    x >>= f = .ok b ↔ ∃ a, x = .ok a ∧ f a = .ok b := by
  cases x <;> simp [bind, Except.bind]

theorem ok_bind (a : α) (f : α → Except ε β) : (.ok a >>= f) = f a := rfl

/-- The failures that tell of a broken machine state: too few values on the stack, an item that
is no instruction, or a stack that does not hold just the result. -/
def Failure.OfMachine : Failure → Prop
  | .breakdown .emptyStack => True
  | .fault (.missingComponents _ _) => True
  | .fault (.notExecutable _) => True
  | .fault (.notOneValue _) => True
  | _ => False

/-- `Answers F P r`: the result `r` has the property `P`, or it is a failure with the property
`F`. -/
inductive Answers (F : Failure → Prop) (P : α → Prop) : Except Failure α → Prop where
  | ok {a : α} (h : P a) : Answers F P (.ok a)
  | error {f : Failure} (h : F f) : Answers F P (.error f)

variable {F F' : Failure → Prop} {P P' : α → Prop} {Q : β → Prop} {x : Except Failure α}

theorem Answers.bind {f : α → Except Failure β} (hx : Answers F P x)
    (hf : ∀ a, P a → Answers F Q (f a)) : Answers F Q (x >>= f) := by
  cases hx with
  | ok h => exact hf _ h
  | error h => exact .error h

/-- An operation that goes on with what it computed. -/
theorem Answers.andThen {f : α → β} (hx : Answers F P x) (hf : ∀ a, P a → Q (f a)) :
    Answers F Q (x >>= fun a => .ok (f a)) :=
  hx.bind fun a ha => .ok (hf a ha)

theorem Answers.map {f : α → β} (hx : Answers F P x) (hf : ∀ a, P a → Q (f a)) :
    Answers F Q (x.map f) := by
  cases hx with
  | ok h => exact .ok (hf _ h)
  | error h => exact .error h

theorem Answers.mono (hx : Answers F P x) (hF : ∀ f, F f → F' f) (hP : ∀ a, P a → P' a) :
    Answers F' P' x := by
  cases hx with
  | ok h => exact .ok (hP _ h)
  | error h => exact .error (hF _ h)

theorem Answers.of_ok (hx : Answers F P x) {a : α} (h : x = .ok a) : P a := by
  subst h
  cases hx with
  | ok hp => exact hp

theorem Answers.of_error (hx : Answers F P x) {f : Failure} (h : x = .error f) : F f := by
  subst h
  cases hx with
  | error hf => exact hf

end Results

/-! ## 2. Literals -/

/-- The values that a single instruction writes down. -/
inductive Literal where
  | integer | string | trueValue | falseValue | dummy | yStar
  deriving DecidableEq

namespace Literal

/-- The kind of a literal. -/
def kind : Literal → Kind
  | integer => .integer
  | string => .string
  | trueValue => .trueValue
  | falseValue => .falseValue
  | dummy => .dummy
  | yStar => .yStar

/-- The literal of a kind. -/
def ofKind? : Kind → Option Literal
  | .integer => some integer
  | .string => some string
  | .trueValue => some trueValue
  | .falseValue => some falseValue
  | .dummy => some dummy
  | .yStar => some yStar
  | _ => none

@[simp] theorem ofKind?_kind (l : Literal) : ofKind? l.kind = some l := by
  cases l <;> rfl

end Literal

/-- A literal as an item. -/
def Item.IsLiteral (i : Item) : Prop :=
  ∃ (l : Literal) (text : Option String), i = .node l.kind text [] 0

/-! ## 3. Operands

The face of an item is what remains of it when its components are dropped. -/

/-- The kind and the text of an item. -/
def Item.face (i : Item) : Item := .node i.kind i.text [] 0

theorem checkOperands_one (operation expected : String) (allowed : List Kind) (x : Item) :
    checkOperands operation expected allowed [x] =
      if x.kind ∈ allowed then .ok () else .error (x.mismatch operation "operand" expected) := by
  by_cases hx : x.kind ∈ allowed <;> simp [checkOperands, List.find?, hx]

theorem checkOperands_two (operation expected : String) (allowed : List Kind) (x y : Item) :
    checkOperands operation expected allowed [x, y] =
      if x.kind ∈ allowed then
        if y.kind ∈ allowed then .ok ()
        else .error (y.mismatch operation "right operand" expected)
      else .error (x.mismatch operation "left operand" expected) := by
  by_cases hx : x.kind ∈ allowed <;> by_cases hy : y.kind ∈ allowed <;>
    simp [checkOperands, List.zipIdx, List.find?, hx, hy]

/-- An operator of one operand sees its face. -/
theorem UnaryOperator.apply_face (op : UnaryOperator) (x : Item) :
    op.apply x.face = op.apply x := by
  cases op with
  | neg => simp only [apply, checkOperands_one]; rfl
  | not => simp only [apply, checkOperands_one]; rfl

/-- **An operator of two operands sees their faces**, unless it is `aug`. -/
theorem BinaryOperator.apply_face {op : BinaryOperator} (h : op ≠ .aug) (x y : Item) :
    op.apply x.face y.face = op.apply x y := by
  cases op with
  | aug => exact absurd rfl h
  | _ =>
    simp only [apply, arithmetic, divide, power, logical, checkOperands_two]
    rfl

/-- `aug` looks at the kind of the tuple only. -/
theorem BinaryOperator.augment_eq (x y : Item) :
    augment x y =
      if x.kind = .tuple then .ok (.tuple (x.children.map Item.copy ++ [y.copy]))
      else .error (x.mismatch "aug" "operand" "tuple") := by
  unfold augment
  rw [checkOperands_one]
  by_cases h : x.kind = .tuple
  · simp only [h, List.mem_singleton, if_true]
    rfl
  · simp only [h, List.mem_singleton, if_false]
    rfl

/-! ## 4. Arguments of the built-in functions -/

namespace Builtin

/-- A built-in function that is applied to one argument. -/
theorem apply_singleton (b : Builtin) (i : Item) : b.apply [i] =
    b.applyOne i >>= fun v => .ok (v, if b.writes then written i else "") := by
  cases b <;> rfl

theorem applyOne_congr {b : Builtin} (hb : b ≠ .identity) {x y : Item} (hf : x.face = y.face)
    (hl : x.children.length = y.children.length) : b.applyOne x = b.applyOne y := by
  have hk : x.kind = y.kind := by
    injection hf
  have ht : x.text = y.text := by
    injection hf
  have he : x.children.isEmpty = y.children.isEmpty := by
    rw [Bool.eq_iff_iff, List.isEmpty_iff_length_eq_zero, List.isEmpty_iff_length_eq_zero, hl]
  cases b with
  | identity => exact absurd rfl hb
  | print | printLower | conc => rfl
  | order | null =>
    simp only [applyOne, components, Item.mismatch, Item.spoken, hk]
    split
    · simp only [bind, Except.bind, hl, he]
    · rfl
  | _ =>
    simp only [applyOne, splitString, hasKind, Item.mismatch, Item.spoken, hk, ht]

/-- `Conc` sees the faces of two operands that are not both tuples. -/
theorem concatenate_face {x y : Item} (h : ¬ (x.kind = .tuple ∧ y.kind = .tuple)) :
    concatenate x.face y.face = concatenate x y := by
  have hx : x.face.kind = x.kind := rfl
  have hy : y.face.kind = y.kind := rfl
  simp only [concatenate, hx, hy]
  split
  case h_1 => rfl
  case h_2 htx hty => exact absurd ⟨htx, hty⟩ h
  case h_3 => rfl

end Builtin

end Rpal
