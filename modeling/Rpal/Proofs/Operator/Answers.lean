/-
# What operators answer, and how they fail

Each operator and each built-in function has one lemma here, which says for operands of any kind

* where its answer comes from: it is *written* down -- an integer, a string, a truth value or
  `dummy` (`Item.Written`) -- or made of copies of what the operation is given (`Item.Made`);
* which failures it has: a fault that tells of the operands, an integer that cannot be read, or a
  limit that the result exceeds (`Failure.OfOperation`).

What else is known of results follows from these two lists and not from the operations: that a
literal is answered, that values are made of values, that no failure is the machine's own or tells
of a name, and where exactly a run breaks down.
-/
import Mathlib.Algebra.Group.Int.Defs
import Rpal.Proofs.Number.Numeral
import Rpal.Proofs.Operator.Operands

namespace Rpal

/-! ## 1. Where answers come from -/

/-- The breakdown of a number with too many digits. -/
abbrev Breakdown.tooManyDigits : Breakdown := .conversion .tooManyDigits

/-- A result is written, unless it is too large. -/
theorem Item.ofInteger_cases (n : Int) :
    n.natAbs < 10 ^ Number.digitLimit ∧
        Item.ofInteger n = .ok (.literal .integer (Number.integerText n)) ∨
      10 ^ Number.digitLimit ≤ n.natAbs ∧
        Item.ofInteger n = .error (.breakdown .tooManyDigits) := by
  unfold Item.ofInteger Number.writeInteger
  rw [Nat.pow_eq]
  by_cases h : n.natAbs < 10 ^ Number.digitLimit
  · rw [if_pos h]
    exact .inl ⟨h, rfl⟩
  · rw [if_neg h]
    exact .inr ⟨Nat.le_of_not_lt h, rfl⟩

/-- A value that an operation writes down.  Only `ItoS` takes the text of an operand over. -/
inductive Item.Written (operands : List Item) : Item → Prop where
  | truth (b : Bool) : Written operands (.truth b)
  | integer {n : Int} {v : Item} (h : Item.ofInteger n = .ok v) : Written operands v
  | string (text : String) : Written operands (.string text)
  | digits {i : Item} (hi : i ∈ operands) (hk : i.kind = .integer) :
      Written operands (.node .string i.text [] 0)
  | dummy : Written operands .dummy

/-- A value that an operation writes down, or makes of what it is given. -/
inductive Item.Made (operands : List Item) : Item → Prop where
  | written {v : Item} (h : v.Written operands) : Made operands v
  | copy {i : Item} (hi : i ∈ operands) : Made operands i.copy
  | tuple {is : List Item} (h : ∀ i ∈ is, i ∈ operands ∨ ∃ t ∈ operands, i ∈ t.children) :
      Made operands (.tuple (is.map Item.copy))

/-- What is written down is a literal. -/
theorem Item.Written.isLiteral {operands : List Item} {v : Item} (h : v.Written operands) :
    v.IsLiteral := by
  cases h with
  | truth b =>
    cases b with
    | true => exact ⟨.trueValue, none, rfl⟩
    | false => exact ⟨.falseValue, none, rfl⟩
  | @integer n v h =>
    rcases Item.ofInteger_cases n with ⟨-, hn⟩ | ⟨-, hn⟩
    · cases hn.symm.trans h
      exact ⟨.integer, _, rfl⟩
    · cases hn.symm.trans h
  | string text => exact ⟨.string, some text, rfl⟩
  | digits => exact ⟨.string, _, rfl⟩
  | dummy => exact ⟨.dummy, none, rfl⟩

/-! ## 2. Failures -/

/-- The faults that tell of operands: of their kinds, of how many there are, of what they are.  The
fault of `Y*` is not among them. -/
def Fault.OfOperands : Fault → Prop
  | .wrongKind operation _ _ _ => operation ≠ "Y*"
  | .wrongCount _ _ _ | .undefinedFor _ _ _ | .indexOutOfRange _ _ | .divisionByZero
  | .zeroToNegativePower | .emptyString _ => True
  | _ => False

/-- The failures of an operation: a fault of its operands, an operand that is an integer and cannot
be read, and the breakdowns of its own, which have the property `B`. -/
inductive Failure.OfOperation (operands : List Item) (B : Breakdown → Prop) : Failure → Prop where
  | fault {f : Fault} (h : f.OfOperands) : OfOperation operands B (.fault f)
  | operand {i : Item} {f : Failure} (hi : i ∈ operands) (hk : i.kind = .integer)
      (h : i.integer = .error f) : OfOperation operands B f
  | breakdown {b : Breakdown} (h : B b) : OfOperation operands B (.breakdown b)

/-- The failure that tells of an undeclared identifier. -/
def Failure.OfName : Failure → Prop
  | .fault (.unbound _) => True
  | _ => False

/-- An integer that cannot be read is a failure of the conversion, and no other. -/
theorem Item.integer_eq_error {i : Item} {f : Failure} (h : i.integer = .error f) :
    ∃ e, f = .ofConversion e := by
  unfold Item.integer at h
  split at h
  · rename_i text htext
    cases hread : Number.readInteger text with
    | ok n =>
      rw [hread] at h
      cases h
    | error e =>
      rw [hread] at h
      cases h
      exact ⟨e, rfl⟩
  · cases h
    exact ⟨_, rfl⟩

namespace Failure.OfOperation

variable {operands : List Item} {B B' : Breakdown → Prop} {f : Failure}

/-- The failures of an operation are none of the machine's own. -/
theorem not_ofMachine (h : OfOperation operands B f) (hB : ¬ B .emptyStack) : ¬ f.OfMachine := by
  cases h with
  | @fault f h => cases f <;> first | exact id | exact h.elim
  | operand _ _ h =>
    obtain ⟨e, rfl⟩ := Item.integer_eq_error h
    exact id
  | @breakdown b h =>
    cases b with
    | emptyStack => exact absurd h hB
    | _ => exact id

/-- No operation tells of an undeclared identifier. -/
theorem not_ofName (h : OfOperation operands B f) : ¬ f.OfName := by
  cases h with
  | @fault f h => cases f <;> first | exact id | exact h.elim
  | operand _ _ h =>
    obtain ⟨e, rfl⟩ := Item.integer_eq_error h
    exact id
  | breakdown => exact id

end Failure.OfOperation

/-! ## 3. Reading operands and writing results -/

section Operands

variable {operands sources : List Item} {B : Breakdown → Prop}

/-- A fault names the operation, which is not `Y*`. -/
theorem Item.answers_mismatch {α : Type} {P : α → Prop} {operation : String}
    (h : operation ≠ "Y*") (position expected : String) (i : Item) :
    Answers (Failure.OfOperation operands B) P (.error (i.mismatch operation position expected)) :=
  .error (.fault h)

/-- Reading an operand. -/
theorem Item.answers_integer {i : Item} (hi : i ∈ operands) (hk : i.kind = .integer) :
    Answers (Failure.OfOperation operands B) (fun n => i.integer = .ok n) i.integer := by
  cases h : i.integer with
  | ok n => exact .ok rfl
  | error f => exact .error (.operand hi hk h)

/-- What an item writes can be written again. -/
theorem Item.natAbs_lt_of_integer {i : Item} {n : Int} (h : i.integer = .ok n) :
    n.natAbs < 10 ^ Number.digitLimit := by
  unfold Item.integer at h
  split at h
  · rename_i text htext
    cases hread : Number.readInteger text with
    | ok k =>
      rw [hread] at h
      cases h
      exact Number.natAbs_lt_of_readInteger hread
    | error e =>
      rw [hread] at h
      cases h
  · cases h

/-- Writing a result: it may be too large. -/
theorem Item.answers_ofInteger {n : Int}
    (hB : 10 ^ Number.digitLimit ≤ n.natAbs → B .tooManyDigits) :
    Answers (Failure.OfOperation operands B) (Item.Written sources) (Item.ofInteger n) := by
  rcases Item.ofInteger_cases n with ⟨-, hn⟩ | ⟨hlarge, hn⟩
  · exact hn ▸ .ok (.integer hn)
  · exact hn ▸ .error (.breakdown (hB hlarge))

/-- Writing a result that is no larger than an operand. -/
theorem Item.answers_ofInteger_of_le {i : Item} {a n : Int} (ha : i.integer = .ok a)
    (h : n.natAbs ≤ a.natAbs) :
    Answers (Failure.OfOperation operands B) (Item.Written sources) (Item.ofInteger n) :=
  Item.answers_ofInteger fun hlarge =>
    absurd (Nat.lt_of_le_of_lt h (Item.natAbs_lt_of_integer ha)) (Nat.not_lt.mpr hlarge)

/-- The operands pass the check if they all have an allowed kind. -/
theorem answers_checkOperands {operation : String} (h : operation ≠ "Y*") (expected : String)
    (allowed : List Kind) (is : List Item) :
    Answers (Failure.OfOperation operands B) (fun _ => ∀ i ∈ is, i.kind ∈ allowed)
      (checkOperands operation expected allowed is) := by
  unfold checkOperands
  simp only
  split
  · exact Item.answers_mismatch h _ _ _
  · rename_i hnone
    refine .ok fun i hi => ?_
    obtain ⟨k, hk⟩ := List.mem_iff_getElem?.mp hi
    simpa using List.find?_eq_none.mp hnone (i, k) (List.mk_mem_zipIdx_iff_getElem?.mpr hk)

end Operands

/-! ## 4. Operators -/

/-- **The answers of an operator of one operand.** -/
theorem UnaryOperator.answers_apply (op : UnaryOperator) (x : Item) :
    Answers (Failure.OfOperation [x] fun _ => False) (Item.Written [x]) (op.apply x) := by
  cases op with
  | neg =>
    refine (answers_checkOperands (by decide) _ _ _).bind fun _ hk => ?_
    have hx : x.kind = .integer := List.mem_singleton.mp (hk x List.mem_cons_self)
    refine (Item.answers_integer List.mem_cons_self hx).bind fun n hn => ?_
    exact Item.answers_ofInteger_of_le hn (Nat.le_of_eq (Int.natAbs_neg n))
  | not => exact (answers_checkOperands (by decide) _ _ _).andThen fun _ _ => .truth _

/-- An integer of more digits than are converted. -/
def Item.IsLong (i : Item) : Prop :=
  i.kind = .integer ∧ ∃ digits, i.text = some digits ∧
    Number.digitLimit < (Number.numeralDigits digits).length

namespace BinaryOperator

theorem name_ne_star (op : BinaryOperator) : op.name ≠ "Y*" := by
  cases op <;> decide

/-- The exact integer that an operator computes, where it can be too large. -/
def exactInteger? : BinaryOperator → Int → Int → Option Int
  | plus, a, b => some (a + b)
  | minus, a, b => some (a - b)
  | mult, a, b => some (a * b)
  | exp, a, b => if 0 ≤ b then some (a ^ b.toNat) else none
  | _, _, _ => none

/-- Why an operator of two operands breaks down. -/
inductive Overflows (op : BinaryOperator) (x y : Item) : Breakdown → Prop where
  | left (h : x.IsLong) : Overflows op x y .tooManyDigits
  | right (h : y.IsLong) : Overflows op x y .tooManyDigits
  | result {a b n : Int} (hx : x.integer = .ok a) (hy : y.integer = .ok b)
      (hn : op.exactInteger? a b = some n) (h : 10 ^ Number.digitLimit ≤ n.natAbs) :
      Overflows op x y .tooManyDigits
  | range {a b : Int} (hop : op = .exp) (hx : x.integer = .ok a) (hy : y.integer = .ok b)
      (hb : b < 0) (h : Number.toBinary64? a.natAbs = none ∨ Number.toBinary64? b.natAbs = none) :
      Overflows op x y .floatRange

/-- The failures of an operator of two operands. -/
abbrev Fails (op : BinaryOperator) (x y : Item) : Failure → Prop :=
  Failure.OfOperation [x, y] (op.Overflows x y)

variable {op : BinaryOperator} {x y : Item}

theorem answers_operands {operation : String} (h : operation ≠ "Y*") :
    Answers (op.Fails x y) (fun _ => x.kind = .integer ∧ y.kind = .integer)
      (checkOperands operation "integer" [.integer] [x, y]) := by
  refine (answers_checkOperands h _ _ _).mono (fun _ => id) fun _ hk => ?_
  simpa using hk

theorem answers_left (hk : x.kind = .integer) :
    Answers (op.Fails x y) (fun n => x.integer = .ok n) x.integer :=
  Item.answers_integer List.mem_cons_self hk

theorem answers_right (hk : y.kind = .integer) :
    Answers (op.Fails x y) (fun n => y.integer = .ok n) y.integer :=
  Item.answers_integer (List.mem_cons_of_mem _ List.mem_cons_self) hk

theorem answers_result {a b n : Int} (ha : x.integer = .ok a) (hb : y.integer = .ok b)
    (hn : op.exactInteger? a b = some n) :
    Answers (op.Fails x y) (Item.Written [x, y]) (Item.ofInteger n) :=
  Item.answers_ofInteger fun hlarge => .result ha hb hn hlarge

/-- The operators that compute an integer from two. -/
theorem answers_arithmetic {f : Int → Int → Int} (hf : ∀ a b, op.exactInteger? a b = some (f a b)) :
    Answers (op.Fails x y) (Item.Written [x, y]) (op.arithmetic f x y) := by
  refine (answers_operands op.name_ne_star).bind fun _ hk => ?_
  refine (answers_left hk.1).bind fun a ha => ?_
  refine (answers_right hk.2).bind fun b hb => ?_
  exact answers_result ha hb (hf a b)

/-- The divisor is read first, and looked at before the dividend.  No quotient is too large. -/
theorem answers_divide : Answers (op.Fails x y) (Item.Written [x, y]) (divide x y) := by
  refine (answers_operands (by decide)).bind fun _ hk => ?_
  refine (answers_right hk.2).bind fun b _ => ?_
  split
  · exact .error (.fault trivial)
  · refine (answers_left hk.1).bind fun a ha => ?_
    refine Item.answers_ofInteger_of_le ha ?_
    rw [Int.natAbs_tdiv]
    exact Nat.div_le_self _ _

/-- The truncated inverse of a power is small, or an operand is out of range. -/
theorem truncatedInversePower_cases (a : Int) (k : Nat) :
    (∃ n, Number.truncatedInversePower a k = some n ∧ n.natAbs ≤ 1) ∨
      Number.truncatedInversePower a k = none ∧
        (Number.toBinary64? a.natAbs = none ∨ Number.toBinary64? k = none) := by
  unfold Number.truncatedInversePower
  cases Number.toBinary64? a.natAbs with
  | none => exact .inr ⟨rfl, .inl rfl⟩
  | some _ =>
    cases Number.toBinary64? k with
    | none => exact .inr ⟨rfl, .inr rfl⟩
    | some rounded =>
      refine .inl ?_
      simp only [Option.bind_eq_bind, Option.bind_some]
      split
      · exact ⟨1, rfl, Nat.le_refl 1⟩
      · split
        · split
          · exact ⟨1, rfl, Nat.le_refl 1⟩
          · exact ⟨-1, rfl, Nat.le_refl 1⟩
        · exact ⟨0, rfl, Nat.zero_le 1⟩

/-- An exponent that is not negative gives the exact power, and a negative one a result of one
digit. -/
theorem answers_power (hop : op = .exp) :
    Answers (op.Fails x y) (Item.Written [x, y]) (power x y) := by
  refine (answers_operands (by decide)).bind fun _ hk => ?_
  refine (answers_left hk.1).bind fun a ha => ?_
  refine (answers_right hk.2).bind fun b hb => ?_
  split
  · rename_i hsign
    refine answers_result ha hb ?_
    rw [hop, exactInteger?, if_pos hsign, Number.power_eq]
    rfl
  · rename_i hsign
    split
    · exact .error (.fault trivial)
    · rcases truncatedInversePower_cases a b.natAbs with ⟨n, hn, hsmall⟩ | ⟨hnone, hlarge⟩
      · rw [hn]
        refine Item.answers_ofInteger fun hlarge => absurd hlarge (Nat.not_le.mpr ?_)
        exact Nat.lt_of_le_of_lt hsmall (Nat.one_lt_pow (by decide) (by decide))
      · rw [hnone]
        exact .error (.breakdown (.range hop ha hb (Int.not_le.mp hsign) hlarge))

/-- The orders read two integers. -/
theorem answers_compareIntegers (holds : Int → Int → Bool) :
    Answers (op.Fails x y) (Item.Written [x, y]) (op.compareIntegers holds x y) := by
  unfold compareIntegers
  split
  · rename_i hk
    refine (answers_left hk.1).bind fun a _ => ?_
    exact (answers_right hk.2).andThen fun b _ => .truth _
  · exact .error (.fault trivial)

/-- So does the comparison of integers, and no other comparison reads anything. -/
theorem answers_equality : Answers (op.Fails x y) (fun _ => True) (op.equality x y) := by
  unfold equality
  split
  case h_1 hx hy =>
    refine (answers_left hx).bind fun a _ => ?_
    exact (answers_right hy).andThen fun b _ => trivial
  case h_7 => exact .error (.fault trivial)
  all_goals exact .ok trivial

theorem answers_logical (f : Bool → Bool → Bool) :
    Answers (op.Fails x y) (Item.Written [x, y]) (op.logical f x y) :=
  (answers_checkOperands op.name_ne_star _ _ _).andThen fun _ _ => .truth _

/-- **The answers of an operator of two operands** are written down, unless it is `aug`. -/
theorem answers_apply (h : op ≠ .aug) :
    Answers (op.Fails x y) (Item.Written [x, y]) (op.apply x y) := by
  cases op with
  | plus => exact answers_arithmetic fun _ _ => rfl
  | minus => exact answers_arithmetic fun _ _ => rfl
  | mult => exact answers_arithmetic fun _ _ => rfl
  | div => exact answers_divide
  | exp => exact answers_power rfl
  | gr => exact answers_compareIntegers _
  | ge => exact answers_compareIntegers _
  | ls => exact answers_compareIntegers _
  | le => exact answers_compareIntegers _
  | eq => exact answers_equality.map fun _ _ => .truth _
  | ne => exact answers_equality.map fun _ _ => .truth _
  | or => exact answers_logical _
  | and => exact answers_logical _
  | aug => exact absurd rfl h

/-- `aug` copies the components and the new one. -/
theorem made_augment : Answers (op.Fails x y) (Item.Made [x, y]) (augment x y) := by
  rw [augment_eq]
  split
  · refine .ok ?_
    rw [← List.map_singleton, ← List.map_append]
    refine .tuple fun i hi => ?_
    rcases List.mem_append.mp hi with hi | hi
    · exact .inr ⟨x, List.mem_cons_self, hi⟩
    · exact .inl (List.mem_cons_of_mem _ hi)
  · exact Item.answers_mismatch (by decide) _ _ x

/-- **An operator of two operands** makes its answer of the operands. -/
theorem made_apply (op : BinaryOperator) (x y : Item) :
    Answers (op.Fails x y) (Item.Made [x, y]) (op.apply x y) := by
  by_cases h : op = .aug
  · subst h
    exact made_augment
  · exact (answers_apply h).mono (fun _ => id) fun _ => .written

end BinaryOperator

/-! ## 5. Built-in functions -/

namespace Builtin

/-- Why a built-in function breaks down: it is not applied to as many arguments as it takes, or it
counts too many components. -/
inductive Overflows (b : Builtin) (args : List Item) : Breakdown → Prop where
  | surplus (h : args.length ≠ b.arity) : Overflows b args .surplusArguments
  | order {i : Item} (hb : b = .order) (hi : args = [i])
      (h : 10 ^ Number.digitLimit ≤ i.children.length) : Overflows b args .tooManyDigits

/-- The failures of a built-in function.  It reads no integer. -/
abbrev Fails (b : Builtin) (args : List Item) : Failure → Prop :=
  Failure.OfOperation [] (b.Overflows args)

variable {b : Builtin} {args : List Item}

theorem answers_splitString {function : String} (h : function ≠ "Y*") (i : Item) :
    Answers (b.Fails args) (fun _ => True) (splitString function i) := by
  unfold splitString
  split
  · split
    · exact .error (.fault trivial)
    · exact .ok trivial
  · exact Item.answers_mismatch h _ _ i

theorem answers_components {function : String} (h : function ≠ "Y*") (i : Item) :
    Answers (b.Fails args) (fun is => is = i.children) (components function i) := by
  unfold components
  split
  · exact .ok rfl
  · exact Item.answers_mismatch h _ _ i

/-- **The answers of a built-in function of one argument** are written down, unless it is
`Identity`. -/
theorem answers_applyOne (hb : b ≠ .identity) (i : Item) :
    Answers (b.Fails [i]) (Item.Written [i]) (b.applyOne i) := by
  cases b with
  | identity => exact absurd rfl hb
  | print | printLower => exact .ok .dummy
  | stem => exact (answers_splitString (by decide) i).andThen fun _ _ => .string _
  | stern => exact (answers_splitString (by decide) i).andThen fun _ _ => .string _
  | itoS =>
    simp only [applyOne]
    split
    · rename_i hk
      exact .ok (.digits List.mem_cons_self hk)
    · exact Item.answers_mismatch (by decide) _ _ i
  | order =>
    refine (answers_components (by decide) i).bind fun is his => ?_
    subst his
    exact Item.answers_ofInteger fun hlarge => .order rfl rfl hlarge
  | null => exact (answers_components (by decide) i).andThen fun _ _ => .truth _
  | conc => exact .error (.breakdown (.surplus (by simp [arity])))
  | _ => exact .ok (.truth _)

/-- `Conc` answers a string, or the tuple of all components of two tuples. -/
theorem answers_concatenate (x y : Item) :
    Answers (b.Fails args) (fun r => r.Written [x, y] ∨
      (x.kind = .tuple ∧ y.kind = .tuple ∧ r = .tuple ((x.children ++ y.children).map Item.copy)))
      (concatenate x y) := by
  unfold concatenate
  split
  case h_1 => exact .ok (.inl (.string _))
  case h_2 hx hy => exact .ok (.inr ⟨hx, hy, rfl⟩)
  case h_3 => exact .error (.fault trivial)

/-- **A built-in function** makes its answer of its arguments. -/
theorem made_apply (b : Builtin) (args : List Item) :
    Answers (b.Fails args) (fun r => r.1.Made args) (b.apply args) := by
  have hsurplus : args.length ≠ b.arity →
      Answers (b.Fails args) (fun r : Item × String => r.1.Made args)
        (.error (.breakdown .surplusArguments)) := fun h => .error (.breakdown (.surplus h))
  match args with
  | [] => cases b <;> exact hsurplus (by simp [arity])
  | [x] =>
    rw [apply_singleton]
    by_cases hb : b = .identity
    · subst hb
      exact .ok (.copy List.mem_cons_self)
    · exact (answers_applyOne hb x).andThen fun _ hv => .written hv
  | [x, y] =>
    by_cases hb : b = .conc
    · subst hb
      refine (answers_concatenate x y).andThen fun v hv => ?_
      rcases hv with hwritten | ⟨-, -, rfl⟩
      · exact .written hwritten
      · refine .tuple fun i hi => .inr ?_
        rcases List.mem_append.mp hi with hi | hi
        · exact ⟨x, List.mem_cons_self, hi⟩
        · exact ⟨y, List.mem_cons_of_mem _ List.mem_cons_self, hi⟩
    · cases b <;> first | exact absurd rfl hb | exact hsurplus (by simp [arity])
  | x :: y :: z :: rest => cases b <;> exact hsurplus (by simp [arity])

end Builtin

end Rpal
