/-
# Comparisons

The six comparisons see little of a value: the integer that its numeral writes, its characters, or
which truth value it is (`Comparand`).  Tuples, functions and `dummy` have nothing to compare.

    eq  ne             two integers, two strings or two truth values
    gr  ge  ls  le     two integers

On these pairs they are the equality and the order of comparands, and so they hang together as one
expects (`comparisons_coherent`).  Every other pair is a fault.  Numerals that are too long to be
read are left out of account.
-/
import Mathlib.Logic.ExistsUnique
import Rpal.Proofs.Operator.Exactness

namespace Rpal

open Number

/-! ## 1. What is compared -/

/-- What a comparison sees of a value. -/
inductive Comparand where
  | integer (n : ℤ)
  | string (text : Option String)
  | truth (b : Bool)
  deriving DecidableEq

namespace Item

/-- The comparand of a value, if it has one and its numeral can be read. -/
def comparand? (i : Item) : Option Comparand :=
  match i.kind with
  | .integer => i.integer.toOption.map .integer
  | .string => some (.string i.text)
  | .trueValue => some (.truth true)
  | .falseValue => some (.truth false)
  | _ => none

/-- The numeral of an integer can be read.  There is nothing to read in other values. -/
def Converts (i : Item) : Prop := i.kind = .integer → ∃ n, i.integer = .ok n

/-- The value is `true` or `false`. -/
def IsTruth (i : Item) : Prop := i.kind = .trueValue ∨ i.kind = .falseValue

/-- Two integers, two strings or two truth values. -/
def Alike (x y : Item) : Prop :=
  (x.kind = .integer ∧ y.kind = .integer) ∨ (x.kind = .string ∧ y.kind = .string) ∨
    (x.IsTruth ∧ y.IsTruth)

instance (x y : Item) : Decidable (x.Alike y) := by
  unfold Alike IsTruth
  infer_instance

/-- The kinds of values that can be compared. -/
def comparableKinds : List Kind := [.integer, .string, .trueValue, .falseValue]

variable {x y z : Item} {a b : ℤ}

theorem truth_inj {b c : Bool} : truth b = truth c ↔ b = c := by
  cases b <;> cases c <;> simp [truth, plain]

theorem Alike.symm (h : x.Alike y) : y.Alike x := by
  rcases h with ⟨hx, hy⟩ | ⟨hx, hy⟩ | ⟨hx, hy⟩
  · exact .inl ⟨hy, hx⟩
  · exact .inr (.inl ⟨hy, hx⟩)
  · exact .inr (.inr ⟨hy, hx⟩)

theorem Alike.trans (h : x.Alike y) (h' : y.Alike z) : x.Alike z := by
  grind [Alike, IsTruth]

theorem comparand?_of_integer (hk : x.kind = .integer) (h : x.integer = .ok a) :
    x.comparand? = some (.integer a) := by
  rw [comparand?, hk, h]
  rfl

theorem comparand?_of_string (hk : x.kind = .string) : x.comparand? = some (.string x.text) := by
  rw [comparand?, hk]

theorem comparand?_of_true (hk : x.kind = .trueValue) : x.comparand? = some (.truth true) := by
  rw [comparand?, hk]

theorem comparand?_of_false (hk : x.kind = .falseValue) : x.comparand? = some (.truth false) := by
  rw [comparand?, hk]

end Item

/-! ## 2. Equality -/

namespace BinaryOperator

open Item

variable {x y : Item} {b : Bool}

/-- **Two values are equal if their comparands are**, and only values that are alike are compared at
all. -/
theorem equality_eq (op : BinaryOperator) (hx : x.Converts) (hy : y.Converts) :
    op.equality x y =
      if x.Alike y then .ok (decide (x.comparand? = y.comparand?))
      else .error (undefinedFor op.name x y) := by
  unfold equality
  split
  case h_1 hkx hky =>
    obtain ⟨m, hm⟩ := hx hkx
    obtain ⟨n, hn⟩ := hy hky
    rw [if_pos (.inl ⟨hkx, hky⟩), comparand?_of_integer hkx hm, comparand?_of_integer hky hn, hm, hn]
    simp only [ok_bind, Option.some.injEq, Comparand.integer.injEq]
    rfl
  case h_2 hkx hky =>
    rw [if_pos (.inr (.inl ⟨hkx, hky⟩)), comparand?_of_string hkx, comparand?_of_string hky]
    simp only [Option.some.injEq, Comparand.string.injEq, beq_eq_decide]
  case h_3 hkx hky =>
    rw [if_pos (.inr (.inr ⟨.inl hkx, .inl hky⟩)), comparand?_of_true hkx, comparand?_of_true hky]
    rfl
  case h_4 hkx hky =>
    rw [if_pos (.inr (.inr ⟨.inr hkx, .inr hky⟩)), comparand?_of_false hkx, comparand?_of_false hky]
    rfl
  case h_5 hkx hky =>
    rw [if_pos (.inr (.inr ⟨.inl hkx, .inr hky⟩)), comparand?_of_true hkx, comparand?_of_false hky]
    rfl
  case h_6 hkx hky =>
    rw [if_pos (.inr (.inr ⟨.inr hkx, .inl hky⟩)), comparand?_of_false hkx, comparand?_of_true hky]
    rfl
  case h_7 hinteger hstring htrue hfalse htf hft =>
    rw [if_neg]
    rintro (⟨hkx, hky⟩ | ⟨hkx, hky⟩ | ⟨hkx | hkx, hky | hky⟩)
    · exact hinteger hkx hky
    · exact hstring hkx hky
    · exact htrue hkx hky
    · exact htf hkx hky
    · exact hft hkx hky
    · exact hfalse hkx hky

/-- What `eq` and `ne` make of the equality of their operands. -/
theorem map_equality_eq_ok_iff (op : BinaryOperator) (f : Bool → Bool) (hx : x.Converts)
    (hy : y.Converts) :
    ((op.equality x y).map fun b => truth (f b)) = .ok (truth b) ↔
      x.Alike y ∧ f (decide (x.comparand? = y.comparand?)) = b := by
  rw [equality_eq op hx hy]
  by_cases h : x.Alike y
  · rw [if_pos h, Except.map, Except.ok.injEq, truth_inj, and_iff_right h]
  · rw [if_neg h]
    exact iff_of_false nofun fun hb => h hb.1

/-- They are faults for the same operands. -/
theorem map_equality_eq_fault_iff (op : BinaryOperator) (f : Bool → Bool) (hx : x.Converts)
    (hy : y.Converts) :
    (∃ e, ((op.equality x y).map fun b => truth (f b)) = .error (.fault e)) ↔ ¬ x.Alike y := by
  rw [equality_eq op hx hy]
  by_cases h : x.Alike y
  · rw [if_pos h]
    exact iff_of_false nofun (not_not_intro h)
  · rw [if_neg h]
    exact iff_of_true ⟨_, rfl⟩ h

theorem eq_eq_ok_iff (hx : x.Converts) (hy : y.Converts) :
    eq.apply x y = .ok (truth b) ↔ x.Alike y ∧ decide (x.comparand? = y.comparand?) = b :=
  map_equality_eq_ok_iff eq id hx hy

theorem ne_eq_ok_iff (hx : x.Converts) (hy : y.Converts) :
    ne.apply x y = .ok (truth b) ↔ x.Alike y ∧ (!decide (x.comparand? = y.comparand?)) = b :=
  map_equality_eq_ok_iff ne not hx hy

/-! ## 3. Order -/

/-- The operators that compare integers only. -/
def orders : List BinaryOperator := [gr, ge, ls, le]

/-- The order that an operator tests. -/
def Orders : BinaryOperator → ℤ → ℤ → Prop
  | gr, m, n => n < m
  | ge, m, n => n ≤ m
  | ls, m, n => m < n
  | le, m, n => m ≤ n
  | _, _, _ => False

instance (op : BinaryOperator) (m n : ℤ) : Decidable (op.Orders m n) := by
  unfold Orders
  split <;> infer_instance

variable {op : BinaryOperator}

/-- The four orders are one function of what they test. -/
theorem apply_order (hop : op ∈ orders) (x y : Item) :
    op.apply x y = op.compareIntegers (fun m n => decide (op.Orders m n)) x y := by
  simp only [orders, List.mem_cons, List.not_mem_nil, or_false] at hop
  rcases hop with rfl | rfl | rfl | rfl <;> rfl

/-- **The order of two integers is that of the numbers.** -/
theorem order_eq {m n : ℤ} (hop : op ∈ orders) (hkx : x.kind = .integer) (hx : x.integer = .ok m)
    (hky : y.kind = .integer) (hy : y.integer = .ok n) :
    op.apply x y = .ok (truth (decide (op.Orders m n))) := by
  rw [apply_order hop, compareIntegers, if_pos ⟨hkx, hky⟩, hx, hy]
  rfl

/-- Only integers are ordered. -/
theorem order_eq_error (hop : op ∈ orders) (h : ¬ (x.kind = .integer ∧ y.kind = .integer)) :
    op.apply x y = .error (undefinedFor op.name x y) := by
  rw [apply_order hop, compareIntegers, if_neg h]

/-- An order is defined on two integers that can be read, and answers by their numbers. -/
theorem order_eq_ok_iff (hop : op ∈ orders) :
    op.apply x y = .ok (truth b) ↔ x.kind = .integer ∧ y.kind = .integer ∧
      ∃ m n, x.integer = .ok m ∧ y.integer = .ok n ∧ decide (op.Orders m n) = b := by
  rw [apply_order hop, compareIntegers]
  by_cases h : x.kind = .integer ∧ y.kind = .integer
  · rw [if_pos h]
    simp only [bind_eq_ok_iff, Except.ok.injEq, truth_inj, and_iff_right h.1, and_iff_right h.2,
      exists_and_left]
  · rw [if_neg h]
    exact iff_of_false nofun fun hb => h ⟨hb.1, hb.2.1⟩

/-- An order and the opposite one with the operands exchanged are the same. -/
theorem gr_eq_ok_iff_ls :
    gr.apply x y = .ok (truth b) ↔ ls.apply y x = .ok (truth b) := by
  rw [order_eq_ok_iff (by decide), order_eq_ok_iff (by decide)]
  constructor
  · rintro ⟨hkx, hky, m, n, hm, hn, hb⟩
    exact ⟨hky, hkx, n, m, hn, hm, hb⟩
  · rintro ⟨hky, hkx, n, m, hn, hm, hb⟩
    exact ⟨hkx, hky, m, n, hm, hn, hb⟩

/-- Orders that exclude and exhaust one another answer the opposite. -/
theorem order_eq_ok_iff_not {op' : BinaryOperator} (hop : op ∈ orders) (hop' : op' ∈ orders)
    (h : ∀ m n, op.Orders m n ↔ ¬ op'.Orders m n) :
    op.apply x y = .ok (truth b) ↔ op'.apply x y = .ok (truth !b) := by
  simp only [order_eq_ok_iff hop, order_eq_ok_iff hop', h, decide_not, Bool.not_eq_eq_eq_not]

end BinaryOperator

/-! ## 4. Laws -/

namespace Item

open BinaryOperator

/-- `eq` is an equivalence where it is defined, and `ne` is its negation. -/
structure EqualityLaws (x y z : Item) : Prop where
  defined : ∀ op ∈ [eq, ne], (∃ b, op.apply x y = .ok (truth b)) ↔ x.Alike y
  undefined : ∀ op ∈ [eq, ne], (∃ e, op.apply x y = .error (.fault e)) ↔ ¬ x.Alike y
  alike_iff : x.Alike y ↔
    x.kind ∈ comparableKinds ∧ y.kind ∈ comparableKinds ∧ x.spoken = y.spoken
  negation : ∀ b, ne.apply x y = .ok (truth b) ↔ eq.apply x y = .ok (truth !b)
  refl : x.Alike x → eq.apply x x = .ok (truth true)
  symm : ∀ b, eq.apply x y = .ok (truth b) ↔ eq.apply y x = .ok (truth b)
  trans : eq.apply x y = .ok (truth true) → eq.apply y z = .ok (truth true) →
    eq.apply x z = .ok (truth true)
  integers : ∀ m n, x.kind = .integer → x.integer = .ok m → y.kind = .integer →
    y.integer = .ok n → eq.apply x y = .ok (truth (decide (m = n)))
  numerals : ∀ s t, x.Writes s → y.Writes t →
    eq.apply x y = .ok (truth (decide (numeralValue s = numeralValue t)))
  strings : ∀ s t, x.kind = .string → x.text = some s → y.kind = .string → y.text = some t →
    eq.apply x y = .ok (truth (decide (s.toList = t.toList)))
  truths : x.IsTruth → y.IsTruth → eq.apply x y = .ok (truth (decide (x.kind = y.kind)))

/-- The four orders are one, and it is total on integers. -/
structure OrderLaws (x y : Item) : Prop where
  defined : ∀ op ∈ orders,
    (∃ b, op.apply x y = .ok (truth b)) ↔ x.kind = .integer ∧ y.kind = .integer
  undefined : ∀ op ∈ orders,
    (∃ e, op.apply x y = .error (.fault e)) ↔ ¬ (x.kind = .integer ∧ y.kind = .integer)
  numbers : ∀ op ∈ orders, ∀ m n, x.kind = .integer → x.integer = .ok m → y.kind = .integer →
    y.integer = .ok n → op.apply x y = .ok (truth (decide (op.Orders m n)))
  gr_iff_ls : ∀ b, gr.apply x y = .ok (truth b) ↔ ls.apply y x = .ok (truth b)
  ge_iff_ls : ∀ b, ge.apply x y = .ok (truth b) ↔ ls.apply x y = .ok (truth !b)
  le_iff_gr : ∀ b, le.apply x y = .ok (truth b) ↔ gr.apply x y = .ok (truth !b)
  trichotomy : x.kind = .integer → y.kind = .integer →
    ∃! op, op ∈ [ls, eq, gr] ∧ op.apply x y = .ok (truth true)

/-- The kinds that go together are those that messages name alike. -/
theorem alike_iff_spoken (x y : Item) : x.Alike y ↔
    x.kind ∈ comparableKinds ∧ y.kind ∈ comparableKinds ∧ x.spoken = y.spoken := by
  have hkinds : ∀ k ∈ comparableKinds, ∀ l ∈ comparableKinds, k.spoken = l.spoken →
      (k = .integer ∧ l = .integer) ∨ (k = .string ∧ l = .string) ∨
        (k = .trueValue ∨ k = .falseValue) ∧ (l = .trueValue ∨ l = .falseValue) := by decide
  constructor
  · rintro (⟨hkx, hky⟩ | ⟨hkx, hky⟩ | ⟨hkx | hkx, hky | hky⟩) <;>
      simp [comparableKinds, spoken, hkx, hky, Kind.spoken]
  · rintro ⟨hx, hy, hspoken⟩
    exact hkinds _ hx _ hy hspoken

section Laws

variable {x y z : Item} (hx : x.Converts) (hy : y.Converts)

include hx hy

/-- All of this is read off the comparands. -/
theorem equalityLaws (hz : z.Converts) : EqualityLaws x y z where
  defined op hop := by
    simp only [List.mem_cons, List.not_mem_nil, or_false] at hop
    rcases hop with rfl | rfl
    · simp only [eq_eq_ok_iff hx hy, exists_and_left, exists_eq', and_true]
    · simp only [ne_eq_ok_iff hx hy, exists_and_left, exists_eq', and_true]
  undefined op hop := by
    simp only [List.mem_cons, List.not_mem_nil, or_false] at hop
    rcases hop with rfl | rfl
    · exact map_equality_eq_fault_iff eq id hx hy
    · exact map_equality_eq_fault_iff ne not hx hy
  alike_iff := alike_iff_spoken x y
  negation b := by
    rw [eq_eq_ok_iff hx hy, ne_eq_ok_iff hx hy, Bool.not_eq_eq_eq_not]
  refl h := (eq_eq_ok_iff hx hx).mpr ⟨h, decide_eq_true rfl⟩
  symm b := by
    rw [eq_eq_ok_iff hx hy, eq_eq_ok_iff hy hx, decide_eq_decide.mpr (eq_comm (a := x.comparand?))]
    exact and_congr_left fun _ => ⟨Alike.symm, Alike.symm⟩
  trans hxy hyz := by
    obtain ⟨hxy, heq⟩ := (eq_eq_ok_iff hx hy).mp hxy
    obtain ⟨hyz, heq'⟩ := (eq_eq_ok_iff hy hz).mp hyz
    exact (eq_eq_ok_iff hx hz).mpr ⟨hxy.trans hyz,
      decide_eq_true ((of_decide_eq_true heq).trans (of_decide_eq_true heq'))⟩
  integers m n hkx hm hky hn := by
    refine (eq_eq_ok_iff hx hy).mpr ⟨.inl ⟨hkx, hky⟩, ?_⟩
    simp only [comparand?_of_integer hkx hm, comparand?_of_integer hky hn, Option.some.injEq,
      Comparand.integer.injEq]
  numerals s t hs ht := by
    obtain ⟨m, hm⟩ := hx hs.kind
    obtain ⟨n, hn⟩ := hy ht.kind
    obtain ⟨-, rfl⟩ := hs.integer_eq_ok_iff.mp hm
    obtain ⟨-, rfl⟩ := ht.integer_eq_ok_iff.mp hn
    refine (eq_eq_ok_iff hx hy).mpr ⟨.inl ⟨hs.kind, ht.kind⟩, ?_⟩
    simp only [comparand?_of_integer hs.kind hm, comparand?_of_integer ht.kind hn,
      Option.some.injEq, Comparand.integer.injEq]
  strings s t hkx hs hky ht := by
    refine (eq_eq_ok_iff hx hy).mpr ⟨.inr (.inl ⟨hkx, hky⟩), ?_⟩
    simp only [comparand?_of_string hkx, comparand?_of_string hky, hs, ht, Option.some.injEq,
      Comparand.string.injEq, String.toList_inj]
  truths h h' := by
    refine (eq_eq_ok_iff hx hy).mpr ⟨.inr (.inr ⟨h, h'⟩), ?_⟩
    rcases h with hkx | hkx <;> rcases h' with hky | hky <;>
      simp [comparand?, hkx, hky]

/-- And this off the integers. -/
theorem orderLaws : OrderLaws x y where
  defined op hop := by
    constructor
    · rintro ⟨b, hb⟩
      obtain ⟨hkx, hky, -⟩ := (order_eq_ok_iff hop).mp hb
      exact ⟨hkx, hky⟩
    · rintro ⟨hkx, hky⟩
      obtain ⟨m, hm⟩ := hx hkx
      obtain ⟨n, hn⟩ := hy hky
      exact ⟨_, order_eq hop hkx hm hky hn⟩
  undefined op hop := by
    constructor
    · rintro ⟨e, he⟩ ⟨hkx, hky⟩
      obtain ⟨m, hm⟩ := hx hkx
      obtain ⟨n, hn⟩ := hy hky
      rw [order_eq hop hkx hm hky hn] at he
      cases he
    · intro h
      exact ⟨_, order_eq_error hop h⟩
  numbers op hop m n hkx hm hky hn := order_eq hop hkx hm hky hn
  gr_iff_ls b := gr_eq_ok_iff_ls
  ge_iff_ls b := order_eq_ok_iff_not (by decide) (by decide) fun m n => not_lt.symm
  le_iff_gr b := order_eq_ok_iff_not (by decide) (by decide) fun m n => not_lt.symm
  trichotomy hkx hky := by
    obtain ⟨m, hm⟩ := hx hkx
    obtain ⟨n, hn⟩ := hy hky
    have hls : ls.apply x y = .ok (truth true) ↔ m < n := by
      rw [order_eq (by decide) hkx hm hky hn, Except.ok.injEq, truth_inj, decide_eq_true_eq]
      rfl
    have hgr : gr.apply x y = .ok (truth true) ↔ n < m := by
      rw [order_eq (by decide) hkx hm hky hn, Except.ok.injEq, truth_inj, decide_eq_true_eq]
      rfl
    have heq : eq.apply x y = .ok (truth true) ↔ m = n := by
      rw [(equalityLaws hx hy hx).integers m n hkx hm hky hn, Except.ok.injEq, truth_inj,
        decide_eq_true_eq]
    -- The one operator that holds is the one whose relation holds between the integers.
    have hholds : ∀ op, op ∈ [ls, eq, gr] ∧ op.apply x y = .ok (truth true) ↔
        (op = ls ∧ m < n) ∨ (op = eq ∧ m = n) ∨ (op = gr ∧ n < m) := by
      intro op
      simp only [List.mem_cons, List.not_mem_nil, or_false]
      constructor
      · rintro ⟨rfl | rfl | rfl, hop⟩
        · exact .inl ⟨rfl, hls.mp hop⟩
        · exact .inr (.inl ⟨rfl, heq.mp hop⟩)
        · exact .inr (.inr ⟨rfl, hgr.mp hop⟩)
      · rintro (⟨rfl, h⟩ | ⟨rfl, h⟩ | ⟨rfl, h⟩)
        · exact ⟨.inl rfl, hls.mpr h⟩
        · exact ⟨.inr (.inl rfl), heq.mpr h⟩
        · exact ⟨.inr (.inr rfl), hgr.mpr h⟩
    simp only [hholds]
    rcases lt_trichotomy m n with h | h | h
    · refine ⟨ls, .inl ⟨rfl, h⟩, fun op hop => ?_⟩
      rcases hop with ⟨rfl, -⟩ | ⟨-, h'⟩ | ⟨-, h'⟩ <;> first | rfl | omega
    · refine ⟨eq, .inr (.inl ⟨rfl, h⟩), fun op hop => ?_⟩
      rcases hop with ⟨-, h'⟩ | ⟨rfl, -⟩ | ⟨-, h'⟩ <;> first | rfl | omega
    · refine ⟨gr, .inr (.inr ⟨rfl, h⟩), fun op hop => ?_⟩
      rcases hop with ⟨-, h'⟩ | ⟨-, h'⟩ | ⟨rfl, -⟩ <;> first | rfl | omega

end Laws

/-- **The comparisons are coherent**: on all values whose numerals are read, equality and the
orders obey their laws. -/
theorem comparisons_coherent {x y z : Item} (hx : x.Converts) (hy : y.Converts)
    (hz : z.Converts) : x.EqualityLaws y z ∧ x.OrderLaws y :=
  ⟨equalityLaws hx hy hz, orderLaws hx hy⟩

/-- Three ways to write a number. -/
theorem comparisons_coherent_seven :
    let x := literal .integer "007"
    let y := literal .integer "7"
    let z := literal .integer "٠٧"
    x.Converts ∧ y.Converts ∧ z.Converts ∧ eq.apply x y = .ok (truth true) ∧
      eq.apply x z = .ok (truth true) ∧ ls.apply x y = .ok (truth false) := by
  intro x y z
  have hwrites : ∀ s, IsNumeral s → (literal .integer s).Writes s := fun s hs => ⟨rfl, rfl, hs⟩
  have hx : x.Writes "007" := hwrites _ (by decide)
  have hy : y.Writes "7" := hwrites _ (by decide)
  have hz : z.Writes "٠٧" := hwrites _ (by decide)
  have hread : ∀ {i : Item} {s : String}, i.Writes s → IsShort s →
      i.integer = .ok (numeralValue s) := fun hi hs => hi.integer_eq_ok_iff.mpr ⟨hs, rfl⟩
  have hcx : x.Converts := fun _ => ⟨_, hread hx (by decide)⟩
  have hcy : y.Converts := fun _ => ⟨_, hread hy (by decide)⟩
  have hcz : z.Converts := fun _ => ⟨_, hread hz (by decide)⟩
  obtain ⟨hequality, horder⟩ := comparisons_coherent hcx hcy hcz
  have hseven : numeralValue "007" = numeralValue "7" := by decide
  have hseven' : numeralValue "7" = numeralValue "٠٧" := by decide
  have hxy : eq.apply x y = .ok (truth true) := by
    rw [hequality.numerals _ _ hx hy, decide_eq_true hseven]
  have hyz : eq.apply y z = .ok (truth true) := by
    rw [(comparisons_coherent hcy hcz hcx).1.numerals _ _ hy hz, decide_eq_true hseven']
  have hls : ls.apply x y = .ok (truth false) := by
    have hvalue := horder.numbers ls (by decide) _ _ rfl (hread hx (by decide)) rfl
      (hread hy (by decide))
    have hless : ¬ ls.Orders (numeralValue "007") (numeralValue "7") := by decide
    rwa [decide_eq_false hless] at hvalue
  exact ⟨hcx, hcy, hcz, hxy, hequality.trans hxy hyz, hls⟩

end Item

end Rpal
