/-
# Well-formed values

Every state of a run of a program that was read from a source text is sound: its values, the
bindings of all its environments and the result are values of the language (`values_of_steps`).
The code of a standard form starts out runnable, as integers are written in digits and `Y*`
stands in front of functions only (`Canonical.runnable`).

Three failures are therefore out of reach: `Y*` without a function, a text that is no number, and a
built-in function with too many arguments.
-/
import Rpal.Proofs.Grammar.Texts
import Rpal.Proofs.Machine.Lexical
import Rpal.Proofs.Machine.Soundness
import Rpal.Proofs.Standard.Canonical

namespace Rpal

/-- A kind without a text, other than `Y*`, is that of a plain instruction. -/
theorem Kind.isPlain_of_not_hasText {kind : Kind} (h : ¬ kind.HasText) (hs : kind ≠ .yStar)
    (text : Option String) : kind.IsPlain text := by
  cases kind with
  | integer => exact absurd (.inr (.inl rfl)) h
  | string => exact absurd (.inr (.inr rfl)) h
  | yStar => exact absurd rfl hs
  | _ => trivial

namespace Tree

/-! ## 1. Code -/

/-- The instructions of the tree can run, wherever it stands. -/
def HasRunnableCode (t : Tree) : Prop :=
  ∀ number place, Runnable (expression number place t).code.reverse

theorem runnable_codeAll {ts : List Tree} (h : ∀ t ∈ ts, t.HasRunnableCode)
    (number : Place → Nat) (place : Place) :
    ∀ k, Runnable (Core.codeAll (expressionAll number place k ts)).reverse := by
  induction ts with
  | nil => exact fun _ => .nil
  | cons t ts ih =>
    intro k
    rw [List.forall_mem_cons] at h
    rw [expressionAll, Core.codeAll, List.reverse_append]
    exact (ih h.2 (k + 1)).append (h.1 number (place ++ [k]))

/-- A node behind its parts. -/
theorem runnable_node {kind : Kind} {text : Option String} {children : List Tree} {arity : Nat}
    (hk : kind.Admits children.length) (hp : kind.IsPlain text)
    (h : ∀ c ∈ children, c.HasRunnableCode) :
    HasRunnableCode ⟨kind, text, children, arity⟩ := by
  intro number place
  have hparts : kind.Admits (expressionAll number place 0 children).length := by
    rwa [length_expressionAll]
  rw [expression_node hk.ne.1 hk.ne.2, Core.code_ofNode hparts, List.reverse_cons]
  exact (runnable_codeAll h number place 0).append (.node hp _ .nil)

/-- **The code of a canonical tree is runnable**, if its integers are written in digits. -/
theorem Canonical.runnable {t : Tree} (h : Canonical t) (ht : t.Every WritesDigits) :
    t.HasRunnableCode := by
  induction h with
  | @leaf kind text hk =>
    have hadmits : kind.Admits 0 := by rcases hk with rfl | rfl | rfl <;> rfl
    refine runnable_node hadmits ?_ (List.forall_mem_nil _)
    rcases hk with rfl | rfl | rfl
    · trivial
    · obtain ⟨digits, htext, hdigits⟩ := ht.root rfl
      exact ⟨digits, htext, Number.isNumeral_of_digits hdigits.1 hdigits.2⟩
    · exact ⟨text, rfl⟩
  | @constant kind hk =>
    have hconstants : ∀ k ∈ Kind.constants, ¬ k.HasText ∧ k ≠ .yStar := by decide
    obtain ⟨htext, hstar⟩ := hconstants kind hk
    exact runnable_node (Kind.admits_of_mem_constants hk)
      (Kind.isPlain_of_not_hasText htext hstar _) (List.forall_mem_nil _)
  | unary hk _ ih =>
    have hpart := List.forall_mem_singleton.mpr (ih (ht.child List.mem_cons_self))
    rcases hk with rfl | rfl
    · exact runnable_node rfl trivial hpart
    · exact runnable_node rfl trivial hpart
  | @operator kind _ _ hk _ _ ihl ihr =>
    have hoperators : ∀ k ∈ Kind.operators, ¬ k.HasText ∧ k ≠ .yStar := by decide
    obtain ⟨htext, hstar⟩ := hoperators kind hk
    have hl := ihl (ht.child List.mem_cons_self)
    have hr := ihr (ht.child (List.mem_cons_of_mem _ List.mem_cons_self))
    exact runnable_node (Kind.admits_of_mem_operators hk)
      (Kind.isPlain_of_not_hasText htext hstar _)
      (List.forall_mem_cons.mpr ⟨hl, List.forall_mem_singleton.mpr hr⟩)
  | tau _ _ ih => exact runnable_node trivial trivial fun t hmem => ih t hmem (ht.child hmem)
  | choice _ _ _ ihc iht ihe =>
    intro number place
    have hc := ihc (ht.child List.mem_cons_self) number (place ++ [0])
    have hthen := iht (ht.child (List.mem_cons_of_mem _ List.mem_cons_self)) number (place ++ [1])
    have helse := ihe (ht.child (List.mem_cons_of_mem _ (List.mem_cons_of_mem _
      List.mem_cons_self))) number (place ++ [2])
    show Runnable (Item.beta _ _ :: Core.code _).reverse
    rw [List.reverse_cons]
    exact hc.append (.beta hthen helse .nil)
  | function _ _ ih =>
    intro number place
    exact .delta (ih (ht.child (List.mem_cons_of_mem _ List.mem_cons_self)) number
      (place ++ [1])) .nil
  | recursion _ _ ih =>
    intro number place
    have hlambda := ht.child (List.mem_cons_of_mem _ List.mem_cons_self)
    exact .recursion (ih (hlambda.child (List.mem_cons_of_mem _ List.mem_cons_self)) number
      (place ++ [1] ++ [1])) .nil

end Tree

namespace Machine

/-! ## 2. What holds in every state -/

theorem Exceeds.breakdown_eq {i : Item} {values : List Item} {b : Breakdown} (h : Exceeds i values b) :
    b = .tooManyDigits ∨ b = .floatRange := by
  cases h with
  | unary => exact .inl rfl
  | binary _ h =>
    cases h with
    | left => exact .inl rfl
    | right => exact .inl rfl
    | result => exact .inl rfl
    | range => exact .inr rfl
  | selection => exact .inl rfl
  | order => exact .inl rfl

/-- A state in which everything in reach is a value. -/
structure WellFormed (m : Machine) : Prop where
  /-- `Y*` is on the stack only between a function and the application. -/
  stack : (∀ v ∈ m.values, v.IsValue) ∨
    ∃ c values rest, m.values = .plain .yStar :: .delta c :: values ∧
      m.control = .plain .gamma :: rest ∧ ∀ v ∈ .delta c :: values, v.IsValue
  bindings : m.env.HoldsValues
  markers : ∀ env, .marker env ∈ m.control → env.HoldsValues
  functions : ∀ c, .delta c ∈ m.values → c.env ≠ .absent
  failures : ∀ f, Fails m f → f ≠ .breakdown (.conversion .notNumeric) ∧
    f ≠ .breakdown .surplusArguments ∧
    ∀ position expected got, f ≠ .fault (.wrongKind "Y*" position expected got)

theorem env_ne_absent_of_mem {values : List Item} (h : ∀ v ∈ values, v.IsValue) {c : Closure}
    (hc : .delta c ∈ values) : c.env ≠ .absent := by
  cases h _ hc with
  | function hf =>
    cases hf with
    | mk index names hbody henv => exact henv

/-- A sound state does not fail as a machine of ill-formed values would. -/
theorem Sound.failures {m : Machine} (hm : m.Sound) {f : Failure} (hf : Fails m f) :
    f ≠ .breakdown (.conversion .notNumeric) ∧ f ≠ .breakdown .surplusArguments ∧
      ∀ position expected got, f ≠ .fault (.wrongKind "Y*" position expected got) := by
  cases hm.step.of_error hf.2 with
  | fault h =>
    refine ⟨Failure.noConfusion, Failure.noConfusion, ?_⟩
    rintro position expected got heq
    cases heq
    exact h rfl
  | @breakdown b h =>
    have hb : b = .emptyStack ∨ b = .tooManyDigits ∨ b = .floatRange := by
      rcases h with rfl | ⟨i, rest, -, hexceeds⟩
      · exact .inl rfl
      · exact .inr hexceeds.breakdown_eq
    rcases hb with rfl | rfl | rfl <;> simp

theorem Sound.wellFormed {m : Machine} (hm : m.Sound) : m.WellFormed := by
  have hfailures : ∀ f, Fails m f → _ := fun f hf => hm.failures hf
  cases hm with
  | settled h =>
    exact ⟨.inl h.values, h.bindings, fun env hmem => h.control.holdsValues hmem,
      fun c hc => env_ne_absent_of_mem h.values hc, hfailures⟩
  | star h =>
    refine ⟨.inl h.values, h.bindings, fun env hmem => ?_,
      fun c hc => env_ne_absent_of_mem h.values hc, hfailures⟩
    simp only [Item.plain, List.mem_cons, reduceCtorEq, false_or] at hmem
    exact h.control.holdsValues hmem
  | knot h =>
    refine ⟨.inr ⟨_, _, _, rfl, rfl, h.values⟩, h.bindings, fun env hmem => ?_, fun c hc => ?_,
      hfailures⟩
    · simp only [Item.plain, List.mem_cons, reduceCtorEq, false_or] at hmem
      exact h.control.holdsValues hmem
    · rcases List.mem_cons.mp hc with heq | hc
      · cases heq
      · exact env_ne_absent_of_mem h.values hc

/-- The result of a sound state is a value. -/
theorem Sound.isValue_of_finish {m : Machine} (hm : m.Sound) (hc : m.control = [])
    {output : String} {v : Item} (h : m.finish = ⟨output, .ok v⟩) : v.IsValue := by
  cases hm with
  | star => cases hc
  | knot => cases hc
  | settled hm =>
    have hvalues := hm.values
    unfold finish at h
    split at h
    · rename_i w heq
      cases h
      rw [heq] at hvalues
      exact List.forall_mem_singleton.mp hvalues
    · cases h

end Machine

/-! ## 3. Runs -/

section Runs

variable {filename source : String} {raw t : Tree} {cs : List Closure}
  (hparse : Program.parse filename source = .ok raw) (hstandard : raw.standardize = .ok t)
  (hcs : Control.structures t = .ok cs)
include hparse hstandard hcs

/-- A program starts in a sound state. -/
theorem sound_start : (Machine.start (Control.root cs)).Sound := by
  obtain ⟨-, rfl⟩ := Tree.IsRaw.structures (Tree.isRaw_of_parse hparse) hstandard hcs
  obtain ⟨s, hs, hform⟩ :=
    (Program.shaped_of_parse hparse).standardizes (Tree.standardizingRules _)
  obtain rfl : s = t := Except.ok.inj (hs.symm.trans hstandard)
  have htexts : s.Every Tree.WritesDigits := by
    refine Tree.every_of_standardize (fun n hk _ hinteger => ?_) (fun _ _ _ _ _ h => h) hs
      (Program.every_integer_of_parse hparse)
    rw [hinteger] at hk
    exact absurd hk (by decide)
  refine .settled ⟨?_, List.forall_mem_nil _, Env.noConfusion, .frame .absent⟩
  rw [Machine.start_control]
  exact hform.canonical.runnable htexts _ _

/-- Every state of the run of a program is sound. -/
theorem sound_of_steps {n : Nat} {m : Machine}
    (hm : Machine.Steps n (Machine.start (Control.root cs)) m) : m.Sound := by
  refine hm.invariant (fun m next hsound _ hs => ?_) (sound_start hparse hstandard hcs)
  exact hsound.step.of_ok hs

/-- **Values are well-formed.**  In every state of a run of a program, the values on the stack and
the bindings in all environments are values of the language, `Y*` passes between a function and its
application only, and no step fails for a function that `Y*` misses, a text that is no number, or
surplus arguments.  The result of a run is a value; and no value is `Y*`, or has it among its
components. -/
theorem values_of_steps {n : Nat} {m : Machine}
    (hm : Machine.Steps n (Machine.start (Control.root cs)) m) :
    m.WellFormed ∧
      (∀ budget output v, (Machine.start (Control.root cs)).run budget = some ⟨output, .ok v⟩ →
        v.IsValue) ∧
      ∀ v : Item, v.IsValue → v.kind ≠ .yStar ∧ ∀ i ∈ v.children, i.IsValue := by
  refine ⟨(sound_of_steps hparse hstandard hcs hm).wellFormed, fun budget output v hrun => ?_,
    fun v hv => ⟨hv.kind_ne, hv.children⟩⟩
  obtain ⟨k, last, hlast, ⟨hc, hfinish⟩ | ⟨f, -, heq⟩⟩ := Machine.steps_of_run hrun
  · exact (sound_of_steps hparse hstandard hcs hlast).isValue_of_finish hc hfinish.symm
  · cases heq

end Runs

/-- A recursive function, while it is made and while it runs. -/
theorem values_of_steps_recursion : ∃ raw t cs m,
    Program.parse "list" "let rec f n = n eq 0 -> nil | f (n - 1) aug n in f 3" = .ok raw ∧
    raw.standardize = .ok t ∧ Control.structures t = .ok cs ∧
    Machine.Steps 24 (Machine.start (Control.root cs)) m ∧ m.WellFormed := by
  obtain ⟨raw, t, cs, hparse, hstandard, hcs, hrun⟩ := exists_structures "list"
    "let rec f n = n eq 0 -> nil | f (n - 1) aug n in f 3"
    (fun m => (m.run 24).isNone) (by decide +kernel)
  obtain ⟨m, hm, -⟩ := Machine.steps_of_run_eq_none (Option.isNone_iff_eq_none.mp hrun)
  exact ⟨raw, t, cs, m, hparse, hstandard, hcs, hm,
    (values_of_steps hparse hstandard hcs hm).1⟩

end Rpal
