/-
# Outcomes of programs

A program that ends has a value, or an error that belongs to one of three classes: of reading, of
standardizing, of running.  Such an outcome is *reported*.  The one exception is a breakdown of the
machine, and not all breakdowns are possible: the stack of a program is never too short, all texts
that are read as numbers are numerals, and no built-in function has too many arguments.

What is left are the limits of numbers.  `BreaksDown` describes the state in which a run meets one,
with the instruction and the values that exceed it, and a program breaks down exactly if it reaches
such a state (`run_iff_breaksDown`).  The limits are in reach: `10 ** 4300` has a value, but one
digit too many to be written (`not_reported_of_run`).

The stack of the host is idealised here: `run` never runs out of it.  On a real host it ends long
before the language does, behind a dozen nested brackets or in a sum of some thousand ones, and none
of the three classes is for that.  `Host` has this outcome, and scripts and sessions report it;
what is said here is about the runs that the stack suffices for.
-/
import Rpal.Proofs.Machine.Balance
import Rpal.Proofs.Machine.WellFormed

namespace Rpal

/-- The breakdown in which a program ends, if it ends in one. -/
def Outcome.breakdown? (o : Outcome) : Option Breakdown :=
  match o.answer with
  | .ok _ | .error (.parse _) | .error (.standardize _) | .error (.failure (.fault _)) => none
  | .error (.failure (.breakdown b)) => some b

/-- The program has a value, or an error of one of the three classes. -/
def Outcome.IsReported (o : Outcome) : Prop := o.breakdown? = none

theorem Outcome.breakdown?_eq_some_iff {o : Outcome} {b : Breakdown} :
    o.breakdown? = some b ↔ o.answer = .error (.failure (.breakdown b)) := by
  unfold breakdown?
  split <;> simp_all

namespace Program

variable {budget : Nat} {source output : String} {b : Breakdown} {o : Outcome}

/-! ## 1. From programs to runs -/

/-- A larger budget does not change an outcome. -/
theorem evaluate_mono {t : Tree} (h : evaluate budget t = some o) (k : Nat) :
    evaluate (budget + k) t = some o := by
  unfold evaluate at h ⊢
  split at h
  · exact h
  · obtain ⟨r, hr, rfl⟩ := Option.map_eq_some_iff.mp h
    rw [Machine.run_mono hr]
    rfl

theorem run_mono (h : run budget source = some o) (k : Nat) :
    run (budget + k) source = some o := by
  unfold run at h ⊢
  split at h
  · exact h
  · exact evaluate_mono h k

/-- **The outcome is a matter of the source text alone.** -/
theorem run_unique {n k : Nat} {o' : Outcome} (h : run n source = some o)
    (h' : run k source = some o') : o = o' := by
  have hmore := run_mono h k
  rw [Nat.add_comm, run_mono h' n] at hmore
  exact (Option.some.inj hmore).symm

/-- The outcome of a run. -/
def outcome (r : Machine.Result) : Outcome := ⟨r.output, r.answer.mapError Problem.failure⟩

/-- A program that is built does what its machine does. -/
theorem run_of_structures {raw t : Tree} {cs : List Closure}
    (hparse : parse unnamed source = .ok raw) (hstandard : raw.standardize = .ok t)
    (hcs : Control.structures t = .ok cs) (budget : Nat) :
    run budget source = ((Machine.start (Control.root cs)).run budget).map outcome := by
  simp only [run, hparse, evaluate, compile, hstandard, hcs, Except.map]
  rfl

/-- A program that ends is not built, and that is reported, or it ends as its machine does. -/
theorem cases_of_run (h : run budget source = some o) :
    o.IsReported ∨ ∃ raw t cs r, parse unnamed source = .ok raw ∧ raw.standardize = .ok t ∧
      Control.structures t = .ok cs ∧ (Machine.start (Control.root cs)).run budget = some r ∧
      o = outcome r := by
  cases hparse : parse unnamed source with
  | error e =>
    simp only [run, hparse, Option.some.injEq] at h
    exact .inl (h ▸ rfl)
  | ok raw =>
    cases hstandard : raw.standardize with
    | error e =>
      simp only [run, hparse, evaluate, compile, hstandard, Option.some.injEq] at h
      exact .inl (h ▸ rfl)
    | ok t =>
      cases hcs : Control.structures t with
      | error e =>
        simp only [run, hparse, evaluate, compile, hstandard, hcs, Except.map,
          Option.some.injEq] at h
        exact .inl (h ▸ rfl)
      | ok cs =>
        rw [run_of_structures hparse hstandard hcs, Option.map_eq_some_iff] at h
        obtain ⟨r, hr, rfl⟩ := h
        exact .inr ⟨raw, t, cs, r, rfl, hstandard, hcs, hr, rfl⟩

theorem breakdown?_outcome {r : Machine.Result} :
    (outcome r).breakdown? = some b ↔ r.answer = .error (.breakdown b) := by
  rw [Outcome.breakdown?_eq_some_iff]
  cases r with
  | mk output answer => cases answer <;> simp [outcome, Except.mapError]

/-! ## 2. Breakdowns -/

/-- The program reaches a state whose next instruction breaks down, as the values that it finds
exceed a limit of numbers; until then it has written `output`. -/
def BreaksDown (source output : String) (b : Breakdown) : Prop :=
  ∃ raw t cs n m, parse unnamed source = .ok raw ∧ raw.standardize = .ok t ∧
    Control.structures t = .ok cs ∧ Machine.Steps n (Machine.start (Control.root cs)) m ∧
    m.output = output ∧ Machine.Fails m (.breakdown b) ∧ m.Breaks b

/-- **A state of a program breaks down at a limit only.** -/
theorem breaks_of_fails {raw t : Tree} {cs : List Closure} {n : Nat} {m : Machine}
    (hparse : parse unnamed source = .ok raw) (hstandard : raw.standardize = .ok t)
    (hcs : Control.structures t = .ok cs)
    (hm : Machine.Steps n (Machine.start (Control.root cs)) m)
    (hf : Machine.Fails m (.breakdown b)) : m.Breaks b := by
  obtain ⟨hcore, rfl⟩ := Tree.IsRaw.structures (Tree.isRaw_of_parse hparse) hstandard hcs
  have hdisciplined := (Machine.disciplined_start t).steps hcore hm (lexical_start t)
  cases (sound_of_steps hparse hstandard hcs hm).step.of_error hf.2 with
  | breakdown h =>
    rcases h with rfl | hbreaks
    · exact absurd trivial (hdisciplined.not_ofMachine hf)
    · exact hbreaks

/-- **A program breaks down exactly if it reaches a limit**, and it has written what it wrote on the
way there. -/
theorem run_iff_breaksDown :
    (∃ budget, run budget source = some ⟨output, .error (.failure (.breakdown b))⟩) ↔
      BreaksDown source output b := by
  constructor
  · rintro ⟨budget, h⟩
    have hb : Outcome.breakdown? ⟨output, .error (.failure (.breakdown b))⟩ = some b := rfl
    rcases cases_of_run h with hreported | ⟨raw, t, cs, r, hparse, hstandard, hcs, hr, ho⟩
    · cases hreported
    · rw [ho, breakdown?_outcome] at hb
      obtain ⟨n, m, hm, ⟨-, rfl⟩ | ⟨f, hf, rfl⟩⟩ := Machine.steps_of_run hr
      · unfold Machine.finish at hb
        split at hb <;> cases hb
      · cases hb
        obtain rfl : output = m.output := congrArg Outcome.output ho
        exact ⟨raw, t, cs, n, m, hparse, hstandard, hcs, hm, rfl, hf,
          breaks_of_fails hparse hstandard hcs hm hf⟩
  · rintro ⟨raw, t, cs, n, m, hparse, hstandard, hcs, hm, rfl, hf, -⟩
    refine ⟨n + 1, ?_⟩
    rw [run_of_structures hparse hstandard hcs, Machine.run_of_steps hm, Machine.run_of_fails hf]
    rfl

theorem BreaksDown.breakdown_eq (h : BreaksDown source output b) :
    b = .tooManyDigits ∨ b = .floatRange := by
  obtain ⟨-, -, -, -, m, -, -, -, -, -, -, i, rest, -, hexceeds⟩ := h
  exact hexceeds.breakdown_eq

/-- **Errors are reported up to the limits of numbers.**  A program that ends has a value or an
error of one of the three classes, or it reached a state in which an instruction met or made a
number that exceeds a limit.  This is the only way out of the three classes as far as the stack of
the host suffices. -/
theorem reported_or_breaksDown (h : run budget source = some o) :
    o.IsReported ∨ ∃ b, o = ⟨o.output, .error (.failure (.breakdown b))⟩ ∧
      (b = .tooManyDigits ∨ b = .floatRange) ∧ BreaksDown source o.output b := by
  cases hb : o.breakdown? with
  | none => exact .inl hb
  | some b =>
    obtain ⟨output, answer⟩ := o
    obtain rfl : answer = _ := Outcome.breakdown?_eq_some_iff.mp hb
    have hbreaks : BreaksDown source output b := run_iff_breaksDown.mp ⟨budget, h⟩
    exact .inr ⟨b, rfl, hbreaks.breakdown_eq, hbreaks⟩

/-- The power has 4301 digits. -/
theorem breakdown?_power :
    (run 20 "10 ** 4300").bind Outcome.breakdown? = some .tooManyDigits := by
  decide +kernel

/-- The result of an operator is written, so it must not be too long. -/
theorem reported_or_breaksDown_power : ∃ o, run 20 "10 ** 4300" = some o ∧ ¬ o.IsReported ∧
    BreaksDown "10 ** 4300" o.output .tooManyDigits := by
  obtain ⟨o, ho, hb⟩ := Option.bind_eq_some_iff.mp breakdown?_power
  have hunreported : ¬ o.IsReported := by
    intro h
    cases h.symm.trans hb
  rcases reported_or_breaksDown ho with h | ⟨b, heq, -, hbreaks⟩
  · exact absurd h hunreported
  · rw [heq] at hb
    obtain rfl : b = .tooManyDigits := Option.some.inj hb
    exact ⟨o, ho, hunreported, hbreaks⟩

/-- Not every program that ends has a value or an error of one of the three classes. -/
theorem not_reported_of_run :
    ¬ ∀ budget source o, run budget source = some o → o.IsReported := by
  intro h
  obtain ⟨o, ho, hb⟩ := Option.bind_eq_some_iff.mp breakdown?_power
  cases (h 20 _ o ho).symm.trans hb

end Program

end Rpal
