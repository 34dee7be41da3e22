/-
# Steps of the machine

A run with a budget is a chain of single steps that ends in one of three ways:

    control empty       the only value is the result
    a step fails        the failure is the result, with the text written before it
    budget used up      there is no result

This file gives the chain a relation of its own, `Steps n m m'`, and says what a run makes of
each ending.  A result depends on the state alone (`run_unique`): every budget that is large
enough gives the same one, so "the machine runs forever" is "no budget gives a result".
-/
import Rpal.Machine

namespace Rpal.Machine

/-! ## 1. Chains of steps -/

/-- `Steps n m m'`: the machine gets from `m` to `m'` in `n` steps, none of which fails or finds
the control empty. -/
inductive Steps : Nat → Machine → Machine → Prop where
  | refl (m : Machine) : Steps 0 m m
  | head {n : Nat} {m next last : Machine} (busy : m.control ≠ []) (step : m.step = .ok next)
      (rest : Steps n next last) : Steps (n + 1) m last

/-- `Fails m f`: the next step of `m` fails with `f`. -/
def Fails (m : Machine) (f : Failure) : Prop := m.control ≠ [] ∧ m.step = .error f

/-- The step of a state whose control is written out. -/
theorem step_cons (i : Item) (control values : List Item) (env : Env) (output : String)
    (steps : Nat) :
    step ⟨i :: control, values, env, output, steps⟩ =
      execute i ⟨control, values, env, output, steps + 1⟩ := rfl

theorem Steps.trans {n k : Nat} {m m₁ m₂ : Machine} (h₁ : Steps n m m₁) (h₂ : Steps k m₁ m₂) :
    Steps (n + k) m m₂ := by
  induction h₁ with
  | refl m => rwa [Nat.zero_add]
  | head busy step _ ih =>
    rw [Nat.succ_add]
    exact .head busy step (ih h₂)

/-- One step that is known to succeed. -/
theorem Steps.one {i : Item} {control values : List Item} {env : Env} {output : String}
    {steps : Nat} {m : Machine}
    (h : execute i ⟨control, values, env, output, steps + 1⟩ = .ok m) :
    Steps 1 ⟨i :: control, values, env, output, steps⟩ m :=
  .head (by simp) (by rw [step_cons, h]) (.refl m)

/-- **Invariants.**  What holds at the start and is kept by every step holds in every state that
is reached. -/
theorem Steps.invariant {P : Machine → Prop}
    (keep : ∀ m next : Machine, P m → m.control ≠ [] → m.step = .ok next → P next)
    {n : Nat} {m last : Machine} (h : Steps n m last) (start : P m) : P last := by
  induction h with
  | refl m => exact start
  | head busy step _ ih => exact ih (keep _ _ start busy step)

/-! ## 2. Runs -/

theorem run_of_control_nil {m : Machine} (h : m.control = []) (n : Nat) :
    run n m = some m.finish := by
  cases n <;> simp [run, h]

theorem run_of_fails {m : Machine} {f : Failure} (h : Fails m f) (n : Nat) :
    run (n + 1) m = some ⟨m.output, .error f⟩ := by
  obtain ⟨busy, step⟩ := h
  simp [run, busy, step]

/-- A run first does the steps of a chain. -/
theorem run_of_steps {n : Nat} {m last : Machine} (h : Steps n m last) (k : Nat) :
    run (n + k) m = run k last := by
  induction h with
  | refl m => rw [Nat.zero_add]
  | head busy step _ ih =>
    rw [Nat.succ_add, ← ih]
    simp [run, busy, step]

/-- A chain that is longer than the budget leaves a run without a result. -/
theorem run_eq_none_of_steps {n k : Nat} {m last : Machine} (h : Steps n m last) (hk : k < n) :
    run k m = none := by
  induction h generalizing k with
  | refl m => exact absurd hk (Nat.not_lt_zero k)
  | head busy step _ ih =>
    cases k with
    | zero => simp [run, busy]
    | succ k =>
      have := ih (Nat.lt_of_succ_lt_succ hk)
      simp [run, busy, step, this]

/-- A run that has no result within its budget is a chain of that length. -/
theorem steps_of_run_eq_none {n : Nat} {m : Machine} (h : run n m = none) :
    ∃ last, Steps n m last ∧ last.control ≠ [] := by
  induction n generalizing m with
  | zero =>
    refine ⟨m, .refl m, fun hc => ?_⟩
    rw [run_of_control_nil hc] at h
    cases h
  | succ n ih =>
    have hc : m.control ≠ [] := by
      intro hc
      rw [run_of_control_nil hc] at h
      cases h
    cases hs : m.step with
    | error f =>
      rw [run_of_fails ⟨hc, hs⟩] at h
      cases h
    | ok next =>
      have hn : run n next = none := by simpa [run, hc, hs] using h
      obtain ⟨last, hlast, hbusy⟩ := ih hn
      exact ⟨last, .head hc hs hlast, hbusy⟩

/-- **The result is a matter of the state alone.** -/
theorem run_unique {n k : Nat} {m : Machine} {r r' : Result} (h : run n m = some r)
    (h' : run k m = some r') : r = r' := by
  have h₁ := run_mono (k := k) h
  have h₂ := run_mono (k := n) h'
  rw [Nat.add_comm k n] at h₂
  exact Option.some.inj (h₁.symm.trans h₂)

/-- A result comes from a chain that ends with an empty control or before a failing step. -/
theorem steps_of_run {n : Nat} {m : Machine} {r : Result} (h : run n m = some r) :
    ∃ k last, Steps k m last ∧
      ((last.control = [] ∧ r = last.finish) ∨
        ∃ f, Fails last f ∧ r = ⟨last.output, .error f⟩) := by
  induction n generalizing m with
  | zero =>
    by_cases hc : m.control = []
    · refine ⟨0, m, .refl m, .inl ⟨hc, ?_⟩⟩
      rw [run_of_control_nil hc] at h
      exact (Option.some.inj h).symm
    · simp [run, hc] at h
  | succ n ih =>
    by_cases hc : m.control = []
    · refine ⟨0, m, .refl m, .inl ⟨hc, ?_⟩⟩
      rw [run_of_control_nil hc] at h
      exact (Option.some.inj h).symm
    · cases hs : m.step with
      | error f =>
        refine ⟨0, m, .refl m, .inr ⟨f, ⟨hc, hs⟩, ?_⟩⟩
        rw [run_of_fails ⟨hc, hs⟩] at h
        exact (Option.some.inj h).symm
      | ok next =>
        have hn : run n next = some r := by simpa [run, hc, hs] using h
        obtain ⟨k, last, hk, hend⟩ := ih hn
        exact ⟨k + 1, last, .head hc hs hk, hend⟩

end Rpal.Machine
