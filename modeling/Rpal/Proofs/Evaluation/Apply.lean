/-
# Evaluation and application

An evaluation appends to the text written so far and comes to a value or a failure, or it does
not come to an end within its budget:

    text so far  ->  nothing  |  (value or failure, text)

The budget bounds how deep bodies are entered one inside the other, not how long anything takes.
An evaluator for code of a type `γ` is written against an `Inner γ`: what there is to evaluate
and to apply with a budget smaller by one.  `inner` ties the knot.

Application is the same for all evaluators:

    closure            its body, in its scope with the parameter bound
    recursive          its function applied to itself, and the result to the argument
    Y*                 the argument, made recursive
    tuple              the component at the index
    built-in           its result, or the wait for another argument
-/
import Rpal.Proofs.Evaluation.Value

namespace Rpal

/-! ## 1. Evaluations -/

/-- An evaluation, from the text written before it.  Without a result it is not over. -/
def Eval (α : Type) : Type := String → Option (Except Failure α × String)

namespace Eval

variable {α β : Type}

instance : Monad Eval where
  pure a := fun out => some (.ok a, out)
  bind x f := fun out =>
    match x out with
    | none => none
    | some (.error e, out) => some (.error e, out)
    | some (.ok a, out) => f a out

/-- The evaluation that is never over. -/
def unfinished : Eval α := fun _ => none

/-- A result that is known, or a failure. -/
def lift (r : Except Failure α) : Eval α := fun out => some (r, out)

/-- Writes a text. -/
def write (text : String) : Eval Unit := fun out => some (.ok (), out ++ text)

theorem bind_run (x : Eval α) (f : α → Eval β) (out : String) :
    (x >>= f) out =
      match x out with
      | none => none
      | some (.error e, out) => some (.error e, out)
      | some (.ok a, out) => f a out := rfl

instance : LawfulMonad Eval :=
  LawfulMonad.mk' Eval
    (fun x => by
      funext out
      show (x >>= fun a => pure (id a)) out = x out
      rw [bind_run]
      rcases x out with _ | ⟨_ | _, _⟩ <;> rfl)
    (fun _ _ => rfl)
    (fun x f g => by
      funext out
      simp only [bind_run]
      rcases x out with _ | ⟨_ | _, _⟩ <;> rfl)

end Eval

/-! ## 2. Application -/

/-- What can be evaluated and applied with a smaller budget. -/
structure Inner (γ : Type) where
  evaluate : γ → Scope γ → Eval (Value γ)
  apply : Value γ → Value γ → Eval (Value γ)

variable {γ : Type}

/-- Evaluates the body of a function with its parameter bound to an argument. -/
def Inner.enter (inner : Inner γ) (f : Lambda γ) (argument : Value γ) : Eval (Value γ) := do
  let scope ← Eval.lift (f.bind argument)
  inner.evaluate f.code scope

/-- The value of a function at an argument. -/
def Inner.call (inner : Inner γ) (function argument : Value γ) : Eval (Value γ) :=
  match function with
  | .closure f => inner.enter f argument
  | .recursive f => do
    let unrolled ← inner.enter f (.recursive f)
    inner.apply unrolled argument
  | .tuple components => Eval.lift (Value.select components argument)
  | .builtin b args =>
    if args.length + 1 < b.arity then pure (.builtin b (args ++ [argument]))
    else do
      let (v, text) ← Eval.lift (Value.applyAll b (args ++ [argument]))
      Eval.write text
      pure v
  | .literal .yStar _ =>
    match argument with
    | .closure f => pure (.recursive f)
    | argument => Eval.lift (.error (argument.bare.mismatch "Y*" "argument" "function"))
  | function => Eval.lift (.error function.bare.notApplicable)

/-- Ties the knot of an evaluator: with no budget left nothing is evaluated. -/
def inner (meaning : Inner γ → γ → Scope γ → Eval (Value γ)) : Nat → Inner γ
  | 0 => ⟨fun _ _ => Eval.unfinished, fun _ _ => Eval.unfinished⟩
  | budget + 1 => ⟨meaning (inner meaning budget), (inner meaning budget).call⟩

end Rpal
