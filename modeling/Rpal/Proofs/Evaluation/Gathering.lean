/-
# Tuples that are built up

A tuple is written at once, or built up from the empty one by one component after the other:

    E1, E2                    nil aug E1 aug E2

Its components are evaluated from the last to the first either way.  `gather` writes at once every
tuple that is built up in one place, and drops the texts of tuples, which mean nothing.  An
expression evaluates as what is gathered from it, but for the bodies of functions
(`Core.evaluate_gather`); so expressions that are gathered to the same one cannot be told apart
(`Core.evaluate_bare`).
-/
import Rpal.Proofs.Evaluation.Sugar

namespace Rpal

namespace Core

/-! ## 1. Gathering -/

/-- An operator between two expressions.  A tuple with one more component is written at once. -/
def combine (note : Option String) (op : BinaryOperator) (x y : Core) : Core :=
  match op, x with
  | .aug, .tuple _ parts => .tuple none (parts ++ [y])
  | op, x => .binary note op x y

mutual

/-- The expression with every tuple that is built up from `nil` written at once. -/
def gather : Core → Core
  | .name x => .name x
  | .literal l text => .literal l text
  | .nil _ => .tuple none []
  | .tuple _ parts => .tuple none (gatherAll parts)
  | .apply note f a => .apply note f.gather a.gather
  | .unary note op x => .unary note op x.gather
  | .binary note op x y => combine note op x.gather y.gather
  | .choice condition thenPart elsePart =>
    .choice condition.gather thenPart.gather elsePart.gather
  | .lambda label names body => .lambda label names body.gather

/-- Expressions side by side, gathered. -/
def gatherAll : List Core → List Core
  | [] => []
  | e :: es => e.gather :: gatherAll es

end

theorem gatherAll_eq_map (es : List Core) : gatherAll es = es.map gather := by
  induction es with
  | nil => rfl
  | cons e es ih => rw [gatherAll, ih, List.map_cons]

/-! ## 2. The meaning is kept -/

section Meaning

variable {i j : Inner Core}

/-- The last of several parts is evaluated before the others. -/
theorem meaningAll_concat (es : List Core) (e : Core) (scope : Scope Core) :
    meaningAll i (es ++ [e]) scope =
      meaning i e scope >>= fun w => meaningAll i es scope >>= fun vs => pure (vs ++ [w]) := by
  induction es with
  | nil => simp only [List.nil_append, meaningAll, pure_bind]
  | cons d es ih =>
    simp only [List.cons_append, meaningAll, ih, bind_assoc, pure_bind]

/-- **A tuple with one more component** can be written at once. -/
theorem meaning_combine (note : Option String) (op : BinaryOperator) (x y : Core)
    (scope : Scope Core) :
    meaning i (combine note op x y) scope = meaning i (.binary note op x y) scope := by
  unfold combine
  split
  · simp only [meaning, meaningAll_concat, bind_assoc, pure_bind]
    rfl
  · rfl

mutual

/-- **Gathering keeps the meaning of an expression.** -/
theorem meaning_gather (h : Translates gather i j) : (e : Core) → ∀ scope : Scope Core,
    meaning j e.gather (scope.map gather) = Value.map gather <$> meaning i e scope
  | .name x => fun scope => by
    simp only [gather, meaning, Scope.value_map, Eval.lift_map]
  | .literal l text => fun scope => rfl
  | .nil note => fun scope => rfl
  | .tuple note parts => fun scope => by
    simp only [gather, meaning]
    rw [meaningAll_gather h parts scope]
    simp only [bind_map_left, map_bind, map_pure]
    rfl
  | .apply note f a => fun scope => by
    simp only [gather, meaning]
    rw [meaning_gather h f scope, meaning_gather h a scope]
    simp only [bind_map_left, map_bind, h.call]
  | .unary note op x => fun scope => by
    simp only [gather, meaning]
    rw [meaning_gather h x scope]
    simp only [bind_map_left, map_bind, Value.unary_map, Eval.lift_map]
  | .binary note op x y => fun scope => by
    simp only [gather, meaning_combine, meaning]
    rw [meaning_gather h x scope, meaning_gather h y scope]
    simp only [bind_map_left, map_bind, Value.binary_map, Eval.lift_map]
  | .choice condition thenPart elsePart => fun scope => by
    simp only [gather, meaning]
    rw [meaning_gather h condition scope, meaning_gather h thenPart scope,
      meaning_gather h elsePart scope]
    simp only [bind_map_left, map_bind, choose_map]
  | .lambda label names body => fun scope => rfl

theorem meaningAll_gather (h : Translates gather i j) :
    (es : List Core) → ∀ scope : Scope Core,
    meaningAll j (gatherAll es) (scope.map gather) =
      Value.mapAll gather <$> meaningAll i es scope
  | [] => fun scope => rfl
  | e :: es => fun scope => by
    simp only [gatherAll, meaningAll]
    rw [meaning_gather h e scope, meaningAll_gather h es scope]
    simp only [bind_map_left, map_bind, map_pure, Value.mapAll]

end

end Meaning

/-! ## 3. Programs -/

/-- **A program evaluates as what is gathered from it**, but for the bodies of functions. -/
theorem evaluate_gather (budget : Nat) (e : Core) :
    e.gather.evaluate budget =
      (e.evaluate budget).map fun (r, out) => (r.map (Value.map gather), out) := by
  have htranslates : Translates gather (Rpal.inner meaning budget) (Rpal.inner meaning budget) :=
    translates_inner gather (fun _ _ h => meaning_gather h) budget
  have hmeaning := congrFun (meaning_gather htranslates e .empty) ""
  rw [Scope.map] at hmeaning
  unfold evaluate
  rw [hmeaning, Eval.map_run]

/-- **Expressions that are gathered to the same one** cannot be told apart: within any budget they
come to the same text and the same failure, or to values that differ in the bodies of functions. -/
theorem evaluate_bare {e e' : Core} (h : e.gather = e'.gather) (budget : Nat) :
    (e.evaluate budget).map (fun (r, out) => (r.map Value.bare, out)) =
      (e'.evaluate budget).map fun (r, out) => (r.map Value.bare, out) := by
  have hbare : ∀ e : Core, (e.evaluate budget).map (fun (r, out) => (r.map Value.bare, out)) =
      (e.gather.evaluate budget).map fun (r, out) => (r.map Value.bare, out) := by
    intro e
    rw [evaluate_gather]
    rcases e.evaluate budget with _ | ⟨_ | v, out⟩
    · rfl
    · rfl
    · simp [Except.map]
  rw [hbare e, hbare e', h]

end Core

end Rpal
