/-
# Traces of the machine

Two views of a run that do not change it.  The *history* lists every step with the state it
leads to, up to a limit.  The *log* is what debugging prints: a line for every step, told from
the state before it, a line when a function body is entered, and a line when a built-in
function has all its arguments.
-/
import Rpal.Machine

namespace Rpal.Machine

/-! ## 1. History -/

/-- A step: the item that was executed, and the state after it or the failure. -/
inductive Event where
  | done (item : Item) (after : Machine)
  | failed (item : Item) (failure : Failure)

/-- The steps of a run and the state in which it stops: with an empty control, after a failure,
or at the limit. -/
def history : Nat → Machine → List Event × Machine
  | 0, m => ([], m)
  | limit + 1, m =>
    match m.control with
    | [] => ([], m)
    | i :: rest =>
      match execute i (m.take rest) with
      | .ok next =>
        let (events, last) := history limit next
        (.done i next :: events, last)
      | .error f => ([.failed i f], m.take rest)

/-! ## 2. Log -/

/-- The line that is printed when the body of a function is entered. -/
def enteringLine (function argument : Item) : List String :=
  match function with
  | .delta c =>
    match parameters c argument with
    | .ok env =>
      ["Entering control structure " ++ toString c.index ++ " at depth " ++ toString env.depth]
    | .error _ => []
  | _ => []

/-- The line that is printed when a built-in function has all its arguments. -/
def callingLine (function : Item) : List String :=
  match builtin? function with
  | some b =>
    if function.children.length + 1 < b.arity then [] else ["Calling built-in " ++ b.name]
  | none => []

/-- The lines printed while an item is executed. -/
def stepLines (i : Item) (m : Machine) : List String :=
  let head := "Step " ++ toString m.steps ++ ": " ++ i.label ++ " (control=" ++
    toString m.control.length ++ ", values=" ++ toString m.values.length ++ ", env depth=" ++
    toString m.env.depth ++ ")"
  match i, m.values with
  | .node .gamma _ _ _, function :: argument :: _ =>
    head :: enteringLine function argument ++ callingLine function
  | _, _ => [head]

/-- The line printed when a run ends with a value. -/
def finishLines (m : Machine) : List String :=
  match m.finish.answer with
  | .ok _ => ["Finished after " ++ toString m.steps ++ " steps"]
  | .error _ => []

/-- The lines printed by a run, within a budget of steps. -/
def log : Nat → Machine → List String
  | 0, _ => []
  | budget + 1, m =>
    match m.control with
    | [] => m.finishLines
    | i :: rest =>
      let taken := m.take rest
      stepLines i taken ++
        match execute i taken with
        | .ok next => log budget next
        | .error _ => []

end Rpal.Machine
