/-
# Environments

A name means its newest binding in the nearest frame that has one.  Values are copied when they
are bound and when they are looked up.
-/
import Rpal.Item

namespace Rpal.Env

/-- An environment with a single frame and no bindings. -/
def empty : Env := .frame .absent

/-- Binds a name to a copy of a value in the newest frame. -/
def define (name : Variable) (value : Item) (env : Env) : Env :=
  .binding name value.copy env

/-- Binds several names, from the left. -/
def defineAll (env : Env) (bindings : List (Variable × Item)) : Env :=
  bindings.foldl (fun env (name, value) => env.define name value) env

/-- The binding of a name as it was made. -/
def binding? (name : Variable) : Env → Option Item
  | .absent => none
  | .frame parent => parent.binding? name
  | .binding n value rest => if n = name then some value else rest.binding? name

/-- A copy of the value that a name is bound to. -/
def lookup? (name : Variable) (env : Env) : Option Item :=
  (env.binding? name).map Item.copy

/-- Whether a name is bound. -/
def isBound (name : Variable) (env : Env) : Bool :=
  (env.binding? name).isSome

/-- The number of frames in a chain. -/
def frameCount : Env → Nat
  | .absent => 0
  | .frame parent => parent.frameCount + 1
  | .binding _ _ rest => rest.frameCount

/-- The number of frames above the newest one. -/
def depth (env : Env) : Nat := env.frameCount - 1

/-- The names bound in the newest frame, newest binding first, with repetitions. -/
def frameNames : Env → List Variable
  | .absent => []
  | .frame _ => []
  | .binding name _ rest => name :: rest.frameNames

/-- The names bound in the newest frame, in their order. -/
def ownNames (env : Env) : List Variable :=
  env.frameNames.eraseDups.mergeSort Variable.atMost

/-- How an environment is shown. -/
def describe (env : Env) : String :=
  "Environment(depth=" ++ toString env.depth ++ ", names=" ++ Variable.quotedList env.ownNames ++ ")"

/-! ## Laws -/

/-- What was bound last is found first. -/
theorem lookup?_define_self (name : Variable) (value : Item) (env : Env) :
    (env.define name value).lookup? name = some value.copy.copy := by
  simp [define, lookup?, binding?]

/-- A binding does not touch other names. -/
theorem binding?_define_of_ne {name other : Variable} (h : name ≠ other) (value : Item) (env : Env) :
    (env.define name value).binding? other = env.binding? other := by
  simp [define, binding?, h]

/-- A new frame hides nothing. -/
theorem binding?_frame (name : Variable) (env : Env) :
    (Env.frame env).binding? name = env.binding? name := rfl

/-- A name can be looked up exactly when it is bound. -/
theorem lookup?_isSome (name : Variable) (env : Env) :
    (env.lookup? name).isSome = env.isBound name := by
  simp [lookup?, isBound]

end Rpal.Env
