/-
# Forests of frames

A forest is a growing collection of frames.  A frame is created with a parent or without one,
and names can be bound in any frame at any time; a frame created earlier keeps its place in the
chains of the frames below it, so a late binding is seen from all of them.

Questions about a frame are answered on the way up from it to its root.  `chain` reads the frame
with its ancestors as an environment.
-/
import Rpal.Environment
import Rpal.Fault

namespace Rpal

/-- A frame of a forest: its parent, by number, and its bindings, the oldest first. -/
structure ForestFrame where
  parent : Option Nat
  bindings : List (Variable × Item)

/-- What a name is bound to in a frame: its newest binding there. -/
def ForestFrame.binding? (name : Variable) (frame : ForestFrame) : Option Item :=
  (frame.bindings.reverse.find? fun b => b.1 = name).map (·.2)

/-- Frames, the newest first; the oldest has number 0. -/
structure Forest where
  frames : List ForestFrame := []

namespace Forest

/-- Adds a frame and yields its number. -/
def grow (parent : Option Nat) (f : Forest) : Nat × Forest :=
  (f.frames.length, ⟨⟨parent, []⟩ :: f.frames⟩)

/-- Adds a binding to frame `number` of a list whose last frame has number 0. -/
def bindIn (number : Nat) (name : Variable) (value : Item) : List ForestFrame → List ForestFrame
  | [] => []
  | frame :: older =>
    if number = older.length then
      { frame with bindings := frame.bindings ++ [(name, value.copy)] } :: older
    else frame :: bindIn number name value older

/-- Binds a name in a frame. -/
def bind (number : Nat) (name : Variable) (value : Item) (f : Forest) : Forest :=
  ⟨bindIn number name value f.frames⟩

/-- The chain of a frame among frames of which the last has number 0.  A parent is older than
its frame. -/
def chainIn (number : Nat) : List ForestFrame → Env
  | [] => .absent
  | frame :: older =>
    if number = older.length then
      let above := match frame.parent with
        | some parent => chainIn parent older
        | none => .absent
      frame.bindings.foldl (fun env (name, value) => .binding name value env) (.frame above)
    else chainIn number older

/-- A frame with its ancestors. -/
def chain (number : Nat) (f : Forest) : Env :=
  chainIn number f.frames

/-- Goes up from a frame to its root, among frames of which the last has number 0.  `visit` answers
for a frame from what is known of the frames above it, and `root` is known above the root. -/
def ascend {α : Type} (root : α) (visit : ForestFrame → α → α) (number : Nat) :
    List ForestFrame → α
  | [] => root
  | frame :: older =>
    if number = older.length then
      visit frame (match frame.parent with
        | some parent => ascend root visit parent older
        | none => root)
    else ascend root visit number older

/-- A copy of the value that a name is bound to in the nearest frame, or an error. -/
def lookup (number : Nat) (name : Variable) (f : Forest) : Except Fault Item :=
  ascend (.error (.unbound name))
    (fun frame above => match frame.binding? name with
      | some value => .ok value.copy
      | none => above)
    number f.frames

/-- Whether a name is bound in a frame or above it. -/
def isBound (number : Nat) (name : Variable) (f : Forest) : Bool :=
  ascend false (fun frame above => frame.bindings.any (fun b => b.1 = name) || above)
    number f.frames

/-- The number of frames above a frame. -/
def depth (number : Nat) (f : Forest) : Nat :=
  ascend 0 (fun _ above => above + 1) number f.frames - 1

/-- Creating a frame adds exactly one. -/
theorem length_grow (parent : Option Nat) (f : Forest) :
    (f.grow parent).2.frames.length = f.frames.length + 1 := rfl

/-- Binding creates no frame. -/
theorem length_bindIn (number : Nat) (name : Variable) (value : Item) (frames : List ForestFrame) :
    (bindIn number name value frames).length = frames.length := by
  induction frames with
  | nil => rfl
  | cons frame older ih =>
    simp only [bindIn]
    split <;> simp [ih]

end Forest

end Rpal
