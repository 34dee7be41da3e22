/-
# Program trees

A tree node has a kind, an optional text -- the name of an identifier, the digits of an
integer, the characters of a string -- and its children in order.  `arity` is zero in every
tree that the grammar builds; it is kept for trees handed in from outside.

The raw tree of a program and its standardized form are both of this type.  A tree is shown in
two ways: `outline` prints one node a line, indented by dots, and `compact` prints the whole
tree on one line by the names of the kinds.
-/
import Rpal.Kind

namespace Rpal

/-- A node with its subtrees. -/
structure Tree where
  kind : Kind
  text : Option String := none
  children : List Tree := []
  arity : Nat := 0
  deriving Inhabited

namespace Tree

/-- A node without children. -/
def leaf (kind : Kind) (text : String) : Tree := { kind, text := some text }

/-- A node without a text. -/
def branch (kind : Kind) (children : List Tree) : Tree := { kind, children }

/-- The label of the root in a printed tree. -/
def label (t : Tree) : String := t.kind.label t.text

/-! ## 1. Printed forms -/

mutual

/-- One node a line in pre-order, each indented by as many dots as it has ancestors. -/
def outlineAt (depth : Nat) : Tree → String
  | ⟨kind, text, children, _⟩ =>
    String.ofList (List.replicate depth '.') ++ kind.label text ++ "\n" ++
      outlineAllAt (depth + 1) children

/-- The outlines of neighbours, one after the other. -/
def outlineAllAt (depth : Nat) : List Tree → String
  | [] => ""
  | t :: ts => outlineAt depth t ++ outlineAllAt depth ts

end

/-- The printed tree. -/
def outline (t : Tree) : String := outlineAt 0 t

mutual

/-- The tree on one line: the name of the kind, then the children or the text in brackets. -/
def compact : Tree → String
  | ⟨kind, text, children, _⟩ =>
    match children, text with
    | [], none => kind.name
    | [], some text => kind.name ++ "(" ++ text ++ ")"
    | t :: ts, _ => kind.name ++ "(" ++ t.compact ++ compactRest ts ++ ")"

/-- Further children, each after a comma. -/
def compactRest : List Tree → String
  | [] => ""
  | t :: ts => ", " ++ t.compact ++ compactRest ts

end

/-! ## 2. Search and size -/

mutual

/-- All subtrees of a kind, in pre-order. -/
def find (kind : Kind) : Tree → List Tree
  | ⟨k, text, children, arity⟩ =>
    (if k = kind then [⟨k, text, children, arity⟩] else []) ++ findAll kind children

/-- All subtrees of a kind below neighbours. -/
def findAll (kind : Kind) : List Tree → List Tree
  | [] => []
  | t :: ts => t.find kind ++ findAll kind ts

end

mutual

/-- The number of nodes. -/
def size : Tree → Nat
  | ⟨_, _, children, _⟩ => 1 + sizeAll children

/-- The number of nodes of neighbours. -/
def sizeAll : List Tree → Nat
  | [] => 0
  | t :: ts => t.size + sizeAll ts

end

mutual

/-- The number of levels. -/
def height : Tree → Nat
  | ⟨_, _, children, _⟩ => 1 + heightAll children

/-- The number of levels of the highest of neighbours. -/
def heightAll : List Tree → Nat
  | [] => 0
  | t :: ts => max t.height (heightAll ts)

end

/-- A tree has at least its root. -/
theorem size_pos (t : Tree) : 0 < t.size := by
  cases t
  simp only [size]
  omega

/-- A child is smaller than the node. -/
theorem size_lt_of_mem {t c : Tree} (h : c ∈ t.children) : c.size < t.size := by
  have hall : ∀ ts : List Tree, c ∈ ts → c.size ≤ sizeAll ts := by
    intro ts
    induction ts with
    | nil => simp
    | cons t ts ih =>
      intro hm
      simp only [sizeAll]
      rcases List.mem_cons.mp hm with rfl | hm
      · omega
      · have := ih hm
        omega
  obtain ⟨kind, text, children, arity⟩ := t
  have := hall children h
  simp only [size]
  omega

/-- What is found has the kind that was looked for. -/
theorem kind_of_mem_find {kind : Kind} (t : Tree) : ∀ s ∈ t.find kind, s.kind = kind :=
  Tree.rec
    (motive_1 := fun t => ∀ s ∈ t.find kind, s.kind = kind)
    (motive_2 := fun ts => ∀ s ∈ findAll kind ts, s.kind = kind)
    (fun k text children arity ih s hs => by
      simp only [find, List.mem_append] at hs
      rcases hs with hs | hs
      · split at hs
        · rename_i hk
          simp only [List.mem_singleton] at hs
          rw [hs, ← hk]
        · simp at hs
      · exact ih s hs)
    (by simp [findAll])
    (fun t ts iht ihts s hs => by
      simp only [findAll, List.mem_append] at hs
      rcases hs with hs | hs
      · exact iht s hs
      · exact ihts s hs)
    t

end Tree

end Rpal
