/-
# The nodes of a tree

`nodes` lists the subtrees of a tree in pre-order, the tree itself first.  A property that is asked
of every node, as "its kind is one of these" or "its text is a numeral", is then one quantifier:

* `every_iff` takes it apart, at the root and below;
* `induction` is induction over the children, whatever their number;
* `find_eq_filter`: searching a tree for a kind is a selection from its nodes.
-/
import Mathlib.Data.List.Basic
import Rpal.Tree

namespace Rpal.Tree

mutual

/-- All subtrees, in pre-order. -/
def nodes : Tree → List Tree
  | ⟨kind, text, children, arity⟩ => ⟨kind, text, children, arity⟩ :: nodesAll children

/-- All subtrees of neighbours. -/
def nodesAll : List Tree → List Tree
  | [] => []
  | t :: ts => t.nodes ++ nodesAll ts

end

/-- Every node has the property. -/
def Every (P : Tree → Prop) (t : Tree) : Prop := ∀ n ∈ t.nodes, P n

/-! ## 1. Nodes -/

/-- The root, and the nodes below. -/
theorem nodes_eq (t : Tree) : t.nodes = t :: nodesAll t.children := by
  cases t
  rfl

theorem mem_nodesAll {n : Tree} {ts : List Tree} : n ∈ nodesAll ts ↔ ∃ t ∈ ts, n ∈ t.nodes := by
  induction ts with
  | nil => simp only [nodesAll, List.not_mem_nil, false_and, exists_false]
  | cons t ts ih => simp only [nodesAll, List.mem_append, ih, List.exists_mem_cons_iff]

/-- A node is the root, or a node of a child. -/
theorem mem_nodes_iff {n t : Tree} : n ∈ t.nodes ↔ n = t ∨ ∃ c ∈ t.children, n ∈ c.nodes := by
  rw [nodes_eq, List.mem_cons, mem_nodesAll]

theorem mem_nodes_self (t : Tree) : t ∈ t.nodes := mem_nodes_iff.mpr (.inl rfl)

theorem mem_nodes_of_child {n c t : Tree} (hc : c ∈ t.children) (hn : n ∈ c.nodes) : n ∈ t.nodes :=
  mem_nodes_iff.mpr (.inr ⟨c, hc, hn⟩)

/-! ## 2. Induction -/

/-- Induction from the children of a node to the node. -/
@[elab_as_elim]
theorem induction {motive : Tree → Prop}
    (node : ∀ t : Tree, (∀ c ∈ t.children, motive c) → motive t) (t : Tree) : motive t := by
  generalize hsize : t.size = size
  induction size using Nat.strongRecOn generalizing t with
  | _ size ih =>
    subst hsize
    exact node t fun c hc => ih c.size (size_lt_of_mem hc) c rfl

/-! ## 3. Properties of all nodes -/

variable {P : Tree → Prop}

/-- A property of all nodes is one of the root and of all nodes of each child. -/
theorem every_iff {t : Tree} : t.Every P ↔ P t ∧ ∀ c ∈ t.children, c.Every P := by
  constructor
  · intro h
    exact ⟨h t t.mem_nodes_self, fun c hc n hn => h n (mem_nodes_of_child hc hn)⟩
  · rintro ⟨hroot, hbelow⟩ n hn
    rcases mem_nodes_iff.mp hn with rfl | ⟨c, hc, hn⟩
    · exact hroot
    · exact hbelow c hc n hn

theorem Every.root {t : Tree} (h : t.Every P) : P t := (every_iff.mp h).1

theorem Every.child {t c : Tree} (h : t.Every P) (hc : c ∈ t.children) : c.Every P :=
  (every_iff.mp h).2 c hc

/-- Below a leaf there is nothing. -/
theorem every_leaf_iff {kind : Kind} {text : String} :
    (leaf kind text).Every P ↔ P (leaf kind text) := by
  rw [every_iff]
  exact and_iff_left (List.forall_mem_nil _)

theorem every_branch_iff {kind : Kind} {ts : List Tree} :
    (branch kind ts).Every P ↔ P (branch kind ts) ∧ ∀ t ∈ ts, t.Every P := every_iff

/-! ## 4. Searching -/

/-- The mutual definition is a `flatMap`. -/
theorem findAll_eq_flatMap (kind : Kind) (ts : List Tree) :
    findAll kind ts = ts.flatMap (find kind) := by
  induction ts with
  | nil => rfl
  | cons t ts ih => rw [findAll, ih, List.flatMap_cons]

theorem nodesAll_eq_flatMap (ts : List Tree) : nodesAll ts = ts.flatMap nodes := by
  induction ts with
  | nil => rfl
  | cons t ts ih => rw [nodesAll, ih, List.flatMap_cons]

/-- A search finds the nodes of the kind, in order. -/
theorem find_eq_filter (kind : Kind) (t : Tree) :
    t.find kind = t.nodes.filter fun n => n.kind = kind := by
  induction t using induction with
  | node t ih =>
    obtain ⟨k, text, children, arity⟩ := t
    have hbelow : findAll kind children = (nodesAll children).filter fun n => n.kind = kind := by
      rw [findAll_eq_flatMap, nodesAll_eq_flatMap, List.filter_flatMap]
      exact List.flatMap_congr ih
    -- the root is listed first by both, where it is of the kind
    rw [nodes_eq, List.filter_cons, find, hbelow]
    split <;> simp_all

end Rpal.Tree
