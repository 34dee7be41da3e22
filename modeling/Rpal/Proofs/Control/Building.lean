/-
# The control structures of a core tree

The listing of a tree of the core language is the code of an expression (`code_expression`), and
its bodies can be walked through exactly if every parameter is a name, several names, or `()`.
So the builder succeeds exactly on the trees of the core language, and then structure `i` is that
of function `i`, in breadth-first order (`structures_eq_ok_iff`),

    names    those of its parameter
    body     the instructions of its body as an expression of the core language

where every function in the body refers to its own structure.
-/
import Rpal.Proofs.Control.Listing

namespace Rpal

namespace Core

/-- The expression of a node with its parts. -/
def ofNode (kind : Kind) (text : Option String) (parts : List Core) : Core :=
  match kind, parts with
  | .identifier, _ => .name text
  | .nil, _ => .nil text
  | .tau, parts => .tuple text parts
  | .gamma, [f, a] => .apply text f a
  | kind, [x] =>
    match UnaryOperator.ofKind? kind with
    | some op => .unary text op x
    | none => .nil text
  | kind, [x, y] =>
    match BinaryOperator.ofKind? kind with
    | some op => .binary text op x y
    | none => .nil text
  | kind, _ =>
    match Literal.ofKind? kind with
    | some l => .literal l text
    | none => .nil text

/-- The instructions of a node: its own and those of its parts. -/
theorem code_ofNode {kind : Kind} {parts : List Core} (h : kind.Admits parts.length)
    (text : Option String) :
    (ofNode kind text parts).code =
      Control.instruction kind text parts.length :: codeAll parts := by
  match parts, h with
  | [], h => cases kind <;> first | rfl | cases h
  | [x], h => cases kind <;> first | (simp [ofNode, code, codeAll]; rfl) | cases h
  | [x, y], h => cases kind <;> first | (simp [ofNode, code, codeAll]; rfl) | cases h
  | x :: y :: z :: rest, h => cases kind <;> first | rfl | cases h

end Core

namespace Tree

mutual

/-- A tree at a place as an expression of the core language; functions are labelled by number. -/
def expression (number : Place → Nat) (place : Place) : Tree → Core
  | ⟨kind, text, children, _⟩ =>
    match kind, children with
    | .lambda, [param, body] =>
      .lambda (number (place ++ [1])) param.parameterNames (expression number (place ++ [1]) body)
    | .conditional, [condition, thenPart, elsePart] =>
      .choice (expression number (place ++ [0]) condition)
        (expression number (place ++ [1]) thenPart) (expression number (place ++ [2]) elsePart)
    | kind, children => Core.ofNode kind text (expressionAll number place 0 children)

/-- Neighbours as expressions, the first of which is child `k`. -/
def expressionAll (number : Place → Nat) (place : Place) : Nat → List Tree → List Core
  | _, [] => []
  | k, t :: ts => expression number (place ++ [k]) t :: expressionAll number place (k + 1) ts

end

@[simp] theorem length_expressionAll (number : Place → Nat) (place : Place) (ts : List Tree) :
    ∀ k, (expressionAll number place k ts).length = ts.length := by
  induction ts with
  | nil => intro k; rfl
  | cons t ts ih => intro k; simp [expressionAll, ih]

theorem expression_node {kind : Kind} (h₁ : kind ≠ .lambda) (h₂ : kind ≠ .conditional)
    (number : Place → Nat) (place : Place) (text : Option String) (children : List Tree)
    (arity : Nat) :
    expression number place ⟨kind, text, children, arity⟩ =
      Core.ofNode kind text (expressionAll number place 0 children) := by
  cases kind <;> first | rfl | contradiction

theorem codeAll_expressionAll {number : Place → Nat} {place : Place} {ts : List Tree}
    (h : ∀ t ∈ ts, ∀ place, (expression number place t).code = t.listing number place) :
    ∀ k, Core.codeAll (expressionAll number place k ts) = listingAll number place k ts := by
  induction ts with
  | nil => intro k; rfl
  | cons t ts ih =>
    intro k
    simp only [expressionAll, Core.codeAll, listingAll]
    rw [h t List.mem_cons_self, ih fun t' ht => h t' (List.mem_cons_of_mem _ ht)]

/-- **The listing of a core tree** is the code of its expression. -/
theorem CoreShape.code_expression {P : Tree → Prop} {t : Tree} (h : CoreShape P t)
    (number : Place → Nat) :
    ∀ place, (expression number place t).code = t.listing number place := by
  induction h with
  | lambda _ _ ih =>
    intro place
    simp only [expression, Core.code, listing]
    rw [ih]
  | choice _ _ _ ihc iht ihe =>
    intro place
    simp only [expression, Core.code, listing]
    rw [ihc, iht, ihe]
  | @node kind text children arity hk _ ih =>
    intro place
    have hplain := isPlain_of_ne hk.ne.1 hk.ne.2 text children arity
    rw [expression_node hk.ne.1 hk.ne.2, Core.code_ofNode (by rwa [length_expressionAll]),
      hplain.listing, length_expressionAll, codeAll_expressionAll ih]

theorem listable_outerAll {place : Place} {ts : List Tree}
    (h : ∀ t ∈ ts, ∀ place, t.Listable ↔ ∀ x ∈ outer place t, x.param.IsParameter) :
    ∀ k, (∀ t ∈ ts, t.Listable) ↔ ∀ x ∈ outerAll place k ts, x.param.IsParameter := by
  induction ts with
  | nil => simp [outerAll]
  | cons t ts ih =>
    intro k
    rw [List.forall_mem_cons, outerAll, List.forall_mem_append, h t List.mem_cons_self,
      ih (fun t' ht => h t' (List.mem_cons_of_mem _ ht)) (k + 1)]

/-- A core tree can be walked through exactly if its outer functions have parameters of the
language. -/
theorem CoreShape.listable_iff {P : Tree → Prop} {t : Tree} (h : CoreShape P t) :
    ∀ place, t.Listable ↔ ∀ x ∈ outer place t, x.param.IsParameter := by
  induction h with
  | lambda =>
    intro place
    simp [listable_lambda_iff, outer]
  | choice _ _ _ ihc iht ihe =>
    intro place
    rw [listable_choice_iff, outer, List.forall_mem_append, List.forall_mem_append,
      iht (place ++ [1]), ihe (place ++ [2]), ihc (place ++ [0])]
  | @node kind text children arity hk _ ih =>
    intro place
    have hplain := isPlain_of_ne hk.ne.1 hk.ne.2 text children arity
    rw [hplain.listable_iff, hplain.outer, and_iff_right hk.ne, listable_outerAll ih 0]

end Tree

namespace Control

open Rpal.Tree

variable {P : Tree → Prop} {number : Place → Nat}

/-- The instructions of the body of a function. -/
def bodyOf (number : Place → Nat) (s : Site) : List Item := (expression number s.place s.body).code

/-- The control structure of a function. -/
def structureOf (number : Place → Nat) (s : Site) : Closure :=
  ⟨number s.place, s.param.parameterNames, bodyOf number s, .absent⟩

theorem closure_eq_structureOf {s : Site} (h : CoreShape P s.body) :
    s.closure number = structureOf number s := by
  rw [Site.closure, Site.items, structureOf, bodyOf, h.code_expression]

/-- **The control structures of a core tree.**  They can be built exactly if every parameter is
one of the language, and then each function has its own, in breadth-first order. -/
theorem structures_eq_ok_iff {t : Tree} (h : CoreShape P t) {cs : List Closure} :
    structures t = .ok cs ↔ t.IsCore ∧ cs = t.sites.map (structureOf t.number) := by
  have hlistable : (∀ s ∈ t.sites, s.body.Listable) ↔ t.IsCore := by
    rw [← h.forall_inner_iff]
    exact forall₂_congr fun s hs => (h.of_mem_sites s hs).listable_iff s.place
  have hstructures : t.closures = t.sites.map (structureOf t.number) :=
    List.map_congr_left fun s hs => closure_eq_structureOf (h.of_mem_sites s hs)
  rw [structures_iff, hlistable, hstructures]

end Control

end Rpal
