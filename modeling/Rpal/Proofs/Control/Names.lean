/-
# Names in the instructions of a body

The instructions of a body look up names that are free in the body, and no others
(`usesIn_bodyOf`).  A name that is free in the body of a function is free in the program or is
bound by one of the functions around the body (`free_of_mem_sites`):

    fn x . fn y . x y z       the body `x y z` has the free names x, y, z
                              the functions around it bind x, y
                              the program has the free name z
-/
import Rpal.Proofs.Control.Nesting
import Rpal.Proofs.Standard.Scope

namespace Rpal

/-! ## 1. Names that instructions look up -/

mutual

/-- All names that an instruction looks up have a property.  The body of a function is a structure
of its own. -/
def Item.Uses (Q : Variable → Prop) : Item → Prop
  | .node kind text _ _ => kind = .identifier → Q text
  | .beta thenBody elseBody => Item.UsesIn Q thenBody ∧ Item.UsesIn Q elseBody
  | .delta _ => True
  | .eta _ => True
  | .marker _ => True

/-- All names that instructions look up have a property. -/
def Item.UsesIn (Q : Variable → Prop) : List Item → Prop
  | [] => True
  | i :: is => i.Uses Q ∧ Item.UsesIn Q is

end

theorem Item.usesIn_iff {Q : Variable → Prop} {is : List Item} :
    Item.UsesIn Q is ↔ ∀ i ∈ is, i.Uses Q := by
  induction is with
  | nil => simp [Item.UsesIn]
  | cons i is ih => simp [Item.UsesIn, ih]

theorem Item.usesIn_append {Q : Variable → Prop} {is js : List Item} :
    Item.UsesIn Q (is ++ js) ↔ Item.UsesIn Q is ∧ Item.UsesIn Q js := by
  simp [Item.usesIn_iff, or_imp, forall_and]

namespace Control

open Rpal.Tree

variable {P : Tree → Prop} {Q : Variable → Prop} {number : Place → Nat}

theorem usesIn_codeAll {place : Place} {ts : List Tree}
    (h : ∀ t ∈ ts, ∀ k, (∀ x ∈ t.free, Q x) →
      Item.UsesIn Q (expression number (place ++ [k]) t).code) :
    ∀ k, (∀ x ∈ freeAll ts, Q x) →
      Item.UsesIn Q (Core.codeAll (expressionAll number place k ts)) := by
  induction ts with
  | nil => exact fun k _ => trivial
  | cons t ts ih =>
    intro k hq
    rw [freeAll, Finset.forall_mem_union] at hq
    simp only [expressionAll, Core.codeAll, Item.usesIn_append]
    exact ⟨h t List.mem_cons_self k hq.1,
      ih (fun t' ht => h t' (List.mem_cons_of_mem _ ht)) (k + 1) hq.2⟩

/-- **The instructions of an expression** look up its free names. -/
theorem usesIn_expression {t : Tree} (h : CoreShape P t) :
    ∀ place, (∀ x ∈ t.free, Q x) → Item.UsesIn Q (expression number place t).code := by
  induction h with
  | lambda => exact fun place _ => ⟨trivial, trivial⟩
  | @choice text condition thenPart elsePart arity _ _ _ ihc iht ihe =>
    intro place hq
    have hfree : free ⟨.conditional, text, [condition, thenPart, elsePart], arity⟩ =
      condition.free ∪ (thenPart.free ∪ (elsePart.free ∪ ∅)) := rfl
    rw [hfree, Finset.forall_mem_union, Finset.forall_mem_union, Finset.forall_mem_union] at hq
    exact ⟨⟨iht _ hq.2.1, ihe _ hq.2.2.1⟩, ihc _ hq.1⟩
  | @node kind text children arity hk _ ih =>
    intro place hq
    rw [expression_node hk.ne.1 hk.ne.2, Core.code_ofNode (by rwa [length_expressionAll])]
    by_cases hid : kind = .identifier
    · -- a name has no parts
      subst hid
      obtain rfl : children = [] := List.length_eq_zero_iff.mp hk
      exact ⟨fun _ => hq text (Finset.mem_singleton_self text), trivial⟩
    · rw [free_node hid hk.ne.1] at hq
      exact ⟨fun h => absurd h hid, usesIn_codeAll (fun t ht k => ih t ht (place ++ [k])) 0 hq⟩

/-- **The instructions of the body of a function** look up names that are free in it. -/
theorem usesIn_bodyOf {t : Tree} (h : CoreShape P t) {s : Site} (hs : s ∈ t.sites) :
    Item.UsesIn (· ∈ s.body.free) (bodyOf number s) :=
  usesIn_expression (h.of_mem_sites s hs) s.place fun _ hx => hx

end Control

namespace Tree

/-! ## 2. Free names of bodies -/

variable {P : Tree → Prop}

theorem union_subset_of_mem {t : Tree} {ts : List Tree} (h : t ∈ ts) {xs : Finset Variable} :
    t.free ∪ xs ⊆ freeAll ts ∪ xs :=
  Finset.union_subset_union_left (free_subset_freeAll h)

/-- A name that is free in the body of an outer function is free in the tree or is bound by the
function. -/
theorem CoreShape.free_outer {t : Tree} (h : CoreShape P t) :
    ∀ place, ∀ x ∈ outer place t, x.body.free ⊆ t.free ∪ x.param.bound := by
  induction h with
  | @lambda text param body arity _ _ _ =>
    intro place x hx
    rw [List.mem_singleton.mp hx, Finset.union_comm]
    exact sdiff_le_iff.mp (le_refl (body.free \ param.bound))
  | @choice text condition thenPart elsePart arity _ _ _ ihc iht ihe =>
    intro place x hx
    have hfree : free ⟨.conditional, text, [condition, thenPart, elsePart], arity⟩ =
      freeAll [condition, thenPart, elsePart] := rfl
    rw [hfree]
    simp only [outer, List.mem_append] at hx
    rcases hx with (hx | hx) | hx
    · exact (iht _ x hx).trans (union_subset_of_mem (by simp))
    · exact (ihe _ x hx).trans (union_subset_of_mem (by simp))
    · exact (ihc _ x hx).trans (union_subset_of_mem (by simp))
  | @node kind text children arity hk _ ih =>
    intro place
    rw [outer_node hk.ne.1 hk.ne.2]
    by_cases hid : kind = .identifier
    · -- a name has no parts
      subst hid
      obtain rfl : children = [] := List.length_eq_zero_iff.mp hk
      simp [outerAll]
    · rw [free_node hid hk.ne.1]
      exact forall_outerAll (fun t ht k x hx => (ih t ht _ x hx).trans (union_subset_of_mem ht)) 0

/-- What a function binds. -/
theorem IsParameter.bound_eq {p : Tree} (h : p.IsParameter) :
    p.bound = p.parameterNames.toFinset := by
  cases h with
  | name => rfl
  | nothing => rfl
  | names text children arity h =>
    show boundAll children = (children.map (·.text)).toFinset
    induction children with
    | nil => rfl
    | cons c cs ih =>
      rw [List.forall_mem_cons] at h
      obtain ⟨kind, text, children, arity⟩ := c
      obtain rfl : kind = .identifier := h.1
      rw [boundAll, ih h.2, List.map_cons, List.toFinset_cons]
      rfl

/-- **A name that is free in the body of a function** is free in the program or is bound by a
function around the body. -/
theorem CoreShape.free_of_mem_sites {t : Tree} (h : t.IsCore) :
    ∀ s ∈ t.sites, ∀ x ∈ s.body.free, x ∈ t.free ∨ ∃ names ∈ t.enclosing s.place, x ∈ names := by
  have hall : ∀ s ∈ t.sites, s ∈ t.sites ∧
      ∀ x ∈ s.body.free, x ∈ t.free ∨ ∃ names ∈ t.enclosing s.place, x ∈ names := by
    refine forall_breadthFirst ?_ ?_
    · rintro s ⟨hs, hfree⟩ y hy
      refine ⟨inner_mem_sites hs hy, fun x hx => ?_⟩
      have hbody : CoreShape IsParameter s.body := h.of_mem_sites s hs
      rw [h.enclosing_inner hs hy]
      rcases Finset.mem_union.mp (hbody.free_outer s.place y hy hx) with hx | hx
      · rcases hfree x hx with hx | ⟨names, hnames, hx⟩
        · exact .inl hx
        · exact .inr ⟨names, List.mem_append_left _ hnames, hx⟩
      · rw [(hbody.of_mem_outer s.place y hy).1.bound_eq, List.mem_toFinset] at hx
        exact .inr ⟨_, List.mem_append_right _ (List.mem_singleton_self _), hx⟩
    · intro s hs
      rw [List.mem_singleton.mp hs]
      exact ⟨List.mem_cons_self, fun x hx => .inl hx⟩
  exact fun s hs => (hall s hs).2

end Tree

end Rpal
