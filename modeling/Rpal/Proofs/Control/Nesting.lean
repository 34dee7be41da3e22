/-
# Functions within functions

`enclosing` walks from the root of a tree to a place and lists what the functions on the way
bind, the outermost first.  A function in the body of another one is enclosed by what encloses
that one, and by its own names (`enclosing_inner`), so the list follows the numbers of the
functions breadth first although it is read off the tree alone.

The instructions of a body refer to the functions in it and to no others (`codeIn_bodyOf`).
-/
import Rpal.Proofs.Control.Building

namespace Rpal

namespace Tree

/-! ## 1. Ways through a tree -/

/-- The subtree at a place. -/
def subtree? : Place → Tree → Option Tree
  | [], t => some t
  | k :: place, t => t.children[k]?.bind (subtree? place)

/-- What a node binds in its child `k`: a function binds its parameter in its body. -/
def bindsAt (t : Tree) (k : Nat) : List (List Variable) :=
  match t.kind, t.children, k with
  | .lambda, [param, _], 1 => [param.parameterNames]
  | _, _, _ => []

/-- What the functions on the way to a place bind, the outermost first. -/
def enclosing : Place → Tree → List (List Variable)
  | [], _ => []
  | k :: place, t =>
    match t.children[k]? with
    | some c => t.bindsAt k ++ enclosing place c
    | none => []

theorem subtree?_append {p q : Place} {t u : Tree} (h : subtree? p t = some u) :
    subtree? (p ++ q) t = subtree? q u := by
  induction p generalizing t with
  | nil =>
    cases h
    rfl
  | cons k p ih =>
    cases hc : t.children[k]? with
    | none => simp [subtree?, hc] at h
    | some c =>
      have hp : subtree? p c = some u := by simpa [subtree?, hc] using h
      simpa [subtree?, hc] using ih hp

theorem enclosing_append {p q : Place} {t u : Tree} (h : subtree? p t = some u) :
    enclosing (p ++ q) t = enclosing p t ++ enclosing q u := by
  induction p generalizing t with
  | nil =>
    cases h
    rfl
  | cons k p ih =>
    cases hc : t.children[k]? with
    | none => simp [subtree?, hc] at h
    | some c =>
      have hp : subtree? p c = some u := by simpa [subtree?, hc] using h
      simp only [List.cons_append, enclosing, hc]
      rw [ih hp, List.append_assoc]

theorem bindsAt_of_ne {kind : Kind} (h : kind ≠ .lambda) (text : Option String)
    (children : List Tree) (arity k : Nat) : bindsAt ⟨kind, text, children, arity⟩ k = [] := by
  cases kind <;> first | rfl | contradiction

/-! ## 2. Functions of a tree -/

section Functions

variable {P : Tree → Prop}

/-- `Site.Leads q t x`: the way `q` leads from `t` into the body of `x`, through no other
function. -/
def Site.Leads (q : Place) (t : Tree) (x : Site) : Prop :=
  subtree? q t = some x.body ∧ enclosing q t = [x.param.parameterNames]

/-- A way through a node that is no function. -/
theorem Site.Leads.cons {kind : Kind} (hk : kind ≠ .lambda) {text : Option String}
    {children : List Tree} {arity k : Nat} {c : Tree} (hc : children[k]? = some c) {q : Place}
    {x : Site} (h : x.Leads q c) : x.Leads (k :: q) ⟨kind, text, children, arity⟩ := by
  constructor
  · simpa [subtree?, hc] using h.1
  · simp only [enclosing, hc, bindsAt_of_ne hk, List.nil_append]
    exact h.2

theorem leads_outerAll {place : Place} {ts : List Tree}
    (h : ∀ t ∈ ts, ∀ place, ∀ x ∈ outer place t, ∃ q, x.place = place ++ q ∧ x.Leads q t) :
    ∀ k, ∀ x ∈ outerAll place k ts, ∃ j c q, ts[j]? = some c ∧
      x.place = place ++ (k + j) :: q ∧ x.Leads q c := by
  induction ts with
  | nil => simp [outerAll]
  | cons t ts ih =>
    intro k x hx
    simp only [outerAll, List.mem_append] at hx
    rcases hx with hx | hx
    · obtain ⟨q, hq, hl⟩ := h t List.mem_cons_self _ x hx
      exact ⟨0, t, q, rfl, by rw [hq, List.append_assoc]; rfl, hl⟩
    · obtain ⟨j, c, q, hc, hq, hl⟩ :=
        ih (fun t' ht => h t' (List.mem_cons_of_mem _ ht)) (k + 1) x hx
      refine ⟨j + 1, c, q, hc, ?_, hl⟩
      rw [hq, Nat.add_right_comm, Nat.add_assoc]

/-- **An outer function is reached through no other one.** -/
theorem CoreShape.leads_outer {t : Tree} (h : CoreShape P t) :
    ∀ place, ∀ x ∈ outer place t, ∃ q, x.place = place ++ q ∧ x.Leads q t := by
  induction h with
  | lambda hp hb =>
    intro place x hx
    simp only [outer, List.mem_singleton] at hx
    subst hx
    exact ⟨[1], rfl, rfl, rfl⟩
  | choice _ _ _ ihc iht ihe =>
    intro place x hx
    simp only [outer, List.mem_append] at hx
    rcases hx with (hx | hx) | hx
    · obtain ⟨q, hq, hl⟩ := iht _ x hx
      exact ⟨1 :: q, by rw [hq, List.append_assoc]; rfl, hl.cons (by decide) rfl⟩
    · obtain ⟨q, hq, hl⟩ := ihe _ x hx
      exact ⟨2 :: q, by rw [hq, List.append_assoc]; rfl, hl.cons (by decide) rfl⟩
    · obtain ⟨q, hq, hl⟩ := ihc _ x hx
      exact ⟨0 :: q, by rw [hq, List.append_assoc]; rfl, hl.cons (by decide) rfl⟩
  | node hk _ ih =>
    intro place x hx
    rw [outer_node hk.ne.1 hk.ne.2] at hx
    obtain ⟨j, c, q, hc, hq, hl⟩ := leads_outerAll ih 0 x hx
    exact ⟨j :: q, by rw [hq, Nat.zero_add], hl.cons hk.ne.1 hc⟩

/-- The body of every function is the subtree at its place. -/
theorem CoreShape.subtree_of_mem_sites {t : Tree} (h : CoreShape P t) :
    ∀ s ∈ t.sites, CoreShape P s.body ∧ subtree? s.place t = some s.body := by
  refine forall_breadthFirst (Q := fun s => CoreShape P s.body ∧ subtree? s.place t = some s.body)
    (fun s ⟨hs, hsub⟩ x hx => ?_) fun s hs => ?_
  · obtain ⟨q, hq, hl⟩ := hs.leads_outer s.place x hx
    refine ⟨(hs.of_mem_outer _ x hx).2, ?_⟩
    rw [hq, subtree?_append hsub]
    exact hl.1
  · rw [List.mem_singleton.mp hs]
    exact ⟨h, rfl⟩

/-- **A function in the body of another one** is enclosed by what encloses that one, and by its
own names. -/
theorem CoreShape.enclosing_inner {t : Tree} (h : CoreShape P t) {s x : Site}
    (hs : s ∈ t.sites) (hx : x ∈ s.inner) :
    enclosing x.place t = enclosing s.place t ++ [x.param.parameterNames] := by
  obtain ⟨hshape, hsub⟩ := h.subtree_of_mem_sites s hs
  obtain ⟨q, hq, hl⟩ := hshape.leads_outer s.place x hx
  rw [hq, enclosing_append hsub, hl.2]

end Functions

end Tree

/-! ## 3. Instructions -/

mutual

/-- An instruction of a body, in which every function it refers to has the property. -/
def Item.Code (Q : Closure → Prop) : Item → Prop
  | .node _ _ children _ => children = []
  | .delta c => Q c
  | .beta thenBody elseBody => Item.CodeIn Q thenBody ∧ Item.CodeIn Q elseBody
  | .eta _ => False
  | .marker _ => False

/-- Instructions of a body. -/
def Item.CodeIn (Q : Closure → Prop) : List Item → Prop
  | [] => True
  | i :: is => i.Code Q ∧ Item.CodeIn Q is

end

theorem Item.codeIn_iff {Q : Closure → Prop} {is : List Item} :
    Item.CodeIn Q is ↔ ∀ i ∈ is, i.Code Q := by
  induction is with
  | nil => simp [Item.CodeIn]
  | cons i is ih => simp [Item.CodeIn, ih]

theorem Item.codeIn_append {Q : Closure → Prop} {is js : List Item} :
    Item.CodeIn Q (is ++ js) ↔ Item.CodeIn Q is ∧ Item.CodeIn Q js := by
  simp [Item.codeIn_iff, or_imp, forall_and]

namespace Control

open Rpal.Tree

variable {P : Tree → Prop} {Q : Closure → Prop} {number : Place → Nat}

theorem codeIn_codeAll {place : Place} {ts : List Tree}
    (h : ∀ t ∈ ts, ∀ k, (∀ x ∈ outer (place ++ [k]) t, Q (structureOf number x)) →
      Item.CodeIn Q (expression number (place ++ [k]) t).code) :
    ∀ k, (∀ x ∈ outerAll place k ts, Q (structureOf number x)) →
      Item.CodeIn Q (Core.codeAll (expressionAll number place k ts)) := by
  induction ts with
  | nil => exact fun k _ => trivial
  | cons t ts ih =>
    intro k hq
    simp only [outerAll, List.forall_mem_append] at hq
    simp only [expressionAll, Core.codeAll, Item.codeIn_append]
    exact ⟨h t List.mem_cons_self k hq.1,
      ih (fun t' ht => h t' (List.mem_cons_of_mem _ ht)) (k + 1) hq.2⟩

/-- **The instructions of an expression** refer to its outer functions. -/
theorem codeIn_expression {t : Tree} (h : CoreShape P t) :
    ∀ place, (∀ x ∈ outer place t, Q (structureOf number x)) →
      Item.CodeIn Q (expression number place t).code := by
  induction h with
  | @lambda text param body arity hp hb ih =>
    intro place hq
    exact ⟨hq ⟨place ++ [1], param, body⟩ (by simp [outer]), trivial⟩
  | choice _ _ _ ihc iht ihe =>
    intro place hq
    simp only [outer, List.forall_mem_append] at hq
    exact ⟨⟨iht _ hq.1.1, ihe _ hq.1.2⟩, ihc _ hq.2⟩
  | node hk _ ih =>
    intro place hq
    rw [outer_node hk.ne.1 hk.ne.2] at hq
    rw [expression_node hk.ne.1 hk.ne.2, Core.code_ofNode (by rwa [length_expressionAll])]
    exact ⟨rfl, codeIn_codeAll (fun t ht k => ih t ht (place ++ [k])) 0 hq⟩

/-- **The instructions of the body of a function** refer to the functions in it. -/
theorem codeIn_bodyOf {t : Tree} (h : CoreShape P t) {s : Site} (hs : s ∈ t.sites)
    (hq : ∀ x ∈ s.inner, Q (structureOf number x)) : Item.CodeIn Q (bodyOf number s) :=
  codeIn_expression (h.of_mem_sites s hs) s.place hq

end Control

end Rpal
