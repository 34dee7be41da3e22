/-
# Functions of a tree and their numbers

A function of a tree is known by the *place* of its body, the way from the root that leads to
it: `[0, 1]` is the second child of the first child.  The program itself counts as the body of a
function without a parameter, at the place `[]`.

The functions are numbered breadth first: those that stand in the body of an earlier function
come before those in the body of a later one, and within a body they come in the order of its
instructions, branches before conditions.  `sites` lists them in that order and `number` finds
the number of a place.  `sites` holds every function of the tree exactly once
(`sites_perm`, `nodup_places`), so numbers and places determine each other (`number_of_getElem?`),
and a function comes before those in its body (`inner_after`).

The trees are arbitrary: a function or a conditional without its parts is searched like any other
node.  Of the core trees, which have no such nodes, the parameters are of interest
(`CoreShape.forall_inner_iff`).
-/
import Mathlib.Data.List.Flatten
import Rpal.Control
import Rpal.Proofs.Evaluation.Core
import Rpal.Proofs.Tree.Nodes

namespace Rpal

/-- The way from the root of a tree to a node. -/
abbrev Place := List Nat

/-! ## 1. Core trees -/

/-- How many children a node of the core language has; functions and conditionals are apart. -/
def Kind.Admits : Kind → Nat → Prop
  | .identifier, n | .integer, n | .string, n | .trueValue, n | .falseValue, n | .nil, n
  | .dummy, n | .yStar, n => n = 0
  | .neg, n | .not, n => n = 1
  | .gamma, n | .or, n | .and, n | .gr, n | .ge, n | .ls, n | .le, n | .eq, n | .ne, n
  | .plus, n | .minus, n | .mult, n | .div, n | .exp, n | .aug, n => n = 2
  | .tau, _ => True
  | _, _ => False

/-- A kind with a number of children is neither a function nor a conditional. -/
theorem Kind.Admits.ne {kind : Kind} {n : Nat} (h : kind.Admits n) :
    kind ≠ .lambda ∧ kind ≠ .conditional := by
  constructor <;> rintro rfl <;> exact h

namespace Tree

/-- What can stand before the body of a function: a name, several names, or `()`. -/
inductive IsParameter : Tree → Prop where
  | name (text : Option String) (children : List Tree) (arity : Nat) :
      IsParameter ⟨.identifier, text, children, arity⟩
  | names (text : Option String) (children : List Tree) (arity : Nat)
      (h : ∀ c ∈ children, c.kind = .identifier) : IsParameter ⟨.comma, text, children, arity⟩
  | nothing (text : Option String) (children : List Tree) (arity : Nat) :
      IsParameter ⟨.paren, text, children, arity⟩

/-- The names that a parameter binds. -/
def parameterNames (param : Tree) : List Variable :=
  match param.kind with
  | .identifier => [param.text]
  | .comma => param.children.map (·.text)
  | _ => []

/-- A tree of the core language, with parameters of the sort `P`. -/
inductive CoreShape (P : Tree → Prop) : Tree → Prop where
  | lambda {text : Option String} {param body : Tree} {arity : Nat} (hp : P param)
      (hb : CoreShape P body) : CoreShape P ⟨.lambda, text, [param, body], arity⟩
  | choice {text : Option String} {condition thenPart elsePart : Tree} {arity : Nat}
      (hc : CoreShape P condition) (ht : CoreShape P thenPart) (he : CoreShape P elsePart) :
      CoreShape P ⟨.conditional, text, [condition, thenPart, elsePart], arity⟩
  | node {kind : Kind} {text : Option String} {children : List Tree} {arity : Nat}
      (hk : kind.Admits children.length) (hc : ∀ c ∈ children, CoreShape P c) :
      CoreShape P ⟨kind, text, children, arity⟩

/-- A tree of the core language. -/
abbrev IsCore : Tree → Prop := CoreShape IsParameter

/-! ## 2. Functions of a tree -/

/-- A function of a tree: the place of its body, its parameter and its body. -/
structure Site where
  place : Place
  param : Tree
  body : Tree

/-- The program as the body of a function. -/
def root (t : Tree) : Site := ⟨[], .branch .paren [], t⟩

mutual

/-- The functions of a tree that stand in no other one, in the order of their instructions. -/
def outer (place : Place) : Tree → List Site
  | ⟨kind, _, children, _⟩ =>
    match kind, children with
    | .lambda, [param, body] => [⟨place ++ [1], param, body⟩]
    | .conditional, [condition, thenPart, elsePart] =>
      outer (place ++ [1]) thenPart ++ outer (place ++ [2]) elsePart ++
        outer (place ++ [0]) condition
    | _, children => outerAll place 0 children

/-- The outer functions of neighbours, the first of which is child `k`. -/
def outerAll (place : Place) : Nat → List Tree → List Site
  | _, [] => []
  | k, t :: ts => outer (place ++ [k]) t ++ outerAll place (k + 1) ts

end

mutual

/-- All functions of a tree. -/
def functions (place : Place) : Tree → List Site
  | ⟨kind, _, children, _⟩ =>
    match kind, children with
    | .lambda, [param, body] => ⟨place ++ [1], param, body⟩ :: functions (place ++ [1]) body
    | .conditional, [condition, thenPart, elsePart] =>
      functions (place ++ [1]) thenPart ++ functions (place ++ [2]) elsePart ++
        functions (place ++ [0]) condition
    | _, children => functionsAll place 0 children

/-- All functions of neighbours, the first of which is child `k`. -/
def functionsAll (place : Place) : Nat → List Tree → List Site
  | _, [] => []
  | k, t :: ts => functions (place ++ [k]) t ++ functionsAll place (k + 1) ts

end

/-- The functions that stand in the body of a function and in no other one there. -/
def Site.inner (s : Site) : List Site := outer s.place s.body

/-- A function and all functions in its body. -/
def Site.family (s : Site) : List Site := s :: functions s.place s.body

/-- Functions in breadth-first order, from those at hand on; `room` bounds how many there are. -/
def breadthFirst : Nat → List Site → List Site
  | 0, _ => []
  | _ + 1, [] => []
  | room + 1, s :: queue => s :: breadthFirst room (queue ++ s.inner)

/-- The functions of a program in breadth-first order, the program first. -/
def sites (t : Tree) : List Site := breadthFirst (t.size + 1) [t.root]

/-- The number of the function at a place. -/
def number (t : Tree) (place : Place) : Nat := (t.sites.map (·.place)).idxOf place

section Listing

variable {P : Tree → Prop}

/-- A node whose children are all listed alike: neither a function nor a conditional with its
parts. -/
def IsPlain : Tree → Prop
  | ⟨.lambda, _, [_, _], _⟩ => False
  | ⟨.conditional, _, [_, _, _], _⟩ => False
  | _ => True

/-- Induction along the way in which functions are listed: into the body of a function, not into
its parameter. -/
@[elab_as_elim]
theorem listing_induction {motive : Tree → Prop}
    (lambda : ∀ text param body arity, motive body →
      motive ⟨.lambda, text, [param, body], arity⟩)
    (choice : ∀ text condition thenPart elsePart arity, motive condition → motive thenPart →
      motive elsePart → motive ⟨.conditional, text, [condition, thenPart, elsePart], arity⟩)
    (node : ∀ kind text children arity, IsPlain ⟨kind, text, children, arity⟩ →
      (∀ c ∈ children, motive c) → motive ⟨kind, text, children, arity⟩) (t : Tree) :
    motive t := by
  induction t using induction with
  | node t ih =>
    obtain ⟨kind, text, children, arity⟩ := t
    by_cases hplain : IsPlain ⟨kind, text, children, arity⟩
    · exact node kind text children arity hplain ih
    · unfold IsPlain at hplain
      split at hplain
      · rename_i heq
        cases heq
        exact lambda _ _ _ _ (ih _ (by simp))
      · rename_i heq
        cases heq
        exact choice _ _ _ _ _ (ih _ (by simp)) (ih _ (by simp)) (ih _ (by simp))
      · exact absurd trivial hplain

theorem isPlain_of_ne {kind : Kind} (h₁ : kind ≠ .lambda) (h₂ : kind ≠ .conditional)
    (text : Option String) (children : List Tree) (arity : Nat) :
    IsPlain ⟨kind, text, children, arity⟩ := by
  cases kind <;> trivial

theorem IsPlain.outer {kind : Kind} {text : Option String} {children : List Tree} {arity : Nat}
    (h : IsPlain ⟨kind, text, children, arity⟩) (place : Place) :
    outer place ⟨kind, text, children, arity⟩ = outerAll place 0 children := by
  unfold Tree.outer
  split
  · cases h
  · cases h
  · rfl

theorem IsPlain.functions {kind : Kind} {text : Option String} {children : List Tree} {arity : Nat}
    (h : IsPlain ⟨kind, text, children, arity⟩) (place : Place) :
    functions place ⟨kind, text, children, arity⟩ = functionsAll place 0 children := by
  unfold Tree.functions
  split
  · cases h
  · cases h
  · rfl

theorem outer_node {kind : Kind} (h₁ : kind ≠ .lambda) (h₂ : kind ≠ .conditional)
    (place : Place) (text : Option String) (children : List Tree) (arity : Nat) :
    outer place ⟨kind, text, children, arity⟩ = outerAll place 0 children :=
  (isPlain_of_ne h₁ h₂ text children arity).outer place

/-- What holds of the bodies of outer functions of all children holds of those of neighbours. -/
theorem forall_outerAll {Q : Site → Prop} {place : Place} {ts : List Tree}
    (h : ∀ t ∈ ts, ∀ k, ∀ s ∈ outer (place ++ [k]) t, Q s) :
    ∀ k, ∀ s ∈ outerAll place k ts, Q s := by
  induction ts with
  | nil => simp [outerAll]
  | cons t ts ih =>
    intro k s hs
    simp only [outerAll, List.mem_append] at hs
    rcases hs with hs | hs
    · exact h t List.mem_cons_self k s hs
    · exact ih (fun t' ht => h t' (List.mem_cons_of_mem _ ht)) (k + 1) s hs

/-- The body of an outer function of a core tree is a core tree. -/
theorem CoreShape.of_mem_outer {t : Tree} (h : CoreShape P t) :
    ∀ place, ∀ s ∈ outer place t, P s.param ∧ CoreShape P s.body := by
  induction h with
  | lambda hp hb =>
    intro place s hs
    simp only [outer, List.mem_singleton] at hs
    subst hs
    exact ⟨hp, hb⟩
  | choice _ _ _ ihc iht ihe =>
    intro place s hs
    simp only [outer, List.mem_append] at hs
    rcases hs with (hs | hs) | hs
    · exact iht _ s hs
    · exact ihe _ s hs
    · exact ihc _ s hs
  | node hk _ ih =>
    intro place
    rw [outer_node hk.ne.1 hk.ne.2]
    exact forall_outerAll (fun t ht k => ih t ht _) 0

/-! ### Sizes: the breadth-first list is complete -/

/-- The number of nodes in the bodies of several functions. -/
def weight : List Site → Nat
  | [] => 0
  | s :: queue => s.body.size + weight queue

theorem weight_append (queue rest : List Site) :
    weight (queue ++ rest) = weight queue + weight rest := by
  induction queue with
  | nil => simp [weight]
  | cons s queue ih =>
    rw [List.cons_append, weight, weight, ih]
    omega

theorem weight_outerAll {place : Place} {ts : List Tree}
    (h : ∀ t ∈ ts, ∀ place, weight (outer place t) < t.size) :
    ∀ k, weight (outerAll place k ts) ≤ sizeAll ts := by
  induction ts with
  | nil => intro k; exact Nat.le_refl 0
  | cons t ts ih =>
    intro k
    have h₁ := h t List.mem_cons_self (place ++ [k])
    have h₂ := ih (fun t' ht => h t' (List.mem_cons_of_mem _ ht)) (k + 1)
    simp only [outerAll, weight_append, sizeAll]
    omega

/-- The bodies of the outer functions are smaller together than the tree. -/
theorem weight_outer (t : Tree) : ∀ place, weight (outer place t) < t.size := by
  induction t using listing_induction with
  | lambda text param body arity ih =>
    intro place
    simp only [outer, weight, size, sizeAll]
    omega
  | choice text condition thenPart elsePart arity ihc iht ihe =>
    intro place
    have h₀ := ihc (place ++ [0])
    have h₁ := iht (place ++ [1])
    have h₂ := ihe (place ++ [2])
    simp only [outer, weight_append, size, sizeAll]
    omega
  | node kind text children arity hplain ih =>
    intro place
    rw [hplain.outer]
    have : weight (outerAll place 0 children) ≤ sizeAll children := weight_outerAll ih 0
    simp only [size]
    omega

theorem functionsAll_perm {place : Place} {ts : List Tree}
    (h : ∀ t ∈ ts, ∀ place, (functions place t).Perm ((outer place t).flatMap Site.family)) :
    ∀ k, (functionsAll place k ts).Perm ((outerAll place k ts).flatMap Site.family) := by
  induction ts with
  | nil => intro k; exact .refl _
  | cons t ts ih =>
    intro k
    simp only [functionsAll, outerAll, List.flatMap_append]
    exact (h t List.mem_cons_self _).append (ih (fun t' ht => h t' (List.mem_cons_of_mem _ ht)) _)

/-- All functions of a tree are the outer ones with all those in their bodies. -/
theorem functions_perm (t : Tree) :
    ∀ place, (functions place t).Perm ((outer place t).flatMap Site.family) := by
  induction t using listing_induction with
  | lambda text param body arity ih =>
    intro place
    simp [functions, outer, Site.family]
  | choice text condition thenPart elsePart arity ihc iht ihe =>
    intro place
    simp only [functions, outer, List.flatMap_append]
    exact ((iht _).append (ihe _)).append (ihc _)
  | node kind text children arity hplain ih =>
    intro place
    rw [hplain.outer, hplain.functions]
    exact functionsAll_perm ih 0

/-- The step of the breadth-first list: the first function makes room for those in its body. -/
theorem weight_queue_step {room : Nat} {s : Site} {queue : List Site}
    (hw : weight (s :: queue) ≤ room + 1) : weight (queue ++ s.inner) ≤ room := by
  have hinner : weight s.inner < s.body.size := weight_outer s.body s.place
  rw [weight_append]
  simp only [weight] at hw
  omega

/-- Without room there is nothing at hand. -/
theorem eq_nil_of_weight {queue : List Site} (hw : weight queue ≤ 0) : queue = [] := by
  cases queue with
  | nil => rfl
  | cons s queue =>
    have := s.body.size_pos
    simp only [weight] at hw
    omega

/-- What holds of the functions at hand, and of those in the body of one of which it holds,
holds of the whole list. -/
theorem forall_breadthFirst {Q : Site → Prop} (hinner : ∀ s, Q s → ∀ x ∈ s.inner, Q x)
    {room : Nat} {queue : List Site} (hs : ∀ s ∈ queue, Q s) :
    ∀ s ∈ breadthFirst room queue, Q s := by
  induction room generalizing queue with
  | zero => simp [breadthFirst]
  | succ room ih =>
    cases queue with
    | nil => simp [breadthFirst]
    | cons s queue =>
      rw [List.forall_mem_cons] at hs
      rw [breadthFirst, List.forall_mem_cons]
      refine ⟨hs.1, ih fun x hx => ?_⟩
      rcases List.mem_append.mp hx with hx | hx
      · exact hs.2 x hx
      · exact hinner s hs.1 x hx

/-- **The breadth-first list in terms of itself**: the functions at hand, and then those in the
bodies of all its functions, body after body. -/
theorem breadthFirst_eq {room : Nat} {queue : List Site} (hw : weight queue ≤ room) :
    breadthFirst room queue = queue ++ (breadthFirst room queue).flatMap Site.inner := by
  induction room generalizing queue with
  | zero =>
    rw [eq_nil_of_weight hw]
    rfl
  | succ room ih =>
    cases queue with
    | nil => rfl
    | cons s queue =>
      rw [breadthFirst, List.flatMap_cons, List.cons_append, ← List.append_assoc]
      exact congrArg (s :: ·) (ih (weight_queue_step hw))

/-- What a function holds, with everything in the functions in its body, is spread over the
breadth-first list, if it consists of what belongs to the function itself and of what those in its
body hold. -/
theorem perm_flatMap_breadthFirst {β : Type} {holds belongs : Site → List β} {room : Nat}
    {queue : List Site} (hw : weight queue ≤ room)
    (h : ∀ s ∈ breadthFirst room queue,
      (holds s).Perm (belongs s ++ s.inner.flatMap holds)) :
    (queue.flatMap holds).Perm ((breadthFirst room queue).flatMap belongs) := by
  induction room generalizing queue with
  | zero =>
    rw [eq_nil_of_weight hw]
    exact .refl _
  | succ room ih =>
    cases queue with
    | nil => exact .refl _
    | cons s queue =>
      rw [breadthFirst, List.forall_mem_cons] at h
      have hrest := ih (weight_queue_step hw) h.2
      rw [List.flatMap_append] at hrest
      rw [breadthFirst, List.flatMap_cons, List.flatMap_cons]
      -- the step moves what the body holds from the front of the queue to its end
      calc (holds s ++ queue.flatMap holds).Perm
            ((belongs s ++ s.inner.flatMap holds) ++ queue.flatMap holds) := h.1.append_right _
        List.Perm _ (belongs s ++ (queue.flatMap holds ++ s.inner.flatMap holds)) := by
          rw [List.append_assoc]
          exact List.perm_append_comm.append_left _
        List.Perm _ (belongs s ++ (breadthFirst room (queue ++ s.inner)).flatMap belongs) :=
          hrest.append_left _

/-- **The breadth-first list is complete**: with enough room it holds the functions at hand and
all functions in their bodies. -/
theorem breadthFirst_perm {room : Nat} {queue : List Site} (hw : weight queue ≤ room) :
    (breadthFirst room queue).Perm (queue.flatMap Site.family) := by
  have hfamily : ∀ s ∈ breadthFirst room queue,
      s.family.Perm ([s] ++ s.inner.flatMap Site.family) :=
    fun s _ => (functions_perm s.body s.place).cons s
  simpa using (perm_flatMap_breadthFirst hw hfamily).symm

/-- A function comes before those in its body. -/
theorem inner_after {room : Nat} {queue : List Site} (hw : weight queue ≤ room) {i : Nat}
    {s x : Site} (hs : (breadthFirst room queue)[i]? = some s) (hx : x ∈ s.inner) :
    ∃ j, i < j ∧ (breadthFirst room queue)[j]? = some x := by
  induction room generalizing queue i with
  | zero => simp [breadthFirst] at hs
  | succ room ih =>
    cases queue with
    | nil => simp [breadthFirst] at hs
    | cons s' queue =>
      have hw' := weight_queue_step hw
      cases i with
      | zero =>
        obtain rfl : s' = s := by simpa [breadthFirst] using hs
        have hmem : x ∈ breadthFirst room (queue ++ s'.inner) := by
          rw [breadthFirst_eq hw']
          exact List.mem_append_left _ (List.mem_append_right _ hx)
        obtain ⟨j, hj⟩ := List.mem_iff_getElem?.mp hmem
        exact ⟨j + 1, by omega, by simpa [breadthFirst] using hj⟩
      | succ i =>
        obtain ⟨j, hij, hj⟩ := ih hw' (by simpa [breadthFirst] using hs)
        exact ⟨j + 1, by omega, by simpa [breadthFirst] using hj⟩

/-- There is room for all functions of a program. -/
theorem weight_root (t : Tree) : weight [t.root] ≤ t.size + 1 := by simp [weight, root]

/-- The functions of a program are the program and those in the bodies of all of them. -/
theorem sites_eq (t : Tree) : t.sites = t.root :: t.sites.flatMap Site.inner :=
  breadthFirst_eq t.weight_root

/-- Functions in the body of a function are functions of the tree. -/
theorem inner_mem_sites {t : Tree} {s x : Site} (hs : s ∈ t.sites) (hx : x ∈ s.inner) :
    x ∈ t.sites := by
  rw [sites_eq]
  exact List.mem_cons_of_mem _ (List.mem_flatMap.mpr ⟨s, hs, hx⟩)

/-- Every function but the program stands in the body of a function. -/
theorem exists_inner {t : Tree} {x : Site} (hx : x ∈ t.sites) (hne : x ≠ t.root) :
    ∃ s ∈ t.sites, x ∈ s.inner := by
  rw [sites_eq, List.mem_cons] at hx
  exact List.mem_flatMap.mp (hx.resolve_left hne)

theorem sites_perm (t : Tree) : t.sites.Perm (t.root :: functions [] t) := by
  simpa [sites, Site.family, root] using breadthFirst_perm t.weight_root

/-! ### Places: the numbering is one-to-one -/

theorem place_functionsAll {place : Place} {ts : List Tree}
    (h : ∀ t ∈ ts, ∀ place, ∀ s ∈ functions place t, ∃ k q, s.place = place ++ k :: q) :
    ∀ k, ∀ s ∈ functionsAll place k ts, ∃ j q, k ≤ j ∧ s.place = place ++ j :: q := by
  induction ts with
  | nil => simp [functionsAll]
  | cons t ts ih =>
    intro k s hs
    simp only [functionsAll, List.mem_append] at hs
    rcases hs with hs | hs
    · obtain ⟨j, q, hq⟩ := h t List.mem_cons_self _ s hs
      exact ⟨k, j :: q, Nat.le_refl k, by rw [hq, List.append_assoc]; rfl⟩
    · obtain ⟨j, q, hj, hq⟩ := ih (fun t' ht => h t' (List.mem_cons_of_mem _ ht)) (k + 1) s hs
      exact ⟨j, q, by omega, hq⟩

/-- The functions of a tree have their places below the place of the tree. -/
theorem place_functions (t : Tree) :
    ∀ place, ∀ s ∈ functions place t, ∃ k q, s.place = place ++ k :: q := by
  induction t using listing_induction with
  | lambda text param body arity ih =>
    intro place s hs
    simp only [functions, List.mem_cons] at hs
    rcases hs with rfl | hs
    · exact ⟨1, [], rfl⟩
    · obtain ⟨k, q, hq⟩ := ih _ s hs
      exact ⟨1, k :: q, by rw [hq, List.append_assoc]; rfl⟩
  | choice text condition thenPart elsePart arity ihc iht ihe =>
    intro place s hs
    simp only [functions, List.mem_append] at hs
    rcases hs with (hs | hs) | hs
    · obtain ⟨k, q, hq⟩ := iht _ s hs
      exact ⟨1, k :: q, by rw [hq, List.append_assoc]; rfl⟩
    · obtain ⟨k, q, hq⟩ := ihe _ s hs
      exact ⟨2, k :: q, by rw [hq, List.append_assoc]; rfl⟩
    · obtain ⟨k, q, hq⟩ := ihc _ s hs
      exact ⟨0, k :: q, by rw [hq, List.append_assoc]; rfl⟩
  | node kind text children arity hplain ih =>
    intro place s hs
    rw [hplain.functions] at hs
    obtain ⟨j, q, -, hq⟩ := place_functionsAll ih 0 s hs
    exact ⟨j, q, hq⟩

/-- Functions below different children of a node have different places. -/
theorem disjoint_places (t t' : Tree) {place : Place} {j k : Nat} (hjk : j ≠ k) :
    ∀ a ∈ (functions (place ++ [j]) t).map (·.place),
      ∀ b ∈ (functions (place ++ [k]) t').map (·.place), a ≠ b := by
  intro a ha b hb hab
  obtain ⟨s, hs, rfl⟩ := List.mem_map.mp ha
  obtain ⟨s', hs', rfl⟩ := List.mem_map.mp hb
  obtain ⟨_, q, hq⟩ := t.place_functions _ s hs
  obtain ⟨_, q', hq'⟩ := t'.place_functions _ s' hs'
  rw [hq, hq', List.append_assoc, List.append_assoc] at hab
  have := List.append_cancel_left hab
  simp only [List.singleton_append, List.cons.injEq] at this
  exact hjk this.1

theorem nodup_functionsAll {place : Place} {ts : List Tree}
    (h : ∀ t ∈ ts, ∀ place, ((functions place t).map (·.place)).Nodup) :
    ∀ k, ((functionsAll place k ts).map (·.place)).Nodup := by
  induction ts with
  | nil => intro k; exact List.nodup_nil
  | cons t ts ih =>
    intro k
    simp only [functionsAll, List.map_append, List.nodup_append]
    have hnodup := ih (fun t' ht => h t' (List.mem_cons_of_mem _ ht)) (k + 1)
    refine ⟨h t List.mem_cons_self _, hnodup, ?_⟩
    intro a ha b hb hab
    obtain ⟨s, hs, rfl⟩ := List.mem_map.mp ha
    obtain ⟨s', hs', rfl⟩ := List.mem_map.mp hb
    obtain ⟨_, q, hq⟩ := t.place_functions _ s hs
    obtain ⟨j, q', hj, hq'⟩ := place_functionsAll (fun t' _ => t'.place_functions) _ s' hs'
    rw [hq, hq', List.append_assoc] at hab
    have := List.append_cancel_left hab
    simp only [List.singleton_append, List.cons.injEq] at this
    omega

/-- **No two functions of a tree have the same place.** -/
theorem nodup_functions (t : Tree) : ∀ place, ((functions place t).map (·.place)).Nodup := by
  induction t using listing_induction with
  | lambda text param body arity ih =>
    intro place
    simp only [functions, List.map_cons, List.nodup_cons]
    refine ⟨?_, ih _⟩
    intro hm
    obtain ⟨s, hs, hplace⟩ := List.mem_map.mp hm
    obtain ⟨k, q, hq⟩ := body.place_functions _ s hs
    simp [hq] at hplace
  | choice text condition thenPart elsePart arity ihc iht ihe =>
    intro place
    simp only [functions, List.map_append, List.nodup_append, List.mem_append]
    refine ⟨⟨iht _, ihe _, thenPart.disjoint_places elsePart (by decide)⟩, ihc _, ?_⟩
    rintro a (ha | ha)
    · exact thenPart.disjoint_places condition (by decide) a ha
    · exact elsePart.disjoint_places condition (by decide) a ha
  | node kind text children arity hplain ih =>
    intro place
    rw [hplain.functions]
    exact nodup_functionsAll ih 0

/-- **No two functions of a program have the same place.** -/
theorem nodup_places (t : Tree) : (t.sites.map (·.place)).Nodup := by
  rw [(t.sites_perm.map _).nodup_iff, List.map_cons, List.nodup_cons]
  refine ⟨?_, t.nodup_functions []⟩
  intro hm
  obtain ⟨s, hs, hplace⟩ := List.mem_map.mp hm
  obtain ⟨k, q, hq⟩ := t.place_functions _ s hs
  simp [hq, root] at hplace

/-- **The number of a function is its position in breadth-first order.** -/
theorem number_of_getElem? {t : Tree} {i : Nat} {s : Site} (hi : t.sites[i]? = some s) :
    t.number s.place = i := by
  obtain ⟨hlt, rfl⟩ := List.getElem?_eq_some_iff.mp hi
  have hlt' : i < (t.sites.map (·.place)).length := by rwa [List.length_map]
  have := t.nodup_places.idxOf_getElem i hlt'
  rwa [List.getElem_map] at this

/-! ### Parameters -/

theorem forall_functionsAll {Q : Site → Prop} {place : Place} {ts : List Tree} :
    ∀ k, (∀ s ∈ functionsAll place k ts, Q s) →
      ∀ t ∈ ts, ∃ j, ∀ s ∈ functions (place ++ [j]) t, Q s := by
  induction ts with
  | nil => simp
  | cons t ts ih =>
    intro k h
    simp only [functionsAll, List.forall_mem_append] at h
    intro t' ht
    rcases List.mem_cons.mp ht with rfl | ht
    · exact ⟨k, h.1⟩
    · exact ih (k + 1) h.2 t' ht

/-- The shape of a tree and the parameters of its functions make a core tree. -/
theorem CoreShape.isCore {t : Tree} (h : CoreShape P t) :
    ∀ place, (∀ s ∈ functions place t, s.param.IsParameter) → IsCore t := by
  induction h with
  | lambda hp hb ih =>
    intro place hf
    simp only [functions, List.forall_mem_cons] at hf
    exact .lambda hf.1 (ih _ hf.2)
  | choice _ _ _ ihc iht ihe =>
    intro place hf
    simp only [functions, List.forall_mem_append] at hf
    exact .choice (ihc _ hf.2) (iht _ hf.1.1) (ihe _ hf.1.2)
  | node hk hc ih =>
    intro place hf
    rw [(isPlain_of_ne hk.ne.1 hk.ne.2 _ _ _).functions] at hf
    refine .node hk fun c hc => ?_
    obtain ⟨j, hj⟩ := forall_functionsAll 0 hf c hc
    exact ih c hc _ hj

/-- The bodies of all functions have the shape of the tree. -/
theorem CoreShape.of_mem_sites {t : Tree} (h : CoreShape P t) :
    ∀ s ∈ t.sites, CoreShape P s.body := by
  refine forall_breadthFirst (fun s hs x hx => (hs.of_mem_outer _ x hx).2) fun s hs => ?_
  rw [List.mem_singleton.mp hs]
  exact h

/-- **The parameters that the builder checks are those of all functions.** -/
theorem CoreShape.forall_inner_iff {t : Tree} (h : CoreShape P t) :
    (∀ s ∈ t.sites, ∀ x ∈ s.inner, x.param.IsParameter) ↔ IsCore t := by
  constructor
  · intro hp
    refine h.isCore [] fun s hs => ?_
    have hmem : s ∈ t.sites := t.sites_perm.symm.subset (List.mem_cons_of_mem _ hs)
    have hne : s ≠ t.root := by
      rintro rfl
      obtain ⟨k, q, hq⟩ := t.place_functions [] _ hs
      cases hq
    obtain ⟨x, hx, hs'⟩ := exists_inner hmem hne
    exact hp x hx s hs'
  · intro hc s hs x hx
    exact ((hc.of_mem_sites s hs).of_mem_outer _ x hx).1

end Listing

end Tree

end Rpal
