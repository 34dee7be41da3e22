/-
# Tuples and chains of `aug`

In a core tree a tuple can be replaced by the chain that builds it up from `nil`:

    tau             aug
    .E1             .aug
    .E2             ..<nil>
                    ..E1
                    .E2

The functions in the components keep their numbers, since both list their parts in the same order, so
both trees are gathered to the same expression (`Alike.gather_program`), and the machine cannot tell
them apart (`run_structures_buildsUp`).
-/
import Mathlib.Data.List.Forall2
import Mathlib.Data.List.Induction
import Rpal.Proofs.Evaluation.Gathering
import Rpal.Proofs.Evaluation.Refinement

namespace Rpal

namespace Core

/-- What a node is gathered to depends on what its parts are gathered to. -/
theorem gather_ofNode {kind : Kind} {text : Option String} {parts parts' : List Core}
    (h : parts.map gather = parts'.map gather) :
    (ofNode kind text parts).gather = (ofNode kind text parts').gather := by
  match parts with
  | [] =>
    obtain rfl := List.map_eq_nil_iff.mp h.symm
    rfl
  | [x] =>
    obtain ⟨x', rfl, hx⟩ := List.map_eq_singleton_iff.mp h.symm
    cases kind <;> first | rfl | simp [ofNode, gather, gatherAll, UnaryOperator.ofKind?, hx]
  | [x, y] =>
    obtain ⟨x', rest', rfl, hx, hrest⟩ := List.map_eq_cons_iff.mp h.symm
    obtain ⟨y', rfl, hy⟩ := List.map_eq_singleton_iff.mp hrest
    cases kind <;> first | rfl | simp [ofNode, gather, gatherAll, BinaryOperator.ofKind?, hx, hy]
  | x :: y :: z :: rest =>
    obtain ⟨x', yzs, rfl, hx, hyzs⟩ := List.map_eq_cons_iff.mp h.symm
    obtain ⟨y', zs, rfl, hy, hzs⟩ := List.map_eq_cons_iff.mp hyzs
    obtain ⟨z', rest', rfl, hz, hrest⟩ := List.map_eq_cons_iff.mp hzs
    cases kind <;> first | rfl | simp [ofNode, gather, gatherAll_eq_map, hx, hy, hz, hrest]

end Core

namespace Tree

/-! ## 1. Trees that are alike -/

/-- The chain that builds a tuple up from `nil`. -/
def augChain (parts : List Tree) : Tree :=
  parts.foldl (fun tuple part => .branch .aug [tuple, part]) (.branch .nil [])

/-- At one place the first tree has a tuple where the second has the chain that builds it up. -/
inductive BuildsUp : Tree → Tree → Prop where
  | here {text : Option String} {parts : List Tree} {arity : Nat} :
      BuildsUp ⟨.tau, text, parts, arity⟩ (augChain parts)
  | inside {kind : Kind} {text : Option String} {before after : List Tree} {arity : Nat}
      {c c' : Tree} (h : BuildsUp c c') :
      BuildsUp ⟨kind, text, before ++ c :: after, arity⟩ ⟨kind, text, before ++ c' :: after, arity⟩

/-- Core trees that differ in how tuples are written, and in texts and arities that mean nothing.
Children are compared pair by pair. -/
inductive Alike : Tree → Tree → Prop where
  | lambda {text text' : Option String} {param param' body body' : Tree} {arity arity' : Nat}
      (hp : param'.IsParameter) (hn : param.parameterNames = param'.parameterNames)
      (hb : Alike body body') :
      Alike ⟨.lambda, text, [param, body], arity⟩ ⟨.lambda, text', [param', body'], arity'⟩
  | choice {text text' : Option String} {condition condition' thenPart thenPart' elsePart
      elsePart' : Tree} {arity arity' : Nat} (hc : Alike condition condition')
      (ht : Alike thenPart thenPart') (he : Alike elsePart elsePart') :
      Alike ⟨.conditional, text, [condition, thenPart, elsePart], arity⟩
        ⟨.conditional, text', [condition', thenPart', elsePart'], arity'⟩
  | node {kind : Kind} {text : Option String} {pairs : List (Tree × Tree)} {arity arity' : Nat}
      (hk : kind.Admits pairs.length) (hc : ∀ p ∈ pairs, Alike p.1 p.2) :
      Alike ⟨kind, text, pairs.map Prod.fst, arity⟩ ⟨kind, text, pairs.map Prod.snd, arity'⟩
  | chain {text : Option String} {pairs : List (Tree × Tree)} {arity : Nat}
      (hc : ∀ p ∈ pairs, Alike p.1 p.2) :
      Alike ⟨.tau, text, pairs.map Prod.fst, arity⟩ (augChain (pairs.map Prod.snd))

theorem augChain_concat (parts : List Tree) (part : Tree) :
    augChain (parts ++ [part]) = .branch .aug [augChain parts, part] := by
  rw [augChain, List.foldl_concat]
  rfl

/-- A tree as its own pair. -/
def twice (t : Tree) : Tree × Tree := (t, t)

@[simp] theorem map_fst_twice (ts : List Tree) : (ts.map twice).map Prod.fst = ts := by
  simp [Function.comp_def, twice]

@[simp] theorem map_snd_twice (ts : List Tree) : (ts.map twice).map Prod.snd = ts := by
  simp [Function.comp_def, twice]

theorem Alike.refl {t : Tree} (h : t.IsCore) : Alike t t := by
  induction h with
  | lambda hp _ ih => exact .lambda hp rfl ih
  | choice _ _ _ ihc iht ihe => exact .choice ihc iht ihe
  | @node kind text children arity hk _ ih =>
    have hnode : Alike ⟨kind, text, (children.map twice).map Prod.fst, arity⟩
        ⟨kind, text, (children.map twice).map Prod.snd, arity⟩ :=
      .node (by rwa [List.length_map]) (List.forall_mem_map.mpr ih)
    rwa [map_fst_twice, map_snd_twice] at hnode

/-- A node that is no tuple itself keeps its kind and its text. -/
theorem BuildsUp.root {t t' : Tree} (h : BuildsUp t t') (ht : t.kind ≠ .tau) :
    t'.kind = t.kind ∧ t'.text = t.text := by
  cases h with
  | here => exact absurd rfl ht
  | inside => exact ⟨rfl, rfl⟩

/-- A parameter stays one, with the same names. -/
theorem BuildsUp.parameter {p p' : Tree} (h : BuildsUp p p') (hp : p.IsParameter) :
    p'.IsParameter ∧ p.parameterNames = p'.parameterNames := by
  cases h with
  | here => cases hp
  | @inside kind text before after arity c c' h =>
    cases hp with
    | name => exact ⟨.name _ _ _, rfl⟩
    | nothing => exact ⟨.nothing _ _ _, rfl⟩
    | names _ _ _ hnames =>
      have hc : c.kind = .identifier := hnames c (by simp)
      obtain ⟨hkind, htext⟩ := h.root (by rw [hc]; decide)
      refine ⟨.names _ _ _ fun d hd => ?_, ?_⟩
      · rcases List.mem_append.mp hd with hd | hd
        · exact hnames d (List.mem_append_left _ hd)
        · rcases List.mem_cons.mp hd with rfl | hd
          · rw [hkind, hc]
          · exact hnames d (List.mem_append_right _ (List.mem_cons_of_mem _ hd))
      · simp [parameterNames, htext]

theorem eq_of_singleton_eq {t c : Tree} {before after : List Tree}
    (h : [t] = before ++ c :: after) : before = [] ∧ c = t ∧ after = [] := by
  rcases List.cons_eq_append_iff.mp h with ⟨rfl, heq⟩ | ⟨before, rfl, heq⟩
  · obtain ⟨rfl, rfl⟩ := List.cons.inj heq
    exact ⟨rfl, rfl, rfl⟩
  · simp at heq

/-- **A tree with a tuple built up** is alike. -/
theorem BuildsUp.alike {t t' : Tree} (h : BuildsUp t t') (ht : t.IsCore) : Alike t t' := by
  induction h with
  | @here text parts arity =>
    cases ht with
    | node hk hc =>
      have hchain : Alike ⟨.tau, text, (parts.map twice).map Prod.fst, arity⟩
          (augChain ((parts.map twice).map Prod.snd)) :=
        .chain (List.forall_mem_map.mpr fun c hmem => Alike.refl (hc c hmem))
      rwa [map_fst_twice, map_snd_twice] at hchain
  | @inside kind text before after arity c c' h ih =>
    -- Lambdas and choices have their children by position, so where the hole is decides the case.
    generalize hchildren : before ++ c :: after = children at ht
    cases ht with
    | lambda hp hb =>
      rcases List.append_eq_cons_iff.mp hchildren with ⟨rfl, hparam⟩ | ⟨before, rfl, hbody⟩
      · obtain ⟨rfl, rfl⟩ := List.cons.inj hparam
        obtain ⟨hp', hn⟩ := h.parameter hp
        exact .lambda hp' hn (Alike.refl hb)
      · obtain ⟨rfl, rfl, rfl⟩ := eq_of_singleton_eq hbody
        exact .lambda hp rfl (ih hb)
    | choice hc ht he =>
      rcases List.append_eq_cons_iff.mp hchildren with ⟨rfl, hcondition⟩ | ⟨before, rfl, hrest⟩
      · obtain ⟨rfl, rfl⟩ := List.cons.inj hcondition
        exact .choice (ih hc) (Alike.refl ht) (Alike.refl he)
      · rcases List.cons_eq_append_iff.mp hrest with ⟨rfl, hthen⟩ | ⟨before, rfl, helse⟩
        · obtain ⟨rfl, rfl⟩ := List.cons.inj hthen
          exact .choice (Alike.refl hc) (ih ht) (Alike.refl he)
        · obtain ⟨rfl, rfl, rfl⟩ := eq_of_singleton_eq helse
          exact .choice (Alike.refl hc) (Alike.refl ht) (ih he)
    | node hk hc =>
      subst hchildren
      have hnode : Alike
          ⟨kind, text, (before.map twice ++ (c, c') :: after.map twice).map Prod.fst, arity⟩
          ⟨kind, text, (before.map twice ++ (c, c') :: after.map twice).map Prod.snd, arity⟩ := by
        refine .node (by simpa using hk) (List.forall_mem_append.mpr ⟨?_, ?_⟩)
        · exact List.forall_mem_map.mpr fun d hd => Alike.refl (hc d (List.mem_append_left _ hd))
        · refine List.forall_mem_cons.mpr ⟨ih (hc c (by simp)), ?_⟩
          exact List.forall_mem_map.mpr fun d hd =>
            Alike.refl (hc d (List.mem_append_right _ (List.mem_cons_of_mem _ hd)))
      rwa [List.map_append, List.map_append, List.map_cons, List.map_cons, map_fst_twice,
        map_fst_twice, map_snd_twice, map_snd_twice] at hnode

/-- A chain of core trees is a core tree. -/
theorem isCore_augChain {parts : List Tree} (h : ∀ t ∈ parts, t.IsCore) :
    (augChain parts).IsCore := by
  induction parts using List.reverseRecOn with
  | nil => exact .node rfl (List.forall_mem_nil _)
  | append_singleton parts part ih =>
    rw [List.forall_mem_append, List.forall_mem_singleton] at h
    rw [augChain_concat]
    exact .node rfl (List.forall_mem_cons.mpr ⟨ih h.1, List.forall_mem_singleton.mpr h.2⟩)

theorem Alike.isCore {t t' : Tree} (h : Alike t t') : t'.IsCore := by
  induction h with
  | lambda hp _ _ ih => exact .lambda hp ih
  | choice _ _ _ ihc iht ihe => exact .choice ihc iht ihe
  | node hk _ ih => exact .node (by rwa [List.length_map]) (List.forall_mem_map.mpr ih)
  | chain _ ih => exact isCore_augChain (List.forall_mem_map.mpr ih)

/-! ## 2. Functions of alike trees -/

theorem forall₂_append_iff {α β : Type} {R : α → β → Prop} {as bs : List α} {as' bs' : List β}
    (h : as.length = as'.length) :
    List.Forall₂ R (as ++ bs) (as' ++ bs') ↔ List.Forall₂ R as as' ∧ List.Forall₂ R bs bs' := by
  constructor
  · intro hr
    have hfirst := List.forall₂_take_append _ _ _ hr
    have hsecond := List.forall₂_drop_append _ _ _ hr
    rw [List.take_left' h] at hfirst
    rw [List.drop_left' h] at hsecond
    exact ⟨hfirst, hsecond⟩
  · rintro ⟨hfirst, hsecond⟩
    exact List.rel_append hfirst hsecond

theorem outerAll_append (place : Place) (k : Nat) (ts us : List Tree) :
    outerAll place k (ts ++ us) = outerAll place k ts ++ outerAll place (k + ts.length) us := by
  induction ts generalizing k with
  | nil => rfl
  | cons t ts ih =>
    rw [List.cons_append, outerAll, outerAll, ih, List.append_assoc, List.length_cons,
      Nat.add_assoc, Nat.add_comm 1]

/-- Functions with alike bodies. -/
def SameBody (s s' : Site) : Prop := Alike s.body s'.body

theorem sameBody_outerAll {pairs : List (Tree × Tree)}
    (h : ∀ p ∈ pairs, ∀ place place',
      List.Forall₂ SameBody (outer place p.1) (outer place' p.2)) (place place' : Place) :
    ∀ k k', List.Forall₂ SameBody (outerAll place k (pairs.map Prod.fst))
      (outerAll place' k' (pairs.map Prod.snd)) := by
  induction pairs with
  | nil => exact fun _ _ => .nil
  | cons p pairs ih =>
    intro k k'
    rw [List.forall_mem_cons] at h
    exact List.rel_append (h.1 _ _) (ih h.2 _ _)

/-- The functions of a chain: those of the chain without its last component, then those of that. -/
theorem outer_augChain_concat (place : Place) (parts : List Tree) (part : Tree) :
    outer place (augChain (parts ++ [part])) =
      outer (place ++ [0]) (augChain parts) ++ outer (place ++ [1]) part := by
  rw [augChain_concat, ← List.append_nil (outer (place ++ [1]) part)]
  rfl

theorem sameBody_augChain {pairs : List (Tree × Tree)}
    (h : ∀ p ∈ pairs, ∀ place place',
      List.Forall₂ SameBody (outer place p.1) (outer place' p.2)) (place : Place) :
    ∀ place', List.Forall₂ SameBody (outerAll place 0 (pairs.map Prod.fst))
      (outer place' (augChain (pairs.map Prod.snd))) := by
  induction pairs using List.reverseRecOn with
  | nil => exact fun _ => .nil
  | append_singleton pairs p ih =>
    intro place'
    rw [List.forall_mem_append, List.forall_mem_singleton] at h
    rw [List.map_append, List.map_append, List.map_singleton, List.map_singleton,
      outer_augChain_concat, outerAll_append]
    refine List.rel_append (ih h.1 _) ?_
    rw [outerAll, outerAll, List.append_nil]
    exact h.2 _ _

/-- **Alike trees have alike functions**, in the same order. -/
theorem Alike.outer {t t' : Tree} (h : Alike t t') :
    ∀ place place', List.Forall₂ SameBody (outer place t) (outer place' t') := by
  induction h with
  | lambda _ _ hb => exact fun _ _ => .cons hb .nil
  | choice _ _ _ ihc iht ihe =>
    exact fun _ _ => List.rel_append (List.rel_append (iht _ _) (ihe _ _)) (ihc _ _)
  | node hk _ ih =>
    intro place place'
    rw [outer_node hk.ne.1 hk.ne.2, outer_node hk.ne.1 hk.ne.2]
    exact sameBody_outerAll ih place place' 0 0
  | chain _ ih => exact fun place place' => sameBody_augChain ih place place'

theorem SameBody.inner {s s' : Site} (h : SameBody s s') :
    List.Forall₂ SameBody s.inner s'.inner := Alike.outer h _ _

/-! ## 3. Numbers of alike trees -/

/-- The functions with the same number in two lists. -/
def Paired (ss ss' : List Site) (s s' : Site) : Prop :=
  ∃ i : Nat, ss[i]? = some s ∧ ss'[i]? = some s'

theorem Paired.cons {ss ss' : List Site} {x x' s s' : Site} (h : Paired ss ss' x x') :
    Paired (s :: ss) (s' :: ss') x x' := by
  obtain ⟨i, hi, hi'⟩ := h
  exact ⟨i + 1, hi, hi'⟩

/-- Functions in the bodies of paired functions are paired. -/
def Closed (ss ss' : List Site) : Prop :=
  ∀ s s', Paired ss ss' s s' → List.Forall₂ (Paired ss ss') s.inner s'.inner

theorem breadthFirst_nil (room : Nat) : breadthFirst room [] = [] := by
  cases room <;> rfl

/-- **Functions at hand that are alike** get the same numbers, and so do those in their bodies. -/
theorem paired_breadthFirst {room room' : Nat} {queue queue' : List Site}
    (hw : weight queue ≤ room) (hw' : weight queue' ≤ room')
    (h : List.Forall₂ SameBody queue queue') :
    List.Forall₂ (Paired (breadthFirst room queue) (breadthFirst room' queue')) queue queue' ∧
      Closed (breadthFirst room queue) (breadthFirst room' queue') := by
  induction room generalizing room' queue queue' with
  | zero =>
    obtain rfl := eq_nil_of_weight hw
    obtain rfl := List.forall₂_nil_left_iff.mp h
    rw [breadthFirst_nil, breadthFirst_nil]
    exact ⟨.nil, fun s s' ⟨_, hs, _⟩ => by cases hs⟩
  | succ room ih =>
    cases h with
    | nil =>
      rw [breadthFirst_nil, breadthFirst_nil]
      exact ⟨.nil, fun s s' ⟨_, hs, _⟩ => by cases hs⟩
    | @cons s s' queue queue' hs hqueue =>
      cases room' with
      | zero => cases eq_nil_of_weight hw'
      | succ room' =>
        obtain ⟨hhand, hclosed⟩ := ih (weight_queue_step hw) (weight_queue_step hw')
          (List.rel_append hqueue (SameBody.inner hs))
        rw [forall₂_append_iff hqueue.length_eq] at hhand
        rw [breadthFirst, breadthFirst]
        refine ⟨.cons ⟨0, rfl, rfl⟩ (hhand.1.imp fun _ _ => Paired.cons), ?_⟩
        rintro x x' ⟨i, hx, hx'⟩
        cases i with
        | zero =>
          obtain rfl := Option.some.inj hx
          obtain rfl := Option.some.inj hx'
          exact hhand.2.imp fun _ _ => Paired.cons
        | succ i => exact (hclosed x x' ⟨i, hx, hx'⟩).imp fun _ _ => Paired.cons

/-! ## 4. Alike trees as expressions -/

theorem expressionAll_append (number : Place → Nat) (place : Place) (k : Nat) (ts us : List Tree) :
    expressionAll number place k (ts ++ us) =
      expressionAll number place k ts ++ expressionAll number place (k + ts.length) us := by
  induction ts generalizing k with
  | nil => rfl
  | cons t ts ih =>
    rw [List.cons_append, expressionAll, expressionAll, ih, List.cons_append, List.length_cons,
      Nat.add_assoc, Nat.add_comm 1]

theorem expression_augChain_concat (number : Place → Nat) (place : Place) (parts : List Tree)
    (part : Tree) : expression number place (augChain (parts ++ [part])) =
      .binary none .aug (expression number (place ++ [0]) (augChain parts))
        (expression number (place ++ [1]) part) := by
  rw [augChain_concat]
  rfl

section Expressions

variable {number number' : Place → Nat} {Z : Site → Site → Prop}

/-- The trees are gathered to the same expression wherever their functions are paired. -/
def SameGathered (number number' : Place → Nat) (Z : Site → Site → Prop) (t t' : Tree) : Prop :=
  ∀ place place', List.Forall₂ Z (outer place t) (outer place' t') →
    (expression number place t).gather = (expression number' place' t').gather

variable {pairs : List (Tree × Tree)} (halike : ∀ p ∈ pairs, Alike p.1 p.2)
  (h : ∀ p ∈ pairs, SameGathered number number' Z p.1 p.2)

include halike h

theorem gather_expressionAll (place place' : Place) : ∀ k k',
    List.Forall₂ Z (outerAll place k (pairs.map Prod.fst))
      (outerAll place' k' (pairs.map Prod.snd)) →
    (expressionAll number place k (pairs.map Prod.fst)).map Core.gather =
      (expressionAll number' place' k' (pairs.map Prod.snd)).map Core.gather := by
  induction pairs with
  | nil => exact fun _ _ _ => rfl
  | cons p pairs ih =>
    intro k k' hz
    rw [List.forall_mem_cons] at halike h
    rw [List.map_cons, List.map_cons, outerAll, outerAll,
      forall₂_append_iff (halike.1.outer _ _).length_eq] at hz
    rw [List.map_cons, List.map_cons, expressionAll, expressionAll, List.map_cons, List.map_cons,
      h.1 _ _ hz.1, ih halike.2 h.2 _ _ hz.2]

/-- **A chain is gathered to the tuple of its components.** -/
theorem gather_augChain (place : Place) : ∀ place',
    List.Forall₂ Z (outerAll place 0 (pairs.map Prod.fst))
      (outer place' (augChain (pairs.map Prod.snd))) →
    (expression number' place' (augChain (pairs.map Prod.snd))).gather =
      .tuple none ((expressionAll number place 0 (pairs.map Prod.fst)).map Core.gather) := by
  induction pairs using List.reverseRecOn with
  | nil => exact fun _ _ => rfl
  | append_singleton pairs p ih =>
    intro place' hz
    rw [List.forall_mem_append, List.forall_mem_singleton] at halike h
    have hlength := (sameBody_augChain (fun q hq => (halike.1 q hq).outer) place
      (place' ++ [0])).length_eq
    rw [List.map_append, List.map_append, List.map_singleton, List.map_singleton,
      outer_augChain_concat, outerAll_append, forall₂_append_iff hlength, outerAll, outerAll,
      List.append_nil] at hz
    rw [List.map_append, List.map_append, List.map_singleton, List.map_singleton,
      expression_augChain_concat, expressionAll_append, List.map_append, Core.gather,
      ih halike.1 h.1 _ hz.1, ← h.2 _ _ hz.2]
    rfl

end Expressions

/-- **Alike trees are gathered to the same expression**, if their functions have the same numbers. -/
theorem Alike.gather_expression {number number' : Place → Nat} {Z : Site → Site → Prop}
    (hnumber : ∀ s s', Z s s' → number s.place = number' s'.place)
    (hinner : ∀ s s', Z s s' → List.Forall₂ Z s.inner s'.inner) {t t' : Tree} (h : Alike t t') :
    SameGathered number number' Z t t' := by
  induction h with
  | @lambda text text' param param' body body' _ _ hp hn hb ih =>
    intro place place' hz
    cases hz with
    | cons hz _ =>
      have hbody := ih _ _ (hinner _ _ hz)
      have hlabel := hnumber _ _ hz
      simp only [expression, Core.gather]
      rw [hbody, hlabel, hn]
  | choice hc ht he ihc iht ihe =>
    intro place place' hz
    have hthen := (ht.outer (place ++ [1]) (place' ++ [1])).length_eq
    have helse := (he.outer (place ++ [2]) (place' ++ [2])).length_eq
    simp only [Tree.outer] at hz
    rw [forall₂_append_iff (by rw [List.length_append, List.length_append, hthen, helse]),
      forall₂_append_iff hthen] at hz
    simp only [expression, Core.gather]
    rw [ihc _ _ hz.2, iht _ _ hz.1.1, ihe _ _ hz.1.2]
  | node hk hc ih =>
    intro place place' hz
    rw [outer_node hk.ne.1 hk.ne.2, outer_node hk.ne.1 hk.ne.2] at hz
    rw [expression_node hk.ne.1 hk.ne.2, expression_node hk.ne.1 hk.ne.2]
    exact Core.gather_ofNode (gather_expressionAll hc ih place place' 0 0 hz)
  | chain hc ih =>
    intro place place' hz
    rw [gather_augChain hc ih place place' hz, ← Core.gatherAll_eq_map]
    rfl

/-- **Alike programs are gathered to the same expression.** -/
theorem Alike.gather_program {t t' : Tree} (h : Alike t t') :
    t.program.gather = t'.program.gather := by
  obtain ⟨hroot, hclosed⟩ := paired_breadthFirst t.weight_root t'.weight_root (.cons h .nil)
  have hnumber : ∀ s s', Paired t.sites t'.sites s s' →
      t.number s.place = t'.number s'.place := by
    rintro s s' ⟨i, hs, hs'⟩
    rw [number_of_getElem? hs, number_of_getElem? hs']
  cases hroot with
  | cons hroot _ => exact h.gather_expression hnumber hclosed [] [] (hclosed _ _ hroot)

end Tree

/-! ## 5. Runs -/

open Machine

/-- Runs of two states show the same: the same text with values of the same kind and the same
printed form, the same text with the same failure, or no end at all. -/
inductive SameRuns (m m' : Machine) : Prop where
  | value {n n' : Nat} {out : String} {v v' : Item} (h : run n m = some ⟨out, .ok v⟩)
      (h' : run n' m' = some ⟨out, .ok v'⟩) (hkind : v.kind = v'.kind)
      (hprint : v.hasPrint = v'.hasPrint ∧ v.print = v'.print)
  | failure {n n' : Nat} {out : String} {f : Failure} (h : run n m = some ⟨out, .error f⟩)
      (h' : run n' m' = some ⟨out, .error f⟩)
  | unending (h : ∀ n, run n m = none) (h' : ∀ n, run n m' = none)

theorem Value.hasPrint_item {γ : Type} (c : γ → List Item) (v : Value γ) :
    (v.item c).hasPrint = v.bare.hasPrint := by
  cases v <;> rfl

/-- **Programs that are gathered to the same expression** show the same when they are run. -/
theorem Core.sameRuns {e e' : Core} (h : e.gather = e'.gather) {root root' : Closure}
    (hroot : root.body = e.code) (hroot' : root'.body = e'.code) :
    SameRuns (start root) (start root') := by
  by_cases hnone : ∀ n, e.evaluate n = none
  · have hnone' : ∀ n, e'.evaluate n = none := by
      intro n
      have hbare := evaluate_bare h n
      rw [hnone n] at hbare
      exact Option.map_eq_none_iff.mp hbare.symm
    exact .unending ((run_eq_none_iff_evaluate hroot).mpr hnone)
      ((run_eq_none_iff_evaluate hroot').mpr hnone')
  · obtain ⟨n, hn⟩ := not_forall.mp hnone
    obtain ⟨⟨r, out⟩, hr⟩ := Option.ne_none_iff_exists'.mp hn
    have hbare := evaluate_bare h n
    rw [hr] at hbare
    obtain ⟨⟨r', out'⟩, hr', heq⟩ := Option.map_eq_some_iff.mp hbare.symm
    obtain ⟨hanswer, rfl⟩ := Prod.mk.inj heq
    obtain ⟨k, hk⟩ := run_of_evaluate hroot hr
    obtain ⟨k', hk'⟩ := run_of_evaluate hroot' hr'
    cases r with
    | ok v =>
      cases r' with
      | error => cases hanswer
      | ok v' =>
        have hv : v'.bare = v.bare := Except.ok.inj hanswer
        refine .value hk hk' ?_ ⟨?_, ?_⟩
        · rw [Value.kind_item, Value.kind_item, hv]
        · rw [Value.hasPrint_item, Value.hasPrint_item, hv]
        · calc (v.item code).print = v.bare.print := Value.print_item _ _ v
            _ = v'.bare.print := by rw [hv]
            _ = (v'.item code).print := Value.print_item _ _ v'
    | error f =>
      cases r' with
      | ok => cases hanswer
      | error f' =>
        obtain rfl : f' = f := Except.error.inj hanswer
        exact .failure hk hk'

namespace Tree

/-- **Tuples and chains of `aug` are interchangeable.**  If a tuple somewhere in a core tree is
replaced by the chain that builds it up from `nil`, the control structures can be built before and
after, and their runs show the same. -/
theorem run_structures_buildsUp {t t' : Tree} (h : t.IsCore) (hbuilds : BuildsUp t t') :
    ∃ cs cs', Control.structures t = .ok cs ∧ Control.structures t' = .ok cs' ∧
      SameRuns (start (Control.root cs)) (start (Control.root cs')) := by
  have halike := hbuilds.alike h
  have h' := halike.isCore
  exact ⟨_, _, (Control.structures_eq_ok_iff h).mpr ⟨h, rfl⟩,
    (Control.structures_eq_ok_iff h').mpr ⟨h', rfl⟩,
    Core.sameRuns halike.gather_program root_body root_body⟩

/-- The pair of `fn x . x` and `fn y . fn z . y`. -/
def functionParts : List Tree :=
  [.branch .lambda [.leaf .identifier "x", .leaf .identifier "x"],
    .branch .lambda [.leaf .identifier "y",
      .branch .lambda [.leaf .identifier "z", .leaf .identifier "y"]]]

/-- A function that returns a pair of functions, applied: the numbers of the functions are the
same. -/
theorem run_structures_buildsUp_functions :
    let apply (body : Tree) : Tree := .branch .gamma [
      .branch .lambda [.leaf .identifier "a", body], .branch .dummy []]
    let t := apply (.branch .tau functionParts)
    let t' := apply (augChain functionParts)
    t.IsCore ∧ BuildsUp t t' ∧ ∃ cs', Control.structures t' = .ok cs' ∧ ∃ n v,
      run n (start (Control.root cs')) = some ⟨"", .ok v⟩ ∧
        v.print = "([lambda closure: x: 2], [lambda closure: y: 3])" := by
  intro apply t t'
  have hname : ∀ x, (leaf .identifier x).IsCore := fun x => .node rfl (List.forall_mem_nil _)
  have hparts : ∀ c ∈ functionParts, c.IsCore :=
    List.forall_mem_cons.mpr ⟨.lambda (.name _ _ _) (hname "x"),
      List.forall_mem_singleton.mpr (.lambda (.name _ _ _) (.lambda (.name _ _ _) (hname "y")))⟩
  have ht : t.IsCore := .node rfl (List.forall_mem_cons.mpr
    ⟨.lambda (.name _ _ _) (.node trivial hparts),
      List.forall_mem_singleton.mpr (.node rfl (List.forall_mem_nil _))⟩)
  have hfunction : BuildsUp (.branch .lambda [.leaf .identifier "a", .branch .tau functionParts])
      (.branch .lambda [.leaf .identifier "a", augChain functionParts]) :=
    @BuildsUp.inside _ _ [_] [] _ _ _ .here
  have hbuilds : BuildsUp t t' := @BuildsUp.inside _ _ [] [_] _ _ _ hfunction
  obtain ⟨cs, cs', hcs, hcs', hruns⟩ := run_structures_buildsUp ht hbuilds
  obtain ⟨v, hv, hprint⟩ : ∃ v, t.program.evaluate 1 = some (.ok v, "") ∧
      (v.item Core.code).print = "([lambda closure: x: 2], [lambda closure: y: 3])" :=
    ⟨_, rfl, by decide⟩
  obtain rfl := Except.ok.inj (hcs.symm.trans ((Control.structures_eq_ok_iff ht).mpr ⟨ht, rfl⟩))
  obtain ⟨k, hk⟩ := Core.run_of_evaluate root_body hv
  refine ⟨ht, hbuilds, cs', hcs', ?_⟩
  cases hruns with
  | value h h' hkind hshown =>
    cases run_unique hk h
    exact ⟨_, _, h', hshown.2.symm.trans hprint⟩
  | failure h => cases run_unique hk h
  | unending h => cases (h k).symm.trans hk

end Tree

end Rpal
