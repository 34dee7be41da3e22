/-
# When standardizing fails

A rule looks at its node after the children have been rewritten.  What it asks of them can all the
same be read off the raw tree, since it only asks whether a child is an equation with two sides, and
that is settled by the child's kind and its number of children:

    function form, within, and, rec     become equations with two sides
    an equation                         keeps its sides, however many there are
    any other node                      becomes no equation

So every node has a static test (`HasShape`), and a tree has a standard form exactly if all nodes
pass it.  A tree without one fails with the error of the first node that does not pass, where a node
comes after all nodes below it (`standardize_iff_hasShape`).  The trees are arbitrary, with any kinds
and any numbers of children.
-/
import Rpal.Proofs.Standard.Normal

namespace Rpal.Tree

/-! ## 1. The test of a node -/

/-- A node that is an equation with two sides once it is standardized. -/
def IsDefinitional (t : Tree) : Prop :=
  t.kind ∈ [Kind.functionForm, .within, .simultDef, .recDef] ∨
    t.kind = .equal ∧ t.children.length = 2

/-- The shape that the rule of a node asks for. -/
def HasShape (t : Tree) : Prop :=
  match t.kind with
  | .letIn => ∃ d body, t.children = [d, body] ∧ d.IsDefinitional
  | .whereDef => ∃ body d, t.children = [body, d] ∧ d.IsDefinitional
  | .within => ∃ d₁ d₂, t.children = [d₁, d₂] ∧ d₁.IsDefinitional ∧ d₂.IsDefinitional
  | .recDef => ∃ d, t.children = [d] ∧ d.IsDefinitional
  | .simultDef => ∀ d ∈ t.children, d.IsDefinitional
  | .functionForm => 3 ≤ t.children.length
  | .lambda => 2 ≤ t.children.length
  | .atCall => t.children.length = 3
  | _ => True

/-- How many sides a node has as an equation once it is standardized, if it is one. -/
def sideCount? (t : Tree) : Option Nat :=
  match t.kind with
  | .functionForm | .within | .simultDef | .recDef => some 2
  | .equal => some t.children.length
  | _ => none

/-- What is wrong with a node in the place of a definition. -/
def definitionError? (missing : StandardizeError) (t : Tree) : Option StandardizeError :=
  match t.sideCount? with
  | none => some missing
  | some n => if n = 2 then none else some (.childCount .equal 2 true n)

/-- What is wrong with a node, by the number and the kinds of its children.  Of two definitions
side by side, `within` asks first whether both are equations. -/
def shapeError? (t : Tree) : Option StandardizeError :=
  match t.kind, t.children with
  | .letIn, [d, _] => d.definitionError? .letWithoutEquation
  | .letIn, _ => some (t.wrongCount 2)
  | .whereDef, [_, d] => d.definitionError? .letWithoutEquation
  | .whereDef, _ => some (t.wrongCount 2)
  | .within, [d₁, d₂] =>
    if d₁.sideCount?.isSome ∧ d₂.sideCount?.isSome then
      (d₁.definitionError? .withinWithoutEquation).or
        (d₂.definitionError? .withinWithoutEquation)
    else some .withinWithoutEquation
  | .within, _ => some (t.wrongCount 2)
  | .recDef, [d] => d.definitionError? .recursionWithoutEquation
  | .recDef, _ => some (t.wrongCount 1)
  | .simultDef, ds => ds.findSome? (definitionError? .simultaneousWithoutEquation)
  | .functionForm, ts => if 3 ≤ ts.length then none else some (t.tooFew 3)
  | .lambda, ts => if 2 ≤ ts.length then none else some (t.tooFew 2)
  | .atCall, ts => if ts.length = 3 then none else some (t.wrongCount 3)
  | _, _ => none

theorem isDefinitional_iff {t : Tree} : t.IsDefinitional ↔ t.sideCount? = some 2 := by
  obtain ⟨kind, text, children, arity⟩ := t
  cases kind <;> simp [IsDefinitional, sideCount?]

theorem definitionError?_eq_none_iff {missing : StandardizeError} {t : Tree} :
    t.definitionError? missing = none ↔ t.IsDefinitional := by
  rw [isDefinitional_iff, definitionError?]
  cases t.sideCount? with
  | none => simp
  | some n => simp

/-- **The test finds no error exactly in a node of the right shape.** -/
theorem shapeError?_eq_none_iff {t : Tree} : t.shapeError? = none ↔ t.HasShape := by
  obtain ⟨kind, text, children, arity⟩ := t
  cases kind
  case letIn | whereDef =>
    match children with
    | [] | [_] | _ :: _ :: _ :: _ => simp [shapeError?, HasShape]
    | [a, b] => simp [shapeError?, HasShape, definitionError?_eq_none_iff]
  case within =>
    match children with
    | [] | [_] | _ :: _ :: _ :: _ => simp [shapeError?, HasShape]
    | [d₁, d₂] =>
      simp only [shapeError?, HasShape, List.cons.injEq, and_true]
      constructor
      · intro h
        split at h
        · rw [Option.or_eq_none_iff] at h
          exact ⟨d₁, d₂, ⟨rfl, rfl⟩, h.imp definitionError?_eq_none_iff.mp
            definitionError?_eq_none_iff.mp⟩
        · cases h
      · rintro ⟨_, _, ⟨rfl, rfl⟩, h₁, h₂⟩
        rw [if_pos ⟨by rw [isDefinitional_iff.mp h₁]; rfl, by rw [isDefinitional_iff.mp h₂]; rfl⟩,
          definitionError?_eq_none_iff.mpr h₁, definitionError?_eq_none_iff.mpr h₂]
        rfl
  case recDef =>
    match children with
    | [] | _ :: _ :: _ => simp [shapeError?, HasShape]
    | [d] => simp [shapeError?, HasShape, definitionError?_eq_none_iff]
  case simultDef =>
    simp only [shapeError?, HasShape, List.findSome?_eq_none_iff, definitionError?_eq_none_iff]
  case functionForm | lambda | atCall =>
    simp only [shapeError?, HasShape, ite_eq_left_iff, reduceCtorEq, imp_false, not_not]
  all_goals simp [shapeError?, HasShape]

/-! ## 2. What standardizing does to the test -/

/-- The error of a result. -/
def raised {α : Type} : Except StandardizeError α → Option StandardizeError
  | .ok _ => none
  | .error e => some e

@[simp] theorem raised_ok {α : Type} (a : α) : raised (.ok a) = none := rfl

@[simp] theorem raised_error {α : Type} (e : StandardizeError) :
    raised (.error e : Except StandardizeError α) = some e := rfl

theorem raised_eq_none_iff {α : Type} {r : Except StandardizeError α} :
    raised r = none ↔ ∃ a, r = .ok a := by
  cases r <;> simp

theorem raised_eq_some_iff {α : Type} {r : Except StandardizeError α} {e : StandardizeError} :
    raised r = some e ↔ r = .error e := by
  cases r <;> simp

/-- Of two computations in sequence, the second of which fails by an error that does not depend on
the result of the first, the error of the first counts. -/
theorem raised_bind {α β : Type} {r : Except StandardizeError α}
    {f : α → Except StandardizeError β} {late : Option StandardizeError}
    (h : ∀ a, r = .ok a → raised (f a) = late) : raised (r >>= f) = (raised r).or late := by
  cases r with
  | ok a => exact h a rfl
  | error e => rfl

/-- **Whether a node is an equation does not change**, nor how many sides it has. -/
theorem sideCount?_of_standardize {t s : Tree} (h : t.standardize = .ok s) :
    s.sideCount? = t.sideCount? := by
  obtain ⟨kind, text, children, arity⟩ := t
  obtain ⟨cs, hcs, hrewrites⟩ := standardize_eq_ok_iff.mp h
  have hlength : cs.length = children.length := hcs.length_eq.symm
  cases hrewrites with
  | keep => cases kind <;> first | rfl | exact congrArg some hlength
  | _ => rfl

/-- The test of a node only asks how many sides its children have as equations. -/
theorem shapeError?_congr {kind : Kind} {text : Option String} {ts ss : List Tree} {arity : Nat}
    (h : List.Forall₂ (fun t s : Tree => s.sideCount? = t.sideCount?) ts ss) :
    shapeError? ⟨kind, text, ss, arity⟩ = shapeError? ⟨kind, text, ts, arity⟩ := by
  have hlength : ss.length = ts.length := h.length_eq.symm
  have herror : ∀ {t s : Tree}, s.sideCount? = t.sideCount? → ∀ missing,
      s.definitionError? missing = t.definitionError? missing := by
    intro t s hts missing
    simp only [definitionError?, hts]
  cases kind
  case simultDef =>
    simp only [shapeError?]
    induction h with
    | nil => rfl
    | cons hts _ ih =>
      rw [List.findSome?_cons, List.findSome?_cons, herror hts, ih (by simpa using hlength)]
  case functionForm | lambda | atCall =>
    simp only [shapeError?, wrongCount, tooFew, hlength]
  case letIn | whereDef | within | recDef =>
    match h with
    | .nil => rfl
    | .cons h₁ .nil => simp only [shapeError?, herror h₁, wrongCount, List.length_singleton]
    | .cons h₁ (.cons h₂ .nil) =>
      simp only [shapeError?, herror h₁, herror h₂, h₁, h₂, wrongCount, List.length_cons,
        List.length_nil]
    | .cons _ (.cons _ (.cons _ hrest)) =>
      simp only [shapeError?, wrongCount, List.length_cons, hrest.length_eq]
  all_goals rfl

/-! ## 3. The rule of a node -/

/-- Without sugar, an equation is a node of that kind. -/
theorem sideCount?_eq_none {d : Tree} (hd : d.kind ∉ Kind.sugar) (hk : d.kind ≠ .equal) :
    d.sideCount? = none := by
  obtain ⟨kind, text, children, arity⟩ := d
  cases kind <;> simp_all [sideCount?, Kind.sugar]

theorem raised_sides {d : Tree} (hk : d.kind = .equal) (missing : StandardizeError) :
    raised d.sides = d.definitionError? missing := by
  obtain ⟨kind, text, children, arity⟩ := d
  obtain rfl : kind = .equal := hk
  match children with
  | [] | [_] | [_, _] | _ :: _ :: _ :: _ =>
    simp [sides, definitionError?, sideCount?, wrongCount]

/-- **A node in the place of a definition** is asked whether it is an equation, then how many sides
it has, and then comes the rest. -/
theorem raised_equation {d : Tree} (hd : d.kind ∉ Kind.sugar) (missing : StandardizeError)
    {α : Type} {f : Tree × Tree → Except StandardizeError α} {late : Option StandardizeError}
    (hf : ∀ pair, raised (f pair) = late) :
    raised (if d.kind = .equal then d.sides >>= f else .error missing) =
      (d.definitionError? missing).or late := by
  by_cases hk : d.kind = .equal
  · rw [if_pos hk, raised_bind fun pair _ => hf pair, raised_sides hk missing]
  · rw [if_neg hk, definitionError?, sideCount?_eq_none hd hk]
    rfl

theorem raised_equations {ds : List Tree} (h : ∀ d ∈ ds, d.kind ∉ Kind.sugar) :
    raised (equations ds) = ds.findSome? (definitionError? .simultaneousWithoutEquation) := by
  induction ds with
  | nil => rfl
  | cons d ds ih =>
    rw [List.forall_mem_cons] at h
    have hrest : ∀ pair : Tree × Tree,
        raised (equations ds >>= fun pairs => Except.ok (pair :: pairs)) =
          ds.findSome? (definitionError? .simultaneousWithoutEquation) := by
      intro pair
      rw [raised_bind fun pairs _ => raised_ok (pair :: pairs), Option.or_none, ih h.2]
    rw [equations, raised_equation h.1 _ hrest, List.findSome?_cons]
    cases d.definitionError? .simultaneousWithoutEquation <;> rfl

/-- Without sugar below it, `within` fails as its test does. -/
theorem raised_within {d₁ d₂ : Tree} (h₁ : d₁.kind ∉ Kind.sugar) (h₂ : d₂.kind ∉ Kind.sugar)
    (text : Option String) (arity : Nat) :
    raised (applyRule ⟨.within, text, [d₁, d₂], arity⟩) =
      shapeError? ⟨.within, text, [d₁, d₂], arity⟩ := by
  have hsome : ∀ d : Tree, d.kind ∉ Kind.sugar → (d.sideCount?.isSome ↔ d.kind = .equal) := by
    intro d hd
    by_cases hk : d.kind = .equal
    · simp only [sideCount?, hk, Option.isSome_some]
    · simp only [sideCount?_eq_none hd hk, hk, Option.isSome_none, Bool.false_eq_true]
  simp only [applyRule, shapeError?, hsome d₁ h₁, hsome d₂ h₂]
  split
  · rename_i hk
    rw [raised_bind fun pair _ => (?_ : raised _ = d₂.definitionError? .withinWithoutEquation),
      raised_sides hk.1]
    rw [raised_bind fun _ _ => raised_ok _, Option.or_none, raised_sides hk.2]
  · rfl

/-- **The rule of a node fails as its test does**, when there is no sugar below the node. -/
theorem raised_applyRule {t : Tree} (h : ∀ c ∈ t.children, c.kind ∉ Kind.sugar) :
    raised t.applyRule = t.shapeError? := by
  obtain ⟨kind, text, children, arity⟩ := t
  have hlet : ∀ d ∈ children, ∀ body, raised (applyLetRule ⟨kind, text, children, arity⟩ d body) =
      d.definitionError? .letWithoutEquation := by
    intro d hd body
    rw [applyLetRule, raised_equation (h d hd) _ fun _ => raised_ok _, Option.or_none]
  -- A wrong number of children is refused by rule and test alike; with the right one, what is left
  -- to refuse are the definitions below the node.
  cases kind
  case letIn =>
    match children with
    | [] | [_] | _ :: _ :: _ :: _ => rfl
    | [d, body] => exact hlet d List.mem_cons_self body
  case whereDef =>
    match children with
    | [] | [_] | _ :: _ :: _ :: _ => rfl
    | [body, d] => exact hlet d (List.mem_cons_of_mem _ List.mem_cons_self) body
  case within =>
    match children with
    | [] | [_] | _ :: _ :: _ :: _ => rfl
    | [d₁, d₂] =>
      rw [List.forall_mem_cons, List.forall_mem_singleton] at h
      exact raised_within h.1 h.2 text arity
  case recDef =>
    match children with
    | [] | _ :: _ :: _ => rfl
    | [d] =>
      rw [List.forall_mem_singleton] at h
      rw [applyRule, raised_equation h _ fun _ => raised_ok _, Option.or_none]
      rfl
  case simultDef =>
    rw [applyRule, raised_bind fun _ _ => raised_ok _, Option.or_none, raised_equations h]
    rfl
  case functionForm | lambda =>
    obtain _ | ⟨a, _ | ⟨b, _ | ⟨c, rest⟩⟩⟩ := children
    case cons.cons.cons =>
      simp only [shapeError?, List.length_cons]
      rw [if_pos (by omega)]
      rfl
    all_goals rfl
  case atCall =>
    obtain _ | ⟨a, _ | ⟨b, _ | ⟨c, _ | ⟨d, rest⟩⟩⟩⟩ := children
    case cons.cons.cons.cons =>
      simp only [shapeError?, List.length_cons]
      rw [if_neg (by omega)]
      rfl
    all_goals rfl
  all_goals rfl

/-! ## 4. The first node that does not pass -/

mutual

/-- All subtrees, each after those below it. -/
def postorder : Tree → List Tree
  | ⟨kind, text, children, arity⟩ => postorderAll children ++ [⟨kind, text, children, arity⟩]

/-- All subtrees of neighbours, from the left. -/
def postorderAll : List Tree → List Tree
  | [] => []
  | t :: ts => t.postorder ++ postorderAll ts

end

theorem postorder_perm_nodes (t : Tree) : t.postorder.Perm t.nodes := by
  have hall : ∀ ts : List Tree, (∀ t ∈ ts, t.postorder.Perm t.nodes) →
      (postorderAll ts).Perm (nodesAll ts) := by
    intro ts
    induction ts with
    | nil => exact fun _ => .refl _
    | cons t ts ih =>
      intro h
      rw [List.forall_mem_cons] at h
      exact h.1.append (ih h.2)
  induction t using induction with
  | node t ih =>
    obtain ⟨kind, text, children, arity⟩ := t
    exact List.perm_append_comm.trans ((hall children ih).cons _)

/-- **Standardizing fails as the first test that fails**, in post-order. -/
theorem raised_standardize (t : Tree) :
    raised t.standardize = t.postorder.findSome? shapeError? := by
  have hall : ∀ ts : List Tree,
      (∀ t ∈ ts, raised t.standardize = t.postorder.findSome? shapeError?) →
      raised (standardizeAll ts) = (postorderAll ts).findSome? shapeError? := by
    intro ts
    induction ts with
    | nil => exact fun _ => rfl
    | cons t ts ih =>
      intro h
      rw [List.forall_mem_cons] at h
      rw [standardizeAll, postorderAll, List.findSome?_append, ← h.1, ← ih h.2]
      refine raised_bind fun s _ => ?_
      rw [raised_bind fun _ _ => raised_ok _, Option.or_none]
  induction t using induction with
  | node t ih =>
    obtain ⟨kind, text, children, arity⟩ := t
    rw [standardize_eq, postorder, List.findSome?_append, ← hall children ih]
    refine raised_bind fun cs hcs => ?_
    -- the rule looks at the standard forms of the children, the test at the children themselves
    rw [standardizeAll_eq_ok_iff] at hcs
    have hnormal : ∀ c ∈ cs, c.kind ∉ Kind.sugar := by
      intro c hc
      obtain ⟨_, _, h⟩ := exists_of_mem_forall₂ (List.Forall₂.flip hcs) hc
      exact (isNormal_of_standardize h).root.1
    rw [raised_applyRule hnormal,
      shapeError?_congr (hcs.imp fun _ _ h => sideCount?_of_standardize h), List.findSome?_singleton]

/-! ## 5. The failure condition -/

/-- **The exact failure condition of standardizing.**  A tree has a standard form exactly if every
node has the shape that its rule asks for, and otherwise the error is that of the first node without
it, in post-order. -/
theorem standardize_iff_hasShape (t : Tree) :
    ((∃ s, t.standardize = .ok s) ↔ ∀ n ∈ t.nodes, n.HasShape) ∧
    ∀ e, t.standardize = .error e ↔ ∃ before n after, t.postorder = before ++ n :: after ∧
      (∀ m ∈ before, m.HasShape) ∧ ¬ n.HasShape ∧ n.shapeError? = some e := by
  constructor
  · rw [← raised_eq_none_iff, raised_standardize, List.findSome?_eq_none_iff]
    simp only [shapeError?_eq_none_iff, (postorder_perm_nodes t).mem_iff]
  · intro e
    rw [← raised_eq_some_iff, raised_standardize, List.findSome?_eq_some_iff]
    simp only [shapeError?_eq_none_iff]
    constructor
    · rintro ⟨before, n, after, hsplit, herror, hbefore⟩
      refine ⟨before, n, after, hsplit, hbefore, fun hshape => ?_, herror⟩
      rw [shapeError?_eq_none_iff.mpr hshape] at herror
      cases herror
    · rintro ⟨before, n, after, hsplit, hbefore, -, herror⟩
      exact ⟨before, n, after, hsplit, herror, hbefore⟩

/-- Of two nodes without their shapes the one below comes first. -/
example : standardize (branch .letIn [leaf .identifier "x", branch .lambda [leaf .identifier "x"]]) =
    .error (.childCount .lambda 2 false 1) := rfl

end Rpal.Tree
