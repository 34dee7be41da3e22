/-
# The rules in any order

Standardizing applies the eight rules in one fixed order, children before their parent.  The order
does not matter.  `Step` applies one rule at any node of a tree at which the rule applies at that
moment, whatever sugar there still is below the node or around it:

    t  -->  t1  -->  t2  -->  ...

The argument has two halves.

* **A step keeps the standard form** (`Step.standardize_eq`).  A rule puts the parts of a node in
  other places and never looks into them, so the standard forms of the parts are put there as well.
* **Steps come to an end** (`Step.work_lt`).  `work` counts the redexes of a tree, those below `rec`
  doubled for every `rec` above them: that rule alone makes two copies of a part.

A tree with a standard form and without a redex is its own standard form, so all ways of applying the
rules end in the standard form (`steps_of_standardize`).  Without a standard form a tree may get stuck
in several ways; nothing is claimed about these.
-/
import Mathlib.Logic.Relation
import Rpal.Proofs.Standard.Normal

namespace Rpal.Tree

open Relation (ReflTransGen)

/-- A node that its rule changes, if it has the shape for it. -/
def IsRedex (t : Tree) : Prop :=
  t.kind ∈ Kind.sugar ∨ t.kind = .lambda ∧ 2 < t.children.length

/-- One rule is applied at one node. -/
inductive Step : Tree → Tree → Prop where
  | root {t u : Tree} (hredex : t.IsRedex) (hrule : t.applyRule = .ok u) : Step t u
  | child (kind : Kind) (text : Option String) (before : List Tree) {c c' : Tree} (h : Step c c')
      (after : List Tree) (arity : Nat) :
      Step ⟨kind, text, before ++ c :: after, arity⟩ ⟨kind, text, before ++ c' :: after, arity⟩

/-! ## 1. A step keeps the standard form -/

theorem Rewrites.unique {t s u : Tree} (h : Rewrites t s) (h' : Rewrites t u) : s = u :=
  Except.ok.inj (h.applyRule_eq.symm.trans h'.applyRule_eq)

/-- Nodes that no rule changes are standardized below. -/
theorem standardize_of_forall₂ {kind : Kind} (hk : hasRule kind = false) (text : Option String)
    {ts ss : List Tree} (h : List.Forall₂ (fun t s => t.standardize = .ok s) ts ss) (arity : Nat) :
    standardize ⟨kind, text, ts, arity⟩ = .ok ⟨kind, text, ss, arity⟩ :=
  standardize_eq_ok_iff.mpr ⟨ss, h, .keep hk⟩

theorem standardize_two {kind : Kind} (hk : hasRule kind = false ∨ kind = .lambda)
    (text : Option String) {t u t' u' : Tree} (ht : t.standardize = .ok t')
    (hu : u.standardize = .ok u') (arity : Nat) :
    standardize ⟨kind, text, [t, u], arity⟩ = .ok ⟨kind, text, [t', u'], arity⟩ := by
  refine standardize_eq_ok_iff.mpr ⟨[t', u'], .cons ht (.cons hu .nil), ?_⟩
  rcases hk with hk | rfl
  · exact .keep hk
  · exact .lambda text t' [] u' arity

theorem standardize_lambdaChain {params ps : List Tree} {body b : Tree}
    (hp : List.Forall₂ (fun t s => t.standardize = .ok s) params ps)
    (hb : body.standardize = .ok b) :
    (lambdaChain params body).standardize = .ok (lambdaChain ps b) := by
  induction hp with
  | nil => exact hb
  | cons hp _ ih => exact standardize_two (.inr rfl) none hp ih 0

/-- The standard form of an equation has the standard forms of its sides. -/
theorem IsEquation.standardize {d x e d' : Tree} (h : IsEquation d x e)
    (hd : d.standardize = .ok d') : ∃ x' e', x.standardize = .ok x' ∧ e.standardize = .ok e' ∧
      d' = { d with children := [x', e'] } ∧ IsEquation d' x' e' := by
  cases h with
  | mk text x e arity =>
    obtain ⟨cs, hcs, hrewrites⟩ := standardize_eq_ok_iff.mp hd
    obtain ⟨x', _, hx, hrest, rfl⟩ := List.forall₂_cons_left_iff.mp hcs
    obtain ⟨e', _, he, hnil, rfl⟩ := List.forall₂_cons_left_iff.mp hrest
    cases hnil
    obtain rfl := hrewrites.unique (.keep rfl)
    exact ⟨x', e', hx, he, rfl, .mk text x' e' arity⟩

/-- The standard forms of equations have those of their sides. -/
theorem standardize_equations {ds : List Tree} {pairs : List (Tree × Tree)}
    (h : List.Forall₂ (fun d p => IsEquation d p.1 p.2) ds pairs) {ds' : List Tree}
    (hds : List.Forall₂ (fun t s => t.standardize = .ok s) ds ds') :
    ∃ pairs' : List (Tree × Tree), List.Forall₂ (fun d p => IsEquation d p.1 p.2) ds' pairs' ∧
      List.Forall₂ (fun t s => t.standardize = .ok s) (pairs.map Prod.fst) (pairs'.map Prod.fst) ∧
      List.Forall₂ (fun t s => t.standardize = .ok s) (pairs.map Prod.snd)
        (pairs'.map Prod.snd) := by
  induction h generalizing ds' with
  | nil =>
    cases hds
    exact ⟨[], .nil, .nil, .nil⟩
  | cons hd _ ih =>
    obtain ⟨d', rest, hd', hrest, rfl⟩ := List.forall₂_cons_left_iff.mp hds
    obtain ⟨x', e', hx, he, -, hequation⟩ := hd.standardize hd'
    obtain ⟨pairs', hpairs, hfst, hsnd⟩ := ih hrest
    exact ⟨(x', e') :: pairs', .cons hequation hpairs, .cons hx hfst, .cons he hsnd⟩

/-- Parameters and a body in one list of children. -/
theorem standardize_concat {ts : List Tree} {body : Tree} {cs : List Tree}
    (h : List.Forall₂ (fun t s => t.standardize = .ok s) (ts ++ [body]) cs) :
    ∃ ss b, List.Forall₂ (fun t s => t.standardize = .ok s) ts ss ∧ body.standardize = .ok b ∧
      cs = ss ++ [b] := by
  induction ts generalizing cs with
  | nil =>
    obtain ⟨b, _, hb, hnil, rfl⟩ := List.forall₂_cons_left_iff.mp h
    cases hnil
    exact ⟨[], b, .nil, hb, rfl⟩
  | cons t ts ih =>
    obtain ⟨s, _, hs, hrest, rfl⟩ := List.forall₂_cons_left_iff.mp h
    obtain ⟨ss, b, hss, hb, rfl⟩ := ih hrest
    exact ⟨s :: ss, b, .cons hs hss, hb, rfl⟩

/-- **Rewriting a node before its children** leads to the same standard form. -/
theorem Rewrites.standardize_eq {t u s : Tree} (h : Rewrites t u) (hs : t.standardize = .ok s) :
    u.standardize = .ok s := by
  have hkeep : ∀ {kind : Kind}, hasRule kind = false → ∀ (text : Option String)
      {t u t' u' : Tree}, t.standardize = .ok t' → u.standardize = .ok u' → ∀ arity,
      Tree.standardize ⟨kind, text, [t, u], arity⟩ = .ok ⟨kind, text, [t', u'], arity⟩ :=
    fun hk text _ _ _ _ ht hu arity => standardize_two (.inl hk) text ht hu arity
  -- In each case the standard forms of the children are again children for the same rule, and what
  -- the rule makes of them is the standard form of what it makes of the children.
  cases h with
  | keep => exact hs
  | lambda text p params body arity =>
    obtain ⟨cs, hcs, hrewrites⟩ := standardize_eq_ok_iff.mp hs
    obtain ⟨p', _, hp, hrest, rfl⟩ := List.forall₂_cons_left_iff.mp hcs
    obtain ⟨ps, b, hps, hb, rfl⟩ := standardize_concat hrest
    rw [hrewrites.unique (.lambda text p' ps b arity)]
    exact standardize_two (.inr rfl) text hp (standardize_lambdaChain hps hb) arity
  | @functionForm text f params hn body arity =>
    obtain ⟨cs, hcs, hrewrites⟩ := standardize_eq_ok_iff.mp hs
    obtain ⟨f', _, hf, hrest, rfl⟩ := List.forall₂_cons_left_iff.mp hcs
    obtain ⟨ps, b, hps, hb, rfl⟩ := standardize_concat hrest
    have hn' : ps ≠ [] := by
      rintro rfl
      exact hn (List.forall₂_nil_right_iff.mp hps)
    rw [hrewrites.unique (.functionForm text f' hn' b arity)]
    exact hkeep rfl text hf (standardize_lambdaChain hps hb) arity
  | letIn text hd body arity =>
    obtain ⟨cs, hcs, hrewrites⟩ := standardize_eq_ok_iff.mp hs
    obtain ⟨d', _, hd', hrest, rfl⟩ := List.forall₂_cons_left_iff.mp hcs
    obtain ⟨b, _, hb, hnil, rfl⟩ := List.forall₂_cons_left_iff.mp hrest
    cases hnil
    obtain ⟨x', e', hx, he, rfl, hequation⟩ := hd.standardize hd'
    rw [hrewrites.unique (.letIn text hequation b arity)]
    exact hkeep rfl text (standardize_two (.inr rfl) _ hx hb _) he arity
  | whereDef text body hd arity =>
    obtain ⟨cs, hcs, hrewrites⟩ := standardize_eq_ok_iff.mp hs
    obtain ⟨b, _, hb, hrest, rfl⟩ := List.forall₂_cons_left_iff.mp hcs
    obtain ⟨d', _, hd', hnil, rfl⟩ := List.forall₂_cons_left_iff.mp hrest
    cases hnil
    obtain ⟨x', e', hx, he, rfl, hequation⟩ := hd.standardize hd'
    rw [hrewrites.unique (.whereDef text b hequation arity)]
    exact hkeep rfl text (standardize_two (.inr rfl) _ hx hb _) he arity
  | atCall text left f right arity =>
    obtain ⟨cs, hcs, hrewrites⟩ := standardize_eq_ok_iff.mp hs
    obtain ⟨l', _, hl, hfr, rfl⟩ := List.forall₂_cons_left_iff.mp hcs
    obtain ⟨f', _, hf, hright, rfl⟩ := List.forall₂_cons_left_iff.mp hfr
    obtain ⟨r', _, hr, hnil, rfl⟩ := List.forall₂_cons_left_iff.mp hright
    cases hnil
    rw [hrewrites.unique (.atCall text l' f' r' arity)]
    exact hkeep rfl text (hkeep rfl none hf hl 0) hr arity
  | within text h₁ h₂ arity =>
    obtain ⟨cs, hcs, hrewrites⟩ := standardize_eq_ok_iff.mp hs
    obtain ⟨d₁', _, hd₁, hrest, rfl⟩ := List.forall₂_cons_left_iff.mp hcs
    obtain ⟨d₂', _, hd₂, hnil, rfl⟩ := List.forall₂_cons_left_iff.mp hrest
    cases hnil
    obtain ⟨x₁', e₁', hx₁, he₁, -, hequation₁⟩ := h₁.standardize hd₁
    obtain ⟨x₂', e₂', hx₂, he₂, -, hequation₂⟩ := h₂.standardize hd₂
    rw [hrewrites.unique (.within text hequation₁ hequation₂ arity)]
    exact hkeep rfl text hx₂
      (hkeep rfl none (standardize_two (.inr rfl) none hx₁ he₂ 0) he₁ 0) arity
  | simultDef text h arity =>
    obtain ⟨cs, hcs, hrewrites⟩ := standardize_eq_ok_iff.mp hs
    obtain ⟨pairs', hpairs, hfst, hsnd⟩ := standardize_equations h hcs
    rw [hrewrites.unique (.simultDef text hpairs arity)]
    exact hkeep rfl text (standardize_of_forall₂ rfl none hfst 0)
      (standardize_of_forall₂ rfl none hsnd 0) arity
  | recDef text hd arity =>
    obtain ⟨cs, hcs, hrewrites⟩ := standardize_eq_ok_iff.mp hs
    obtain ⟨d', _, hd', hnil, rfl⟩ := List.forall₂_cons_left_iff.mp hcs
    cases hnil
    obtain ⟨x', e', hx, he, -, hequation⟩ := hd.standardize hd'
    rw [hrewrites.unique (.recDef text hequation arity)]
    exact hkeep rfl text hx
      (hkeep rfl none rfl (standardize_two (.inr rfl) none hx he 0) 0) arity

/-- What is related to one neighbour is related to another one in its place. -/
theorem forall₂_replace {α β : Type} {R : α → β → Prop} {c c' : α} (h : ∀ b, R c b → R c' b)
    {before after : List α} {bs : List β} (hR : List.Forall₂ R (before ++ c :: after) bs) :
    List.Forall₂ R (before ++ c' :: after) bs := by
  induction before generalizing bs with
  | nil =>
    obtain ⟨b, _, hb, hrest, rfl⟩ := List.forall₂_cons_left_iff.mp hR
    exact .cons (h b hb) hrest
  | cons a before ih =>
    obtain ⟨b, _, hb, hrest, rfl⟩ := List.forall₂_cons_left_iff.mp hR
    exact .cons hb (ih hrest)

/-- **A step keeps the standard form.** -/
theorem Step.standardize_eq {t u : Tree} (h : Step t u) :
    ∀ s, t.standardize = .ok s → u.standardize = .ok s := by
  induction h with
  | root _ hrule => exact fun s hs => (Rewrites.of_applyRule hrule).standardize_eq hs
  | child kind text before _ after arity ih =>
    intro s hs
    obtain ⟨cs, hcs, hrewrites⟩ := standardize_eq_ok_iff.mp hs
    exact standardize_eq_ok_iff.mpr ⟨cs, forall₂_replace ih hcs, hrewrites⟩

/-! ## 2. Steps come to an end -/

/-- How many steps a node can take at most, by the steps that its children can take together. -/
def workOf (kind : Kind) (count below : Nat) : Nat :=
  if kind = .recDef then 1 + 2 * below
  else if kind ∈ Kind.sugar ∨ kind = .lambda ∧ 2 < count then 1 + below
  else below

mutual

/-- How many steps a tree can take at most. -/
def work : Tree → Nat
  | ⟨kind, _, children, _⟩ => workOf kind children.length (workAll children)

/-- How many steps neighbours can take at most. -/
def workAll : List Tree → Nat
  | [] => 0
  | t :: ts => t.work + workAll ts

end

theorem workAll_append (ts us : List Tree) : workAll (ts ++ us) = workAll ts + workAll us := by
  induction ts with
  | nil => simp [workAll]
  | cons t ts ih => simp only [List.cons_append, workAll, ih, Nat.add_assoc]

theorem workOf_lt {kind : Kind} {count m n : Nat} (h : m < n) :
    workOf kind count m < workOf kind count n := by
  unfold workOf
  split
  · omega
  · split <;> omega

/-- A node of a kind that rules build takes no step itself. -/
theorem work_built {kind : Kind} (hk : kind ∈ Kind.built) (text : Option String) {ts : List Tree}
    (hn : kind = .lambda → ts.length = 2) (arity : Nat) :
    work ⟨kind, text, ts, arity⟩ = workAll ts := by
  have hsugar : ∀ k ∈ Kind.built, k ∉ Kind.sugar ∧ k ≠ .recDef := by decide
  rw [work, workOf, if_neg (hsugar kind hk).2, if_neg]
  rintro (h | ⟨h, hlt⟩)
  · exact (hsugar kind hk).1 h
  · have := hn h
    omega

theorem work_lambdaChain (params : List Tree) (body : Tree) :
    (lambdaChain params body).work = workAll (params ++ [body]) := by
  induction params with
  | nil => simp [lambdaChain, workAll]
  | cons p ps ih =>
    have hchain : (lambdaChain (p :: ps) body).work = workAll [p, lambdaChain ps body] :=
      work_built (by decide) none (fun _ => rfl) 0
    rw [hchain, List.cons_append, workAll, workAll, ih, workAll, workAll, Nat.add_zero]

theorem IsEquation.work_eq {d x e : Tree} (h : IsEquation d x e) : d.work = x.work + e.work := by
  cases h
  rw [work_built (by decide) _ Kind.noConfusion, workAll, workAll, workAll, Nat.add_zero]

theorem workAll_equations {ds : List Tree} {pairs : List (Tree × Tree)}
    (h : List.Forall₂ (fun d p => IsEquation d p.1 p.2) ds pairs) :
    workAll ds = workAll (pairs.map Prod.fst) + workAll (pairs.map Prod.snd) := by
  induction h with
  | nil => rfl
  | cons hd _ ih =>
    simp only [List.map_cons, workAll, hd.work_eq, ih]
    omega

/-- The rule of a redex leaves less work. -/
theorem Rewrites.work_lt {t u : Tree} (h : Rewrites t u) (hredex : t.IsRedex) :
    u.work < t.work := by
  have hbuilt : ∀ {kind : Kind}, kind ∈ Kind.built → ∀ (text : Option String) (t u : Tree)
      (arity : Nat), work ⟨kind, text, [t, u], arity⟩ = t.work + u.work := by
    intro kind hk text t u arity
    rw [work_built hk text (fun _ => rfl), workAll, workAll, workAll, Nat.add_zero]
  have hsugar : ∀ {kind : Kind}, kind ∈ Kind.sugar → kind ≠ .recDef → ∀ (text : Option String)
      (ts : List Tree) (arity : Nat), work ⟨kind, text, ts, arity⟩ = 1 + workAll ts := by
    intro kind hk hne text ts arity
    rw [work, workOf, if_neg hne, if_pos (.inl hk)]
  -- A built node costs nothing of its own and a redex costs one, so every rule that keeps its
  -- children once is paid for; `rec` copies a child, which is why it is counted apart.
  cases h with
  | keep hk =>
    rcases hredex with hs | ⟨hl, -⟩
    · rw [hasRule_iff.mpr (.inl hs)] at hk
      cases hk
    · rw [hl] at hk
      cases hk
  | lambda text p params body arity =>
    have hcount : 2 < (p :: params ++ [body]).length := by
      rcases hredex with hs | ⟨-, hlt⟩
      · exact absurd (show Kind.lambda ∈ Kind.sugar from hs) (by decide)
      · exact hlt
    have hwork : work ⟨.lambda, text, p :: params ++ [body], arity⟩ =
        1 + workAll (p :: params ++ [body]) := by
      rw [work, workOf, if_neg Kind.noConfusion, if_pos (.inr ⟨rfl, hcount⟩)]
    rw [hbuilt (by decide), work_lambdaChain, hwork, List.cons_append, workAll]
    omega
  | functionForm text f hn body arity =>
    rw [hbuilt (by decide), work_lambdaChain, hsugar (by decide) (by decide), List.cons_append,
      workAll]
    omega
  | letIn text hd body arity =>
    rw [hbuilt (by decide), hbuilt (by decide), hsugar (by decide) (by decide)]
    simp only [workAll, hd.work_eq]
    omega
  | whereDef text body hd arity =>
    rw [hbuilt (by decide), hbuilt (by decide), hsugar (by decide) (by decide)]
    simp only [workAll, hd.work_eq]
    omega
  | atCall text left f right arity =>
    rw [hbuilt (by decide), branch, hbuilt (by decide), hsugar (by decide) (by decide)]
    simp only [workAll]
    omega
  | within text h₁ h₂ arity =>
    rw [hbuilt (by decide), branch, hbuilt (by decide), branch, hbuilt (by decide),
      hsugar (by decide) (by decide)]
    simp only [workAll, h₁.work_eq, h₂.work_eq]
    omega
  | simultDef text h arity =>
    rw [hbuilt (by decide), branch, work_built (by decide) none Kind.noConfusion, branch,
      work_built (by decide) none Kind.noConfusion, hsugar (by decide) (by decide),
      workAll_equations h]
    omega
  | recDef text hd arity =>
    have hstar : (branch .yStar []).work = 0 := rfl
    rw [hbuilt (by decide), branch, hbuilt (by decide), hstar, branch, hbuilt (by decide), work,
      workOf, if_pos rfl]
    simp only [workAll, hd.work_eq]
    omega

/-- **A step leaves less work.** -/
theorem Step.work_lt {t u : Tree} (h : Step t u) : u.work < t.work := by
  induction h with
  | root hredex hrule => exact (Rewrites.of_applyRule hrule).work_lt hredex
  | child kind text before _ after arity ih =>
    simp only [work, workAll_append, workAll, List.length_append, List.length_cons]
    exact workOf_lt (by omega)

/-- **A run of steps is no longer than the work there is.** -/
theorem length_le_work {t : Tree} {us : List Tree} (h : List.IsChain Step (t :: us)) :
    us.length ≤ t.work := by
  induction us generalizing t with
  | nil => exact Nat.zero_le _
  | cons u us ih =>
    obtain ⟨hstep, hrest⟩ := List.isChain_cons_cons.mp h
    have h₁ := hstep.work_lt
    have h₂ := ih hrest
    rw [List.length_cons]
    omega

/-! ## 3. Where steps end -/

/-- A normal tree takes no step. -/
theorem IsNormal.not_step {t : Tree} (h : t.IsNormal) (u : Tree) : ¬ Step t u := by
  intro hstep
  induction hstep with
  | root hredex =>
    rcases hredex with hs | ⟨hl, hlt⟩
    · exact h.root.1 hs
    · have := h.root.2 hl
      omega
  | child kind text before _ after arity ih =>
    exact ih (h.child (List.mem_append_right _ List.mem_cons_self))

/-- **A tree with a standard form that takes no step is normal.** -/
theorem isNormal_of_not_step {t s : Tree} (h : t.standardize = .ok s) (hstuck : ∀ u, ¬ Step t u) :
    t.IsNormal := by
  induction t using induction generalizing s with
  | node t ih =>
    obtain ⟨kind, text, children, arity⟩ := t
    obtain ⟨cs, hcs, hrewrites⟩ := standardize_eq_ok_iff.mp h
    have hnormal : ∀ c ∈ children, c.IsNormal := by
      intro c hc
      obtain ⟨c', -, hc'⟩ := exists_of_mem_forall₂ hcs hc
      obtain ⟨before, after, rfl⟩ := List.append_of_mem hc
      exact ih c hc hc' fun c' hstep => hstuck _ (.child kind text before hstep after arity)
    -- the children are in their final form, so the rule of the root applies as it does at last
    have hsame : standardizeAll children = .ok children :=
      standardizeAll_of_forall fun c hc => (hnormal c hc).standardize_eq
    obtain rfl : children = cs :=
      Except.ok.inj (hsame.symm.trans (standardizeAll_eq_ok_iff.mpr hcs))
    have hredex : ¬ IsRedex ⟨kind, text, children, arity⟩ :=
      fun hredex => hstuck s (.root hredex hrewrites.applyRule_eq)
    refine every_iff.mpr ⟨⟨fun hs => hredex (.inl hs), fun hl => ?_⟩, hnormal⟩
    obtain rfl : kind = .lambda := hl
    have hle : children.length ≤ 2 := Nat.le_of_not_lt fun hlt => hredex (.inr ⟨rfl, hlt⟩)
    cases hrewrites with
    | keep hk => cases hk
    | lambda text p params body arity =>
      simp only [List.cons_append, List.length_cons, List.length_append, List.length_nil] at hle ⊢
      omega

/-- Steps keep the standard form. -/
theorem standardize_of_reflTransGen {t u s : Tree} (h : ReflTransGen Step t u)
    (hs : t.standardize = .ok s) : u.standardize = .ok s := by
  induction h with
  | refl => exact hs
  | tail _ hstep ih => exact hstep.standardize_eq s ih

/-- **The standard form is reached**, by as many steps as it takes. -/
theorem reflTransGen_of_standardize {t s : Tree} (h : t.standardize = .ok s) :
    ReflTransGen Step t s := by
  generalize hwork : t.work = n
  induction n using Nat.strongRecOn generalizing t with
  | _ n ih =>
    subst hwork
    by_cases hstuck : ∀ u, ¬ Step t u
    · have hnormal := isNormal_of_not_step h hstuck
      rw [hnormal.standardize_eq, Except.ok.injEq] at h
      exact h ▸ .refl
    · obtain ⟨u, hstep⟩ := not_forall_not.mp hstuck
      exact .head hstep (ih u.work hstep.work_lt (hstep.standardize_eq s h) rfl)

/-! ## 4. The rules in any order -/

/-- **The order of the rules does not matter.**  From a tree with a standard form there are only
runs of bounded length; wherever a run has come, it can go on to the standard form, and it cannot go
on at all exactly if it has come there.  Rewriting a node before the rest is standardized does not
change the result. -/
theorem steps_of_standardize {t s : Tree} (h : t.standardize = .ok s) :
    (∃ bound, ∀ us, List.IsChain Step (t :: us) → us.length ≤ bound) ∧
    (∀ u, ReflTransGen Step t u → ReflTransGen Step u s ∧ ((∀ v, ¬ Step u v) ↔ u = s)) ∧
    ∀ u, Step t u → u.standardize = .ok s := by
  refine ⟨⟨t.work, fun us => length_le_work⟩, fun u hu => ?_, fun u hstep => hstep.standardize_eq s h⟩
  have hs := standardize_of_reflTransGen hu h
  refine ⟨reflTransGen_of_standardize hs, fun hstuck => ?_, ?_⟩
  · rw [(isNormal_of_not_step hs hstuck).standardize_eq, Except.ok.injEq] at hs
    exact hs
  · rintro rfl
    exact (isNormal_of_standardize h).not_step

/-- `rec x @ f y = e`, a pattern that no source text has: rewriting `rec` first copies the call, and
both copies are then rewritten. -/
theorem steps_of_standardize_copies :
    let x : Tree := .leaf .identifier "x"
    let f : Tree := .leaf .identifier "f"
    let y : Tree := .leaf .identifier "y"
    let e : Tree := .leaf .identifier "e"
    let copies (pattern : Tree) : Tree := .branch .equal [pattern, .branch .gamma
      [.branch .yStar [], .branch .lambda [pattern, e]]]
    let t : Tree := .branch .recDef [.branch .equal [.branch .atCall [x, f, y], e]]
    let u := copies (.branch .atCall [x, f, y])
    let s := copies (.branch .gamma [.branch .gamma [f, x], y])
    t.standardize = .ok s ∧ Step t u ∧ u.standardize = .ok s ∧ ReflTransGen Step u s ∧
      ∀ v, ¬ Step s v := by
  intro x f y e copies t u s
  have h : t.standardize = .ok s := rfl
  have hstep : Step t u := .root (.inl (show Kind.recDef ∈ Kind.sugar by decide)) rfl
  obtain ⟨-, hruns, hexpand⟩ := steps_of_standardize h
  obtain ⟨hreach, -⟩ := hruns u (.single hstep)
  exact ⟨h, hstep, hexpand u hstep, hreach, (hruns s (.trans (.single hstep) hreach)).2.mpr rfl⟩

end Rpal.Tree
