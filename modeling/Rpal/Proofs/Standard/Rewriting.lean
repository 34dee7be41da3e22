/-
# Rewriting as a relation

`Rewrites t s` says what the rule of one node does when it applies, one constructor for each rule,
and that a node of any other kind stays as it is.  The trees are arbitrary, with any texts and any
numbers of children:

* `applyRule_eq_ok_iff`: the rules succeed exactly where the relation holds, so a node without
  the shape its rule needs has no rewrite;
* `standardize_induction`: what the rewriting of a root preserves, given that it holds of the
  children already, holds of every tree with a standard form.

A rule keeps all the parts of a node but the equations it takes apart (`Rewrites.nodes_of_child`),
and builds nodes of six kinds only (`Rewrites.every`).
-/
import Mathlib.Data.List.Forall2
import Rpal.Proofs.Operator.Operands
import Rpal.Proofs.Tree.Nodes
import Rpal.Tree.Standard

namespace Rpal

/-- The kinds that have a rule and do not survive it. -/
def Kind.sugar : List Kind :=
  [.letIn, .whereDef, .functionForm, .atCall, .within, .simultDef, .recDef]

/-- The kinds of the nodes that rules build. -/
def Kind.built : List Kind := [.lambda, .gamma, .equal, .comma, .tau, .yStar]

namespace Tree

/-- `x = e`, with whatever text and arity. -/
inductive IsEquation : Tree → Tree → Tree → Prop where
  | mk (text : Option String) (x e : Tree) (arity : Nat) :
      IsEquation ⟨.equal, text, [x, e], arity⟩ x e

/-- One node is rewritten, its children being in their final form. -/
inductive Rewrites : Tree → Tree → Prop where
  | keep {t : Tree} (h : hasRule t.kind = false) : Rewrites t t
  | lambda (text : Option String) (p : Tree) (params : List Tree) (body : Tree) (arity : Nat) :
      Rewrites ⟨.lambda, text, p :: params ++ [body], arity⟩
        ⟨.lambda, text, [p, lambdaChain params body], arity⟩
  | functionForm (text : Option String) (f : Tree) {params : List Tree} (hn : params ≠ [])
      (body : Tree) (arity : Nat) :
      Rewrites ⟨.functionForm, text, f :: params ++ [body], arity⟩
        ⟨.equal, text, [f, lambdaChain params body], arity⟩
  | letIn (text : Option String) {d x e : Tree} (hd : IsEquation d x e) (body : Tree)
      (arity : Nat) :
      Rewrites ⟨.letIn, text, [d, body], arity⟩
        ⟨.gamma, text, [{ d with kind := .lambda, children := [x, body] }, e], arity⟩
  | whereDef (text : Option String) (body : Tree) {d x e : Tree} (hd : IsEquation d x e)
      (arity : Nat) :
      Rewrites ⟨.whereDef, text, [body, d], arity⟩
        ⟨.gamma, text, [{ d with kind := .lambda, children := [x, body] }, e], arity⟩
  | atCall (text : Option String) (left f right : Tree) (arity : Nat) :
      Rewrites ⟨.atCall, text, [left, f, right], arity⟩
        ⟨.gamma, text, [.branch .gamma [f, left], right], arity⟩
  | within (text : Option String) {d₁ x₁ e₁ d₂ x₂ e₂ : Tree} (h₁ : IsEquation d₁ x₁ e₁)
      (h₂ : IsEquation d₂ x₂ e₂) (arity : Nat) :
      Rewrites ⟨.within, text, [d₁, d₂], arity⟩
        ⟨.equal, text, [x₂, .branch .gamma [.branch .lambda [x₁, e₂], e₁]], arity⟩
  | simultDef (text : Option String) {ds : List Tree} {pairs : List (Tree × Tree)}
      (h : List.Forall₂ (fun d p => IsEquation d p.1 p.2) ds pairs) (arity : Nat) :
      Rewrites ⟨.simultDef, text, ds, arity⟩
        ⟨.equal, text, [.branch .comma (pairs.map Prod.fst), .branch .tau (pairs.map Prod.snd)],
          arity⟩
  | recDef (text : Option String) {d x e : Tree} (hd : IsEquation d x e) (arity : Nat) :
      Rewrites ⟨.recDef, text, [d], arity⟩
        ⟨.equal, text, [x, .branch .gamma [.branch .yStar [], .branch .lambda [x, e]]], arity⟩

/-! ## 1. The rules -/

/-- What holds of related neighbours alike holds of all of them alike. -/
theorem forall_iff_of_forall₂ {α β : Type} {R : α → β → Prop} {p : α → Prop} {q : β → Prop}
    (hR : ∀ a b, R a b → (p a ↔ q b)) {as : List α} {bs : List β} (h : List.Forall₂ R as bs) :
    (∀ a ∈ as, p a) ↔ ∀ b ∈ bs, q b := by
  induction h with
  | nil => simp only [List.not_mem_nil, false_imp_iff, implies_true]
  | cons hab _ ih => rw [List.forall_mem_cons, List.forall_mem_cons, hR _ _ hab, ih]

/-- A kind with a rule is sugar, or a function. -/
theorem hasRule_iff {kind : Kind} : hasRule kind = true ↔ kind ∈ Kind.sugar ∨ kind = .lambda := by
  cases kind <;> simp [hasRule, Kind.sugar]

theorem exists_of_mem_forall₂ {α β : Type} {R : α → β → Prop} {as : List α} {bs : List β}
    (h : List.Forall₂ R as bs) {a : α} (ha : a ∈ as) : ∃ b ∈ bs, R a b := by
  induction h with
  | nil => cases ha
  | @cons a' b _ bs hab _ ih =>
    rcases List.mem_cons.mp ha with rfl | ha
    · exact ⟨b, List.mem_cons_self, hab⟩
    · obtain ⟨b', hb', hR⟩ := ih ha
      exact ⟨b', List.mem_cons_of_mem _ hb', hR⟩

/-- The sides of an equation node. -/
theorem isEquation_iff {t x e : Tree} :
    IsEquation t x e ↔ t.kind = .equal ∧ t.sides = .ok (x, e) := by
  constructor
  · rintro ⟨⟩
    exact ⟨rfl, rfl⟩
  · obtain ⟨kind, text, children, arity⟩ := t
    rintro ⟨rfl, hsides⟩
    unfold sides at hsides
    split at hsides
    · rename_i left right hchildren
      obtain rfl : children = [left, right] := hchildren
      cases hsides
      exact .mk _ _ _ _
    · cases hsides

/-- The members of a group are taken apart if all of them are equations. -/
theorem equations_eq_ok_iff {ds : List Tree} {pairs : List (Tree × Tree)} :
    equations ds = .ok pairs ↔ List.Forall₂ (fun d p => IsEquation d p.1 p.2) ds pairs := by
  induction ds generalizing pairs with
  | nil => simp [equations, eq_comm]
  | cons d ds ih =>
    rw [List.forall₂_cons_left_iff]
    unfold equations
    split
    · rename_i hkind
      simp only [bind_eq_ok_iff, ih, isEquation_iff, hkind, true_and, Except.ok.injEq]
      constructor
      · rintro ⟨pair, hpair, rest, hrest, rfl⟩
        exact ⟨pair, rest, hpair, hrest, rfl⟩
      · rintro ⟨pair, rest, hpair, hrest, rfl⟩
        exact ⟨pair, hpair, rest, hrest, rfl⟩
    · rename_i hkind
      constructor
      · intro h
        cases h
      · rintro ⟨pair, rest, hpair, -⟩
        exact absurd (isEquation_iff.mp hpair).1 hkind

/-- `let` and `where` share their rule, which differs in the order of the children only. -/
theorem applyLetRule_eq_ok_iff {t d body s : Tree} :
    applyLetRule t d body = .ok s ↔ ∃ x e, IsEquation d x e ∧
      s = { t with kind := .gamma,
                   children := [{ d with kind := .lambda, children := [x, body] }, e] } := by
  unfold applyLetRule
  split
  · rename_i hkind
    simp only [bind_eq_ok_iff, isEquation_iff, hkind, true_and, Prod.exists, Except.ok.injEq,
      @eq_comm Tree _ s]
  · rename_i hkind
    constructor
    · intro h
      cases h
    · rintro ⟨x, e, hd, -⟩
      exact absurd (isEquation_iff.mp hd).1 hkind

/-- What the rules compute is a rewriting. -/
theorem Rewrites.of_applyRule {t s : Tree} (h : t.applyRule = .ok s) : Rewrites t s := by
  obtain ⟨kind, text, children, arity⟩ := t
  -- one case for each rule; the children then have to be those that it looks for
  by_cases hrule : hasRule kind = false
  · rw [applyRule_of_not_hasRule hrule] at h
    cases h
    exact .keep hrule
  rw [Bool.not_eq_false, hasRule_iff] at hrule
  simp only [Kind.sugar, List.mem_cons, List.not_mem_nil, or_false] at hrule
  rcases hrule with (rfl | rfl | rfl | rfl | rfl | rfl | rfl) | rfl
  all_goals simp only [applyRule] at h
  · -- `let`
    split at h
    · obtain ⟨x, e, hd, rfl⟩ := applyLetRule_eq_ok_iff.mp h
      exact .letIn _ hd _ _
    · cases h
  · -- `where`
    split at h
    · obtain ⟨x, e, hd, rfl⟩ := applyLetRule_eq_ok_iff.mp h
      exact .whereDef _ _ hd _
    · cases h
  · -- a definition of a function: its last child is the body
    split at h
    · rename_i f param more rest
      cases h
      have hrewrites := functionForm text f (List.cons_ne_nil param (more :: rest).dropLast)
        ((more :: rest).getLast (List.cons_ne_nil _ _)) arity
      rwa [List.cons_append, List.cons_append, List.dropLast_append_getLast] at hrewrites
    · cases h
  · -- a function between its arguments
    split at h
    · cases h
      exact .atCall _ _ _ _ _
    · cases h
  · -- `within`
    split at h
    · split at h
      · rename_i hkinds
        simp only [bind_eq_ok_iff, Prod.exists, Except.ok.injEq] at h
        obtain ⟨x₁, e₁, h₁, x₂, e₂, h₂, rfl⟩ := h
        exact .within _ (isEquation_iff.mpr ⟨hkinds.1, h₁⟩) (isEquation_iff.mpr ⟨hkinds.2, h₂⟩) _
      · cases h
    · cases h
  · -- `and`
    simp only [bind_eq_ok_iff, Except.ok.injEq, equations_eq_ok_iff] at h
    obtain ⟨pairs, hpairs, rfl⟩ := h
    exact .simultDef _ hpairs _
  · -- `rec`
    split at h
    · split at h
      · rename_i hkind
        simp only [bind_eq_ok_iff, Prod.exists, Except.ok.injEq] at h
        obtain ⟨x, e, hd, rfl⟩ := h
        exact .recDef _ (isEquation_iff.mpr ⟨hkind, hd⟩) _
      · cases h
    · cases h
  · -- a function, of one parameter or of several
    split at h
    · cases h
      exact .lambda _ _ [] _ _
    · rename_i param next more rest
      cases h
      have hrewrites := lambda text param (next :: (more :: rest).dropLast)
        ((more :: rest).getLast (List.cons_ne_nil _ _)) arity
      rwa [List.cons_append, List.cons_append, List.dropLast_append_getLast] at hrewrites
    · cases h

/-- A rewriting is what the rules compute. -/
theorem Rewrites.applyRule_eq {t s : Tree} (h : Rewrites t s) : t.applyRule = .ok s := by
  cases h with
  | keep h => exact applyRule_of_not_hasRule h
  | lambda text p params body arity =>
    match params with
    | [] => rfl
    | q :: rest =>
      -- the rule looks at three children at once, so the last two lists have to be named
      obtain ⟨more, tail, hlist⟩ := List.exists_cons_of_ne_nil (List.concat_ne_nil body rest)
      have hrule : applyRule ⟨.lambda, text, p :: q :: more :: tail, arity⟩ =
          .ok ⟨.lambda, text, [p, lambdaChain (q :: (more :: tail).dropLast)
            ((more :: tail).getLast (List.cons_ne_nil _ _))], arity⟩ := rfl
      simp only [← hlist, List.dropLast_concat, List.getLast_concat] at hrule
      exact hrule
  | @functionForm text f params hn body arity =>
    obtain ⟨p, rest, rfl⟩ := List.exists_cons_of_ne_nil hn
    obtain ⟨more, tail, hlist⟩ := List.exists_cons_of_ne_nil (List.concat_ne_nil body rest)
    have hrule : applyRule ⟨.functionForm, text, f :: p :: more :: tail, arity⟩ =
        .ok ⟨.equal, text, [f, lambdaChain (p :: (more :: tail).dropLast)
          ((more :: tail).getLast (List.cons_ne_nil _ _))], arity⟩ := rfl
    simp only [← hlist, List.dropLast_concat, List.getLast_concat] at hrule
    exact hrule
  | letIn text hd body arity => exact applyLetRule_eq_ok_iff.mpr ⟨_, _, hd, rfl⟩
  | whereDef text body hd arity => exact applyLetRule_eq_ok_iff.mpr ⟨_, _, hd, rfl⟩
  | atCall => rfl
  | within text h₁ h₂ arity =>
    cases h₁
    cases h₂
    rfl
  | simultDef text h arity =>
    show (equations _ >>= _) = _
    rw [equations_eq_ok_iff.mpr h]
    rfl
  | recDef text hd arity =>
    cases hd
    rfl

/-- **The rules are the relation**: applying the rule of a node succeeds exactly when it has a
rewrite, and gives it. -/
theorem applyRule_eq_ok_iff {t s : Tree} : t.applyRule = .ok s ↔ Rewrites t s :=
  ⟨Rewrites.of_applyRule, Rewrites.applyRule_eq⟩

/-! ## 2. All nodes of a tree -/

theorem standardize_eq (kind : Kind) (text : Option String) (children : List Tree)
    (arity : Nat) :
    standardize ⟨kind, text, children, arity⟩ =
      standardizeAll children >>= fun cs => applyRule ⟨kind, text, cs, arity⟩ := rfl

/-- Neighbours are standardized one by one. -/
theorem standardizeAll_eq_ok_iff {ts ss : List Tree} :
    standardizeAll ts = .ok ss ↔ List.Forall₂ (fun t s => t.standardize = .ok s) ts ss := by
  induction ts generalizing ss with
  | nil => simp [standardizeAll, eq_comm]
  | cons t ts ih =>
    simp only [standardizeAll, bind_eq_ok_iff, ih, List.forall₂_cons_left_iff, Except.ok.injEq]
    constructor
    · rintro ⟨s, hs, rest, hrest, rfl⟩
      exact ⟨s, rest, hs, hrest, rfl⟩
    · rintro ⟨s, rest, hs, hrest, rfl⟩
      exact ⟨s, hs, rest, hrest, rfl⟩

theorem standardizeAll_of_forall {ts : List Tree} (h : ∀ t ∈ ts, t.standardize = .ok t) :
    standardizeAll ts = .ok ts :=
  standardizeAll_eq_ok_iff.mpr (List.forall₂_same.mpr h)

/-- A node is standardized from below: the children first, and then what has become of it. -/
theorem standardize_eq_ok_iff {kind : Kind} {text : Option String} {children : List Tree}
    {arity : Nat} {s : Tree} :
    standardize ⟨kind, text, children, arity⟩ = .ok s ↔
      ∃ cs, List.Forall₂ (fun t s => t.standardize = .ok s) children cs ∧
        Rewrites ⟨kind, text, cs, arity⟩ s := by
  rw [standardize_eq]
  simp only [bind_eq_ok_iff, standardizeAll_eq_ok_iff, applyRule_eq_ok_iff]

/-- **Induction over standardizing.**  To relate all trees to their standard forms, take a node
whose children are related to theirs, and the rewriting of that node. -/
theorem standardize_induction {R : Tree → Tree → Prop}
    (step : ∀ kind text children cs arity s, List.Forall₂ R children cs →
      Rewrites ⟨kind, text, cs, arity⟩ s → R ⟨kind, text, children, arity⟩ s) (t : Tree) :
    ∀ s, t.standardize = .ok s → R t s := by
  induction t using induction with
  | node t ih =>
    obtain ⟨kind, text, children, arity⟩ := t
    intro s h
    obtain ⟨cs, hcs, hrewrites⟩ := standardize_eq_ok_iff.mp h
    refine step kind text children cs arity s ?_ hrewrites
    -- each child is related to its standard form, which is the one at its place in `cs`
    have hboth := (List.forall₂_and_left
      (p := fun c : Tree => ∀ s, c.standardize = .ok s → R c s) children cs).mpr ⟨ih, hcs⟩
    exact hboth.imp fun c s h => h.1 s h.2

/-! ## 3. What a rewriting builds -/

section Built

variable {P : Tree → Prop}
  (hbuilt : ∀ n : Tree, n.kind ∈ Kind.built → (n.kind = .lambda → n.children.length = 2) → P n)
include hbuilt

/-- A node that is built from trees of which the property holds. -/
theorem every_built {kind : Kind} (text : Option String) {ts : List Tree} (arity : Nat)
    (hk : kind ∈ Kind.built) (hn : kind = .lambda → ts.length = 2) (h : ∀ t ∈ ts, t.Every P) :
    Every P ⟨kind, text, ts, arity⟩ :=
  every_iff.mpr ⟨hbuilt _ hk hn, h⟩

/-- A node of a kind with two children. -/
theorem every_pair {kind : Kind} (hk : kind ∈ Kind.built) (text : Option String) {t u : Tree}
    (arity : Nat) (ht : t.Every P) (hu : u.Every P) : Every P ⟨kind, text, [t, u], arity⟩ :=
  every_built hbuilt text arity hk (fun _ => rfl)
    (List.forall_mem_cons.mpr ⟨ht, List.forall_mem_singleton.mpr hu⟩)

/-- Functions of one parameter each, inside one another. -/
theorem every_lambdaChain {params : List Tree} {body : Tree} (hp : ∀ p ∈ params, p.Every P)
    (hb : body.Every P) : (lambdaChain params body).Every P := by
  induction params with
  | nil => exact hb
  | cons p ps ih =>
    rw [List.forall_mem_cons] at hp
    exact every_pair hbuilt (by decide) none 0 hp.1 (ih hp.2)

omit hbuilt in
/-- The sides of an equation are among its nodes. -/
theorem IsEquation.every {d x e : Tree} (h : IsEquation d x e) (hd : d.Every P) :
    x.Every P ∧ e.Every P := by
  cases h
  exact ⟨hd.child List.mem_cons_self, hd.child (List.mem_cons_of_mem _ List.mem_cons_self)⟩

/-- **What holds of all nodes still does**: of the parts of a node, and of the nodes that a rule
builds, by `hbuilt`. -/
theorem Rewrites.every {t s : Tree} (h : Rewrites t s) (hkeep : hasRule t.kind = false → P t)
    (hc : ∀ c ∈ t.children, c.Every P) : s.Every P := by
  -- the rules build pairs, and pairs of pairs
  have hpair : ∀ {kind : Kind}, kind ∈ Kind.built → ∀ (text : Option String) {t u : Tree}
      (arity : Nat), t.Every P → u.Every P → Every P ⟨kind, text, [t, u], arity⟩ :=
    every_pair hbuilt
  cases h with
  | keep h => exact every_iff.mpr ⟨hkeep h, hc⟩
  | lambda text p params body arity =>
    rw [List.cons_append, List.forall_mem_cons, List.forall_mem_append,
      List.forall_mem_singleton] at hc
    obtain ⟨hp, hparams, hbody⟩ := hc
    exact hpair (by decide) _ _ hp (every_lambdaChain hbuilt hparams hbody)
  | functionForm text f hn body arity =>
    rw [List.cons_append, List.forall_mem_cons, List.forall_mem_append,
      List.forall_mem_singleton] at hc
    obtain ⟨hf, hparams, hbody⟩ := hc
    exact hpair (by decide) _ _ hf (every_lambdaChain hbuilt hparams hbody)
  | letIn text hd body arity =>
    rw [List.forall_mem_cons, List.forall_mem_singleton] at hc
    obtain ⟨hx, he⟩ := hd.every hc.1
    exact hpair (by decide) _ _ (hpair (by decide) _ _ hx hc.2) he
  | whereDef text body hd arity =>
    rw [List.forall_mem_cons, List.forall_mem_singleton] at hc
    obtain ⟨hx, he⟩ := hd.every hc.2
    exact hpair (by decide) _ _ (hpair (by decide) _ _ hx hc.1) he
  | atCall text left f right arity =>
    rw [List.forall_mem_cons, List.forall_mem_cons, List.forall_mem_singleton] at hc
    obtain ⟨hleft, hf, hright⟩ := hc
    exact hpair (by decide) _ _ (hpair (by decide) _ _ hf hleft) hright
  | within text h₁ h₂ arity =>
    rw [List.forall_mem_cons, List.forall_mem_singleton] at hc
    obtain ⟨hx₁, he₁⟩ := h₁.every hc.1
    obtain ⟨hx₂, he₂⟩ := h₂.every hc.2
    exact hpair (by decide) _ _ hx₂
      (hpair (by decide) _ _ (hpair (by decide) _ _ hx₁ he₂) he₁)
  | @simultDef text ds pairs h arity =>
    have hsides : ∀ p ∈ pairs, p.1.Every P ∧ p.2.Every P := by
      intro p hp
      obtain ⟨d, hd, hequation⟩ := exists_of_mem_forall₂ (List.Forall₂.flip h) hp
      exact hequation.every (hc d hd)
    refine hpair (by decide) _ _ (every_built hbuilt none 0 (by decide) Kind.noConfusion ?_)
      (every_built hbuilt none 0 (by decide) Kind.noConfusion ?_)
    · exact List.forall_mem_map.mpr fun p hp => (hsides p hp).1
    · exact List.forall_mem_map.mpr fun p hp => (hsides p hp).2
  | recDef text hd arity =>
    obtain ⟨hx, he⟩ := hd.every (List.forall_mem_singleton.mp hc)
    have hstar : Every P (.branch .yStar []) :=
      every_built hbuilt none 0 (by decide) Kind.noConfusion (List.forall_mem_nil _)
    exact hpair (by decide) _ _ hx
      (hpair (by decide) _ _ hstar (hpair (by decide) _ _ hx he))

/-- **Standardizing keeps what holds of all nodes**, if it is a matter of their kinds and texts and
holds of the nodes that rules build. -/
theorem every_of_standardize
    (hkeep : ∀ kind text ts us arity, P ⟨kind, text, ts, arity⟩ → P ⟨kind, text, us, arity⟩)
    {t s : Tree} (h : t.standardize = .ok s) : t.Every P → s.Every P := by
  refine standardize_induction (R := fun t s => t.Every P → s.Every P) ?_ t s h
  intro kind text children cs arity s hcs hrewrites ht
  refine hrewrites.every hbuilt (fun _ => hkeep _ _ _ _ _ ht.root) fun c hc => ?_
  obtain ⟨t, hmem, himp⟩ := exists_of_mem_forall₂ (List.Forall₂.flip hcs) hc
  exact himp (ht.child hmem)

end Built

/-! ## 4. What a rewriting keeps -/

/-- An equation that is taken apart loses its root only. -/
theorem IsEquation.mem_nodes {d x e n : Tree} (h : IsEquation d x e) (hn : n ∈ d.nodes) :
    n.kind = .equal ∨ n ∈ x.nodes ∨ n ∈ e.nodes := by
  cases h
  simp only [nodes, nodesAll, List.append_nil, List.mem_cons, List.mem_append] at hn
  rcases hn with rfl | hn
  · exact .inl rfl
  · exact .inr hn

/-- The parameters and the body of a function are all found in the chain. -/
theorem mem_nodes_lambdaChain {params : List Tree} {body c n : Tree} (hc : c ∈ params ++ [body])
    (hn : n ∈ c.nodes) : n ∈ (lambdaChain params body).nodes := by
  induction params with
  | nil =>
    obtain rfl := List.mem_singleton.mp hc
    exact hn
  | cons p ps ih =>
    rw [List.cons_append, List.mem_cons] at hc
    rcases hc with rfl | hc
    · exact mem_nodes_of_child List.mem_cons_self hn
    · exact mem_nodes_of_child (List.mem_cons_of_mem _ List.mem_cons_self) (ih hc)

/-- **A rewriting drops equations only**: every node below the root is still there, unless it is
the equation of a definition. -/
theorem Rewrites.mem_nodes {t s c n : Tree} (h : Rewrites t s) (hc : c ∈ t.children)
    (hn : n ∈ c.nodes) : n.kind = .equal ∨ n ∈ s.nodes := by
  cases h with
  | keep h => exact .inr (mem_nodes_of_child hc hn)
  | lambda text p params body arity =>
    rw [List.cons_append, List.mem_cons] at hc
    rcases hc with rfl | hc
    · exact .inr (mem_nodes_of_child List.mem_cons_self hn)
    · exact .inr (mem_nodes_of_child (List.mem_cons_of_mem _ List.mem_cons_self)
        (mem_nodes_lambdaChain hc hn))
  | functionForm text f hne body arity =>
    rw [List.cons_append, List.mem_cons] at hc
    rcases hc with rfl | hc
    · exact .inr (mem_nodes_of_child List.mem_cons_self hn)
    · exact .inr (mem_nodes_of_child (List.mem_cons_of_mem _ List.mem_cons_self)
        (mem_nodes_lambdaChain hc hn))
  | letIn text hd body arity =>
    have := hd.mem_nodes (n := n)
    simp only [List.mem_cons, List.not_mem_nil, or_false] at hc
    simp only [nodes, nodesAll, List.append_nil, List.mem_cons, List.mem_append]
    rcases hc with rfl | rfl <;> tauto
  | whereDef text body hd arity =>
    have := hd.mem_nodes (n := n)
    simp only [List.mem_cons, List.not_mem_nil, or_false] at hc
    simp only [nodes, nodesAll, List.append_nil, List.mem_cons, List.mem_append]
    rcases hc with rfl | rfl <;> tauto
  | atCall text left f right arity =>
    simp only [List.mem_cons, List.not_mem_nil, or_false] at hc
    simp only [branch, nodes, nodesAll, List.append_nil, List.mem_cons, List.mem_append]
    rcases hc with rfl | rfl | rfl <;> tauto
  | within text h₁ h₂ arity =>
    have := h₁.mem_nodes (n := n)
    have := h₂.mem_nodes (n := n)
    simp only [List.mem_cons, List.not_mem_nil, or_false] at hc
    simp only [branch, nodes, nodesAll, List.append_nil, List.mem_cons, List.mem_append]
    rcases hc with rfl | rfl <;> tauto
  | simultDef text h arity =>
    obtain ⟨p, hp, hequation⟩ := exists_of_mem_forall₂ h hc
    rcases hequation.mem_nodes hn with hkind | hx | he
    · exact .inl hkind
    · exact .inr (mem_nodes_of_child List.mem_cons_self
        (mem_nodes_of_child (List.mem_map_of_mem hp) hx))
    · exact .inr (mem_nodes_of_child (List.mem_cons_of_mem _ List.mem_cons_self)
        (mem_nodes_of_child (List.mem_map_of_mem hp) he))
  | recDef text hd arity =>
    have := hd.mem_nodes (n := n)
    obtain rfl := List.mem_singleton.mp hc
    simp only [branch, nodes, nodesAll, List.append_nil, List.mem_cons, List.mem_append]
    tauto

end Tree

end Rpal
