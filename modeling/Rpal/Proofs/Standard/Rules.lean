/-
# Standardizing shape by shape

Standardizing a shaped tree never fails.  An expression becomes an expression and a definition
becomes an equation `x = e`:

    let D in B, B where D     =>   gamma (lambda x B) e
    D1 within D2              =>   x2 = gamma (lambda x1 e2) e1
    D1 and .. and Dn          =>   (x1, .., xn) = tau e1 .. en
    rec D                     =>   x = gamma Y* (lambda x e)

What is to be known about all standard forms is stated shape by shape, as `StandardizingRules`; it
then holds of every shaped tree (`Shaped.standardizes`).
-/
import Mathlib.Data.List.Forall2
import Rpal.Proofs.Evaluation.Standardizing
import Rpal.Proofs.Tree.WellFormed

namespace Rpal.Tree

variable {L : Kind → String → Prop}

/-- The conditions on a relation `P` between expressions and their standard forms, and a relation
`Q` between definitions and the two sides of their equations. -/
structure StandardizingRules (L : Kind → String → Prop) (P : Tree → Tree → Prop)
    (Q : Tree → Tree → Tree → Prop) : Prop where
  leaf : ∀ {kind : Kind} (text : String), kind.HasText → P (.leaf kind text) (.leaf kind text)
  constant : ∀ {kind : Kind}, kind ∈ Kind.constants → P (.branch kind []) (.branch kind [])
  unary : ∀ {kind : Kind} {t s : Tree}, kind = .neg ∨ kind = .not → P t s →
    P (.branch kind [t]) (.branch kind [s])
  operator : ∀ {kind : Kind} {t u s v : Tree}, kind ∈ Kind.operators → P t s → P u v →
    P (.branch kind [t, u]) (.branch kind [s, v])
  tau : ∀ {ts ss : List Tree}, 2 ≤ ts.length → List.Forall₂ P ts ss →
    P (.branch .tau ts) (.branch .tau ss)
  choice : ∀ {t u v t' u' v' : Tree}, P t t' → P u u' → P v v' →
    P (.branch .conditional [t, u, v]) (.branch .conditional [t', u', v'])
  function : ∀ {params : List Tree} {body b : Tree}, params ≠ [] →
    (∀ p ∈ params, ShapedParameter L p) → P body b →
    P (.branch .lambda (params ++ [body])) (lambdaChain params b)
  letIn : ∀ {d body x e b : Tree}, Q d x e → P body b →
    P (.branch .letIn [d, body]) (binding x b e)
  whereDef : ∀ {d body x e b : Tree}, Q d x e → P body b →
    P (.branch .whereDef [body, d]) (binding x b e)
  infixCall : ∀ {t u s v : Tree} (f : String), P t s → P u v →
    P (.branch .atCall [t, .leaf .identifier f, u])
      (.branch .gamma [.branch .gamma [.leaf .identifier f, s], v])
  equal : ∀ {p value e : Tree}, ShapedNames L p → P value e → Q (.branch .equal [p, value]) p e
  functionForm : ∀ {params : List Tree} {body b : Tree} (f : String), params ≠ [] →
    (∀ p ∈ params, ShapedParameter L p) → P body b →
    Q (.branch .functionForm (.leaf .identifier f :: params ++ [body])) (.leaf .identifier f)
      (lambdaChain params b)
  within : ∀ {d₁ d₂ x₁ e₁ x₂ e₂ : Tree}, Q d₁ x₁ e₁ → Q d₂ x₂ e₂ →
    Q (.branch .within [d₁, d₂]) x₂ (binding x₁ e₂ e₁)
  simultaneous : ∀ {ds : List Tree} {pairs : List (Tree × Tree)}, 2 ≤ ds.length →
    List.Forall₂ (fun d p => Q d p.1 p.2) ds pairs →
    Q (.branch .simultDef ds) (.branch .comma (pairs.map Prod.fst))
      (.branch .tau (pairs.map Prod.snd))
  recursive : ∀ {d x e : Tree}, Q d x e →
    Q (.branch .recDef [d]) x (.branch .gamma [.branch .yStar [], .branch .lambda [x, e]])

/-- The standard form is related to the tree. -/
def StandardForm (P : Tree → Tree → Prop) (Q : Tree → Tree → Tree → Prop) : Category → Tree → Prop
  | .expression, t => ∃ s, t.standardize = .ok s ∧ P t s
  | .definition, d => ∃ x e, d.standardize = .ok (.branch .equal [x, e]) ∧ Q d x e

variable {P : Tree → Tree → Prop} {Q : Tree → Tree → Tree → Prop}

/-! ## 1. Neighbours -/

/-- Expressions side by side. -/
theorem standardizeAll_forall₂ {ts : List Tree} (h : ∀ t ∈ ts, StandardForm P Q .expression t) :
    ∃ ss, standardizeAll ts = .ok ss ∧ List.Forall₂ P ts ss := by
  induction ts with
  | nil => exact ⟨[], rfl, .nil⟩
  | cons t ts ih =>
    rw [List.forall_mem_cons] at h
    obtain ⟨s, hs, hP⟩ := h.1
    obtain ⟨ss, hss, hPs⟩ := ih h.2
    exact ⟨s :: ss, by rw [standardizeAll, hs, hss]; rfl, .cons hP hPs⟩

/-- Definitions side by side become equations side by side. -/
theorem standardizeAll_equations {ds : List Tree} (h : ∀ d ∈ ds, StandardForm P Q .definition d) :
    ∃ pairs : List (Tree × Tree),
      standardizeAll ds = .ok (pairs.map fun p => .branch .equal [p.1, p.2]) ∧
      List.Forall₂ (fun d p => Q d p.1 p.2) ds pairs := by
  induction ds with
  | nil => exact ⟨[], rfl, .nil⟩
  | cons d ds ih =>
    rw [List.forall_mem_cons] at h
    obtain ⟨x, e, hd, hQ⟩ := h.1
    obtain ⟨pairs, hds, hQs⟩ := ih h.2
    exact ⟨(x, e) :: pairs, by rw [standardizeAll, hd, hds]; rfl, .cons hQ hQs⟩

/-- Shaped parameters are those of raw trees. -/
theorem ShapedNames.isRaw {p : Tree} (h : ShapedNames L p) : IsRawParameter p := by
  cases h with
  | @name x => exact .name x
  | @names xs => exact .names xs

/-- The same of all parameters, `()` among them. -/
theorem ShapedParameter.isRaw {p : Tree} (h : ShapedParameter L p) : IsRawParameter p := by
  cases h with
  | names h => exact h.isRaw
  | nothing => exact .nothing

/-! ## 2. Single nodes -/

/-- The rule of a node works on the standard forms of the children. -/
theorem standardize_of_rule {kind : Kind} {ts ss : List Tree} {s : Tree}
    (hss : standardizeAll ts = .ok ss) (hrule : applyRule (.branch kind ss) = .ok s) :
    (branch kind ts).standardize = .ok s := by
  rw [branch, standardize_eq, hss]
  exact hrule

/-- A node without a rule keeps its kind. -/
theorem standardize_branch {kind : Kind} (h : hasRule kind = false) {ts ss : List Tree}
    (hss : standardizeAll ts = .ok ss) : (branch kind ts).standardize = .ok (.branch kind ss) :=
  standardize_of_rule hss (applyRule_of_not_hasRule h)

/-- Operators have no rule. -/
theorem hasRule_of_mem_operators {kind : Kind} (h : kind ∈ Kind.operators) :
    hasRule kind = false := by
  have hall : ∀ k ∈ Kind.operators, hasRule k = false := by decide
  exact hall kind h

/-- Constants have no rule. -/
theorem hasRule_of_mem_constants {kind : Kind} (h : kind ∈ Kind.constants) :
    hasRule kind = false := by
  have hall : ∀ k ∈ Kind.constants, hasRule k = false := by decide
  exact hall kind h

theorem standardizeAll_single {t s : Tree} (h : t.standardize = .ok s) :
    standardizeAll [t] = .ok [s] := by
  rw [standardizeAll, h]
  rfl

theorem standardizeAll_pair {t u s v : Tree} (ht : t.standardize = .ok s)
    (hu : u.standardize = .ok v) : standardizeAll [t, u] = .ok [s, v] := by
  rw [standardizeAll, ht, standardizeAll_single hu]
  rfl

theorem standardizeAll_triple {t u v s₁ s₂ s₃ : Tree} (ht : t.standardize = .ok s₁)
    (hu : u.standardize = .ok s₂) (hv : v.standardize = .ok s₃) :
    standardizeAll [t, u, v] = .ok [s₁, s₂, s₃] := by
  rw [standardizeAll, ht, standardizeAll_pair hu hv]
  rfl

/-- Parameters and a body. -/
theorem standardizeAll_params {params : List Tree} (hp : ∀ p ∈ params, ShapedParameter L p)
    {body b : Tree} (hb : body.standardize = .ok b) :
    standardizeAll (params ++ [body]) = .ok (params ++ [b]) := by
  rw [standardizeAll_append, standardizeAll_of_forall fun p hm => (hp p hm).isRaw.standardize_eq,
    standardizeAll_single hb]
  rfl

/-- A group of equations becomes one equation between tuples. -/
theorem applyRule_simultDef (pairs : List (Tree × Tree)) :
    applyRule (.branch .simultDef (pairs.map fun p => .branch .equal [p.1, p.2])) =
      .ok (.branch .equal [.branch .comma (pairs.map Prod.fst),
        .branch .tau (pairs.map Prod.snd)]) := by
  show (equations (pairs.map fun p => .branch .equal [p.1, p.2]) >>= fun pairs =>
    Except.ok (branch .equal [.branch .comma (pairs.map Prod.fst),
      .branch .tau (pairs.map Prod.snd)])) = _
  rw [equations_map]
  rfl

/-! ## 3. All shapes -/

/-- **Standardizing a shaped tree** succeeds, and what the rules preserve holds of the standard
form. -/
theorem Shaped.standardizes (rules : StandardizingRules L P Q) {c : Category} {t : Tree}
    (h : Shaped L c t) : StandardForm P Q c t := by
  induction h with
  | @name x => exact ⟨_, rfl, rules.leaf x (.inl rfl)⟩
  | @integer digits => exact ⟨_, rfl, rules.leaf digits (.inr (.inl rfl))⟩
  | @string raw => exact ⟨_, rfl, rules.leaf raw (.inr (.inr rfl))⟩
  | constant hk =>
    exact ⟨_, standardize_branch (hasRule_of_mem_constants hk) rfl, rules.constant hk⟩
  | negative _ ih =>
    obtain ⟨s, hs, hP⟩ := ih
    exact ⟨_, standardize_branch rfl (standardizeAll_single hs), rules.unary (.inl rfl) hP⟩
  | not _ ih =>
    obtain ⟨s, hs, hP⟩ := ih
    exact ⟨_, standardize_branch rfl (standardizeAll_single hs), rules.unary (.inr rfl) hP⟩
  | operator hk _ _ ihl ihr =>
    obtain ⟨s, hs, hPs⟩ := ihl
    obtain ⟨v, hv, hPv⟩ := ihr
    exact ⟨_, standardize_branch (hasRule_of_mem_operators hk) (standardizeAll_pair hs hv),
      rules.operator hk hPs hPv⟩
  | tau hn _ ih =>
    obtain ⟨ss, hss, hPs⟩ := standardizeAll_forall₂ ih
    exact ⟨_, standardize_branch rfl hss, rules.tau hn hPs⟩
  | choice _ _ _ ihc iht ihe =>
    obtain ⟨c, hc, hPc⟩ := ihc
    obtain ⟨t, ht, hPt⟩ := iht
    obtain ⟨e, he, hPe⟩ := ihe
    exact ⟨_, standardize_branch rfl (standardizeAll_triple hc ht he), rules.choice hPc hPt hPe⟩
  | function hn hp _ ih =>
    obtain ⟨b, hb, hP⟩ := ih
    exact ⟨_, standardize_of_rule (standardizeAll_params hp hb) (applyRule_lambda hn b),
      rules.function hn hp hP⟩
  | letIn _ _ ihd ihb =>
    obtain ⟨x, e, hd, hQ⟩ := ihd
    obtain ⟨b, hb, hP⟩ := ihb
    exact ⟨_, standardize_of_rule (standardizeAll_pair hd hb) rfl, rules.letIn hQ hP⟩
  | whereDef _ _ ihb ihd =>
    obtain ⟨b, hb, hP⟩ := ihb
    obtain ⟨x, e, hd, hQ⟩ := ihd
    exact ⟨_, standardize_of_rule (standardizeAll_pair hb hd) rfl, rules.whereDef hQ hP⟩
  | @infixCall _ _ f _ _ _ ihl ihr =>
    obtain ⟨s, hs, hPs⟩ := ihl
    obtain ⟨v, hv, hPv⟩ := ihr
    exact ⟨_, standardize_of_rule (standardizeAll_triple hs rfl hv) rfl, rules.infixCall f hPs hPv⟩
  | @equal p _ hp _ ih =>
    obtain ⟨e, he, hP⟩ := ih
    exact ⟨p, e, standardize_branch rfl (standardizeAll_pair hp.isRaw.standardize_eq he),
      rules.equal hp hP⟩
  | @functionForm f params body _ hn hp _ ih =>
    obtain ⟨b, hb, hP⟩ := ih
    have hall : standardizeAll (.leaf .identifier f :: params ++ [body]) =
        .ok (.leaf .identifier f :: params ++ [b]) := by
      rw [List.cons_append, standardizeAll, standardizeAll_params hp hb]
      rfl
    exact ⟨_, _, standardize_of_rule hall (applyRule_functionForm hn _ b),
      rules.functionForm f hn hp hP⟩
  | within _ _ ih₁ ih₂ =>
    obtain ⟨x₁, e₁, h₁, hQ₁⟩ := ih₁
    obtain ⟨x₂, e₂, h₂, hQ₂⟩ := ih₂
    exact ⟨_, _, standardize_of_rule (standardizeAll_pair h₁ h₂) rfl, rules.within hQ₁ hQ₂⟩
  | simultaneous hn _ ih =>
    obtain ⟨pairs, hds, hQs⟩ := standardizeAll_equations ih
    exact ⟨_, _, standardize_of_rule hds (applyRule_simultDef pairs),
      rules.simultaneous hn hQs⟩
  | recursive _ ih =>
    obtain ⟨x, e, hd, hQ⟩ := ih
    exact ⟨_, _, standardize_of_rule (standardizeAll_single hd) rfl, rules.recursive hQ⟩

end Rpal.Tree
