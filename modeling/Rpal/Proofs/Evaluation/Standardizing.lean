/-
# Standardizing keeps the meaning

`term` reads a raw tree as a term of the whole language.  It takes the place that the tree has
once it is standardized, so that every function is labelled by the number of the function that
it becomes:

    let x = E in B  at p      gamma (lambda x B) E          B at p 0 1, E at p 1
    fn p1 p2 . B    at p      lambda p1 (lambda p2 B)       B at p 1 1
    a @ f b         at p      gamma (gamma f a) b           a at p 0 1, b at p 1
    D1 within D2    at p      gamma (lambda x E2) E1        E2 at p 0 1, E1 at p 1
    D1 and D2       at p      tau E1 E2                     E1 at p 0, E2 at p 1
    rec D           at p      gamma Y* (lambda x E)         E at p 1 1

Standardizing the tree and reading it as a core tree is then the same as reading it as a term
and desugaring that (`standardize_raw`), and the meaning of the term is what the machine comes
to (`evaluate_iff_term`).
-/
import Rpal.Program
import Rpal.Proofs.Evaluation.Refinement
import Rpal.Proofs.Evaluation.Sugar
import Rpal.Proofs.Standard.Rewriting
import Rpal.Proofs.Tree.Raw

namespace Rpal

/-! ## 1. Reading raw trees -/

namespace Term

/-- The term of a node with its parts. -/
def ofNode (kind : Kind) (text : Option String) (parts : List Term) : Term :=
  match kind, parts with
  | .identifier, _ => .name text
  | .nil, _ => .nil
  | .tau, parts => .tuple parts
  | .gamma, [f, a] => .apply f a
  | kind, [x] =>
    match UnaryOperator.ofKind? kind with
    | some op => .unary op x
    | none => .nil
  | kind, [x, y] =>
    match BinaryOperator.ofKind? kind with
    | some op => .binary op x y
    | none => .nil
  | kind, _ =>
    match Literal.ofKind? kind with
    | some l => .literal l text
    | none => .nil

theorem desugar_ofNode {kind : Kind} {text : Option String} {parts : List Term}
    (h : kind.Admits parts.length) (ht : text = none ∨ kind.HasText) :
    (ofNode kind text parts).desugar = Core.ofNode kind text (desugarAll parts) := by
  rcases ht with rfl | ht
  · match parts with
    | [] | [x] | [x, y] | x :: y :: z :: rest => cases kind <;> rfl
  · -- a node with a text has no parts
    rcases ht with rfl | rfl | rfl <;>
    · rw [List.length_eq_zero_iff.mp h]
      rfl

end Term

namespace Tree

/-- The parameters of a function among the parameters and the body of it. -/
def parameters (number : Place → Nat) (place : Place) : List Tree → List Parameter
  | [] => []
  | [_] => []
  | p :: rest => ⟨number (place ++ [1]), p.parameterNames⟩ :: parameters number (place ++ [1]) rest

mutual

/-- A raw tree as an expression. -/
def term (number : Place → Nat) (place : Place) : Tree → Term
  | ⟨kind, text, children, _⟩ =>
    match kind, children with
    | .conditional, [condition, thenPart, elsePart] =>
      .choice (term number (place ++ [0]) condition) (term number (place ++ [1]) thenPart)
        (term number (place ++ [2]) elsePart)
    | .lambda, children =>
      .function (parameters number place children) (functionBody number place children)
    | .letIn, [d, body] =>
      .letIn (number (place ++ [0] ++ [1])) (definition number (place ++ [1]) d)
        (term number (place ++ [0] ++ [1]) body)
    | .whereDef, [body, d] =>
      .whereDef (number (place ++ [0] ++ [1])) (term number (place ++ [0] ++ [1]) body)
        (definition number (place ++ [1]) d)
    | .atCall, [left, f, right] =>
      .infixCall (term number (place ++ [0] ++ [1]) left) f.text (term number (place ++ [1]) right)
    | kind, children => Term.ofNode kind text (termAll number place 0 children)

/-- Raw trees side by side as expressions, the first of which becomes child `k`. -/
def termAll (number : Place → Nat) (place : Place) : Nat → List Tree → List Term
  | _, [] => []
  | k, t :: ts => term number (place ++ [k]) t :: termAll number place (k + 1) ts

/-- The body of a function, the last among its parameters and its body. -/
def functionBody (number : Place → Nat) (place : Place) : List Tree → Term
  | [] => .nil
  | [body] => term number place body
  | _ :: rest => functionBody number (place ++ [1]) rest

/-- A raw tree as a definition; `place` is that of its value. -/
def definition (number : Place → Nat) (place : Place) : Tree → Def
  | ⟨kind, _, children, _⟩ =>
    match kind, children with
    | .equal, [pattern, value] => .equal pattern.parameterNames (term number place value)
    | .functionForm, f :: rest =>
      .function f.text (parameters number place rest) (functionBody number place rest)
    | .within, [first, second] =>
      .within (number (place ++ [0] ++ [1])) (definition number (place ++ [1]) first)
        (definition number (place ++ [0] ++ [1]) second)
    | .simultDef, defs => .simultaneous (definitionAll number place 0 defs)
    | .recDef, [d] =>
      .recursive (number (place ++ [1] ++ [1])) (definition number (place ++ [1] ++ [1]) d)
    | _, _ => .simultaneous []

/-- Raw trees side by side as definitions, the first of which becomes child `k`. -/
def definitionAll (number : Place → Nat) (place : Place) : Nat → List Tree → List Def
  | _, [] => []
  | k, d :: ds => definition number (place ++ [k]) d :: definitionAll number place (k + 1) ds

end

@[simp] theorem length_termAll (number : Place → Nat) (place : Place) (ts : List Tree) :
    ∀ k, (termAll number place k ts).length = ts.length := by
  induction ts with
  | nil => intro k; rfl
  | cons t ts ih => intro k; simp [termAll, ih]

theorem term_node {kind : Kind} {children : List Tree} (h : kind.Admits children.length)
    (number : Place → Nat) (place : Place) (text : Option String) (arity : Nat) :
    term number place ⟨kind, text, children, arity⟩ =
      Term.ofNode kind text (termAll number place 0 children) := by
  cases kind <;> first | rfl | cases h

/-! ## 2. Standard forms -/

theorem standardizeAll_append (ts us : List Tree) :
    standardizeAll (ts ++ us) = (do
      let ts ← standardizeAll ts
      let us ← standardizeAll us
      .ok (ts ++ us)) := by
  induction ts with
  | nil =>
    rw [List.nil_append]
    cases standardizeAll us <;> rfl
  | cons t ts ih =>
    simp only [List.cons_append, standardizeAll, ih]
    cases t.standardize with
    | error e => rfl
    | ok t =>
      cases standardizeAll ts with
      | error e => rfl
      | ok ts => cases standardizeAll us <;> rfl

/-- Parameters are in standard form. -/
theorem IsRawParameter.standardize_eq {p : Tree} (h : IsRawParameter p) :
    p.standardize = .ok p := by
  cases h with
  | name x => rfl
  | nothing => rfl
  | names xs =>
    have hxs : standardizeAll (xs.map (leaf .identifier)) = .ok (xs.map (leaf .identifier)) := by
      refine standardizeAll_of_forall fun t ht => ?_
      obtain ⟨x, -, rfl⟩ := List.mem_map.mp ht
      rfl
    rw [branch, Tree.standardize_eq, hxs]
    rfl

/-- The rule of a function of several parameters. -/
theorem applyRule_lambda {params : List Tree} (hn : params ≠ []) (body : Tree) :
    applyRule (.branch .lambda (params ++ [body])) = .ok (lambdaChain params body) := by
  obtain ⟨p, rest, rfl⟩ := List.exists_cons_of_ne_nil hn
  exact (Rewrites.lambda none p rest body 0).applyRule_eq

/-- The rule of a definition of a function. -/
theorem applyRule_functionForm {params : List Tree} (hn : params ≠ []) (f body : Tree) :
    applyRule (.branch .functionForm (f :: params ++ [body])) =
      .ok (.branch .equal [f, lambdaChain params body]) :=
  (Rewrites.functionForm none f hn body 0).applyRule_eq

/-- What holds for a core tree with some children holds for its children. -/
theorem CoreShape.of_node {P : Tree → Prop} {kind : Kind} {text : Option String}
    {children : List Tree} {arity : Nat} (h : CoreShape P ⟨kind, text, children, arity⟩)
    (h₁ : kind ≠ .lambda) (h₂ : kind ≠ .conditional) :
    kind.Admits children.length ∧ ∀ c ∈ children, CoreShape P c := by
  cases h with
  | lambda => contradiction
  | choice => contradiction
  | node hk hc => exact ⟨hk, hc⟩

theorem CoreShape.of_lambda {P : Tree → Prop} {text : Option String} {param body : Tree}
    {arity : Nat} (h : CoreShape P ⟨.lambda, text, [param, body], arity⟩) :
    P param ∧ CoreShape P body := by
  cases h with
  | lambda hp hb => exact ⟨hp, hb⟩
  | node hk hc => exact hk.elim

theorem CoreShape.of_choice {P : Tree → Prop} {text : Option String}
    {condition thenPart elsePart : Tree} {arity : Nat}
    (h : CoreShape P ⟨.conditional, text, [condition, thenPart, elsePart], arity⟩) :
    CoreShape P condition ∧ CoreShape P thenPart ∧ CoreShape P elsePart := by
  cases h with
  | choice hc ht he => exact ⟨hc, ht, he⟩
  | node hk hc => exact hk.elim

/-! ## 3. Functions -/

theorem CoreShape.lambdaChain {params : List Tree} {body : Tree}
    (h : CoreShape (fun _ => True) body) : CoreShape (fun _ => True) (lambdaChain params body) := by
  induction params with
  | nil => exact h
  | cons p ps ih => exact .lambda trivial ih

theorem IsCore.of_lambdaChain {params : List Tree} {body : Tree}
    (h : IsCore (Tree.lambdaChain params body)) : IsCore body := by
  induction params with
  | nil => exact h
  | cons p ps ih => exact ih (CoreShape.of_lambda h).2

/-- **Functions of one parameter each** are read from the parameters and the body. -/
theorem expression_lambdaChain {number : Place → Nat} {params : List Tree} {body raw : Tree}
    (hb : ∀ place, expression number place body = (term number place raw).desugar) :
    ∀ place, expression number place (Tree.lambdaChain params body) =
      Core.curried (parameters number place (params ++ [raw]))
        (functionBody number place (params ++ [raw])).desugar := by
  induction params with
  | nil => exact hb
  | cons p ps ih =>
    intro place
    obtain ⟨next, rest, hlist⟩ := List.exists_cons_of_ne_nil (List.concat_ne_nil raw ps)
    have hexp : expression number place (Tree.lambdaChain (p :: ps) body) =
        .lambda (number (place ++ [1])) p.parameterNames
          (expression number (place ++ [1]) (Tree.lambdaChain ps body)) := rfl
    rw [hexp, ih, List.cons_append, hlist]
    rfl

/-! ## 4. Raw trees become core trees -/

/-- What standardizing makes of a raw tree.  An expression becomes a core tree that reads as the
expression does, once it is desugared; a definition becomes an equation between its names and
its value. -/
def Standardizes : Category → Tree → Prop
  | .expression, t => ∃ s, t.standardize = .ok s ∧ CoreShape (fun _ => True) s ∧
      (s.IsCore → ∀ number place, expression number place s = (term number place t).desugar)
  | .definition, t => ∃ x e, t.standardize = .ok (.branch .equal [x, e]) ∧
      CoreShape (fun _ => True) e ∧
      (x.IsParameter → ∀ number place, (definition number place t).names = x.parameterNames) ∧
      (e.IsCore → ∀ number place, expression number place e = (definition number place t).desugar)

theorem standardizeAll_expressions {ts : List Tree} (h : ∀ t ∈ ts, Standardizes .expression t) :
    ∃ ss, standardizeAll ts = .ok ss ∧ ss.length = ts.length ∧
      (∀ s ∈ ss, CoreShape (fun _ => True) s) ∧
      ((∀ s ∈ ss, s.IsCore) → ∀ number place k, expressionAll number place k ss =
        Term.desugarAll (termAll number place k ts)) := by
  induction ts with
  | nil => exact ⟨[], rfl, rfl, by simp, fun _ _ _ _ => rfl⟩
  | cons t ts ih =>
    rw [List.forall_mem_cons] at h
    obtain ⟨s, hs, hshape, hread⟩ := h.1
    obtain ⟨ss, hss, hlen, hshapes, hreads⟩ := ih h.2
    refine ⟨s :: ss, ?_, by rw [List.length_cons, hlen, List.length_cons], ?_, ?_⟩
    · rw [standardizeAll, hs, hss]
      rfl
    · rw [List.forall_mem_cons]
      exact ⟨hshape, hshapes⟩
    · intro hcore number place k
      rw [List.forall_mem_cons] at hcore
      simp only [expressionAll, termAll, Term.desugarAll]
      rw [hread hcore.1, hreads hcore.2]

theorem standardizeAll_definitions {ds : List Tree} (h : ∀ d ∈ ds, Standardizes .definition d) :
    ∃ pairs : List (Tree × Tree),
      standardizeAll ds = .ok (pairs.map fun p => .branch .equal [p.1, p.2]) ∧
      (∀ p ∈ pairs, CoreShape (fun _ => True) p.2) ∧
      ((∀ p ∈ pairs, p.1.kind = .identifier) → ∀ number place k,
        Def.namesAll (definitionAll number place k ds) = pairs.map (·.1.text)) ∧
      ((∀ p ∈ pairs, p.2.IsCore) → ∀ number place k,
        expressionAll number place k (pairs.map Prod.snd) =
          Def.desugarAll (definitionAll number place k ds)) := by
  induction ds with
  | nil => exact ⟨[], rfl, by simp, fun _ _ _ _ => rfl, fun _ _ _ _ => rfl⟩
  | cons d ds ih =>
    rw [List.forall_mem_cons] at h
    obtain ⟨x, e, hs, hshape, hnames, hread⟩ := h.1
    obtain ⟨pairs, hss, hshapes, hallNames, hreads⟩ := ih h.2
    refine ⟨(x, e) :: pairs, ?_, ?_, ?_, ?_⟩
    · rw [standardizeAll, hs, hss]
      rfl
    · rw [List.forall_mem_cons]
      exact ⟨hshape, hshapes⟩
    · intro hid number place k
      rw [List.forall_mem_cons] at hid
      obtain ⟨kind, text, children, arity⟩ := x
      obtain rfl : kind = .identifier := hid.1
      simp only [definitionAll, Def.namesAll, List.map_cons]
      rw [hnames (.name _ _ _), hallNames hid.2]
      rfl
    · intro hcore number place k
      rw [List.forall_mem_cons] at hcore
      simp only [List.map_cons, expressionAll, definitionAll, Def.desugarAll]
      rw [hread hcore.1, hreads hcore.2]

theorem equations_map (pairs : List (Tree × Tree)) :
    equations (pairs.map fun p => .branch .equal [p.1, p.2]) = .ok pairs := by
  induction pairs with
  | nil => rfl
  | cons p pairs ih =>
    rw [List.map_cons, equations, ih]
    rfl

/-- The form that `let`, `where` and `within` become: a function applied to a value. -/
def binding (x body value : Tree) : Tree :=
  .branch .gamma [.branch .lambda [x, body], value]

theorem CoreShape.binding {x body value : Tree} (hb : CoreShape (fun _ => True) body)
    (hv : CoreShape (fun _ => True) value) :
    CoreShape (fun _ => True) (Tree.binding x body value) :=
  .node rfl (by simpa using ⟨.lambda trivial hb, hv⟩)

theorem IsCore.of_binding {x body value : Tree} (h : IsCore (Tree.binding x body value)) :
    x.IsParameter ∧ body.IsCore ∧ value.IsCore := by
  have hchildren := (CoreShape.of_node h (by decide) (by decide)).2
  rw [List.forall_mem_cons] at hchildren
  have hlambda := CoreShape.of_lambda hchildren.1
  exact ⟨hlambda.1, hlambda.2, hchildren.2 value (List.mem_singleton_self value)⟩

theorem expression_binding (number : Place → Nat) (place : Place) (x body value : Tree) :
    expression number place (binding x body value) =
      .apply none (.lambda (number (place ++ [0] ++ [1])) x.parameterNames
        (expression number (place ++ [0] ++ [1]) body))
        (expression number (place ++ [1]) value) := rfl

/-! ### One lemma for each form -/

namespace Standardizes

/-- A node whose kind has no rule keeps its form. -/
theorem node {kind : Kind} {text : Option String} {children : List Tree}
    (hk : kind.Admits children.length) (ht : text = none ∨ kind.HasText)
    (hc : ∀ c ∈ children, Standardizes .expression c) :
    Standardizes .expression ⟨kind, text, children, 0⟩ := by
  obtain ⟨ss, hss, hlen, hshapes, hreads⟩ := standardizeAll_expressions hc
  have hrule : hasRule kind = false := by
    cases kind <;> first | rfl | cases hk
  rw [← hlen] at hk
  refine ⟨⟨kind, text, ss, 0⟩, ?_, .node hk hshapes, ?_⟩
  · rw [standardize_eq, hss]
    exact applyRule_of_not_hasRule hrule
  · intro hcore number place
    rw [hlen] at hk
    rw [expression_node hk.ne.1 hk.ne.2, term_node hk, Term.desugar_ofNode (by simpa) ht,
      hreads (hcore.of_node hk.ne.1 hk.ne.2).2]

theorem choice {condition thenPart elsePart : Tree} (hc : Standardizes .expression condition)
    (ht : Standardizes .expression thenPart) (he : Standardizes .expression elsePart) :
    Standardizes .expression (.branch .conditional [condition, thenPart, elsePart]) := by
  obtain ⟨c, hc, hcs, hcr⟩ := hc
  obtain ⟨t, ht, hts, htr⟩ := ht
  obtain ⟨e, he, hes, her⟩ := he
  refine ⟨.branch .conditional [c, t, e], ?_, .choice hcs hts hes, ?_⟩
  · rw [branch, standardize_eq]
    simp only [standardizeAll, hc, ht, he]
    rfl
  · intro hcore number place
    obtain ⟨hc, ht, he⟩ := hcore.of_choice
    show Core.choice _ _ _ = _
    rw [hcr hc, htr ht, her he]
    rfl

/-- A function of several parameters: `fn p1 .. pn . B`. -/
theorem function {params : List Tree} {body : Tree} (hn : params ≠ [])
    (hp : ∀ p ∈ params, IsRawParameter p) (hb : Standardizes .expression body) :
    Standardizes .expression (.branch .lambda (params ++ [body])) := by
  obtain ⟨s, hs, hshape, hread⟩ := hb
  have hparams := standardizeAll_of_forall fun p hm => (hp p hm).standardize_eq
  refine ⟨Tree.lambdaChain params s, ?_, hshape.lambdaChain, ?_⟩
  · rw [branch, standardize_eq, standardizeAll_append, hparams]
    simp only [standardizeAll, hs]
    exact applyRule_lambda hn s
  · intro hcore number place
    exact expression_lambdaChain (hread (IsCore.of_lambdaChain hcore) number) place

/-- An expression that becomes the binding of a definition around a body. -/
theorem of_binding {t d body : Tree} (hd : Standardizes .definition d)
    (hb : Standardizes .expression body)
    (hrule : ∀ x e s, d.standardize = .ok (.branch .equal [x, e]) → body.standardize = .ok s →
      t.standardize = .ok (Tree.binding x s e))
    (hterm : ∀ number place, (term number place t).desugar =
      .apply none (.lambda (number (place ++ [0] ++ [1]))
        (definition number (place ++ [1]) d).names (term number (place ++ [0] ++ [1]) body).desugar)
        (definition number (place ++ [1]) d).desugar) : Standardizes .expression t := by
  obtain ⟨x, e, hd, hds, hnames, hdr⟩ := hd
  obtain ⟨s, hb, hbs, hbr⟩ := hb
  refine ⟨Tree.binding x s e, hrule x e s hd hb, hbs.binding hds, ?_⟩
  intro hcore number place
  obtain ⟨hx, hs, he⟩ := IsCore.of_binding hcore
  rw [expression_binding, hbr hs, hdr he, hterm, hnames hx number (place ++ [1])]

/-- A definition in front of its body: `let D in B`. -/
theorem letIn {d body : Tree} (hd : Standardizes .definition d)
    (hb : Standardizes .expression body) :
    Standardizes .expression (.branch .letIn [d, body]) := by
  refine hd.of_binding hb (fun x e s hd hb => ?_) fun _ _ => rfl
  rw [branch, standardize_eq]
  simp only [standardizeAll, hd, hb]
  rfl

/-- A definition behind its body: `B where D`. -/
theorem whereDef {d body : Tree} (hb : Standardizes .expression body)
    (hd : Standardizes .definition d) :
    Standardizes .expression (.branch .whereDef [body, d]) := by
  refine hd.of_binding hb (fun x e s hd hb => ?_) fun _ _ => rfl
  rw [branch, standardize_eq]
  simp only [standardizeAll, hd, hb]
  rfl

/-- A function between its arguments: `a @ f b`. -/
theorem infixCall {left right : Tree} (f : String) (hl : Standardizes .expression left)
    (hr : Standardizes .expression right) :
    Standardizes .expression (.branch .atCall [left, .leaf .identifier f, right]) := by
  obtain ⟨a, ha, has, har⟩ := hl
  obtain ⟨b, hb, hbs, hbr⟩ := hr
  have hf : CoreShape (fun _ => True) (.leaf .identifier f) := .node rfl (by simp)
  have hfa : CoreShape (fun _ => True) (.branch .gamma [.leaf .identifier f, a]) :=
    .node rfl (by simpa using ⟨hf, has⟩)
  refine ⟨.branch .gamma [.branch .gamma [.leaf .identifier f, a], b], ?_,
    .node rfl (by simpa using ⟨hfa, hbs⟩), ?_⟩
  · rw [branch, standardize_eq]
    simp only [standardizeAll, ha, hb]
    rfl
  · intro hcore number place
    have houter := (CoreShape.of_node hcore (by decide) (by decide)).2
    rw [List.forall_mem_cons] at houter
    have hinner := (CoreShape.of_node houter.1 (by decide) (by decide)).2
    have hexp : expression number place
        (.branch .gamma [.branch .gamma [.leaf .identifier f, a], b]) =
      .apply none (.apply none (.name f) (expression number (place ++ [0] ++ [1]) a))
        (expression number (place ++ [1]) b) := rfl
    rw [hexp, har (hinner a (by simp)), hbr (houter.2 b (by simp))]
    rfl

/-- A definition of names: `p = E`. -/
theorem equal {pattern value : Tree} (hp : IsRawParameter pattern)
    (hv : Standardizes .expression value) :
    Standardizes .definition (.branch .equal [pattern, value]) := by
  obtain ⟨s, hs, hshape, hread⟩ := hv
  refine ⟨pattern, s, ?_, hshape, fun _ _ _ => rfl, hread⟩
  rw [branch, standardize_eq]
  simp only [standardizeAll, hp.standardize_eq, hs]
  rfl

/-- A definition of a function: `f p1 .. pn = E`. -/
theorem functionForm {params : List Tree} {body : Tree} (f : String) (hn : params ≠ [])
    (hp : ∀ p ∈ params, IsRawParameter p) (hb : Standardizes .expression body) :
    Standardizes .definition
      (.branch .functionForm (.leaf .identifier f :: params ++ [body])) := by
  obtain ⟨s, hs, hshape, hread⟩ := hb
  have hparams := standardizeAll_of_forall fun p hm => (hp p hm).standardize_eq
  refine ⟨.leaf .identifier f, Tree.lambdaChain params s, ?_, hshape.lambdaChain,
    fun _ _ _ => rfl, ?_⟩
  · rw [branch, standardize_eq, List.cons_append, standardizeAll, standardizeAll_append, hparams]
    simp only [standardizeAll, hs]
    exact applyRule_functionForm hn _ s
  · intro hcore number place
    exact expression_lambdaChain (hread (IsCore.of_lambdaChain hcore) number) place

/-- A definition for another one: `D1 within D2`. -/
theorem within {first second : Tree} (h₁ : Standardizes .definition first)
    (h₂ : Standardizes .definition second) :
    Standardizes .definition (.branch .within [first, second]) := by
  obtain ⟨x₁, e₁, h₁, hs₁, hn₁, hr₁⟩ := h₁
  obtain ⟨x₂, e₂, h₂, hs₂, hn₂, hr₂⟩ := h₂
  refine ⟨x₂, Tree.binding x₁ e₂ e₁, ?_, hs₂.binding hs₁,
    fun hx number place => hn₂ hx number _, ?_⟩
  · rw [branch, standardize_eq]
    simp only [standardizeAll, h₁, h₂]
    rfl
  · intro hcore number place
    obtain ⟨hx, he₂, he₁⟩ := IsCore.of_binding hcore
    rw [expression_binding, hr₁ he₁, hr₂ he₂, ← hn₁ hx number (place ++ [1])]
    rfl

/-- Definitions side by side: `D1 and .. and Dn`. -/
theorem simultaneous {defs : List Tree} (hd : ∀ d ∈ defs, Standardizes .definition d) :
    Standardizes .definition (.branch .simultDef defs) := by
  obtain ⟨pairs, hds, hshapes, hnames, hreads⟩ := standardizeAll_definitions hd
  have hvalues : ∀ e ∈ pairs.map Prod.snd, CoreShape (fun _ => True) e := by
    intro e he
    obtain ⟨p, hp, rfl⟩ := List.mem_map.mp he
    exact hshapes p hp
  refine ⟨.branch .comma (pairs.map Prod.fst), .branch .tau (pairs.map Prod.snd), ?_,
    .node trivial hvalues, ?_, ?_⟩
  · rw [branch, standardize_eq, hds]
    have hrule : ∀ ts, applyRule ⟨.simultDef, none, ts, 0⟩ = (do
        let pairs ← equations ts
        .ok (.branch .equal [.branch .comma (pairs.map Prod.fst),
          .branch .tau (pairs.map Prod.snd)])) := fun _ => rfl
    show applyRule ⟨.simultDef, none, pairs.map fun p => .branch .equal [p.1, p.2], 0⟩ = _
    rw [hrule, equations_map]
    rfl
  · intro hx number place
    have hid : ∀ p ∈ pairs, p.1.kind = .identifier := by
      cases hx with
      | names _ _ _ h =>
        intro p hp
        exact h p.1 (List.mem_map_of_mem hp)
    show Def.namesAll _ = (pairs.map Prod.fst).map (·.text)
    rw [hnames hid, List.map_map]
    rfl
  · intro hcore number place
    have hchildren := (CoreShape.of_node hcore (by decide) (by decide)).2
    have hcores : ∀ p ∈ pairs, p.2.IsCore := fun p hp =>
      hchildren p.2 (List.mem_map_of_mem hp)
    show Core.tuple none (expressionAll number place 0 _) = _
    rw [hreads hcores]
    rfl

/-- A definition that sees its own names: `rec D`. -/
theorem recursive {d : Tree} (hd : Standardizes .definition d) :
    Standardizes .definition (.branch .recDef [d]) := by
  obtain ⟨x, e, hd, hds, hnames, hdr⟩ := hd
  have hstar : CoreShape (fun _ => True) (.branch .yStar []) := .node rfl (by simp)
  have hlambda : CoreShape (fun _ => True) (.branch .lambda [x, e]) := .lambda trivial hds
  refine ⟨x, .branch .gamma [.branch .yStar [], .branch .lambda [x, e]], ?_,
    .node rfl (by simpa using ⟨hstar, hlambda⟩), fun hx number place => hnames hx number _, ?_⟩
  · rw [branch, standardize_eq]
    simp only [standardizeAll, hd]
    rfl
  · intro hcore number place
    have hchildren := (CoreShape.of_node hcore (by decide) (by decide)).2
    have hfunction := CoreShape.of_lambda (hchildren (.branch .lambda [x, e]) (by simp))
    have hexp : expression number place
        (.branch .gamma [.branch .yStar [], .branch .lambda [x, e]]) =
      .apply none (.literal .yStar none) (.lambda (number (place ++ [1] ++ [1]))
        x.parameterNames (expression number (place ++ [1] ++ [1]) e)) := rfl
    rw [hexp, hdr hfunction.2, ← hnames hfunction.1 number (place ++ [1] ++ [1])]
    rfl

end Standardizes

/-- **Standardizing a raw tree** always succeeds, and reading what comes out is desugaring what
went in. -/
theorem standardize_raw {c : Category} {t : Tree} (h : IsRaw c t) : Standardizes c t := by
  induction h with
  | node hk ht _ ih => exact .node hk ht ih
  | choice _ _ _ ihc iht ihe => exact .choice ihc iht ihe
  | function hn hp _ ih => exact .function hn hp ih
  | letIn _ _ ihd ihb => exact .letIn ihd ihb
  | whereDef _ _ ihb ihd => exact .whereDef ihb ihd
  | infixCall f _ _ ihl ihr => exact .infixCall f ihl ihr
  | equal hp _ ih => exact .equal hp ih
  | functionForm f hn hp _ ih => exact .functionForm f hn hp ih
  | within _ _ ih₁ ih₂ => exact .within ih₁ ih₂
  | simultaneous _ ih => exact .simultaneous ih
  | recursive _ ih => exact .recursive ih

/-- The control structures of a raw tree are those of the core tree that it becomes. -/
theorem IsRaw.structures {t s : Tree} {cs : List Closure} (raw : t.IsRaw .expression)
    (hs : t.standardize = .ok s) (hcs : Control.structures s = .ok cs) :
    s.IsCore ∧ cs = s.sites.map (Control.structureOf s.number) := by
  obtain ⟨s', hs', hshape, -⟩ := standardize_raw raw
  obtain rfl : s = s' := Except.ok.inj (hs.symm.trans hs')
  exact (Control.structures_eq_ok_iff hshape).mp hcs

end Tree

/-! ## 5. Programs -/

/-- What the machine shows of an evaluation. -/
def Term.shown (r : Except Failure (Value Body) × String) : Outcome :=
  ⟨r.2, (r.1.map (Value.item fun body => body.desugar.code)).mapError Problem.failure⟩

namespace Tree

open Machine

/-- **Standardizing keeps the meaning.**  For every raw tree whose control structures can be
built, evaluating the tree comes to exactly what its term comes to: the same text with the same
value, the same text with the same failure, or no end at all.  A function is labelled by the
number of the function that it is standardized to. -/
theorem evaluate_iff_term {t s : Tree} {cs : List Closure} (raw : t.IsRaw .expression)
    (hs : t.standardize = .ok s) (hcs : Control.structures s = .ok cs) :
    s.Numbers cs ∧
      (∀ o, (∃ n, Program.evaluate n t = some o) ↔
        ∃ n a, (t.term s.number []).evaluate n = some a ∧ o = Term.shown a) ∧
      ((∀ n, Program.evaluate n t = none) ↔ ∀ n, (t.term s.number []).evaluate n = none) := by
  obtain ⟨hcore, rfl⟩ := raw.structures hs hcs
  obtain ⟨s', hs', hshape, hread⟩ := standardize_raw raw
  obtain rfl : s = s' := Except.ok.inj (hs.symm.trans hs')
  have hprogram : s.program = (t.term s.number []).desugar := hread hcore s.number []
  -- Three meanings are compared: the runs of the machine, the evaluator on the standard form, and
  -- the evaluator on the term.  The second and the third agree because the term is desugared to it.
  have hevaluate : ∀ n, Program.evaluate n t = ((start (Control.root
      (s.sites.map (Control.structureOf s.number)))).run n).map fun r =>
        ⟨r.output, r.answer.mapError Problem.failure⟩ := by
    intro n
    simp only [Program.evaluate, Program.compile, hs, hcs, Except.map]
  have hrun := Core.run_iff_evaluate (root_body (t := s))
  have hnone := Core.run_eq_none_iff_evaluate (root_body (t := s))
  simp only [hprogram, Term.evaluate_desugar, Option.map_eq_some_iff, Option.map_eq_none_iff]
    at hrun hnone
  have hitem : ∀ r : Except Failure (Value Body),
      (r.map (Value.map Body.desugar)).map (Value.item Core.code) =
        r.map (Value.item fun body => body.desugar.code) := by
    rintro (_ | v)
    · rfl
    · exact congrArg Except.ok (Value.item_map Body.desugar Core.code v)
  refine ⟨hshape.numbers, fun o => ?_, by simpa only [hevaluate, Option.map_eq_none_iff]⟩
  simp only [hevaluate, Option.map_eq_some_iff]
  constructor
  · rintro ⟨n, r, hr, rfl⟩
    obtain ⟨k, _, ⟨a, ha, rfl⟩, rfl⟩ := (hrun r).mp ⟨n, hr⟩
    exact ⟨k, a, ha, by simp only [Core.shown, Term.shown, hitem]⟩
  · rintro ⟨n, a, ha, rfl⟩
    obtain ⟨k, hk⟩ := (hrun _).mpr ⟨n, _, ⟨a, ha, rfl⟩, rfl⟩
    exact ⟨k, _, hk, by simp only [Core.shown, Term.shown, hitem]⟩

/-- The program `let z = false within rec f (b, r) = b -> f (z, r aug b) | r in f (true, nil)`. -/
def sugared : Tree :=
  .branch .letIn [
    .branch .within [
      .branch .equal [.leaf .identifier "z", .branch .falseValue []],
      .branch .recDef [
        .branch .functionForm [
          .leaf .identifier "f",
          .branch .comma [.leaf .identifier "b", .leaf .identifier "r"],
          .branch .conditional [
            .leaf .identifier "b",
            .branch .gamma [.leaf .identifier "f",
              .branch .tau [.leaf .identifier "z",
                .branch .aug [.leaf .identifier "r", .leaf .identifier "b"]]],
            .leaf .identifier "r"]]]],
    .branch .gamma [.leaf .identifier "f", .branch .tau [.branch .trueValue [], .branch .nil []]]]

theorem isRaw_sugared : sugared.IsRaw .expression := by
  have hname : ∀ x, IsRaw .expression (.leaf .identifier x) :=
    fun x => .node rfl (.inr (.inl rfl)) (by simp)
  have hconstant : ∀ kind : Kind, kind.Admits 0 → IsRaw .expression (.branch kind []) :=
    fun kind hk => .node hk (.inl rfl) (by simp)
  have hpair : ∀ (kind : Kind) (x y : Tree), kind.Admits 2 → x.IsRaw .expression →
      y.IsRaw .expression → IsRaw .expression (.branch kind [x, y]) :=
    fun kind x y hk hx hy => .node hk (.inl rfl) (by simp [hx, hy])
  have hcall : IsRaw .expression (.branch .gamma [.leaf .identifier "f",
      .branch .tau [.leaf .identifier "z",
        .branch .aug [.leaf .identifier "r", .leaf .identifier "b"]]]) :=
    hpair _ _ _ rfl (hname "f") (hpair _ _ _ trivial (hname "z")
      (hpair _ _ _ rfl (hname "r") (hname "b")))
  have hparam : ∀ p ∈ [branch .comma (["b", "r"].map (leaf .identifier))], IsRawParameter p := by
    intro p hp
    rw [List.mem_singleton.mp hp]
    exact .names _
  refine .letIn (.within (.equal (.name "z") (hconstant _ rfl)) (.recursive ?_)) ?_
  · exact .functionForm "f" (List.cons_ne_nil _ _) hparam (.choice (hname "b") hcall (hname "r"))
  · exact hpair _ _ _ rfl (hname "f") (hpair _ _ _ trivial (hconstant _ rfl) (hconstant _ rfl))

/-- The evaluation of the tree comes to what its term comes to. -/
theorem evaluate_sugared : sugared.IsRaw .expression ∧
    ∃ s cs, sugared.standardize = .ok s ∧ Control.structures s = .ok cs ∧
      ∃ n, Program.evaluate n sugared = some ⟨"", .ok (.tuple [.truth true])⟩ := by
  refine ⟨isRaw_sugared, _, _, rfl, rfl, ?_⟩
  exact ((evaluate_iff_term isRaw_sugared rfl rfl).2.1 _).mpr ⟨6, _, rfl, rfl⟩

end Tree

end Rpal
