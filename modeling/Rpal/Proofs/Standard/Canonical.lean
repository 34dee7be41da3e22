/-
# Standard forms of programs

Every tree that is read from a source text has a standard form, and it is canonical:

    leaf                name, integer, string, true, false, nil, dummy
    nodes               neg, not with one child; gamma and the operators with two;
                        the conditional with three; tau with at least two
    function            lambda x E, where x is a name, `()` or a tuple of patterns
    recursion           gamma Y* (lambda x E)

Its control structures can be built unless a group of definitions `D1 and .. and Dn` has a member
that binds a tuple itself, as in `x = 1 and (y, z) = E`: the pattern of the group is then a tuple
with a tuple in it, and the builder takes tuples of names only (`Program.canonical_of_parse`).
-/
import Rpal.Proofs.Control.Building
import Rpal.Proofs.Grammar.Rendering
import Rpal.Proofs.Standard.Rules

namespace Rpal

/-- An operator has two operands. -/
theorem Kind.admits_of_mem_operators {kind : Kind} (h : kind ∈ Kind.operators) : kind.Admits 2 := by
  simp only [Kind.operators, List.mem_cons, List.not_mem_nil, or_false] at h
  rcases h with rfl | rfl | rfl | rfl | rfl | rfl | rfl | rfl | rfl | rfl | rfl | rfl | rfl |
    rfl | rfl
  all_goals rfl

/-- A constant has no operands. -/
theorem Kind.admits_of_mem_constants {kind : Kind} (h : kind ∈ Kind.constants) :
    kind.Admits 0 := by
  simp only [Kind.constants, List.mem_cons, List.not_mem_nil, or_false] at h
  rcases h with rfl | rfl | rfl | rfl <;> rfl

namespace Tree

/-! ## 1. Canonical trees -/

/-- What a definition binds: a name, or a tuple of at least two patterns. -/
inductive IsPattern : Tree → Prop where
  | name (x : String) : IsPattern (.leaf .identifier x)
  | tuple {ps : List Tree} (hn : 2 ≤ ps.length) (h : ∀ p ∈ ps, IsPattern p) :
      IsPattern (.branch .comma ps)

/-- What a function of a canonical tree binds. -/
def BindsPattern (p : Tree) : Prop := IsPattern p ∨ p = .branch .paren []

/-- A canonical tree. -/
inductive Canonical : Tree → Prop where
  | leaf {kind : Kind} (text : String) (hk : kind.HasText) : Canonical (.leaf kind text)
  | constant {kind : Kind} (hk : kind ∈ Kind.constants) : Canonical (.branch kind [])
  | unary {kind : Kind} {t : Tree} (hk : kind = .neg ∨ kind = .not) (h : Canonical t) :
      Canonical (.branch kind [t])
  | operator {kind : Kind} {left right : Tree} (hk : kind ∈ Kind.operators) (hl : Canonical left)
      (hr : Canonical right) : Canonical (.branch kind [left, right])
  | tau {ts : List Tree} (hn : 2 ≤ ts.length) (h : ∀ t ∈ ts, Canonical t) :
      Canonical (.branch .tau ts)
  | choice {condition thenPart elsePart : Tree} (hc : Canonical condition)
      (ht : Canonical thenPart) (he : Canonical elsePart) :
      Canonical (.branch .conditional [condition, thenPart, elsePart])
  | function {p body : Tree} (hp : BindsPattern p) (hb : Canonical body) :
      Canonical (.branch .lambda [p, body])
  | recursion {p body : Tree} (hp : IsPattern p) (hb : Canonical body) :
      Canonical (.branch .gamma [.branch .yStar [], .branch .lambda [p, body]])

/-- A canonical tree is a tree of the core language, up to the parameters of its functions. -/
theorem Canonical.coreShape {t : Tree} (h : Canonical t) : CoreShape (fun _ => True) t := by
  induction h with
  | leaf text hk =>
    refine .node ?_ (by simp)
    rcases hk with rfl | rfl | rfl <;> rfl
  | constant hk => exact .node (Kind.admits_of_mem_constants hk) (by simp)
  | unary hk _ ih =>
    refine .node ?_ (List.forall_mem_singleton.mpr ih)
    rcases hk with rfl | rfl <;> rfl
  | operator hk _ _ ihl ihr =>
    exact .node (Kind.admits_of_mem_operators hk) (by simpa using ⟨ihl, ihr⟩)
  | tau _ _ ih => exact .node trivial ih
  | choice _ _ _ ihc iht ihe => exact .choice ihc iht ihe
  | function _ _ ih => exact .lambda trivial ih
  | @recursion p body _ _ ih =>
    have hstar : CoreShape (fun _ => True) (.branch .yStar []) := .node rfl (by simp)
    have hlambda : CoreShape (fun _ => True) (.branch .lambda [p, body]) := .lambda trivial ih
    exact .node rfl (by simpa using ⟨hstar, hlambda⟩)

/-! ## 2. Tuples in groups of definitions -/

/-- Whether a definition binds a tuple. -/
def bindsTuple : Tree → Bool
  | ⟨kind, _, children, _⟩ =>
    match kind, children with
    | .equal, [pattern, _] => pattern.kind = .comma
    | .simultDef, _ => true
    | .recDef, [d] => d.bindsTuple
    | .within, [_, d] => d.bindsTuple
    | _, _ => false

/-- Some group of definitions in the tree has a member that binds a tuple. -/
def NestsTuple (t : Tree) : Prop :=
  ∃ group ∈ t.find .simultDef, ∃ d ∈ group.children, d.bindsTuple = true

/-- A search among neighbours finds what a search of one of them finds. -/
theorem mem_findAll {kind : Kind} {s : Tree} {ts : List Tree} :
    s ∈ findAll kind ts ↔ ∃ t ∈ ts, s ∈ t.find kind := by
  induction ts with
  | nil => simp only [findAll, List.not_mem_nil, false_and, exists_false]
  | cons t ts ih => simp only [findAll, List.mem_append, ih, List.exists_mem_cons_iff]

/-- Below a node that is no group. -/
theorem not_nestsTuple_branch {kind : Kind} (h : kind ≠ .simultDef) {ts : List Tree} :
    ¬ (branch kind ts).NestsTuple ↔ ∀ t ∈ ts, ¬ t.NestsTuple := by
  simp only [NestsTuple, branch, find, if_neg h, List.nil_append, mem_findAll]
  constructor
  · rintro hno t ht ⟨group, hgroup, hd⟩
    exact hno ⟨group, ⟨t, ht, hgroup⟩, hd⟩
  · rintro hno ⟨group, ⟨t, ht, hgroup⟩, hd⟩
    exact hno t ht ⟨group, hgroup, hd⟩

/-- At a group, its members count as well. -/
theorem not_nestsTuple_simultDef {ds : List Tree} : ¬ (branch .simultDef ds).NestsTuple ↔
    ∀ d ∈ ds, ¬ d.bindsTuple = true ∧ ¬ d.NestsTuple := by
  simp only [NestsTuple, branch, find, if_true, List.cons_append, List.nil_append,
    List.exists_mem_cons_iff, mem_findAll]
  constructor
  · intro hno d hd
    refine ⟨fun htuple => hno (.inl ⟨d, hd, htuple⟩), ?_⟩
    rintro ⟨group, hgroup, hmember⟩
    exact hno (.inr ⟨group, ⟨d, hd, hgroup⟩, hmember⟩)
  · rintro hno (⟨d, hd, htuple⟩ | ⟨group, ⟨d, hd, hgroup⟩, hmember⟩)
    · exact (hno d hd).1 htuple
    · exact (hno d hd).2 ⟨group, hgroup, hmember⟩

/-- A leaf holds no definitions. -/
theorem not_nestsTuple_leaf {kind : Kind} (h : kind ≠ .simultDef) (text : String) :
    ¬ (leaf kind text).NestsTuple := by
  simp only [NestsTuple, leaf, find, if_neg h, findAll, List.append_nil, List.not_mem_nil,
    false_and, exists_false, not_false_eq_true]

/-- No parameter holds a group of definitions. -/
theorem ShapedParameter.not_nestsTuple {L : Kind → String → Prop} {p : Tree}
    (h : ShapedParameter L p) : ¬ p.NestsTuple := by
  cases h with
  | names h =>
    cases h with
    | @name x => exact not_nestsTuple_leaf (by decide) x
    | @names xs =>
      exact (not_nestsTuple_branch (by decide)).mpr
        (List.forall_mem_map.mpr fun x _ => not_nestsTuple_leaf (by decide) x)
  | nothing => exact (not_nestsTuple_branch (by decide)).mpr (by simp)

/-! ## 3. Core trees -/

/-- A node with as many children as its kind admits is of the core language if its children are. -/
theorem isCore_branch_iff {kind : Kind} {ts : List Tree} (hk : kind.Admits ts.length) :
    IsCore (.branch kind ts) ↔ ∀ t ∈ ts, t.IsCore :=
  ⟨fun h => (CoreShape.of_node h hk.ne.1 hk.ne.2).2, fun h => .node hk h⟩

theorem isCore_tau_iff {ts : List Tree} : IsCore (.branch .tau ts) ↔ ∀ t ∈ ts, t.IsCore :=
  isCore_branch_iff trivial

theorem isCore_lambda_iff {p body : Tree} :
    IsCore (.branch .lambda [p, body]) ↔ p.IsParameter ∧ body.IsCore :=
  ⟨fun h => CoreShape.of_lambda h, fun h => .lambda h.1 h.2⟩

theorem isCore_choice_iff {condition thenPart elsePart : Tree} :
    IsCore (.branch .conditional [condition, thenPart, elsePart]) ↔
      condition.IsCore ∧ thenPart.IsCore ∧ elsePart.IsCore :=
  ⟨fun h => CoreShape.of_choice h, fun h => .choice h.1 h.2.1 h.2.2⟩

theorem isCore_pair_iff {kind : Kind} (hk : kind ∈ Kind.operators) {t u : Tree} :
    IsCore (.branch kind [t, u]) ↔ t.IsCore ∧ u.IsCore := by
  rw [isCore_branch_iff (Kind.admits_of_mem_operators hk), List.forall_mem_cons,
    List.forall_mem_singleton]

/-- A local definition is of the core language if its three parts are. -/
theorem isCore_binding_iff {x body value : Tree} :
    IsCore (binding x body value) ↔ (x.IsParameter ∧ value.IsCore) ∧ body.IsCore := by
  rw [binding, isCore_pair_iff (by decide), isCore_lambda_iff, and_right_comm]

/-- Parameters that can be bound leave the matter to the body. -/
theorem isCore_lambdaChain_iff {params : List Tree} (h : ∀ p ∈ params, p.IsParameter)
    {body : Tree} : IsCore (lambdaChain params body) ↔ body.IsCore := by
  induction params with
  | nil => rfl
  | cons p ps ih =>
    rw [List.forall_mem_cons] at h
    have hchain : IsCore (lambdaChain (p :: ps) body) ↔
        p.IsParameter ∧ IsCore (lambdaChain ps body) := isCore_lambda_iff
    rw [hchain, ih h.2, and_iff_right h.1]

/-- Of the tuples, those of names can be bound. -/
theorem isParameter_comma_iff {ps : List Tree} :
    IsParameter (.branch .comma ps) ↔ ∀ p ∈ ps, p.kind = .identifier := by
  constructor
  · intro h
    cases h with
    | names _ _ _ hps => exact hps
  · exact IsParameter.names _ _ _

theorem ShapedParameter.isParameter {L : Kind → String → Prop} {p : Tree}
    (h : ShapedParameter L p) : p.IsParameter := by
  cases h with
  | names h =>
    cases h with
    | name => exact .name _ _ _
    | names => exact isParameter_comma_iff.mpr (List.forall_mem_map.mpr fun _ _ => rfl)
  | nothing => exact .nothing _ _ _

/-! ## 4. Patterns -/

/-- The names of a definition are a pattern without tuples inside. -/
theorem ShapedNames.isPattern {L : Kind → String → Prop} {p : Tree} (h : ShapedNames L p) :
    IsPattern p := by
  cases h with
  | name => exact .name _
  | names hn =>
    exact .tuple (by rwa [List.length_map]) (List.forall_mem_map.mpr fun x _ => .name x)

theorem ShapedParameter.bindsPattern {L : Kind → String → Prop} {p : Tree}
    (h : ShapedParameter L p) : BindsPattern p := by
  cases h with
  | names h => exact .inl h.isPattern
  | nothing => exact .inr rfl

/-- A pattern is either a name or a tuple. -/
theorem IsPattern.identifier_iff {p : Tree} (h : IsPattern p) :
    p.kind = .identifier ↔ p.kind ≠ .comma := by
  cases h with
  | name => exact iff_of_true rfl Kind.noConfusion
  | tuple => exact iff_of_false Kind.noConfusion fun h => h rfl

/-- A function of several parameters becomes canonical functions of one each. -/
theorem Canonical.lambdaChain {params : List Tree} (h : ∀ p ∈ params, BindsPattern p)
    {body : Tree} (hb : Canonical body) : Canonical (lambdaChain params body) := by
  induction params with
  | nil => exact hb
  | cons p ps ih =>
    rw [List.forall_mem_cons] at h
    exact .function h.1 (ih h.2)

/-- A local definition becomes the call of a function. -/
theorem Canonical.binding {x body value : Tree} (hx : IsPattern x) (hb : Canonical body)
    (hv : Canonical value) : Canonical (binding x body value) :=
  .operator (by decide) (.function (.inl hx) hb) hv

/-! ## 5. The standard forms of shapes -/

/-- What is known of the standard form of an expression. -/
structure Standard (t s : Tree) : Prop where
  canonical : Canonical s
  isCore_iff : s.IsCore ↔ ¬ t.NestsTuple

/-- What is known of the equation of a definition. -/
structure StandardEquation (d x e : Tree) : Prop where
  pattern : IsPattern x
  canonical : Canonical e
  isCore_iff : x.IsParameter ∧ e.IsCore ↔ ¬ d.NestsTuple
  comma_iff : x.kind = .comma ↔ d.bindsTuple = true

/-- A member of a group has a name in front of an expression of the core language. -/
theorem StandardEquation.member_iff {d x e : Tree} (h : StandardEquation d x e) :
    x.kind = .identifier ∧ e.IsCore ↔ ¬ (d.bindsTuple = true) ∧ ¬ d.NestsTuple := by
  rw [← h.comma_iff, ← h.isCore_iff, h.pattern.identifier_iff]
  refine and_congr_right fun hname => (and_iff_right ?_).symm
  cases h.pattern with
  | name x => exact .name _ _ _
  | tuple => exact absurd rfl hname

/-- **Shape by shape**: the standard form of a shape is canonical if those of its parts are, and it
is of the core language if no group in the shape nests a tuple. -/
theorem standardizingRules (L : Kind → String → Prop) :
    StandardizingRules L Standard StandardEquation where
  leaf text hk := by
    have hleaf := Canonical.leaf text hk
    refine ⟨hleaf, iff_of_true ?_ (not_nestsTuple_leaf ?_ text)⟩
    · rcases hk with rfl | rfl | rfl <;> exact .node rfl (by simp)
    · rcases hk with rfl | rfl | rfl <;> decide
  constant hk := by
    refine ⟨.constant hk, iff_of_true (.node (Kind.admits_of_mem_constants hk) (by simp)) ?_⟩
    have hne : ∀ k ∈ Kind.constants, k ≠ .simultDef := by decide
    exact (not_nestsTuple_branch (hne _ hk)).mpr (by simp)
  unary {kind _ _} hk ht := by
    obtain ⟨hadmits, hne⟩ : kind.Admits 1 ∧ kind ≠ .simultDef := by
      rcases hk with rfl | rfl
      · exact ⟨rfl, by decide⟩
      · exact ⟨rfl, by decide⟩
    refine ⟨.unary hk ht.canonical, ?_⟩
    rw [isCore_branch_iff hadmits, not_nestsTuple_branch hne, List.forall_mem_singleton,
      List.forall_mem_singleton, ht.isCore_iff]
  operator hk ht hu := by
    refine ⟨.operator hk ht.canonical hu.canonical, ?_⟩
    have hne : ∀ k ∈ Kind.operators, k ≠ .simultDef := by decide
    rw [isCore_pair_iff hk, not_nestsTuple_branch (hne _ hk), List.forall_mem_cons,
      List.forall_mem_singleton, ht.isCore_iff, hu.isCore_iff]
  tau hn h := by
    refine ⟨.tau (h.length_eq ▸ hn) ?_, ?_⟩
    · exact (forall_iff_of_forall₂ (p := fun _ => True)
        (fun _ _ h => iff_of_true trivial h.canonical) h).mp fun _ _ => trivial
    · rw [isCore_tau_iff, not_nestsTuple_branch (by decide)]
      exact (forall_iff_of_forall₂ (fun _ _ h => h.isCore_iff.symm) h).symm
  choice hc ht he := by
    refine ⟨.choice hc.canonical ht.canonical he.canonical, ?_⟩
    rw [isCore_choice_iff, not_nestsTuple_branch (by decide), List.forall_mem_cons,
      List.forall_mem_cons, List.forall_mem_singleton, hc.isCore_iff, ht.isCore_iff, he.isCore_iff]
  function hn hp hb := by
    refine ⟨.lambdaChain (fun p hmem => (hp p hmem).bindsPattern) hb.canonical, ?_⟩
    rw [isCore_lambdaChain_iff fun p hmem => (hp p hmem).isParameter,
      not_nestsTuple_branch (by decide), List.forall_mem_append, List.forall_mem_singleton,
      hb.isCore_iff]
    exact (and_iff_right fun p hmem => (hp p hmem).not_nestsTuple).symm
  letIn hd hb := by
    refine ⟨.binding hd.pattern hb.canonical hd.canonical, ?_⟩
    rw [isCore_binding_iff, hd.isCore_iff, hb.isCore_iff, not_nestsTuple_branch (by decide),
      List.forall_mem_cons, List.forall_mem_singleton]
  whereDef hd hb := by
    refine ⟨.binding hd.pattern hb.canonical hd.canonical, ?_⟩
    rw [isCore_binding_iff, hd.isCore_iff, hb.isCore_iff, not_nestsTuple_branch (by decide),
      List.forall_mem_cons, List.forall_mem_singleton, and_comm]
  infixCall f ht hu := by
    have hf : Canonical (.leaf .identifier f) := .leaf f (.inl rfl)
    refine ⟨.operator (by decide) (.operator (by decide) hf ht.canonical) hu.canonical, ?_⟩
    have hcore : IsCore (.leaf .identifier f) := .node rfl (by simp)
    rw [isCore_pair_iff (by decide), isCore_pair_iff (by decide), and_iff_right hcore,
      not_nestsTuple_branch (by decide), List.forall_mem_cons, List.forall_mem_cons,
      List.forall_mem_singleton, and_iff_right (not_nestsTuple_leaf (by decide) f),
      ht.isCore_iff, hu.isCore_iff]
  equal hp hv := by
    have hparam := ShapedParameter.names hp
    refine ⟨hp.isPattern, hv.canonical, ?_, ?_⟩
    · rw [and_iff_right hparam.isParameter, hv.isCore_iff, not_nestsTuple_branch (by decide),
        List.forall_mem_cons, List.forall_mem_singleton, and_iff_right hparam.not_nestsTuple]
    · exact decide_eq_true_iff.symm
  functionForm f hn hp hb := by
    refine ⟨.name f, .lambdaChain (fun p hmem => (hp p hmem).bindsPattern) hb.canonical, ?_,
      iff_of_false Kind.noConfusion ?_⟩
    · have hf : IsParameter (.leaf .identifier f) := .name _ _ _
      rw [isCore_lambdaChain_iff fun p hmem => (hp p hmem).isParameter,
        not_nestsTuple_branch (by decide), List.cons_append, List.forall_mem_cons,
        List.forall_mem_append, List.forall_mem_singleton, hb.isCore_iff, and_iff_right hf,
        and_iff_right (not_nestsTuple_leaf (by decide) f)]
      exact (and_iff_right fun p hmem => (hp p hmem).not_nestsTuple).symm
    · exact Bool.false_ne_true
  within h₁ h₂ := by
    refine ⟨h₂.pattern, .binding h₁.pattern h₂.canonical h₁.canonical, ?_, h₂.comma_iff⟩
    rw [isCore_binding_iff, h₁.isCore_iff, and_left_comm, h₂.isCore_iff,
      not_nestsTuple_branch (by decide), List.forall_mem_cons, List.forall_mem_singleton]
  simultaneous hn h := by
    have hlen := h.length_eq
    refine ⟨.tuple ?_ ?_, .tau ?_ ?_, ?_, iff_of_true rfl rfl⟩
    · rwa [List.length_map, ← hlen]
    · exact List.forall_mem_map.mpr ((forall_iff_of_forall₂ (p := fun _ => True)
        (fun _ _ h => iff_of_true trivial h.pattern) h).mp fun _ _ => trivial)
    · rwa [List.length_map, ← hlen]
    · exact List.forall_mem_map.mpr ((forall_iff_of_forall₂ (p := fun _ => True)
        (fun _ _ h => iff_of_true trivial h.canonical) h).mp fun _ _ => trivial)
    · -- the pattern is a tuple of names if no member binds a tuple
      rw [isParameter_comma_iff, isCore_tau_iff, List.forall_mem_map,
        List.forall_mem_map, ← forall₂_and, not_nestsTuple_simultDef]
      exact (forall_iff_of_forall₂ (fun _ _ h => h.member_iff.symm) h).symm
  recursive hd := by
    refine ⟨hd.pattern, .recursion hd.pattern hd.canonical, ?_, hd.comma_iff⟩
    have hstar : IsCore (.branch .yStar []) := .node rfl (by simp)
    rw [isCore_pair_iff (by decide), isCore_lambda_iff, and_iff_right hstar, and_self_left,
      hd.isCore_iff, not_nestsTuple_branch (by decide), List.forall_mem_singleton]

end Tree

namespace Program

open Rpal.Tree

/-! ## 6. Programs -/

/-- **What is parsed has a standard form**, and it is canonical.  Its control structures can be
built unless some group of definitions has a member that binds a tuple. -/
theorem canonical_of_parse {filename source : String} {t : Tree}
    (h : parse filename source = .ok t) :
    ∃ s, t.standardize = .ok s ∧ s.Canonical ∧
      ((∃ e, Control.structures s = .error e) ↔ t.NestsTuple) ∧
      ((∃ cs, Control.structures s = .ok cs) ↔ ¬ t.NestsTuple) := by
  obtain ⟨s, hs, hstandard⟩ := (shaped_of_parse h).standardizes (standardizingRules _)
  have hok : (∃ cs, Control.structures s = .ok cs) ↔ ¬ t.NestsTuple := by
    simp only [Control.structures_eq_ok_iff hstandard.canonical.coreShape, exists_and_left,
      exists_eq, and_true]
    exact hstandard.isCore_iff
  refine ⟨s, hs, hstandard.canonical, ?_, hok⟩
  rw [← not_iff_not, ← hok]
  cases Control.structures s with
  | ok cs => simp
  | error e => simp

/-- `( let ( ( x = ( 1 ) ) and ( y , z = ( nil ) ) ) in ( x ) )` -/
theorem canonical_of_parse_pair :
    let t : Tree := .branch .letIn [.branch .simultDef [
        .branch .equal [.leaf .identifier "x", .leaf .integer "1"],
        .branch .equal [.branch .comma (["y", "z"].map (.leaf .identifier)), .branch .nil []]],
      .leaf .identifier "x"]
    parse "<input>" "( let ( ( x = ( 1 ) ) and ( y , z = ( nil ) ) ) in ( x ) )" = .ok t ∧
      ∃ s e, t.standardize = .ok s ∧ s.Canonical ∧ Control.structures s = .error e := by
  intro t
  have hname : ∀ x ∈ ["x", "y", "z"], Token.IsName x := by
    intro x hx
    simp only [List.mem_cons, List.not_mem_nil, or_false] at hx
    rcases hx with rfl | rfl | rfl <;>
      exact ⟨⟨_, [], rfl, by decide, List.forall_mem_nil _⟩, by decide⟩
  have hone : Token.IsDigits "1" := ⟨by decide, List.all_eq_true.mp (by decide)⟩
  have ht : t.WellFormed .expression := by
    refine .letIn (.simultaneous (Nat.le_refl 2) ?_) (.name (hname "x" (by simp)))
    refine List.forall_mem_cons.mpr ⟨.equal (.name (hname "x" (by simp))) (.integer hone),
      List.forall_mem_singleton.mpr (.equal (.names (Nat.le_refl 2) ?_) (.constant (by decide)))⟩
    exact fun x hx => hname x (List.mem_cons_of_mem _ hx)
  have hparse : parse "<input>" "( let ( ( x = ( 1 ) ) and ( y , z = ( nil ) ) ) in ( x ) )" =
      .ok t := parse_of_wellFormed ht "<input>"
  obtain ⟨s, hs, hcanonical, hfail, -⟩ := canonical_of_parse hparse
  obtain ⟨e, he⟩ := hfail.mpr ⟨_, List.mem_cons_self, _, List.mem_cons_of_mem _
    List.mem_cons_self, rfl⟩
  exact ⟨hparse, s, e, hs, hcanonical, he⟩

end Program

end Rpal
