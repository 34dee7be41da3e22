/-
# Trees that are written with brackets

A well-formed tree is derived from its text with brackets (`derives_render`), so parsing undoes
`render`; and it returns well-formed trees only, since the tokens of a text have a spelling
(`Program.parse_render`).
-/
import Rpal.Proofs.Grammar.Trees
import Rpal.Proofs.Token.Scanning

namespace Rpal

namespace Grammar

open Rule Rpal.Tree

variable {ts us vs : List Token} {s t u : Tree}

/-! ## 1. Phrases in brackets -/

/-- An expression in brackets is an operand. -/
theorem derives_bracket (h : Derives .expression ts t) :
    Derives .operand (.symbol .lparen :: (ts ++ [.symbol .rparen])) t := by
  obtain ⟨d, rfl, rfl⟩ := h
  exact ⟨.bracket d, rfl, rfl⟩

/-- A definition in brackets is the simplest kind of definition. -/
theorem derives_bracketed (h : Derives .definition ts t) :
    Derives .basic (.symbol .lparen :: (ts ++ [.symbol .rparen])) t := by
  obtain ⟨d, rfl, rfl⟩ := h
  exact ⟨.bracketed d, rfl, rfl⟩

/-- An operand is an operand of every chain. -/
theorem Derives.operandOf (c : Chain) (h : Derives .operand ts t) : Derives c.operand ts t := by
  cases c with
  | augmented => exact h.climb 10
  | disjunction => exact h.climb 8
  | conjunction => exact h.climb 7
  | sum => exact h.climb 4
  | product => exact h.climb 3

/-- A chain is an expression. -/
theorem Derives.ofChain {c : Chain} (h : Derives (.chain c) ts t) : Derives .expression ts t := by
  cases c with
  | augmented => exact h.climb 3
  | disjunction => exact h.climb 5
  | conjunction => exact h.climb 6
  | sum => exact h.climb 9
  | product => exact h.climb 10

/-- Two operands with an operator between them. -/
theorem derives_operator {kind : Kind} (hk : kind ∈ Kind.operators) (hs : Derives .operand ts s)
    (ht : Derives .operand us t) :
    Derives .expression (ts ++ (operatorToken kind ++ us)) (.branch kind [s, t]) := by
  have hlink : ∀ (c : Chain) (op : Token), c.operator? op = some kind →
      Derives .expression (ts ++ op :: us) (.branch kind [s, t]) := by
    intro c op hop
    obtain ⟨d, rfl, rfl⟩ := hs.operandOf c
    have hl : Derives (.chain c) d.yield d.tree := ⟨.start c d, rfl, rfl⟩
    exact (hl.link hop (ht.operandOf c)).ofChain
  have hcompare : ∀ op : Token, comparison? op = some kind →
      Derives .expression (ts ++ op :: us) (.branch kind [s, t]) := by
    intro op hop
    have hl : Derives (.chain .sum) ts s := hs.climb 5
    exact (Derives.compare hop hl (ht.climb 5)).climb 8
  simp only [Kind.operators, List.mem_cons, List.not_mem_nil, or_false] at hk
  -- in the order of `Kind.operators`: thirteen are links of chains or comparisons; the power and
  -- the application have productions of their own
  rcases hk with rfl | rfl | rfl | rfl | rfl | rfl | rfl | rfl | rfl | rfl | rfl | rfl | rfl |
    rfl | rfl
  · exact hlink .disjunction _ rfl
  · exact hlink .conjunction _ rfl
  · exact hcompare _ rfl
  · exact hcompare _ rfl
  · exact hcompare _ rfl
  · exact hcompare _ rfl
  · exact hcompare _ rfl
  · exact hcompare _ rfl
  · exact hlink .sum _ rfl
  · exact hlink .sum _ rfl
  · exact hlink .product _ rfl
  · exact hlink .product _ rfl
  · obtain ⟨d, rfl, rfl⟩ : Derives .infixCall ts s := hs.climb 2
    obtain ⟨e, rfl, rfl⟩ : Derives .power us t := ht.climb 3
    exact Derives.climb 11 (n := .power) ⟨.raise d e, rfl, rfl⟩
  · exact hlink .augmented _ rfl
  · exact (Derives.apply (hs.climb 1) ht).climb 13

/-- At least two phrases with a separator between any two. -/
theorem derives_separated {n m : Nonterminal} {kind : Kind} {separator : Token}
    (list : ∀ ts t (ds : Derivations m), Derives m ts t →
      Derives n (ts ++ ds.yield [separator]) (.branch kind (t :: ds.trees)))
    {trees : List Tree} (hn : 2 ≤ trees.length) (h : ∀ t ∈ trees, Derives m t.render t) :
    Derives n (separated separator (trees.map render)) (.branch kind trees) := by
  obtain ⟨first, second, rest, rfl⟩ : ∃ first second rest, trees = first :: second :: rest := by
    match trees, hn with
    | first :: second :: rest, _ => exact ⟨first, second, rest, rfl⟩
  simp only [List.forall_mem_cons] at h
  have hchunks : Chunks (fun us t => ∃ vs, us = [separator] ++ vs ∧ Derives m vs t)
      ((rest.map render).flatMap (separator :: ·)) rest := by
    have hrest := h.2.2
    clear hn h
    induction rest with
    | nil => exact .nil
    | cons t rest ih =>
      rw [List.forall_mem_cons] at hrest
      exact .cons ⟨_, rfl, hrest.1⟩ (ih hrest.2)
  obtain ⟨ds, hyield, htrees⟩ := exists_derivations hchunks h.2.1
  have hlist := list _ _ ds h.1
  rw [hyield, htrees] at hlist
  exact hlist

/-! ## 2. Parameters -/

theorem renderNames_comma (x : String) (xs : List String) :
    renderNames (.branch .comma ((x :: xs).map (.leaf .identifier))) =
      .identifier x :: commaNames xs := by
  rw [renderNames, names_comma, List.map_cons, separated, List.flatMap_map]
  rfl

/-- Names with commas are read as a group, and a single one as itself. -/
theorem derives_names (h : ShapedNames IsTokenText t) : Derives .names t.renderNames t := by
  cases h with
  | @name x h => exact ⟨.name x, rfl, rfl⟩
  | @names xs hn h =>
    match xs, hn with
    | x :: y :: rest, _ =>
      rw [renderNames_comma]
      exact ⟨.names x y rest, rfl, rfl⟩

/-- A name, names in brackets, or empty brackets. -/
theorem derives_parameter (h : ShapedParameter IsTokenText t) :
    Derives .parameter t.renderParameter t := by
  cases h with
  | names h =>
    obtain ⟨d, hyield, htree⟩ := derives_names h
    cases h with
    | @name x => exact ⟨.parameter x, rfl, rfl⟩
    | names =>
      refine ⟨.pattern d, ?_, htree⟩
      rw [Derivation.yield, hyield]
      rfl
  | nothing => exact ⟨.nothing, rfl, rfl⟩

/-- Parameters side by side, at least one. -/
theorem exists_parameters {params : List Tree} (hn : params ≠ [])
    (h : ∀ p ∈ params, ShapedParameter IsTokenText p) : ∃ ds : Derivations .parameter,
      ds.yield [] = params.flatMap renderParameter ∧ ds.trees = params := by
  induction params with
  | nil => exact absurd rfl hn
  | cons p params ih =>
    rw [List.forall_mem_cons] at h
    obtain ⟨d, hyield, htree⟩ := derives_parameter h.1
    cases params with
    | nil =>
      exact ⟨.last d, by simp [Derivations.yield, hyield], by simp [Derivations.trees, htree]⟩
    | cons q params =>
      obtain ⟨ds, hyields, htrees⟩ := ih (List.cons_ne_nil _ _) h.2
      exact ⟨.cons d ds, by simp [Derivations.yield, hyield, hyields],
        by simp [Derivations.trees, htree, htrees]⟩

/-! ## 3. Trees -/

/-- What a tree in brackets is derived from. -/
def closed : Category → Nonterminal
  | .expression => .operand
  | .definition => .basic

/-- A token in brackets. -/
theorem derives_leaf {kind : Kind} {text : String} {token : Token}
    (h : atom? token = some (.leaf kind text)) (hp : renderNode kind (some text) [] [] = [token]) :
    Derives .operand (render (.leaf kind text)) (.leaf kind text) := by
  rw [render_leaf, hp]
  exact derives_bracket ((derives_atom h).climb 14)

/-- **A well-formed tree is derived from its text with brackets.** -/
theorem derives_render {c : Category} (h : WellFormed c t) :
    Derives (closed c) t.render t := by
  -- A leaf is its own phrase.  A node is derived by its production from the phrases of its
  -- children, each taken up to the level that the production asks for, and then put in brackets.
  induction h with
  | name => exact derives_leaf rfl rfl
  | integer => exact derives_leaf rfl rfl
  | string => exact derives_leaf rfl rfl
  | constant hk =>
    rw [render_branch]
    simp only [Kind.constants, List.mem_cons, List.not_mem_nil, or_false] at hk
    rcases hk with rfl | rfl | rfl | rfl <;> exact derives_bracket ((derives_atom rfl).climb 14)
  | negative _ ih =>
    rw [render_branch]
    obtain ⟨d, hd, rfl⟩ : Derives (.chain .product) _ _ := ih.climb 4
    refine derives_bracket (Derives.climb 9 (n := .chain .sum) ⟨.negative d, ?_, rfl⟩)
    rw [Derivation.yield, hd]
    rfl
  | not _ ih =>
    rw [render_branch]
    obtain ⟨d, hd, rfl⟩ : Derives .comparison _ _ := ih.climb 6
    refine derives_bracket (Derives.climb 7 (n := .negation) ⟨.not d, ?_, rfl⟩)
    rw [Derivation.yield, hd]
    rfl
  | @operator kind left right hk _ _ ihl ihr =>
    rw [render_branch]
    have hnode : renderNode kind none [left, right] [left.render, right.render] =
        left.render ++ (operatorToken kind ++ right.render) := by
      simp only [Kind.operators, List.mem_cons, List.not_mem_nil, or_false] at hk
      rcases hk with rfl | rfl | rfl | rfl | rfl | rfl | rfl | rfl | rfl | rfl | rfl | rfl | rfl |
        rfl | rfl <;> rfl
    simp only [List.map_cons, List.map_nil, hnode]
    exact derives_bracket (derives_operator hk ihl ihr)
  | tau hn _ ih =>
    rw [render_branch]
    refine derives_bracket (Derives.climb 2 (n := .tuple) (derives_separated
      (m := .chain .augmented) ?_ hn fun t ht => (ih t ht).climb 11))
    rintro _ _ ds ⟨d, rfl, rfl⟩
    exact ⟨.tau d ds, rfl, rfl⟩
  | choice _ _ _ ihc iht ihe =>
    rw [render_branch]
    have hchoice := Derives.choice (ihc.climb 9) (iht.climb 10) (ihe.climb 10)
    exact derives_bracket (hchoice.climb 4)
  | @function params body hn hp _ ih =>
    rw [render_branch]
    obtain ⟨ds, hds, rfl⟩ := exists_parameters hn hp
    obtain ⟨e, he, rfl⟩ : Derives .expression _ _ := ih.climb 14
    refine derives_bracket ⟨.function ds e, ?_, rfl⟩
    simp only [renderNode, List.dropLast_concat, List.map_append, List.map_cons, List.map_nil,
      List.getLast?_concat, Option.getD_some, Derivation.yield, hds, he]
  | letIn _ _ ihd ihb =>
    rw [render_branch]
    obtain ⟨d, hd, rfl⟩ : Derives .definition _ _ := ihd.climb 3
    obtain ⟨e, he, rfl⟩ : Derives .expression _ _ := ihb.climb 14
    refine derives_bracket ⟨.letIn d e, ?_, rfl⟩
    rw [Derivation.yield, hd, he]
    rfl
  | whereDef _ _ ihb ihd =>
    rw [render_branch]
    obtain ⟨e, he, rfl⟩ : Derives .tuple _ _ := ihb.climb 12
    obtain ⟨d, hd, rfl⟩ : Derives .recursive _ _ := ihd.climb 1
    refine derives_bracket (Derives.climb 1 (n := .clause) ⟨.whereDef e d, ?_, rfl⟩)
    rw [Derivation.yield, hd, he]
    rfl
  | @infixCall _ _ f _ _ _ ihl ihr =>
    rw [render_branch]
    obtain ⟨d, hd, rfl⟩ : Derives .infixCall _ _ := ihl.climb 2
    obtain ⟨e, he, rfl⟩ : Derives .application _ _ := ihr.climb 1
    refine derives_bracket (Derives.climb 12 (n := .infixCall) ⟨.call d f e, ?_, rfl⟩)
    rw [Derivation.yield, hd, he]
    rfl
  | equal hp _ ih =>
    rw [render_branch]
    obtain ⟨d, hd, rfl⟩ := derives_names hp
    obtain ⟨e, he, rfl⟩ : Derives .expression _ _ := ih.climb 14
    refine derives_bracketed (Derives.climb 3 (n := .basic) ⟨.equal d e, ?_, rfl⟩)
    rw [Derivation.yield, hd, he]
    rfl
  | @functionForm f params body _ hn hp _ ih =>
    rw [render_branch]
    obtain ⟨ds, hds, rfl⟩ := exists_parameters hn hp
    obtain ⟨e, he, rfl⟩ : Derives .expression _ _ := ih.climb 14
    refine derives_bracketed (Derives.climb 3 (n := .basic) ⟨.functionForm f ds e, ?_, rfl⟩)
    simp only [renderNode, List.cons_append, List.dropLast_concat, List.map_cons, List.map_append,
      List.map_nil, Derivation.yield, hds, he]
    rw [← @List.cons_append _ _ _ [e.tree.render], List.getLast?_concat, Option.getD_some]
    rfl
  | within _ _ ih₁ ih₂ =>
    rw [render_branch]
    obtain ⟨d, hd, rfl⟩ : Derives .simultaneous _ _ := ih₁.climb 2
    obtain ⟨e, he, rfl⟩ : Derives .definition _ _ := ih₂.climb 3
    refine derives_bracketed ⟨.within d e, ?_, rfl⟩
    rw [Derivation.yield, hd, he]
    rfl
  | simultaneous hn _ ih =>
    rw [render_branch]
    refine derives_bracketed (Derives.climb 1 (n := .simultaneous) (derives_separated
      (m := .recursive) ?_ hn fun d hd => (ih d hd).climb 1))
    rintro _ _ ds ⟨d, rfl, rfl⟩
    exact ⟨.and d ds, rfl, rfl⟩
  | recursive _ ih =>
    rw [render_branch]
    obtain ⟨d, hd, rfl⟩ : Derives .basic _ _ := ih
    refine derives_bracketed (Derives.climb 2 (n := .recursive) ⟨.recursive d, ?_, rfl⟩)
    rw [Derivation.yield, hd]
    rfl

end Grammar

namespace Program

open Grammar

/-! ## 4. Parsing -/

/-- **What is parsed is well-formed** if the text has no tab and no reserved word directly behind
a digit. -/
theorem wellFormed_of_parse {filename source : String} {t : Tree} (htab : '\t' ∉ source.toList)
    (hdigit : ¬ Token.ReservedBehindDigit source.toList) (h : parse filename source = .ok t) :
    Tree.WellFormed .expression t := by
  refine shaped_of_tokens h fun hcomplete token ht => Token.Lexical.carries ?_
  rw [Text.expandTabs_eq_self htab] at hcomplete ht
  exact Scan.lexical_of_scan htab hdigit hcomplete token ht

/-- The tree is derived, and as derivations are unique nothing else is read. -/
theorem parse_of_wellFormed {t : Tree} (h : Tree.WellFormed .expression t) (filename : String) :
    parse filename (Token.written t.render) = .ok t :=
  (parse_written_iff_derives h.spelled filename t).mpr ((derives_render h).climb 14)

/-- **Parsing undoes writing with brackets**, and what is parsed can be written so. -/
theorem parse_render (filename : String) :
    (∀ t, Tree.WellFormed .expression t → parse filename (Token.written t.render) = .ok t) ∧
    ∀ source t, '\t' ∉ source.toList → ¬ Token.ReservedBehindDigit source.toList →
      parse filename source = .ok t → Tree.WellFormed .expression t :=
  ⟨fun _ h => parse_of_wellFormed h filename,
    fun _ _ htab hdigit h => wellFormed_of_parse htab hdigit h⟩

/-- `( fn x . ( - ( x ) ) )` -/
theorem parse_render_function :
    let t : Tree := .branch .lambda [.leaf .identifier "x",
      .branch .neg [.leaf .identifier "x"]]
    parse "<input>" "( fn x . ( - ( x ) ) )" = .ok t ∧ t.WellFormed .expression := by
  intro t
  have hx : Token.IsName "x" := ⟨⟨'x', [], rfl, by decide, List.forall_mem_nil _⟩, by decide⟩
  have ht : t.WellFormed .expression :=
    .function (List.cons_ne_nil _ []) (List.forall_mem_singleton.mpr (.names (.name hx)))
      (.negative (.name hx))
  have hparse : parse "<input>" "( fn x . ( - ( x ) ) )" = .ok t := (parse_render "<input>").1 t ht
  refine ⟨hparse, (parse_render "<input>").2 _ t (by decide) ?_ hparse⟩
  rintro ⟨before, digit, rest, heq, hdigit, -⟩
  have hnone : "( fn x . ( - ( x ) ) )".toList.any Char.isDigit = false := by decide
  rw [heq, List.any_append, List.any_cons, hdigit] at hnone
  simp at hnone

end Program

end Rpal
