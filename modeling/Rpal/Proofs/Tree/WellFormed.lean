/-
# Well-formed trees

A tree is `Shaped` if it has the kinds, the numbers of children and the roles of children that
the productions build; a tuple, a group of names and a group of definitions have at least two
members.  It is well-formed if moreover the texts of its leaves are those of tokens: names are
not reserved, integers are digits, strings can stand between quotes.

`render` writes a tree with brackets around every expression and every definition in it:

    render ( fn p . E )    =   ( fn p . render E )
    render ( E1 + E2 )     =   ( render E1 + render E2 )
    render ( rec D )       =   ( rec render D )
-/
import Rpal.Proofs.Token.Spelling
import Rpal.Proofs.Tree.Raw

namespace Rpal

open Token (IsName IsDigits IsLiteral)

namespace Kind

/-- The kinds of leaves without a text. -/
def constants : List Kind := [.trueValue, .falseValue, .nil, .dummy]

/-- The kinds of operators with two operands, application among them. -/
def operators : List Kind :=
  [.or, .and, .gr, .ge, .ls, .le, .eq, .ne, .plus, .minus, .mult, .div, .exp, .aug, .gamma]

end Kind

namespace Tree

/-! ## 1. Shapes -/

/-- A name or at least two names.  `L` tells which texts the leaves can have. -/
inductive ShapedNames (L : Kind → String → Prop) : Tree → Prop where
  | name {x : String} (h : L .identifier x) : ShapedNames L (.leaf .identifier x)
  | names {xs : List String} (hn : 2 ≤ xs.length) (h : ∀ x ∈ xs, L .identifier x) :
      ShapedNames L (.branch .comma (xs.map (.leaf .identifier)))

/-- Names or `()`. -/
inductive ShapedParameter (L : Kind → String → Prop) : Tree → Prop where
  | names {p : Tree} (h : ShapedNames L p) : ShapedParameter L p
  | nothing : ShapedParameter L (.branch .paren [])

/-- A tree as the productions build it, from leaves whose texts satisfy `L`. -/
inductive Shaped (L : Kind → String → Prop) : Category → Tree → Prop where
  | name {x : String} (h : L .identifier x) : Shaped L .expression (.leaf .identifier x)
  | integer {digits : String} (h : L .integer digits) : Shaped L .expression (.leaf .integer digits)
  | string {raw : String} (h : L .string raw) : Shaped L .expression (.leaf .string raw)
  | constant {kind : Kind} (hk : kind ∈ Kind.constants) : Shaped L .expression (.branch kind [])
  | negative {t : Tree} (h : Shaped L .expression t) : Shaped L .expression (.branch .neg [t])
  | not {t : Tree} (h : Shaped L .expression t) : Shaped L .expression (.branch .not [t])
  | operator {kind : Kind} {left right : Tree} (hk : kind ∈ Kind.operators)
      (hl : Shaped L .expression left) (hr : Shaped L .expression right) :
      Shaped L .expression (.branch kind [left, right])
  | tau {ts : List Tree} (hn : 2 ≤ ts.length) (h : ∀ t ∈ ts, Shaped L .expression t) :
      Shaped L .expression (.branch .tau ts)
  | choice {condition thenPart elsePart : Tree} (hc : Shaped L .expression condition)
      (ht : Shaped L .expression thenPart) (he : Shaped L .expression elsePart) :
      Shaped L .expression (.branch .conditional [condition, thenPart, elsePart])
  | function {params : List Tree} {body : Tree} (hn : params ≠ [])
      (hp : ∀ p ∈ params, ShapedParameter L p) (hb : Shaped L .expression body) :
      Shaped L .expression (.branch .lambda (params ++ [body]))
  | letIn {d body : Tree} (hd : Shaped L .definition d) (hb : Shaped L .expression body) :
      Shaped L .expression (.branch .letIn [d, body])
  | whereDef {body d : Tree} (hb : Shaped L .expression body) (hd : Shaped L .definition d) :
      Shaped L .expression (.branch .whereDef [body, d])
  | infixCall {left right : Tree} {f : String} (hf : L .identifier f)
      (hl : Shaped L .expression left) (hr : Shaped L .expression right) :
      Shaped L .expression (.branch .atCall [left, .leaf .identifier f, right])
  | equal {pattern value : Tree} (hp : ShapedNames L pattern)
      (hv : Shaped L .expression value) : Shaped L .definition (.branch .equal [pattern, value])
  | functionForm {f : String} {params : List Tree} {body : Tree} (hf : L .identifier f)
      (hn : params ≠ []) (hp : ∀ p ∈ params, ShapedParameter L p)
      (hb : Shaped L .expression body) :
      Shaped L .definition (.branch .functionForm (.leaf .identifier f :: params ++ [body]))
  | within {first second : Tree} (h₁ : Shaped L .definition first)
      (h₂ : Shaped L .definition second) :
      Shaped L .definition (.branch .within [first, second])
  | simultaneous {ds : List Tree} (hn : 2 ≤ ds.length)
      (h : ∀ d ∈ ds, Shaped L .definition d) : Shaped L .definition (.branch .simultDef ds)
  | recursive {d : Tree} (h : Shaped L .definition d) :
      Shaped L .definition (.branch .recDef [d])

/-- The texts of tokens. -/
def IsTokenText : Kind → String → Prop
  | .identifier, x => IsName x
  | .integer, digits => IsDigits digits
  | .string, raw => IsLiteral raw
  | _, _ => False

/-- A well-formed tree. -/
abbrev WellFormed : Category → Tree → Prop := Shaped IsTokenText

end Tree

namespace Token

/-- The text of a token is one that leaves can have. -/
def Carries (L : Kind → String → Prop) : Token → Prop
  | identifier x => L .identifier x
  | integer digits => L .integer digits
  | string raw => L .string raw
  | keyword _ | symbol _ => True

/-- What has a spelling may stand in a leaf: the two notions ask the same of each sort of token. -/
theorem Lexical.carries {t : Token} (h : t.Lexical) : t.Carries Tree.IsTokenText := by
  cases t <;> exact h

end Token

namespace Tree

/-! ## 2. Trees with brackets -/

/-- Parts with a separator between any two. -/
def separated (separator : Token) : List (List Token) → List Token
  | [] => []
  | ts :: rest => ts ++ rest.flatMap (separator :: ·)

/-- The names of a parameter. -/
def names (p : Tree) : List String :=
  if p.kind = .identifier then p.text.toList else p.children.filterMap (·.text)

/-- The names of a group are those of its children. -/
theorem names_comma (xs : List String) :
    names (.branch .comma (xs.map (.leaf .identifier))) = xs := by
  simp only [names, branch, if_neg (by decide : Kind.comma ≠ Kind.identifier), List.filterMap_map]
  exact List.filterMap_some

/-- Names with commas between them. -/
def renderNames (p : Tree) : List Token :=
  separated (.symbol .comma) (p.names.map fun x => [.identifier x])

/-- A parameter of a function: a name, or names in brackets. -/
def renderParameter (p : Tree) : List Token :=
  if p.kind = .identifier then p.renderNames
  else .symbol .lparen :: (p.renderNames ++ [.symbol .rparen])

/-- The token of an operator with two operands. -/
def operatorToken : Kind → List Token
  | .or => [.keyword .or]
  | .and => [.symbol .ampersand]
  | .gr => [.keyword .gr]
  | .ge => [.keyword .ge]
  | .ls => [.keyword .ls]
  | .le => [.keyword .le]
  | .eq => [.keyword .eq]
  | .ne => [.keyword .ne]
  | .plus => [.symbol .plus]
  | .minus => [.symbol .minus]
  | .mult => [.symbol .times]
  | .div => [.symbol .divide]
  | .exp => [.symbol .power]
  | .aug => [.keyword .aug]
  | _ => []

/-- What a node writes around its children; `parts` are the children as they are written. -/
def renderNode : Kind → Option String → List Tree → List (List Token) → List Token
  | .identifier, some x, _, _ => [.identifier x]
  | .integer, some digits, _, _ => [.integer digits]
  | .string, some raw, _, _ => [.string raw]
  | .trueValue, _, _, _ => [.keyword .true]
  | .falseValue, _, _, _ => [.keyword .false]
  | .nil, _, _, _ => [.keyword .nil]
  | .dummy, _, _, _ => [.keyword .dummy]
  | .neg, _, _, [t] => .symbol .minus :: t
  | .not, _, _, [t] => .keyword .not :: t
  | .tau, _, _, ts => separated (.symbol .comma) ts
  | .conditional, _, _, [condition, thenPart, elsePart] =>
    condition ++ .symbol .arrow :: (thenPart ++ .symbol .bar :: elsePart)
  | .lambda, _, children, parts =>
    .keyword .fnWord :: (children.dropLast.flatMap renderParameter ++
      .symbol .dot :: parts.getLast?.getD [])
  | .letIn, _, _, [d, body] => .keyword .letWord :: (d ++ .keyword .inWord :: body)
  | .whereDef, _, _, [body, d] => body ++ .keyword .whereWord :: d
  | .atCall, _, [_, f, _], [left, _, right] => left ++ .symbol .at :: (f.renderNames ++ right)
  | .equal, _, [pattern, _], [_, value] => pattern.renderNames ++ .symbol .equals :: value
  | .functionForm, _, f :: params, parts =>
    f.renderNames ++ (params.dropLast.flatMap renderParameter ++
      .symbol .equals :: parts.getLast?.getD [])
  | .within, _, _, [first, second] => first ++ .keyword .within :: second
  | .simultDef, _, _, ds => separated (.keyword .and) ds
  | .recDef, _, _, [d] => .keyword .recWord :: d
  | kind, _, _, [left, right] => left ++ (operatorToken kind ++ right)
  | _, _, _, _ => []

mutual

/-- A tree with brackets around every expression and every definition in it. -/
def render : Tree → List Token
  | ⟨kind, text, children, _⟩ =>
    .symbol .lparen :: (renderNode kind text children (renderAll children) ++ [.symbol .rparen])

/-- Neighbours as they are written. -/
def renderAll : List Tree → List (List Token)
  | [] => []
  | t :: ts => t.render :: renderAll ts

end

/-- The mutual definition is a `map`; proofs use it in this form only. -/
theorem renderAll_eq_map (ts : List Tree) : renderAll ts = ts.map render := by
  induction ts with
  | nil => rfl
  | cons t ts ih => rw [renderAll, ih, List.map_cons]

@[simp]
theorem render_leaf (kind : Kind) (text : String) :
    render (.leaf kind text) =
      .symbol .lparen :: (renderNode kind (some text) [] [] ++ [.symbol .rparen]) := rfl

@[simp]
theorem render_branch (kind : Kind) (ts : List Tree) :
    render (.branch kind ts) =
      .symbol .lparen :: (renderNode kind none ts (ts.map render) ++ [.symbol .rparen]) := by
  rw [branch, render, renderAll_eq_map]

/-! ## 3. The tokens of a well-formed tree -/

/-- All tokens have a spelling. -/
def Spelled (ts : List Token) : Prop := ∀ t ∈ ts, t.Lexical

theorem Spelled.append {ts us : List Token} (h : Spelled ts) (h' : Spelled us) :
    Spelled (ts ++ us) := List.forall_mem_append.mpr ⟨h, h'⟩

theorem Spelled.keyword (w : Keyword) {ts : List Token} (h : Spelled ts) :
    Spelled (.keyword w :: ts) := List.forall_mem_cons.mpr ⟨trivial, h⟩

theorem Spelled.symbol (s : Symbol) {ts : List Token} (h : Spelled ts) :
    Spelled (.symbol s :: ts) := List.forall_mem_cons.mpr ⟨trivial, h⟩

theorem spelled_nil : Spelled [] := fun _ h => by cases h

theorem spelled_singleton {t : Token} (h : t.Lexical) : Spelled [t] :=
  List.forall_mem_singleton.mpr h

/-- Brackets around spelled tokens. -/
theorem Spelled.bracket {ts : List Token} (h : Spelled ts) :
    Spelled (.symbol .lparen :: (ts ++ [.symbol .rparen])) :=
  (h.append (spelled_nil.symbol .rparen)).symbol .lparen

theorem spelled_flatMap {α : Type} {f : α → List Token} {as : List α}
    (h : ∀ a ∈ as, Spelled (f a)) : Spelled (as.flatMap f) := fun t ht => by
  obtain ⟨a, ha, hmem⟩ := List.mem_flatMap.mp ht
  exact h a ha t hmem

/-- Separators that have a spelling do no harm. -/
theorem spelled_separated (separator : Token) (hs : separator.Lexical) {parts : List (List Token)}
    (h : ∀ ts ∈ parts, Spelled ts) : Spelled (separated separator parts) := by
  cases parts with
  | nil => exact spelled_nil
  | cons ts rest =>
    rw [List.forall_mem_cons] at h
    exact h.1.append (spelled_flatMap fun us hus => List.forall_mem_cons.mpr ⟨hs, h.2 us hus⟩)

/-- A name, or names with commas. -/
theorem ShapedNames.spelled {p : Tree} (h : ShapedNames IsTokenText p) : Spelled p.renderNames := by
  have hnames : ∀ x ∈ p.names, IsName x := by
    cases h with
    | name h => exact List.forall_mem_singleton.mpr h
    | names _ h =>
      rw [names_comma]
      exact h
  refine spelled_separated (.symbol .comma) trivial fun ts hts => ?_
  obtain ⟨x, hx, rfl⟩ := List.mem_map.mp hts
  exact spelled_singleton (t := .identifier x) (hnames x hx)

/-- A parameter is written like names, in brackets where it is not a single name. -/
theorem ShapedParameter.spelled {p : Tree} (h : ShapedParameter IsTokenText p) :
    Spelled p.renderParameter := by
  rw [renderParameter]
  cases h with
  | names h =>
    split
    · exact h.spelled
    · exact h.spelled.bracket
  | nothing => exact spelled_nil.bracket

/-- **The tokens of a well-formed tree** have a spelling. -/
theorem Shaped.spelled {c : Category} {t : Tree} (h : WellFormed c t) : Spelled t.render := by
  induction h with
  | name h => exact (spelled_singleton (t := .identifier _) h).bracket
  | integer h => exact (spelled_singleton (t := .integer _) h).bracket
  | string h => exact (spelled_singleton (t := .string _) h).bracket
  | constant hk =>
    simp only [Kind.constants, List.mem_cons, List.not_mem_nil, or_false] at hk
    rcases hk with rfl | rfl | rfl | rfl <;> exact (spelled_nil.keyword _).bracket
  | negative _ ih => exact (ih.symbol .minus).bracket
  | not _ ih => exact (ih.keyword .not).bracket
  | operator hk _ _ ihl ihr =>
    -- the token between the operands: a word, a symbol, or none for an application
    have hright := fun ts (hts : Spelled ts) => ihl.append (hts.append ihr)
    simp only [Kind.operators, List.mem_cons, List.not_mem_nil, or_false] at hk
    rcases hk with rfl | rfl | rfl | rfl | rfl | rfl | rfl | rfl | rfl | rfl | rfl | rfl | rfl |
      rfl | rfl
    all_goals first
      | exact (hright _ (spelled_nil.keyword _)).bracket
      | exact (hright _ (spelled_nil.symbol _)).bracket
      | exact (hright _ spelled_nil).bracket
  | tau _ _ ih =>
    rw [render_branch]
    exact (spelled_separated (.symbol .comma) trivial
      (List.forall_mem_map.mpr ih)).bracket
  | choice _ _ _ ihc iht ihe =>
    exact (ihc.append ((iht.append (ihe.symbol .bar)).symbol .arrow)).bracket
  | function _ hp _ ih =>
    rw [render_branch]
    simp only [renderNode, List.dropLast_concat, List.map_append, List.map_cons, List.map_nil,
      List.getLast?_concat, Option.getD_some]
    exact (((spelled_flatMap fun p hmem => (hp p hmem).spelled).append
      (ih.symbol .dot)).keyword .fnWord).bracket
  | letIn _ _ ihd ihb => exact ((ihd.append (ihb.keyword .inWord)).keyword .letWord).bracket
  | whereDef _ _ ihb ihd => exact (ihb.append (ihd.keyword .whereWord)).bracket
  | infixCall hf _ _ ihl ihr =>
    exact (ihl.append (((ShapedNames.name hf).spelled.append ihr).symbol .at)).bracket
  | equal hp _ ih => exact (hp.spelled.append (ih.symbol .equals)).bracket
  | @functionForm f params body hf _ hp _ ih =>
    rw [render_branch]
    simp only [renderNode, List.cons_append, List.dropLast_concat, List.map_cons, List.map_append,
      List.map_nil]
    -- the name is written in front, so the body is the last of all parts and not of the parameters
    rw [← @List.cons_append _ _ _ [body.render], List.getLast?_concat, Option.getD_some]
    exact ((ShapedNames.name hf).spelled.append ((spelled_flatMap fun p hmem =>
      (hp p hmem).spelled).append (ih.symbol .equals))).bracket
  | within _ _ ih₁ ih₂ => exact (ih₁.append (ih₂.keyword .within)).bracket
  | simultaneous _ _ ih =>
    rw [render_branch]
    exact (spelled_separated (.keyword .and) trivial
      (List.forall_mem_map.mpr ih)).bracket
  | recursive _ ih => exact (ih.keyword .recWord).bracket

end Tree

end Rpal
