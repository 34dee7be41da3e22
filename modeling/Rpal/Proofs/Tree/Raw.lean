/-
# Raw trees

The trees that the grammar builds have two sorts, expressions and definitions, and every node
has the children that its kind needs:

    expression    name, literal, operators, tau, gamma, conditional
                  lambda p1 .. pn E        let D E        where E D        @ E name E
    definition    = p E                    function_form name p1 .. pn E
                  within D D               and D .. D     rec D

A parameter `p` is a name, several names, or `()`.
-/
import Rpal.Proofs.Control.Places

namespace Rpal

/-- The kinds whose nodes carry a text. -/
def Kind.HasText (kind : Kind) : Prop :=
  kind = .identifier ∨ kind = .integer ∨ kind = .string

namespace Tree

/-- A parameter as the grammar builds it. -/
inductive IsRawParameter : Tree → Prop where
  | name (x : String) : IsRawParameter (.leaf .identifier x)
  | names (xs : List String) : IsRawParameter (.branch .comma (xs.map (.leaf .identifier)))
  | nothing : IsRawParameter (.branch .paren [])

/-- The sorts of raw trees. -/
inductive Category where
  | expression
  | definition

/-- A tree as the grammar builds it. -/
inductive IsRaw : Category → Tree → Prop where
  | node {kind : Kind} {text : Option String} {children : List Tree}
      (hk : kind.Admits children.length) (ht : text = none ∨ kind.HasText)
      (hc : ∀ c ∈ children, IsRaw .expression c) : IsRaw .expression ⟨kind, text, children, 0⟩
  | choice {condition thenPart elsePart : Tree} (hc : IsRaw .expression condition)
      (ht : IsRaw .expression thenPart) (he : IsRaw .expression elsePart) :
      IsRaw .expression (.branch .conditional [condition, thenPart, elsePart])
  | function {params : List Tree} {body : Tree} (hn : params ≠ [])
      (hp : ∀ p ∈ params, IsRawParameter p) (hb : IsRaw .expression body) :
      IsRaw .expression (.branch .lambda (params ++ [body]))
  | letIn {d body : Tree} (hd : IsRaw .definition d) (hb : IsRaw .expression body) :
      IsRaw .expression (.branch .letIn [d, body])
  | whereDef {body d : Tree} (hb : IsRaw .expression body) (hd : IsRaw .definition d) :
      IsRaw .expression (.branch .whereDef [body, d])
  | infixCall {left right : Tree} (f : String) (hl : IsRaw .expression left)
      (hr : IsRaw .expression right) :
      IsRaw .expression (.branch .atCall [left, .leaf .identifier f, right])
  | equal {pattern value : Tree} (hp : IsRawParameter pattern) (hv : IsRaw .expression value) :
      IsRaw .definition (.branch .equal [pattern, value])
  | functionForm {params : List Tree} {body : Tree} (f : String) (hn : params ≠ [])
      (hp : ∀ p ∈ params, IsRawParameter p) (hb : IsRaw .expression body) :
      IsRaw .definition (.branch .functionForm (.leaf .identifier f :: params ++ [body]))
  | within {first second : Tree} (h₁ : IsRaw .definition first) (h₂ : IsRaw .definition second) :
      IsRaw .definition (.branch .within [first, second])
  | simultaneous {defs : List Tree} (hd : ∀ d ∈ defs, IsRaw .definition d) :
      IsRaw .definition (.branch .simultDef defs)
  | recursive {d : Tree} (hd : IsRaw .definition d) :
      IsRaw .definition (.branch .recDef [d])

end Tree

end Rpal
