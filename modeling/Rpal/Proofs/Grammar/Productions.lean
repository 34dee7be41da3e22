/-
# The productions as parsing expressions

The phrase structure of the language is a parsing expression grammar over source texts.  `Peg` is
the type of its expressions and `Production.body` lists the productions:

    expression  ->  letExpression / functionExpression / whereExpression
    power       ->  infixCall ('**' power)?
    application ->  operand operand*

Choices are ordered, and options and repetitions take what they can.  A token is looked for at a
place of the text, a `Cursor`, behind the gap that stands there.

`Parses p c r` says that reading `p` from `c` ends, with the place where it ended or with a
failure.  No bound is built into it: a production that enters itself again without end, or a
repetition that goes on without end, has no result.  There is never more than one
(`Parses.unique`), and what is read moves forward (`Parses.advances`).
-/
import Mathlib.Logic.Relation
import Rpal.Proofs.Token.Spelling

namespace Rpal

open Relation

/-! ## 1. Places -/

/-- A place in a text: its offset, whether a word character stands right before it, and the
characters from there on. -/
structure Cursor where
  offset : Nat
  glued : Bool
  rest : List Char

namespace Cursor

/-- The start of a text. -/
def start (text : List Char) : Cursor := ⟨0, false, text⟩

/-- The token that stands at a place, behind a gap, and the place behind the token. -/
def next? (c : Cursor) : Option (Lexeme × Cursor) :=
  let here := Token.skipGap c.rest
  let start := c.offset + (c.rest.length - here.length)
  let glued := Scan.gluedAt c.glued c.rest
  (Token.read glued here).map fun (token, behind) =>
    let used := here.take (here.length - behind.length)
    (⟨token, start, glued⟩,
      ⟨start + used.length, used.getLast?.any Token.isKeywordChar, behind⟩)

/-- Nothing but a gap is left. -/
def atEnd (c : Cursor) : Bool := (Token.skipGap c.rest).isEmpty

/-- The second place is right behind the token at the first. -/
def Step (c next : Cursor) : Prop := ∃ l, c.next? = some (l, next)

/-- The scan of what is left of the text. -/
def scan (c : Cursor) : Scan := Scan.fromOffset c.offset c.glued c.rest

variable {c next : Cursor} {l : Lexeme}

/-- **Tokens are found one by one** by the scan. -/
theorem scan_of_next (h : c.next? = some (l, next)) :
    c.scan = { next.scan with lexemes := l :: next.scan.lexemes } := by
  obtain ⟨⟨token, behind⟩, hread, hnext⟩ := Option.map_eq_some_iff.mp h
  obtain ⟨rfl, rfl⟩ := Prod.mk.inj hnext
  rw [scan, Scan.fromOffset]
  split
  · rename_i hnone
    cases hread.symm.trans hnone
  · rename_i token' behind' hsome
    cases hread.symm.trans hsome
    rfl

theorem scan_of_next_none (h : c.next? = none) :
    c.scan.lexemes = [] ∧ c.scan.complete = c.atEnd :=
  Scan.fromOffset_of_read_none c.offset (Option.map_eq_none_iff.mp h)

/-- A token has characters. -/
theorem Step.length_lt (h : Step c next) : next.rest.length < c.rest.length := by
  obtain ⟨l, hl⟩ := h
  obtain ⟨⟨token, behind⟩, hread, hnext⟩ := Option.map_eq_some_iff.mp hl
  obtain ⟨rfl, rfl⟩ := Prod.mk.inj hnext
  exact Nat.lt_of_lt_of_le (Token.read_length_lt hread) (Token.skipGap_suffix c.rest).length_le

/-- A token behind another leaves fewer tokens. -/
theorem Step.lexemes_lt (h : Step c next) :
    next.scan.lexemes.length < c.scan.lexemes.length := by
  obtain ⟨l, hl⟩ := h
  rw [scan_of_next hl]
  exact Nat.lt_succ_self _

/-- Tokens that were read decrease whatever a token decreases. -/
theorem lt_of_steps {f : Cursor → Nat} (hf : ∀ {c next}, Step c next → f next < f c)
    (h : TransGen Step c next) : f next < f c := by
  induction h with
  | single h => exact hf h
  | tail _ h ih => exact Nat.lt_trans (hf h) ih

theorem le_of_steps {f : Cursor → Nat} (hf : ∀ {c next}, Step c next → f next < f c)
    (h : ReflTransGen Step c next) : f next ≤ f c := by
  rcases reflTransGen_iff_eq_or_transGen.mp h with rfl | h
  · exact Nat.le_refl _
  · exact Nat.le_of_lt (lt_of_steps hf h)

end Cursor

/-! ## 2. Parsing expressions -/

namespace Peg

/-- A class of tokens. -/
inductive Terminal where
  | identifier
  | integer
  | string
  | keyword (word : Keyword)
  | symbol (symbol : Symbol)
  deriving DecidableEq

/-- Whether a token is of a class. -/
def Terminal.accepts : Terminal → Token → Bool
  | .identifier, .identifier _ => true
  | .integer, .integer _ => true
  | .string, .string _ => true
  | .keyword w, .keyword w' => w = w'
  | .symbol s, .symbol s' => s = s'
  | _, _ => false

/-- Reads a token of a class. -/
def Terminal.read? (t : Terminal) (c : Cursor) : Option Cursor :=
  match c.next? with
  | some (l, next) => if t.accepts l.token then some next else none
  | none => none

theorem Terminal.read?_of_next {t : Terminal} {c next : Cursor} {l : Lexeme}
    (h : c.next? = some (l, next)) :
    t.read? c = if t.accepts l.token then some next else none := by
  rw [read?, h]

theorem Terminal.read?_of_next_none {t : Terminal} {c : Cursor} (h : c.next? = none) :
    t.read? c = none := by
  rw [read?, h]

/-- The name of a production. -/
inductive Production where
  | program
  | expression | letExpression | functionExpression | whereExpression
  | tuple | augmented | conditional
  | disjunction | conjunction | negation | comparison | comparisonOperator
  | arithmetic | term | power | infixCall | application | operand
  | definition | simultaneous | recursiveDefinition | basicDefinition
  | parameter | nameList
  deriving DecidableEq

end Peg

/-- A parsing expression. -/
inductive Peg where
  | token (t : Peg.Terminal)
  | textEnd
  | call (n : Peg.Production)
  | seq (p q : Peg)
  | choice (p q : Peg)
  | option (p : Peg)
  | star (p : Peg)

namespace Peg

/-- Expressions one after the other. -/
def all (p : Peg) : List Peg → Peg
  | [] => p
  | q :: qs => .seq p (all q qs)

/-- The first of several expressions that can be read. -/
def oneOf (p : Peg) : List Peg → Peg
  | [] => p
  | q :: qs => .choice p (oneOf q qs)

/-- A repetition, at least once. -/
def many1 (p : Peg) : Peg := .seq p (.star p)

/-- Items with a separator between any two. -/
def chain (item separator : Peg) : Peg := .seq item (.star (.seq separator item))

/-- An expression, and behind it possibly a second one. -/
def optionally (p q : Peg) : Peg := .seq p (.option q)

/-- A name. -/
def identifier : Peg := .token .identifier

/-- A reserved word. -/
def keyword (w : Keyword) : Peg := .token (.keyword w)

/-- An operator or a bracket. -/
def symbol (s : Symbol) : Peg := .token (.symbol s)

/-- An expression in brackets. -/
def bracketed (p : Peg) : Peg := all (symbol .lparen) [p, symbol .rparen]

/-- The sign of a sum or the operator within it. -/
def sign : Peg := .choice (symbol .plus) (symbol .minus)

/-- **The productions.** -/
def Production.body : Production → Peg
  | program => .seq (.call expression) .textEnd
  | expression => oneOf (.call letExpression) [.call functionExpression, .call whereExpression]
  | letExpression =>
    all (keyword .letWord) [.call definition, keyword .inWord, .call expression]
  | functionExpression =>
    all (keyword .fnWord) [many1 (.call parameter), symbol .dot, .call expression]
  | whereExpression =>
    optionally (.call tuple) (.seq (keyword .whereWord) (.call recursiveDefinition))
  | tuple => chain (.call augmented) (symbol .comma)
  | augmented => chain (.call conditional) (keyword .aug)
  | conditional =>
    optionally (.call disjunction)
      (all (symbol .arrow) [.call conditional, symbol .bar, .call conditional])
  | disjunction => chain (.call conjunction) (keyword .or)
  | conjunction => chain (.call negation) (symbol .ampersand)
  | negation => .choice (.seq (keyword .not) (.call comparison)) (.call comparison)
  | comparison => optionally (.call arithmetic) (.seq (.call comparisonOperator) (.call arithmetic))
  | comparisonOperator =>
    oneOf (keyword .gr)
      [keyword .ge, keyword .ls, keyword .le, keyword .eq, keyword .ne,
        symbol .greaterEqual, symbol .lessEqual, symbol .greater, symbol .less]
  | arithmetic => all (.option sign) [.call term, .star (.seq sign (.call term))]
  | term => chain (.call power) (.choice (symbol .times) (symbol .divide))
  | power => optionally (.call infixCall) (.seq (symbol .power) (.call power))
  | infixCall =>
    .seq (.call application) (.star (all (symbol .at) [identifier, .call application]))
  | application => many1 (.call operand)
  | operand =>
    oneOf identifier
      [.token .integer, .token .string, keyword .true, keyword .false, keyword .nil,
        keyword .dummy, bracketed (.call expression)]
  | definition => optionally (.call simultaneous) (.seq (keyword .within) (.call definition))
  | simultaneous => chain (.call recursiveDefinition) (keyword .and)
  | recursiveDefinition =>
    .choice (.seq (keyword .recWord) (.call basicDefinition)) (.call basicDefinition)
  | basicDefinition =>
    oneOf (bracketed (.call definition))
      [all identifier [many1 (.call parameter), symbol .equals, .call expression],
        all (.call nameList) [symbol .equals, .call expression]]
  | parameter =>
    oneOf identifier [.seq (symbol .lparen) (symbol .rparen), bracketed (.call nameList)]
  | nameList => chain identifier (symbol .comma)

/-! ## 3. Results -/

/-- `Parses p c r`: reading the expression from the place ends, at the place `r` behind what was
read, or, if `r` is none, in a failure. -/
inductive Parses : Peg → Cursor → Option Cursor → Prop where
  | token (t : Terminal) (c : Cursor) : Parses (.token t) c (t.read? c)
  | textEnd (c : Cursor) : Parses .textEnd c (if c.atEnd then some c else none)
  | call {n : Production} {c : Cursor} {r : Option Cursor} (h : Parses n.body c r) :
      Parses (.call n) c r
  | seq {p q : Peg} {c next : Cursor} {r : Option Cursor} (hp : Parses p c (some next))
      (hq : Parses q next r) : Parses (.seq p q) c r
  | seqFail {p : Peg} {c : Cursor} (hp : Parses p c none) (q : Peg) : Parses (.seq p q) c none
  | choice {p : Peg} {c next : Cursor} (hp : Parses p c (some next)) (q : Peg) :
      Parses (.choice p q) c (some next)
  | choiceElse {p q : Peg} {c : Cursor} {r : Option Cursor} (hp : Parses p c none)
      (hq : Parses q c r) : Parses (.choice p q) c r
  | option {p : Peg} {c next : Cursor} (hp : Parses p c (some next)) :
      Parses (.option p) c (some next)
  | optionNone {p : Peg} {c : Cursor} (hp : Parses p c none) : Parses (.option p) c (some c)
  | star {p : Peg} {c next : Cursor} {r : Option Cursor} (hp : Parses p c (some next))
      (hstar : Parses (.star p) next r) : Parses (.star p) c r
  | starEnd {p : Peg} {c : Cursor} (hp : Parses p c none) : Parses (.star p) c (some c)

variable {p : Peg} {c next : Cursor} {r r' : Option Cursor}

/-- **Reading has one result.** -/
theorem Parses.unique (h : Parses p c r) (h' : Parses p c r') : r = r' := by
  induction h generalizing r' with
  | token | textEnd =>
    cases h'
    rfl
  | call _ ih =>
    cases h' with
    | call h => exact ih h
  | seq _ _ ihp ihq =>
    cases h' with
    | seq hp hq =>
      cases ihp hp
      exact ihq hq
    | seqFail hp => cases ihp hp
  | seqFail _ _ ih =>
    cases h' with
    | seq hp => cases ih hp
    | seqFail => rfl
  | choice _ _ ih =>
    cases h' with
    | choice hp => exact ih hp
    | choiceElse hp => cases ih hp
  | choiceElse _ _ ihp ihq =>
    cases h' with
    | choice hp => cases ihp hp
    | choiceElse _ hq => exact ihq hq
  | option _ ih =>
    cases h' with
    | option hp => exact ih hp
    | optionNone hp => cases ih hp
  | optionNone _ ih =>
    cases h' with
    | option hp => cases ih hp
    | optionNone => rfl
  | star _ _ ihp ihstar =>
    cases h' with
    | star hp hstar =>
      cases ihp hp
      exact ihstar hstar
    | starEnd hp => cases ihp hp
  | starEnd _ ih =>
    cases h' with
    | star hp => cases ih hp
    | starEnd => rfl

/-! ## 4. Progress -/

/-- Whether an expression that is read takes at least one token.  Only the end of the text, options
and repetitions may take none, and what is made of them alone. -/
def consumes : Peg → Bool
  | .token _ | .call _ => true
  | .seq p q => p.consumes || q.consumes
  | .choice p q => p.consumes && q.consumes
  | .textEnd | .option _ | .star _ => false

/-- Every production takes a token. -/
theorem consumes_body (n : Production) : n.body.consumes = true := by
  cases n <;> rfl

theorem step_of_read (t : Terminal) (h : t.read? c = some next) : Cursor.Step c next := by
  cases hnext : c.next? with
  | none =>
    rw [Terminal.read?_of_next_none hnext] at h
    cases h
  | some found =>
    obtain ⟨l, behind⟩ := found
    rw [Terminal.read?_of_next hnext] at h
    split at h
    · cases h
      exact ⟨l, hnext⟩
    · cases h

/-- Where reading ends, the tokens that were read lie behind: at least one if the expression takes
one. -/
structure Advanced (takes : Bool) (c next : Cursor) : Prop where
  steps : ReflTransGen Cursor.Step c next
  takes : takes = true → TransGen Cursor.Step c next

theorem Advanced.of_step (takes : Bool) (h : Cursor.Step c next) : Advanced takes c next :=
  ⟨.single h, fun _ => .single h⟩

theorem Advanced.refl (c : Cursor) : Advanced false c c := ⟨.refl, nofun⟩

theorem Advanced.mono {takes takes' : Bool} (h : Advanced takes c next)
    (htakes : takes' = true → takes = true) : Advanced takes' c next :=
  ⟨h.steps, fun h' => h.takes (htakes h')⟩

theorem Advanced.trans {takes takes' : Bool} {last : Cursor} (h : Advanced takes c next)
    (h' : Advanced takes' next last) : Advanced (takes || takes') c last := by
  refine ⟨h.steps.trans h'.steps, fun hor => ?_⟩
  rcases (Bool.or_eq_true _ _).mp hor with htakes | htakes
  · exact (h.takes htakes).trans_left h'.steps
  · exact TransGen.trans_right h.steps (h'.takes htakes)

/-- **What is read moves forward**, by a token if the expression takes one. -/
theorem Parses.advanced (h : Parses p c r) : ∀ next, r = some next →
    Advanced p.consumes c next := by
  induction h with
  | token t c => exact fun next hnext => .of_step _ (step_of_read t hnext)
  | textEnd c =>
    intro next hnext
    split at hnext
    · cases hnext
      exact .refl c
    · cases hnext
  | @call n _ _ _ ih => exact fun next hnext => (ih next hnext).mono fun _ => consumes_body n
  | seq _ _ ihp ihq => exact fun next hnext => (ihp _ rfl).trans (ihq next hnext)
  | seqFail => exact nofun
  | choice _ _ ih =>
    exact fun next hnext => (ih next hnext).mono fun h => ((Bool.and_eq_true _ _).mp h).1
  | choiceElse _ _ _ ih =>
    exact fun next hnext => (ih next hnext).mono fun h => ((Bool.and_eq_true _ _).mp h).2
  | option _ ih => exact fun next hnext => (ih next hnext).mono nofun
  | star _ _ ihp ihstar =>
    exact fun next hnext => ((ihp _ rfl).trans (ihstar next hnext)).mono nofun
  | optionNone | starEnd =>
    rintro _ ⟨⟩
    exact .refl _

theorem Parses.steps (h : Parses p c (some next)) : ReflTransGen Cursor.Step c next :=
  (h.advanced next rfl).steps

theorem Parses.takes (h : Parses p c (some next)) (htakes : p.consumes = true) :
    TransGen Cursor.Step c next :=
  (h.advanced next rfl).takes htakes

end Peg

end Rpal
