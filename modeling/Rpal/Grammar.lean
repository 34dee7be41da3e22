/-
# The phrase structure of the language

The productions, from the loosest to the tightest:

    E   -> let D in E  |  fn Vb+ . E  |  T where Dr  |  T
    T   -> Ta (, Ta)*
    Ta  -> Tc (aug Tc)*
    Tc  -> B -> Tc | Tc   |  B
    B   -> Bt (or Bt)*
    Bt  -> Bs (& Bs)*
    Bs  -> not Bp  |  Bp
    Bp  -> A (gr | ge | ls | le | eq | ne | > | >= | < | <=) A  |  A
    A   -> [+ | -] At ((+ | -) At)*
    At  -> Af ((* | /) Af)*
    Af  -> Ap (** Ap)*
    Ap  -> R (@ <id> R)*
    R   -> Rn+
    Rn  -> <id> | <int> | <str> | true | false | nil | dummy | ( E )
    D   -> Da (within Da)*
    Da  -> Dr (and Dr)*
    Dr  -> rec Db  |  Db
    Db  -> ( D )  |  <id> Vb+ = E  |  Vl = E
    Vb  -> <id>  |  ( )  |  ( Vl )
    Vl  -> <id> (, <id>)*

Alternatives are tried in this order, and options and repetitions take what they can.  Chains
nest to the left, except those of `**` and `within`, which nest to the right.

Recursion goes through three phrases only: expressions, definitions and conditionals.  Each
production takes the readers of those three as `inner` and calls them behind at least one
token, so `phrase` ties the knot with a depth bounded by the number of tokens.
-/
import Rpal.Grammar.Rule
import Rpal.Tree

namespace Rpal.Grammar

open Rule

/-! ## 1. Shapes of trees -/

/-- The phrases that recursion goes through. -/
inductive Phrase where
  | expression
  | definition
  | conditional
  deriving DecidableEq

/-- A chain of operators, nested to the left. -/
def leftNest (first : Tree) (rest : List (Kind × Tree)) : Tree :=
  rest.foldl (fun left (kind, right) => .branch kind [left, right]) first

/-- A chain of one operator, nested to the right. -/
def rightNest (kind : Kind) : Tree → List Tree → Tree
  | first, [] => first
  | first, next :: rest => .branch kind [first, rightNest kind next rest]

/-- A node over all items, or the item alone if there is only one. -/
def listOf (kind : Kind) (first : Tree) : List Tree → Tree
  | [] => first
  | rest => .branch kind (first :: rest)

/-! ## 2. Tokens as trees -/

section Productions

variable (stop room : Nat) (inner : Phrase → Rule Tree)

/-- A name. -/
def identifier : Rule Tree :=
  accept stop fun
    | .identifier name => some (.leaf .identifier name)
    | _ => none

/-- Digits. -/
def integer : Rule Tree :=
  accept stop fun
    | .integer digits => some (.leaf .integer digits)
    | _ => none

/-- A string literal. -/
def string : Rule Tree :=
  accept stop fun
    | .string raw => some (.leaf .string raw)
    | _ => none

/-- A keyword that is a value of its own. -/
def constant (w : Keyword) (kind : Kind) : Rule Tree := do
  keyword stop w
  pure (.branch kind [])

/-- A symbol that stands for an operator. -/
def symbolOperator (s : Symbol) (kind : Kind) : Rule Kind := do
  symbol stop s
  pure kind

/-- A keyword that stands for an operator. -/
def keywordOperator (w : Keyword) (kind : Kind) : Rule Kind := do
  keyword stop w
  pure kind

/-- Operands with an operator between any two, nested to the left. -/
def leftChain (operand : Rule Tree) (operator : Rule Kind) : Rule Tree := do
  let first ← operand
  let rest ← many room do
    let kind ← operator
    let right ← operand
    pure (kind, right)
  pure (leftNest first rest)

/-- Items with a separator between any two, nested to the right. -/
def rightChain (kind : Kind) (item : Rule Tree) (separator : Rule Unit) : Rule Tree := do
  let first ← item
  let rest ← many room do
    separator
    item
  pure (rightNest kind first rest)

/-- Items with a separator between any two, side by side. -/
def listChain (kind : Kind) (item : Rule Tree) (separator : Rule Unit) : Rule Tree := do
  let first ← item
  let rest ← many room do
    separator
    item
  pure (listOf kind first rest)

/-! ## 3. Expressions -/

/-- A phrase in brackets. -/
def bracketed (p : Rule Tree) : Rule Tree := do
  symbol stop .lparen
  let t ← p
  symbol stop .rparen
  pure t

/-- `Rn`: a name, a literal, or an expression in brackets. -/
def operand : Rule Tree :=
  oneOf (identifier stop)
    [integer stop, string stop, constant stop .true .trueValue, constant stop .false .falseValue,
      constant stop .nil .nil, constant stop .dummy .dummy, bracketed stop (inner .expression)]

/-- `R`: operands side by side apply to the left. -/
def application : Rule Tree := do
  let first ← operand stop inner
  let rest ← many room (operand stop inner)
  pure (leftNest first (rest.map (Kind.gamma, ·)))

/-- `Ap`: a function written between its arguments. -/
def infixCall : Rule Tree := do
  let first ← application stop room inner
  let rest ← many room do
    symbol stop .at
    let name ← identifier stop
    let right ← application stop room inner
    pure (name, right)
  pure (rest.foldl (fun left (name, right) => .branch .atCall [left, name, right]) first)

/-- `Af`: powers nest to the right. -/
def power : Rule Tree :=
  rightChain room .exp (infixCall stop room inner) (symbol stop .power)

/-- `At`: products and quotients. -/
def term : Rule Tree :=
  leftChain room (power stop room inner)
    (oneOf (symbolOperator stop .times .mult) [symbolOperator stop .divide .div])

/-- The sign of a sum or the operator within it. -/
def additive : Rule Kind :=
  oneOf (symbolOperator stop .plus .plus) [symbolOperator stop .minus .minus]

/-- `A`: sums and differences, with a sign in front.  A plus in front leaves no trace. -/
def arithmetic : Rule Tree := do
  let sign ← optional (additive stop)
  let first ← term stop room inner
  let rest ← many room do
    let kind ← additive stop
    let right ← term stop room inner
    pure (kind, right)
  let first := if sign = some .minus then .branch .neg [first] else first
  pure (leftNest first rest)

/-- The operators of a comparison; the words and the signs mean the same. -/
def comparisonOperator : Rule Kind :=
  oneOf (keywordOperator stop .gr .gr)
    [keywordOperator stop .ge .ge, keywordOperator stop .ls .ls, keywordOperator stop .le .le,
      keywordOperator stop .eq .eq, keywordOperator stop .ne .ne,
      symbolOperator stop .greaterEqual .ge, symbolOperator stop .lessEqual .le,
      symbolOperator stop .greater .gr, symbolOperator stop .less .ls]

/-- `Bp`: at most one comparison. -/
def comparison : Rule Tree := do
  let left ← arithmetic stop room inner
  let rest ← optional do
    let kind ← comparisonOperator stop
    let right ← arithmetic stop room inner
    pure (kind, right)
  pure (leftNest left rest.toList)

/-- `Bs`: at most one negation. -/
def negation : Rule Tree :=
  either
    (do
      keyword stop .not
      let t ← comparison stop room inner
      pure (.branch .not [t]))
    (comparison stop room inner)

/-- `Bt`: conjunctions. -/
def conjunction : Rule Tree :=
  leftChain room (negation stop room inner) (symbolOperator stop .ampersand .and)

/-- `B`: disjunctions. -/
def disjunction : Rule Tree :=
  leftChain room (conjunction stop room inner) (keywordOperator stop .or .or)

/-- `Tc`: a condition with two branches, or no condition at all. -/
def conditional : Rule Tree := do
  let condition ← disjunction stop room inner
  let branches ← optional do
    symbol stop .arrow
    let thenPart ← inner .conditional
    symbol stop .bar
    let elsePart ← inner .conditional
    pure [thenPart, elsePart]
  pure (listOf .conditional condition (branches.getD []))

/-- `Ta`: tuples grown at their end. -/
def augmented : Rule Tree :=
  leftChain room (conditional stop room inner) (keywordOperator stop .aug .aug)

/-- `T`: tuples. -/
def tuple : Rule Tree :=
  listChain room .tau (augmented stop room inner) (symbol stop .comma)

/-! ## 4. Definitions -/

/-- `Vl`: names. -/
def nameList : Rule Tree :=
  listChain room .comma (identifier stop) (symbol stop .comma)

/-- `Vb`: a parameter. -/
def parameter : Rule Tree :=
  oneOf (identifier stop)
    [(do
        symbol stop .lparen
        symbol stop .rparen
        pure (.branch .paren [])),
      bracketed stop (nameList stop room)]

/-- `Db`: a definition in brackets, of a function, or of names. -/
def basicDefinition : Rule Tree :=
  oneOf (bracketed stop (inner .definition))
    [(do
        let name ← identifier stop
        let parameters ← many1 room (parameter stop room)
        symbol stop .equals
        let body ← inner .expression
        pure (.branch .functionForm (name :: parameters ++ [body]))),
      (do
        let names ← nameList stop room
        symbol stop .equals
        let value ← inner .expression
        pure (.branch .equal [names, value]))]

/-- `Dr`: a definition, recursive or not. -/
def recursiveDefinition : Rule Tree :=
  either
    (do
      keyword stop .recWord
      let d ← basicDefinition stop room inner
      pure (.branch .recDef [d]))
    (basicDefinition stop room inner)

/-- `Da`: definitions side by side. -/
def simultaneous : Rule Tree :=
  listChain room .simultDef (recursiveDefinition stop room inner) (keyword stop .and)

/-- `D`: definitions that serve the next ones. -/
def definition : Rule Tree :=
  rightChain room .within (simultaneous stop room inner) (keyword stop .within)

/-- `E`: a program. -/
def expression : Rule Tree :=
  oneOf
    (do
      keyword stop .letWord
      let d ← inner .definition
      keyword stop .inWord
      let body ← inner .expression
      pure (.branch .letIn [d, body]))
    [(do
        keyword stop .fnWord
        let parameters ← many1 room (parameter stop room)
        symbol stop .dot
        let body ← inner .expression
        pure (.branch .lambda (parameters ++ [body]))),
      (do
        let t ← tuple stop room inner
        let d ← optional do
          keyword stop .whereWord
          recursiveDefinition stop room inner
        pure (listOf .whereDef t d.toList))]

/-- The production of a phrase. -/
def production : Phrase → Rule Tree
  | .expression => expression stop room inner
  | .definition => definition stop room inner
  | .conditional => conditional stop room inner

end Productions

/-! ## 5. The knot -/

/-- The reader of a phrase, for texts of up to `room` tokens. -/
def phrase (stop : Nat) : Nat → Phrase → Rule Tree
  | 0, _ => failAt stop
  | room + 1, p => production stop room (phrase stop room) p

end Rpal.Grammar
