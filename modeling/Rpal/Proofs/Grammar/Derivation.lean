/-
# Derivations

The phrase structure of the language as it is documented, a grammar in which chains of operators
are recursive productions:

    E   -> let D in E            => let         D   -> Da within D         => within
         | fn Vb+ . E            => lambda           | Da
         | Ew                                   Da  -> Dr (and Dr)+        => and
    Ew  -> T where Dr            => where            | Dr
         | T                                    Dr  -> rec Db              => rec
    T   -> Ta (, Ta)+            => tau              | Db
         | Ta                                   Db  -> <id> Vb+ = E        => function_form
    Ta  -> Ta aug Tc             => aug              | Vl = E              => =
         | Tc                                        | ( D )
    Tc  -> B -> Tc | Tc          => ->          Vb  -> <id>
         | B                                         | ( Vl )
    B   -> B or Bt               => or               | ( )                 => ()
         | Bt                                   Vl  -> <id> (, <id>)+      => ,
    Bt  -> Bt & Bs               => &                | <id>
         | Bs
    Bs  -> not Bp                => not
         | Bp
    Bp  -> A (gr | > | ge | >= | ls | < | le | <= | eq | ne) A | A
    A   -> A + At | A - At       => + -
         | + At | - At           => neg for -
         | At
    At  -> At * Af | At / Af     => * /
         | Af
    Af  -> Ap ** Af              => **
         | Ap
    Ap  -> Ap @ <id> R           => @
         | R
    R   -> R Rn                  => gamma
         | Rn
    Rn  -> <id> | <int> | <str> | true | false | nil | dummy | ( E )

A derivation tree from a nonterminal has one constructor for each production; the five
nonterminals whose chains of operators nest to the left share theirs.  `yield` is the sequence of
tokens that it derives, and `tree` the node that its productions build.
-/
import Rpal.Grammar

namespace Rpal.Grammar

/-! ## 1. Nonterminals -/

/-- The nonterminals `Ta`, `B`, `Bt`, `A` and `At`: operands with operators between them, nested
to the left. -/
inductive Chain where
  | augmented
  | disjunction
  | conjunction
  | sum
  | product
  deriving DecidableEq

/-- The nonterminals. -/
inductive Nonterminal where
  /-- `E` -/
  | expression
  /-- `Ew` -/
  | clause
  /-- `T` -/
  | tuple
  /-- `Ta`, `B`, `Bt`, `A` and `At` -/
  | chain (c : Chain)
  /-- `Tc` -/
  | conditional
  /-- `Bs` -/
  | negation
  /-- `Bp` -/
  | comparison
  /-- `Af` -/
  | power
  /-- `Ap` -/
  | infixCall
  /-- `R` -/
  | application
  /-- `Rn` -/
  | operand
  /-- `D` -/
  | definition
  /-- `Da` -/
  | simultaneous
  /-- `Dr` -/
  | recursive
  /-- `Db` -/
  | basic
  /-- `Vb` -/
  | parameter
  /-- `Vl` -/
  | names
  deriving DecidableEq

/-- What the operators of a chain stand between. -/
def Chain.operand : Chain → Nonterminal
  | augmented => .conditional
  | disjunction => .chain conjunction
  | conjunction => .negation
  | sum => .chain product
  | product => .power

/-- The operators of a chain and the nodes they build. -/
def Chain.operator? : Chain → Token → Option Kind
  | augmented, .keyword .aug => some .aug
  | disjunction, .keyword .or => some .or
  | conjunction, .symbol .ampersand => some .and
  | sum, .symbol .plus => some .plus
  | sum, .symbol .minus => some .minus
  | product, .symbol .times => some .mult
  | product, .symbol .divide => some .div
  | _, _ => none

/-- The operators of a comparison and the nodes they build. -/
def comparison? : Token → Option Kind
  | .keyword .gr | .symbol .greater => some .gr
  | .keyword .ge | .symbol .greaterEqual => some .ge
  | .keyword .ls | .symbol .less => some .ls
  | .keyword .le | .symbol .lessEqual => some .le
  | .keyword .eq => some .eq
  | .keyword .ne => some .ne
  | _ => none

/-- The operands of a single token and the leaves they build. -/
def atom? : Token → Option Tree
  | .identifier name => some (.leaf .identifier name)
  | .integer digits => some (.leaf .integer digits)
  | .string raw => some (.leaf .string raw)
  | .keyword .true => some (.branch .trueValue [])
  | .keyword .false => some (.branch .falseValue [])
  | .keyword .nil => some (.branch .nil [])
  | .keyword .dummy => some (.branch .dummy [])
  | _ => none

/-! ## 2. Derivation trees -/

mutual

/-- A derivation tree from a nonterminal. -/
inductive Derivation : Nonterminal → Type where
  /-- `E -> let D in E` -/
  | letIn (d : Derivation .definition) (body : Derivation .expression) : Derivation .expression
  /-- `E -> fn Vb+ . E` -/
  | function (params : Derivations .parameter) (body : Derivation .expression) :
      Derivation .expression
  /-- `E -> Ew` -/
  | unscoped (t : Derivation .clause) : Derivation .expression
  /-- `Ew -> T where Dr` -/
  | whereDef (t : Derivation .tuple) (d : Derivation .recursive) : Derivation .clause
  /-- `Ew -> T` -/
  | unqualified (t : Derivation .tuple) : Derivation .clause
  /-- `T -> Ta (, Ta)+` -/
  | tau (first : Derivation (.chain .augmented)) (rest : Derivations (.chain .augmented)) :
      Derivation .tuple
  /-- `T -> Ta` -/
  | untupled (t : Derivation (.chain .augmented)) : Derivation .tuple
  /-- `Ta -> Ta aug Tc`, `B -> B or Bt`, `Bt -> Bt & Bs`, `A -> A + At`, `A -> A - At`,
  `At -> At * Af`, `At -> At / Af` -/
  | link (c : Chain) (op : Token) (kind : Kind) (h : c.operator? op = some kind)
      (left : Derivation (.chain c)) (right : Derivation c.operand) : Derivation (.chain c)
  /-- `Ta -> Tc`, `B -> Bt`, `Bt -> Bs`, `A -> At`, `At -> Af` -/
  | start (c : Chain) (t : Derivation c.operand) : Derivation (.chain c)
  /-- `A -> + At` -/
  | positive (t : Derivation (.chain .product)) : Derivation (.chain .sum)
  /-- `A -> - At` -/
  | negative (t : Derivation (.chain .product)) : Derivation (.chain .sum)
  /-- `Tc -> B -> Tc | Tc` -/
  | choice (condition : Derivation (.chain .disjunction)) (thenPart : Derivation .conditional)
      (elsePart : Derivation .conditional) : Derivation .conditional
  /-- `Tc -> B` -/
  | unconditional (t : Derivation (.chain .disjunction)) : Derivation .conditional
  /-- `Bs -> not Bp` -/
  | not (t : Derivation .comparison) : Derivation .negation
  /-- `Bs -> Bp` -/
  | unnegated (t : Derivation .comparison) : Derivation .negation
  /-- `Bp -> A gr A` and the other comparisons -/
  | compare (op : Token) (kind : Kind) (h : comparison? op = some kind)
      (left right : Derivation (.chain .sum)) : Derivation .comparison
  /-- `Bp -> A` -/
  | uncompared (t : Derivation (.chain .sum)) : Derivation .comparison
  /-- `Af -> Ap ** Af` -/
  | raise (base : Derivation .infixCall) (exponent : Derivation .power) : Derivation .power
  /-- `Af -> Ap` -/
  | unraised (t : Derivation .infixCall) : Derivation .power
  /-- `Ap -> Ap @ <id> R` -/
  | call (left : Derivation .infixCall) (f : String) (right : Derivation .application) :
      Derivation .infixCall
  /-- `Ap -> R` -/
  | uncalled (t : Derivation .application) : Derivation .infixCall
  /-- `R -> R Rn` -/
  | apply (f : Derivation .application) (argument : Derivation .operand) : Derivation .application
  /-- `R -> Rn` -/
  | unapplied (t : Derivation .operand) : Derivation .application
  /-- `Rn -> <id>` and the other operands of one token -/
  | atom (token : Token) (leaf : Tree) (h : atom? token = some leaf) : Derivation .operand
  /-- `Rn -> ( E )` -/
  | bracket (t : Derivation .expression) : Derivation .operand
  /-- `D -> Da within D` -/
  | within (first : Derivation .simultaneous) (second : Derivation .definition) :
      Derivation .definition
  /-- `D -> Da` -/
  | unnested (d : Derivation .simultaneous) : Derivation .definition
  /-- `Da -> Dr (and Dr)+` -/
  | and (first : Derivation .recursive) (rest : Derivations .recursive) : Derivation .simultaneous
  /-- `Da -> Dr` -/
  | alone (d : Derivation .recursive) : Derivation .simultaneous
  /-- `Dr -> rec Db` -/
  | recursive (d : Derivation .basic) : Derivation .recursive
  /-- `Dr -> Db` -/
  | plain (d : Derivation .basic) : Derivation .recursive
  /-- `Db -> <id> Vb+ = E` -/
  | functionForm (f : String) (params : Derivations .parameter) (body : Derivation .expression) :
      Derivation .basic
  /-- `Db -> Vl = E` -/
  | equal (names : Derivation .names) (value : Derivation .expression) : Derivation .basic
  /-- `Db -> ( D )` -/
  | bracketed (d : Derivation .definition) : Derivation .basic
  /-- `Vb -> <id>` -/
  | parameter (x : String) : Derivation .parameter
  /-- `Vb -> ( Vl )` -/
  | pattern (names : Derivation .names) : Derivation .parameter
  /-- `Vb -> ( )` -/
  | nothing : Derivation .parameter
  /-- `Vl -> <id> (, <id>)+` -/
  | names (x y : String) (rest : List String) : Derivation .names
  /-- `Vl -> <id>` -/
  | name (x : String) : Derivation .names

/-- One or more derivation trees from the same nonterminal, side by side. -/
inductive Derivations : Nonterminal → Type where
  | last {n : Nonterminal} (d : Derivation n) : Derivations n
  | cons {n : Nonterminal} (d : Derivation n) (ds : Derivations n) : Derivations n

end

/-! ## 3. The tokens that are derived -/

/-- Names with commas in front of them. -/
def commaNames (names : List String) : List Token :=
  names.flatMap fun x => [.symbol .comma, .identifier x]

mutual

/-- The tokens that a derivation tree derives. -/
def Derivation.yield : {n : Nonterminal} → Derivation n → List Token
  | _, .letIn d body => .keyword .letWord :: (d.yield ++ .keyword .inWord :: body.yield)
  | _, .function params body =>
    .keyword .fnWord :: (params.yield [] ++ .symbol .dot :: body.yield)
  | _, .unscoped t => t.yield
  | _, .whereDef t d => t.yield ++ .keyword .whereWord :: d.yield
  | _, .unqualified t => t.yield
  | _, .tau first rest => first.yield ++ rest.yield [.symbol .comma]
  | _, .untupled t => t.yield
  | _, .link _ op _ _ left right => left.yield ++ op :: right.yield
  | _, .start _ t => t.yield
  | _, .positive t => .symbol .plus :: t.yield
  | _, .negative t => .symbol .minus :: t.yield
  | _, .choice condition thenPart elsePart =>
    condition.yield ++ .symbol .arrow :: (thenPart.yield ++ .symbol .bar :: elsePart.yield)
  | _, .unconditional t => t.yield
  | _, .not t => .keyword .not :: t.yield
  | _, .unnegated t => t.yield
  | _, .compare op _ _ left right => left.yield ++ op :: right.yield
  | _, .uncompared t => t.yield
  | _, .raise base exponent => base.yield ++ .symbol .power :: exponent.yield
  | _, .unraised t => t.yield
  | _, .call left f right => left.yield ++ .symbol .at :: .identifier f :: right.yield
  | _, .uncalled t => t.yield
  | _, .apply f argument => f.yield ++ argument.yield
  | _, .unapplied t => t.yield
  | _, .atom token _ _ => [token]
  | _, .bracket t => .symbol .lparen :: (t.yield ++ [.symbol .rparen])
  | _, .within first second => first.yield ++ .keyword .within :: second.yield
  | _, .unnested d => d.yield
  | _, .and first rest => first.yield ++ rest.yield [.keyword .and]
  | _, .alone d => d.yield
  | _, .recursive d => .keyword .recWord :: d.yield
  | _, .plain d => d.yield
  | _, .functionForm f params body =>
    .identifier f :: (params.yield [] ++ .symbol .equals :: body.yield)
  | _, .equal names value => names.yield ++ .symbol .equals :: value.yield
  | _, .bracketed d => .symbol .lparen :: (d.yield ++ [.symbol .rparen])
  | _, .parameter x => [.identifier x]
  | _, .pattern names => .symbol .lparen :: (names.yield ++ [.symbol .rparen])
  | _, .nothing => [.symbol .lparen, .symbol .rparen]
  | _, .names x y rest => .identifier x :: commaNames (y :: rest)
  | _, .name x => [.identifier x]

/-- The tokens of neighbours, each behind a separator. -/
def Derivations.yield (separator : List Token) : {n : Nonterminal} → Derivations n → List Token
  | _, .last d => separator ++ d.yield
  | _, .cons d ds => separator ++ d.yield ++ ds.yield separator

end

/-! ## 4. The trees that are built -/

mutual

/-- The tree that a derivation tree builds. -/
def Derivation.tree : {n : Nonterminal} → Derivation n → Tree
  | _, .letIn d body => .branch .letIn [d.tree, body.tree]
  | _, .function params body => .branch .lambda (params.trees ++ [body.tree])
  | _, .unscoped t => t.tree
  | _, .whereDef t d => .branch .whereDef [t.tree, d.tree]
  | _, .unqualified t => t.tree
  | _, .tau first rest => .branch .tau (first.tree :: rest.trees)
  | _, .untupled t => t.tree
  | _, .link _ _ kind _ left right => .branch kind [left.tree, right.tree]
  | _, .start _ t => t.tree
  | _, .positive t => t.tree
  | _, .negative t => .branch .neg [t.tree]
  | _, .choice condition thenPart elsePart =>
    .branch .conditional [condition.tree, thenPart.tree, elsePart.tree]
  | _, .unconditional t => t.tree
  | _, .not t => .branch .not [t.tree]
  | _, .unnegated t => t.tree
  | _, .compare _ kind _ left right => .branch kind [left.tree, right.tree]
  | _, .uncompared t => t.tree
  | _, .raise base exponent => .branch .exp [base.tree, exponent.tree]
  | _, .unraised t => t.tree
  | _, .call left f right => .branch .atCall [left.tree, .leaf .identifier f, right.tree]
  | _, .uncalled t => t.tree
  | _, .apply f argument => .branch .gamma [f.tree, argument.tree]
  | _, .unapplied t => t.tree
  | _, .atom _ leaf _ => leaf
  | _, .bracket t => t.tree
  | _, .within first second => .branch .within [first.tree, second.tree]
  | _, .unnested d => d.tree
  | _, .and first rest => .branch .simultDef (first.tree :: rest.trees)
  | _, .alone d => d.tree
  | _, .recursive d => .branch .recDef [d.tree]
  | _, .plain d => d.tree
  | _, .functionForm f params body =>
    .branch .functionForm (.leaf .identifier f :: params.trees ++ [body.tree])
  | _, .equal names value => .branch .equal [names.tree, value.tree]
  | _, .bracketed d => d.tree
  | _, .parameter x => .leaf .identifier x
  | _, .pattern names => names.tree
  | _, .nothing => .branch .paren []
  | _, .names x y rest => .branch .comma ((x :: y :: rest).map (.leaf .identifier))
  | _, .name x => .leaf .identifier x

/-- The trees of neighbours. -/
def Derivations.trees : {n : Nonterminal} → Derivations n → List Tree
  | _, .last d => [d.tree]
  | _, .cons d ds => d.tree :: ds.trees

end

/-! ## 5. What is derived -/

/-- The tree that a sequence of tokens is derived with. -/
def Derives (n : Nonterminal) (ts : List Token) (t : Tree) : Prop :=
  ∃ d : Derivation n, d.yield = ts ∧ d.tree = t

/-- The nonterminal that has a production to this one alone, which builds no node. -/
def Nonterminal.next : Nonterminal → Nonterminal
  | operand => application
  | application => infixCall
  | infixCall => power
  | power => chain .product
  | chain .product => chain .sum
  | chain .sum => comparison
  | comparison => negation
  | negation => chain .conjunction
  | chain .conjunction => chain .disjunction
  | chain .disjunction => conditional
  | conditional => chain .augmented
  | chain .augmented => tuple
  | tuple => clause
  | clause => expression
  | basic => recursive
  | recursive => simultaneous
  | simultaneous => definition
  | n => n

/-- The nonterminal that many steps above. -/
def Nonterminal.climb : Nat → Nonterminal → Nonterminal
  | 0, n => n
  | k + 1, n => climb k n.next

theorem Derives.next {n : Nonterminal} {ts : List Token} {t : Tree} (h : Derives n ts t) :
    Derives n.next ts t := by
  obtain ⟨d, rfl, rfl⟩ := h
  cases n with
  | operand => exact ⟨.unapplied d, rfl, rfl⟩
  | application => exact ⟨.uncalled d, rfl, rfl⟩
  | infixCall => exact ⟨.unraised d, rfl, rfl⟩
  | power => exact ⟨.start .product d, rfl, rfl⟩
  | chain c =>
    cases c with
    | product => exact ⟨.start .sum d, rfl, rfl⟩
    | sum => exact ⟨.uncompared d, rfl, rfl⟩
    | conjunction => exact ⟨.start .disjunction d, rfl, rfl⟩
    | disjunction => exact ⟨.unconditional d, rfl, rfl⟩
    | augmented => exact ⟨.untupled d, rfl, rfl⟩
  | comparison => exact ⟨.unnegated d, rfl, rfl⟩
  | negation => exact ⟨.start .conjunction d, rfl, rfl⟩
  | conditional => exact ⟨.start .augmented d, rfl, rfl⟩
  | tuple => exact ⟨.unqualified d, rfl, rfl⟩
  | clause => exact ⟨.unscoped d, rfl, rfl⟩
  | basic => exact ⟨.plain d, rfl, rfl⟩
  | recursive => exact ⟨.alone d, rfl, rfl⟩
  | simultaneous => exact ⟨.unnested d, rfl, rfl⟩
  | expression | definition | parameter | names => exact ⟨d, rfl, rfl⟩

/-- A phrase is a phrase of all looser nonterminals. -/
theorem Derives.climb (k : Nat) {n : Nonterminal} {ts : List Token} {t : Tree}
    (h : Derives n ts t) : Derives (n.climb k) ts t := by
  induction k generalizing n with
  | zero => exact h
  | succ k ih => exact ih h.next

theorem derives_atom {token : Token} {leaf : Tree} (h : atom? token = some leaf) :
    Derives .operand [token] leaf := ⟨.atom token leaf h, rfl, rfl⟩

/-! ## 6. Phrases from phrases -/

section Phrases

variable {ts us vs : List Token} {s t u : Tree}

theorem Derives.apply (hf : Derives .application ts s) (ha : Derives .operand us t) :
    Derives .application (ts ++ us) (.branch .gamma [s, t]) := by
  obtain ⟨d, rfl, rfl⟩ := hf
  obtain ⟨e, rfl, rfl⟩ := ha
  exact ⟨.apply d e, rfl, rfl⟩

theorem Derives.link {c : Chain} {op : Token} {kind : Kind} (h : c.operator? op = some kind)
    (hl : Derives (.chain c) ts s) (hr : Derives c.operand us t) :
    Derives (.chain c) (ts ++ op :: us) (.branch kind [s, t]) := by
  obtain ⟨d, rfl, rfl⟩ := hl
  obtain ⟨e, rfl, rfl⟩ := hr
  exact ⟨.link c op kind h d e, rfl, rfl⟩

theorem Derives.compare {op : Token} {kind : Kind} (h : comparison? op = some kind)
    (hl : Derives (.chain .sum) ts s) (hr : Derives (.chain .sum) us t) :
    Derives .comparison (ts ++ op :: us) (.branch kind [s, t]) := by
  obtain ⟨d, rfl, rfl⟩ := hl
  obtain ⟨e, rfl, rfl⟩ := hr
  exact ⟨.compare op kind h d e, rfl, rfl⟩

theorem Derives.choice (hc : Derives (.chain .disjunction) ts s)
    (ht : Derives .conditional us t) (he : Derives .conditional vs u) :
    Derives .conditional (ts ++ .symbol .arrow :: (us ++ .symbol .bar :: vs))
      (.branch .conditional [s, t, u]) := by
  obtain ⟨d, rfl, rfl⟩ := hc
  obtain ⟨e, rfl, rfl⟩ := ht
  obtain ⟨f, rfl, rfl⟩ := he
  exact ⟨.choice d e f, rfl, rfl⟩

/-- `let rec f x = E1 in E2` -/
theorem derives_letRec (f x : String) (hb : Derives .expression ts s)
    (hu : Derives .expression us t) :
    Derives .expression (.keyword .letWord :: .keyword .recWord :: .identifier f ::
        .identifier x :: .symbol .equals :: (ts ++ .keyword .inWord :: us))
      (.branch .letIn [.branch .recDef [
        .branch .functionForm [.leaf .identifier f, .leaf .identifier x, s]], t]) := by
  obtain ⟨d, rfl, rfl⟩ := hb
  obtain ⟨e, rfl, rfl⟩ := hu
  have hdefinition : Derives .recursive _ _ :=
    ⟨.recursive (.functionForm f (.last (.parameter x)) d), rfl, rfl⟩
  obtain ⟨definition, hyield, htree⟩ : Derives .definition _ _ := hdefinition.climb 2
  refine ⟨.letIn definition e, ?_, ?_⟩
  · rw [Derivation.yield, hyield]
    rfl
  · rw [Derivation.tree, htree]
    rfl

end Phrases

end Rpal.Grammar
