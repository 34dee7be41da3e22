/-
# What is read is derived

Whatever a rule reads, the tokens that it takes are derived from the nonterminal of the rule, and
the tree that it yields is the one that the derivation builds (`finds_phrase`).

A repetition finds chunks of tokens, and a chain of operators becomes a derivation that grows to
the left by one chunk at a time (`derives_leftNest`).
-/
import Rpal.Proofs.Grammar.Derivation
import Rpal.Proofs.Grammar.Finding

namespace Rpal.Grammar

open Rule Rpal.Tree

/-! ## 1. Chains -/

/-- **A chain that nests to the left.**  Each chunk extends the derivation on its left. -/
theorem derives_leftNest {n : Nonterminal} {S : List Token → Kind × Tree → Prop}
    (extend : ∀ ls l us r, Derives n ls l → S us r →
      Derives n (ls ++ us) (.branch r.1 [l, r.2])) {us : List Token}
    {rest : List (Kind × Tree)} (hs : Chunks S us rest) :
    ∀ {ts : List Token} {first : Tree}, Derives n ts first →
      Derives n (ts ++ us) (leftNest first rest) := by
  induction hs with
  | nil =>
    intro ts first h
    rwa [List.append_nil]
  | cons h _ ih =>
    intro ts first hfirst
    rw [← List.append_assoc]
    exact ih (extend _ _ _ _ hfirst h)

/-- **A chain that nests to the right**: items of `m` with a separator between any two. -/
theorem derives_rightNest {n m : Nonterminal} {kind : Kind} {separator : Token}
    (last : ∀ ts t, Derives m ts t → Derives n ts t)
    (extend : ∀ ls l rs r, Derives m ls l → Derives n rs r →
      Derives n (ls ++ separator :: rs) (.branch kind [l, r])) {us : List Token} {rest : List Tree}
    (hs : Chunks (fun us t => ∃ vs, us = separator :: vs ∧ Derives m vs t) us rest) :
    ∀ {ts : List Token} {first : Tree}, Derives m ts first →
      Derives n (ts ++ us) (rightNest kind first rest) := by
  induction hs with
  | nil =>
    intro ts first h
    rw [List.append_nil]
    exact last _ _ h
  | cons h _ ih =>
    intro ts first hfirst
    obtain ⟨vs, rfl, hnext⟩ := h
    exact extend _ _ _ _ hfirst (ih hnext)

/-- **A chain of infix calls**: each becomes the left argument of the next one. -/
theorem derives_calls {us : List Token} {rest : List (Tree × Tree)}
    (hs : Chunks (fun us (r : Tree × Tree) => ∃ f vs, us = .symbol .at :: .identifier f :: vs ∧
      r.1 = .leaf .identifier f ∧ Derives .application vs r.2) us rest) :
    ∀ d : Derivation .infixCall, Derives .infixCall (d.yield ++ us)
      (rest.foldl (fun left (name, right) => .branch .atCall [left, name, right]) d.tree) := by
  induction hs with
  | nil => exact fun d => ⟨d, by rw [List.append_nil], rfl⟩
  | @cons _ _ r _ h _ ih =>
    intro d
    obtain ⟨name, right⟩ := r
    obtain ⟨f, _, rfl, rfl, a, rfl, rfl⟩ := h
    rw [← List.append_assoc]
    exact ih (.call d f a)

/-- Chunks behind separators are derivations side by side. -/
theorem exists_derivations {n : Nonterminal} {separator : List Token} {us : List Token}
    {rest : List Tree}
    (hs : Chunks (fun us t => ∃ vs, us = separator ++ vs ∧ Derives n vs t) us rest) :
    ∀ {ts : List Token} {first : Tree}, Derives n ts first →
      ∃ ds : Derivations n, ds.yield separator = separator ++ ts ++ us ∧
        ds.trees = first :: rest := by
  induction hs with
  | nil =>
    rintro _ _ ⟨d, rfl, rfl⟩
    exact ⟨.last d, by simp [Derivations.yield], rfl⟩
  | cons h _ ih =>
    rintro _ _ ⟨d, rfl, rfl⟩
    obtain ⟨vs, rfl, hnext⟩ := h
    obtain ⟨ds, hyield, htrees⟩ := ih hnext
    exact ⟨.cons d ds, by simp [Derivations.yield, hyield], by simp [Derivations.trees, htrees]⟩

/-- A list of one item is the item, and one of more is a node over them. -/
theorem derives_listOf {n m : Nonterminal} {kind : Kind} {separator : Token}
    (alone : ∀ ts t, Derives m ts t → Derives n ts t)
    (list : ∀ ts t (ds : Derivations m), Derives m ts t →
      Derives n (ts ++ ds.yield [separator]) (.branch kind (t :: ds.trees)))
    {us : List Token} {rest : List Tree}
    (hs : Chunks (fun us t => ∃ vs, us = [separator] ++ vs ∧ Derives m vs t) us rest)
    {ts : List Token} {first : Tree} (hfirst : Derives m ts first) :
    Derives n (ts ++ us) (listOf kind first rest) := by
  cases hs with
  | nil =>
    rw [List.append_nil]
    exact alone _ _ hfirst
  | cons h hs =>
    obtain ⟨vs, rfl, hnext⟩ := h
    obtain ⟨ds, hyield, htrees⟩ := exists_derivations hs hnext
    have hlist := list ts first ds hfirst
    rwa [hyield, htrees] at hlist

section Productions

variable (stop room : Nat) {inner : Phrase → Rule Tree}

/-- A rule behind a separator. -/
theorem finds_separated {n : Nonterminal} {separator : Rule Unit} {token : Token}
    {item : Rule Tree} (hs : Finds separator fun ts _ => ts = [token])
    (hi : Finds item (Derives n)) :
    Finds (do separator; item) fun us t => ∃ vs, us = [token] ++ vs ∧ Derives n vs t := by
  refine hs.bind fun ts _ hts => hi.mono fun us t ht => ?_
  exact ⟨us, by rw [hts], ht⟩

/-- An operand behind an operator. -/
theorem finds_operation {n : Nonterminal} {class? : Token → Option Kind} {operator : Rule Kind}
    {operand : Rule Tree} (hk : Finds operator fun ts kind => ∃ t, ts = [t] ∧ class? t = some kind)
    (ho : Finds operand (Derives n)) :
    Finds (do
      let kind ← operator
      let right ← operand
      pure (kind, right)) fun us r =>
        ∃ op vs, us = op :: vs ∧ class? op = some r.1 ∧ Derives n vs r.2 := by
  refine hk.bind fun ts kind hts => ho.bind fun vs right hright => finds_pure ?_
  obtain ⟨op, rfl, hop⟩ := hts
  exact ⟨op, vs, by simp, hop, hright⟩

/-- One more link of a chain. -/
theorem derives_link (c : Chain) (ls : List Token) (l : Tree) (us : List Token) (r : Kind × Tree)
    (hl : Derives (.chain c) ls l)
    (hr : ∃ op vs, us = op :: vs ∧ c.operator? op = some r.1 ∧ Derives c.operand vs r.2) :
    Derives (.chain c) (ls ++ us) (.branch r.1 [l, r.2]) := by
  obtain ⟨op, vs, rfl, hop, hr⟩ := hr
  exact hl.link hop hr

/-- A chain of operators: the first operand starts a derivation, and every further link extends it.
-/
theorem finds_leftChain (c : Chain) {operand : Rule Tree} {operator : Rule Kind}
    (ho : Finds operand (Derives c.operand))
    (hk : Finds operator fun ts kind => ∃ t, ts = [t] ∧ c.operator? t = some kind) :
    Finds (leftChain room operand operator) (Derives (.chain c)) := by
  refine ho.bind fun ts first hfirst => ?_
  refine ((finds_operation hk ho).many room).bind fun us rest hrest => finds_pure ?_
  rw [List.append_nil]
  obtain ⟨d, rfl, rfl⟩ := hfirst
  exact derives_leftNest (derives_link c) hrest ⟨.start c d, rfl, rfl⟩

/-! ## 2. Tokens -/

/-- A name. -/
theorem finds_identifier :
    Finds (identifier stop) fun ts t => ∃ x, ts = [.identifier x] ∧ t = .leaf .identifier x := by
  refine finds_accept stop fun t a h => ?_
  cases t with
  | identifier x =>
    cases h
    exact ⟨x, rfl, rfl⟩
  | _ => cases h

/-- A reserved word for a constant is an operand. -/
theorem finds_constant (w : Keyword) (kind : Kind)
    (h : atom? (.keyword w) = some (.branch kind [])) :
    Finds (constant stop w kind) (Derives .operand) := by
  refine (finds_keyword stop w).bind fun ts _ hts => finds_pure ?_
  subst hts
  exact ⟨.atom _ _ h, rfl, rfl⟩

/-- A symbol for an operator of a class. -/
theorem finds_symbolOperator {class? : Token → Option Kind} (s : Symbol) (kind : Kind)
    (h : class? (.symbol s) = some kind) :
    Finds (symbolOperator stop s kind) fun ts kind => ∃ t, ts = [t] ∧ class? t = some kind := by
  refine (finds_symbol stop s).bind fun ts _ hts => finds_pure ?_
  exact ⟨_, by rw [hts]; rfl, h⟩

/-- A reserved word for an operator of a class. -/
theorem finds_keywordOperator {class? : Token → Option Kind} (w : Keyword) (kind : Kind)
    (h : class? (.keyword w) = some kind) :
    Finds (keywordOperator stop w kind) fun ts kind => ∃ t, ts = [t] ∧ class? t = some kind := by
  refine (finds_keyword stop w).bind fun ts _ hts => finds_pure ?_
  exact ⟨_, by rw [hts]; rfl, h⟩

/-- Brackets, with what is found between them. -/
theorem finds_bracketed {S : List Token → Tree → Prop} {p : Rule Tree} (h : Finds p S) :
    Finds (Grammar.bracketed stop p) fun ts t =>
      ∃ us, ts = .symbol .lparen :: (us ++ [.symbol .rparen]) ∧ S us t := by
  refine (finds_symbol stop .lparen).bind fun ts _ hts => h.bind fun us t ht =>
    (finds_symbol stop .rparen).bind fun vs _ hvs => finds_pure ?_
  exact ⟨us, by simp [hts, hvs], ht⟩

/-! ## 3. Expressions -/

/-- The nonterminal of a phrase. -/
abbrev Phrase.nonterminal : Phrase → Nonterminal
  | .expression => .expression
  | .definition => .definition
  | .conditional => .conditional

section Expressions

variable (hinner : ∀ p, Finds (inner p) (Derives p.nonterminal))

include hinner

/-- Every alternative of an operand is an atom, except for the brackets. -/
theorem finds_operand : Finds (operand stop inner) (Derives .operand) := by
  have htoken : ∀ {class? : Token → Option Tree}, (∀ t a, class? t = some a → atom? t = some a) →
      Finds (accept stop class?) (Derives .operand) := fun h =>
    finds_accept stop fun t a ht => ⟨.atom t a (h t a ht), rfl, rfl⟩
  refine Finds.oneOf (htoken fun t a h => ?_) ?_
  · cases t <;> cases h
    rfl
  · simp only [List.forall_mem_cons, List.not_mem_nil, false_imp_iff, implies_true, and_true]
    refine ⟨htoken fun t a h => ?_, htoken fun t a h => ?_, finds_constant stop _ _ rfl,
      finds_constant stop _ _ rfl, finds_constant stop _ _ rfl, finds_constant stop _ _ rfl,
      (finds_bracketed stop (hinner .expression)).mono ?_⟩
    · cases t <;> cases h
      rfl
    · cases t <;> cases h
      rfl
    · rintro _ _ ⟨_, rfl, d, rfl, rfl⟩
      exact ⟨.bracket d, rfl, rfl⟩

/-- Each further operand applies what stands on its left. -/
theorem finds_application : Finds (application stop room inner) (Derives .application) := by
  have ho := finds_operand stop hinner
  refine ho.bind fun ts first hfirst => (ho.many room).bind fun us rest hrest => finds_pure ?_
  rw [List.append_nil]
  have hpairs : Chunks (fun us (r : Kind × Tree) => r.1 = .gamma ∧ Derives .operand us r.2) us
      (rest.map (Kind.gamma, ·)) := by
    induction hrest with
    | nil => exact .nil
    | cons h _ ih => exact .cons ⟨rfl, h⟩ ih
  -- an application is a chain whose operator is not written
  obtain ⟨d, rfl, rfl⟩ := hfirst
  refine derives_leftNest ?_ hpairs ⟨.unapplied d, rfl, rfl⟩
  rintro _ _ _ ⟨_, _⟩ ⟨f, rfl, rfl⟩ ⟨rfl, a, rfl, rfl⟩
  exact ⟨.apply f a, rfl, rfl⟩

/-- Each further call has what stands on its left as its left operand. -/
theorem finds_infixCall : Finds (infixCall stop room inner) (Derives .infixCall) := by
  have ha := finds_application stop room hinner
  refine ha.bind fun ts first hfirst => ?_
  have hcall : Finds (do
      symbol stop .at
      let name ← identifier stop
      let right ← application stop room inner
      pure (name, right)) fun us r => ∃ f vs, us = .symbol .at :: .identifier f :: vs ∧
        r.1 = .leaf .identifier f ∧ Derives .application vs r.2 := by
    refine (finds_symbol stop .at).bind fun us _ hus => (finds_identifier stop).bind
      fun vs name hname => ha.bind fun ws right hright => finds_pure ?_
    obtain ⟨f, rfl, rfl⟩ := hname
    exact ⟨f, ws, by simp [hus], rfl, hright⟩
  refine (hcall.many room).bind fun us rest hrest => finds_pure ?_
  rw [List.append_nil]
  obtain ⟨d, rfl, rfl⟩ := hfirst
  exact derives_calls hrest (.uncalled d)

/-- Powers nest to the right, as their derivations do. -/
theorem finds_power : Finds (power stop room inner) (Derives .power) := by
  have hi := finds_infixCall stop room hinner
  refine hi.bind fun ts first hfirst =>
    ((finds_separated (finds_symbol stop .power) hi).many room).bind fun us rest hrest =>
      finds_pure ?_
  rw [List.append_nil]
  refine derives_rightNest ?_ ?_ hrest hfirst
  · rintro _ _ ⟨d, rfl, rfl⟩
    exact ⟨.unraised d, rfl, rfl⟩
  · rintro _ _ _ _ ⟨d, rfl, rfl⟩ ⟨e, rfl, rfl⟩
    exact ⟨.raise d e, rfl, rfl⟩

theorem finds_term : Finds (term stop room inner) (Derives (.chain .product)) :=
  finds_leftChain room .product (finds_power stop room hinner)
    ((finds_symbolOperator stop .times .mult rfl).oneOf
      (by simpa using finds_symbolOperator stop .divide .div rfl))

omit hinner in
/-- The operators of a sum. -/
theorem finds_additive : Finds (additive stop) fun ts kind =>
    ∃ t, ts = [t] ∧ Chain.operator? .sum t = some kind :=
  (finds_symbolOperator stop .plus .plus rfl).oneOf
    (by simpa using finds_symbolOperator stop .minus .minus rfl)

omit hinner in
/-- A term behind a sign. -/
theorem derives_signed {sign : Token} {kind : Kind} (h : Chain.operator? .sum sign = some kind)
    (d : Derivation (.chain .product)) :
    Derives (.chain .sum) (sign :: d.yield)
      (if some kind = some .minus then .branch .neg [d.tree] else d.tree) := by
  match sign, h with
  | .symbol .plus, h =>
    cases h
    exact ⟨.positive d, rfl, rfl⟩
  | .symbol .minus, h =>
    cases h
    exact ⟨.negative d, rfl, rfl⟩

/-- A sum begins with a term or with a sign and a term; then its links are those of any chain. -/
theorem finds_arithmetic : Finds (arithmetic stop room inner) (Derives (.chain .sum)) := by
  have ht := finds_term stop room hinner
  have hk := finds_additive stop
  refine hk.optional.bind fun ts sign hsign => ht.bind fun us first hfirst => ?_
  refine ((finds_operation hk ht).many room).bind fun vs rest hrest => finds_pure ?_
  rw [List.append_nil, ← List.append_assoc]
  refine derives_leftNest (derives_link .sum) hrest ?_
  obtain ⟨d, rfl, rfl⟩ := hfirst
  rcases hsign with ⟨rfl, rfl⟩ | ⟨kind, ⟨t, rfl, hkind⟩, rfl⟩
  · exact ⟨.start .sum d, rfl, rfl⟩
  · exact derives_signed hkind d

omit hinner in
/-- The comparisons. -/
theorem finds_comparisonOperator : Finds (comparisonOperator stop) fun ts kind =>
    ∃ t, ts = [t] ∧ comparison? t = some kind := by
  refine (finds_keywordOperator stop .gr .gr rfl).oneOf ?_
  simp only [List.forall_mem_cons, List.not_mem_nil, false_imp_iff, implies_true, and_true]
  exact ⟨finds_keywordOperator stop _ _ rfl, finds_keywordOperator stop _ _ rfl,
    finds_keywordOperator stop _ _ rfl, finds_keywordOperator stop _ _ rfl,
    finds_keywordOperator stop _ _ rfl, finds_symbolOperator stop _ _ rfl,
    finds_symbolOperator stop _ _ rfl, finds_symbolOperator stop _ _ rfl,
    finds_symbolOperator stop _ _ rfl⟩

/-- A sum alone, or two sums with a comparison between them. -/
theorem finds_comparison : Finds (comparison stop room inner) (Derives .comparison) := by
  have ha := finds_arithmetic stop room hinner
  have hk := finds_comparisonOperator stop
  refine ha.bind fun ts left hleft => (finds_operation hk ha).optional.bind fun us rest hrest =>
    finds_pure ?_
  rw [List.append_nil]
  obtain ⟨d, rfl, rfl⟩ := hleft
  rcases hrest with ⟨rfl, rfl⟩ | ⟨⟨kind, right⟩, ⟨op, vs, rfl, hop, e, rfl, he⟩, rfl⟩
  · exact ⟨.uncompared d, by rw [List.append_nil]; rfl, rfl⟩
  · obtain rfl : e.tree = right := he
    exact ⟨.compare op kind hop d e, rfl, rfl⟩

/-- A comparison, behind `not` or alone. -/
theorem finds_negation : Finds (negation stop room inner) (Derives .negation) := by
  have hc := finds_comparison stop room hinner
  refine Finds.either ?_ (hc.mono ?_)
  · refine (finds_keyword stop .not).bind fun ts _ hts => hc.bind fun us t ht => finds_pure ?_
    obtain ⟨d, rfl, rfl⟩ := ht
    exact ⟨.not d, by simp [hts, Derivation.yield], rfl⟩
  · rintro _ _ ⟨d, rfl, rfl⟩
    exact ⟨.unnegated d, rfl, rfl⟩

theorem finds_conjunction : Finds (conjunction stop room inner) (Derives (.chain .conjunction)) :=
  finds_leftChain room .conjunction (finds_negation stop room hinner)
    (finds_symbolOperator stop .ampersand .and rfl)

theorem finds_disjunction : Finds (disjunction stop room inner) (Derives (.chain .disjunction)) :=
  finds_leftChain room .disjunction (finds_conjunction stop room hinner)
    (finds_keywordOperator stop .or .or rfl)

/-- A disjunction alone, or a condition with two branches. -/
theorem finds_conditional : Finds (conditional stop room inner) (Derives .conditional) := by
  refine (finds_disjunction stop room hinner).bind fun ts condition hcondition => ?_
  have hbranches : Finds (do
      symbol stop .arrow
      let thenPart ← inner .conditional
      symbol stop .bar
      let elsePart ← inner .conditional
      pure [thenPart, elsePart]) fun us branches => ∃ t e : Derivation .conditional,
        us = .symbol .arrow :: (t.yield ++ .symbol .bar :: e.yield) ∧
          branches = [t.tree, e.tree] := by
    refine (finds_symbol stop .arrow).bind fun us _ hus => (hinner .conditional).bind
      fun vs thenPart hthen => (finds_symbol stop .bar).bind fun ws _ hws =>
        (hinner .conditional).bind fun xs elsePart helse => finds_pure ?_
    obtain ⟨t, rfl, rfl⟩ := hthen
    obtain ⟨e, rfl, rfl⟩ := helse
    exact ⟨t, e, by simp [hus, hws], rfl⟩
  refine hbranches.optional.bind fun us branches hbranches => finds_pure ?_
  rw [List.append_nil]
  obtain ⟨d, rfl, rfl⟩ := hcondition
  rcases hbranches with ⟨rfl, rfl⟩ | ⟨_, ⟨t, e, rfl, rfl⟩, rfl⟩
  · exact ⟨.unconditional d, by rw [List.append_nil]; rfl, rfl⟩
  · exact ⟨.choice d t e, rfl, rfl⟩

theorem finds_augmented : Finds (augmented stop room inner) (Derives (.chain .augmented)) :=
  finds_leftChain room .augmented (finds_conditional stop room hinner)
    (finds_keywordOperator stop .aug .aug rfl)

/-- One component, or several with commas between them. -/
theorem finds_tuple : Finds (tuple stop room inner) (Derives .tuple) := by
  have ha := finds_augmented stop room hinner
  refine ha.bind fun ts first hfirst =>
    ((finds_separated (finds_symbol stop .comma) ha).many room).bind fun us rest hrest =>
      finds_pure ?_
  rw [List.append_nil]
  refine derives_listOf ?_ ?_ hrest hfirst
  · rintro _ _ ⟨d, rfl, rfl⟩
    exact ⟨.untupled d, rfl, rfl⟩
  · rintro _ _ ds ⟨d, rfl, rfl⟩
    exact ⟨.tau d ds, rfl, rfl⟩

/-! ## 4. Definitions -/

omit hinner in
/-- One name, or several with commas between them. -/
theorem finds_nameList : Finds (nameList stop room) (Derives .names) := by
  have hi := finds_identifier stop
  refine hi.bind fun ts first hfirst => ?_
  have hnext : Finds (do symbol stop .comma; identifier stop) fun us t =>
      ∃ x, us = [.symbol .comma, .identifier x] ∧ t = .leaf .identifier x := by
    refine (finds_symbol stop .comma).bind fun us _ hus => hi.mono fun vs t ht => ?_
    obtain ⟨x, rfl, rfl⟩ := ht
    exact ⟨x, by rw [hus]; rfl, rfl⟩
  refine (hnext.many room).bind fun us rest hrest => finds_pure ?_
  obtain ⟨x, rfl, rfl⟩ := hfirst
  obtain ⟨xs, rfl, rfl⟩ : ∃ xs, us = commaNames xs ∧ rest = xs.map (.leaf .identifier) := by
    induction hrest with
    | nil => exact ⟨[], rfl, rfl⟩
    | cons h _ ih =>
      obtain ⟨y, rfl, rfl⟩ := h
      obtain ⟨xs, rfl, rfl⟩ := ih
      exact ⟨y :: xs, rfl, rfl⟩
  rw [List.append_nil]
  cases xs with
  | nil => exact ⟨.name x, rfl, rfl⟩
  | cons y xs => exact ⟨.names x y xs, rfl, rfl⟩

omit hinner in
/-- A name, `()`, or names in brackets. -/
theorem finds_parameter : Finds (Grammar.parameter stop room) (Derives .parameter) := by
  refine Finds.oneOf ((finds_identifier stop).mono ?_) ?_
  · rintro _ _ ⟨x, rfl, rfl⟩
    exact ⟨.parameter x, rfl, rfl⟩
  · simp only [List.forall_mem_cons, List.not_mem_nil, false_imp_iff, implies_true, and_true]
    constructor
    · refine (finds_symbol stop .lparen).bind fun ts _ hts => (finds_symbol stop .rparen).bind
        fun us _ hus => finds_pure ?_
      exact ⟨.nothing, by simp [hts, hus, Derivation.yield], rfl⟩
    · refine (finds_bracketed stop (finds_nameList stop room)).mono ?_
      rintro _ _ ⟨_, rfl, d, rfl, rfl⟩
      exact ⟨.pattern d, rfl, rfl⟩

omit hinner in
/-- Parameters side by side, without a separator. -/
theorem finds_parameters : Finds (many1 room (Grammar.parameter stop room)) fun ts params =>
    ∃ ds : Derivations .parameter, ds.yield [] = ts ∧ ds.trees = params := by
  have hp := finds_parameter stop room
  refine hp.bind fun ts first hfirst => (hp.many room).bind fun us rest hrest => finds_pure ?_
  have hchunks : Chunks (fun us t => ∃ vs, us = [] ++ vs ∧ Derives .parameter vs t) us rest := by
    induction hrest with
    | nil => exact .nil
    | cons h _ ih => exact .cons ⟨_, rfl, h⟩ ih
  rw [List.append_nil]
  exact exists_derivations hchunks hfirst

/-- A definition in brackets, one in the form of a function, or one of names. -/
theorem finds_basicDefinition : Finds (basicDefinition stop room inner) (Derives .basic) := by
  refine Finds.oneOf ((finds_bracketed stop (hinner .definition)).mono ?_) ?_
  · rintro _ _ ⟨_, rfl, d, rfl, rfl⟩
    exact ⟨.bracketed d, rfl, rfl⟩
  · simp only [List.forall_mem_cons, List.not_mem_nil, false_imp_iff, implies_true, and_true]
    constructor
    · refine (finds_identifier stop).bind fun ts name hname => (finds_parameters stop room).bind
        fun us params hparams => (finds_symbol stop .equals).bind fun vs _ hvs =>
          (hinner .expression).bind fun ws body hbody => finds_pure ?_
      obtain ⟨f, rfl, rfl⟩ := hname
      obtain ⟨ds, rfl, rfl⟩ := hparams
      obtain ⟨e, rfl, rfl⟩ := hbody
      exact ⟨.functionForm f ds e, by simp [hvs, Derivation.yield], rfl⟩
    · refine (finds_nameList stop room).bind fun ts names hnames =>
        (finds_symbol stop .equals).bind fun us _ hus => (hinner .expression).bind
          fun vs value hvalue => finds_pure ?_
      obtain ⟨d, rfl, rfl⟩ := hnames
      obtain ⟨e, rfl, rfl⟩ := hvalue
      exact ⟨.equal d e, by simp [hus, Derivation.yield], rfl⟩

/-- A definition, behind `rec` or alone. -/
theorem finds_recursiveDefinition :
    Finds (recursiveDefinition stop room inner) (Derives .recursive) := by
  have hb := finds_basicDefinition stop room hinner
  refine Finds.either ?_ (hb.mono ?_)
  · refine (finds_keyword stop .recWord).bind fun ts _ hts => hb.bind fun us t ht =>
      finds_pure ?_
    obtain ⟨d, rfl, rfl⟩ := ht
    exact ⟨.recursive d, by simp [hts, Derivation.yield], rfl⟩
  · rintro _ _ ⟨d, rfl, rfl⟩
    exact ⟨.plain d, rfl, rfl⟩

/-- One definition, or several with `and` between them. -/
theorem finds_simultaneous : Finds (simultaneous stop room inner) (Derives .simultaneous) := by
  have hr := finds_recursiveDefinition stop room hinner
  refine hr.bind fun ts first hfirst =>
    ((finds_separated (finds_keyword stop .and) hr).many room).bind fun us rest hrest =>
      finds_pure ?_
  rw [List.append_nil]
  refine derives_listOf ?_ ?_ hrest hfirst
  · rintro _ _ ⟨d, rfl, rfl⟩
    exact ⟨.alone d, rfl, rfl⟩
  · rintro _ _ ds ⟨d, rfl, rfl⟩
    exact ⟨.and d ds, rfl, rfl⟩

/-- Definitions with `within` between them nest to the right. -/
theorem finds_definition : Finds (definition stop room inner) (Derives .definition) := by
  have hs := finds_simultaneous stop room hinner
  refine hs.bind fun ts first hfirst =>
    ((finds_separated (finds_keyword stop .within) hs).many room).bind fun us rest hrest =>
      finds_pure ?_
  rw [List.append_nil]
  refine derives_rightNest ?_ ?_ hrest hfirst
  · rintro _ _ ⟨d, rfl, rfl⟩
    exact ⟨.unnested d, rfl, rfl⟩
  · rintro _ _ _ _ ⟨d, rfl, rfl⟩ ⟨e, rfl, rfl⟩
    exact ⟨.within d e, rfl, rfl⟩

/-! ## 5. Programs -/

/-- `let`, `fn`, or a clause, which is a tuple with or without `where` behind it. -/
theorem finds_expression : Finds (expression stop room inner) (Derives .expression) := by
  refine Finds.oneOf ?_ ?_
  · refine (finds_keyword stop .letWord).bind fun ts _ hts => (hinner .definition).bind
      fun us d hd => (finds_keyword stop .inWord).bind fun vs _ hvs =>
        (hinner .expression).bind fun ws body hbody => finds_pure ?_
    obtain ⟨d, rfl, rfl⟩ := hd
    obtain ⟨e, rfl, rfl⟩ := hbody
    exact ⟨.letIn d e, by simp [hts, hvs, Derivation.yield], rfl⟩
  · simp only [List.forall_mem_cons, List.not_mem_nil, false_imp_iff, implies_true, and_true]
    constructor
    · refine (finds_keyword stop .fnWord).bind fun ts _ hts => (finds_parameters stop room).bind
        fun us params hparams => (finds_symbol stop .dot).bind fun vs _ hvs =>
          (hinner .expression).bind fun ws body hbody => finds_pure ?_
      obtain ⟨ds, rfl, rfl⟩ := hparams
      obtain ⟨e, rfl, rfl⟩ := hbody
      exact ⟨.function ds e, by simp [hts, hvs, Derivation.yield], rfl⟩
    · refine (finds_tuple stop room hinner).bind fun ts t ht => ?_
      have hwhere : Finds (do
          keyword stop .whereWord
          recursiveDefinition stop room inner) fun us d =>
            ∃ vs, us = .keyword .whereWord :: vs ∧ Derives .recursive vs d :=
        finds_separated (finds_keyword stop .whereWord)
          (finds_recursiveDefinition stop room hinner)
      refine hwhere.optional.bind fun us d hd => finds_pure ?_
      rw [List.append_nil]
      obtain ⟨e, rfl, rfl⟩ := ht
      rcases hd with ⟨rfl, rfl⟩ | ⟨_, ⟨_, rfl, d, rfl, rfl⟩, rfl⟩
      · exact ⟨.unscoped (.unqualified e), by rw [List.append_nil]; rfl, rfl⟩
      · exact ⟨.unscoped (.whereDef e d), rfl, rfl⟩

end Expressions

end Productions

/-- **What a phrase reads is derived from its nonterminal.** -/
theorem finds_phrase (stop room : Nat) (p : Phrase) :
    Finds (phrase stop room p) (Derives p.nonterminal) := by
  induction room generalizing p with
  | zero => exact finds_failAt stop
  | succ room ih =>
    cases p with
    | expression => exact finds_expression stop room ih
    | definition => exact finds_definition stop room ih
    | conditional => exact finds_conditional stop room ih

end Rpal.Grammar
