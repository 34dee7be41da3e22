/-
# What the grammar builds

Every tree that is read from a source text is a raw tree (`isRaw_of_parse`).

`Yields p Q` says that whatever a rule reads has the property `Q`.  It passes through all the
combinators of rules, so each production comes down to what it puts around the parts it reads;
the three phrases that recursion goes through are assumed to yield their sorts, and the
induction on the depth of the knot discharges that.
-/
import Rpal.Program
import Rpal.Proofs.Tree.Raw

namespace Rpal

/-! ## 1. What rules yield -/

namespace Rule

variable {α β : Type}

/-- Whatever the rule reads has the property. -/
def Yields (p : Rule α) (Q : α → Prop) : Prop := ∀ ls a rest, p ls = .ok (a, rest) → Q a

variable {p q : Rule α} {Q : α → Prop}

/-- A rule yields less specific properties as well. -/
theorem Yields.mono {R : α → Prop} (h : Yields p Q) (hQR : ∀ a, Q a → R a) : Yields p R :=
  fun ls a rest hp => hQR a (h ls a rest hp)

/-- Of a rule whose result is thrown away nothing has to be known. -/
theorem yields_any (p : Rule α) : Yields p fun _ => True := fun _ _ _ _ => trivial

/-- A rule that reads nothing yields whatever is asked for. -/
theorem yields_failAt (place : Nat) : Yields (failAt place : Rule α) Q := by
  intro ls a rest h
  cases h

/-- A result that is given without reading. -/
theorem yields_pure {a : α} (h : Q a) : Yields (pure a) Q := by
  intro ls b rest hb
  cases hb
  exact h

/-- What is read second may depend on what was read first, and on its property. -/
theorem Yields.bind {f : α → Rule β} {R : β → Prop} (hp : Yields p Q)
    (hf : ∀ a, Q a → Yields (f a) R) : Yields (p >>= f) R := by
  intro ls b rest h
  have hbind : (p >>= f) ls = (p ls >>= fun r => f r.1 r.2) := rfl
  rw [hbind] at h
  cases hr : p ls with
  | error e =>
    rw [hr] at h
    cases h
  | ok r =>
    rw [hr] at h
    exact hf r.1 (hp ls r.1 r.2 hr) r.2 b rest h

/-- A token that is accepted is what its class makes of it. -/
theorem yields_accept (stop : Nat) {class? : Token → Option α}
    (h : ∀ t a, class? t = some a → Q a) : Yields (accept stop class?) Q := by
  intro ls a rest hp
  cases ls with
  | nil => cases hp
  | cons l ls =>
    simp only [accept] at hp
    cases hc : class? l.token with
    | none =>
      rw [hc] at hp
      cases hp
    | some b =>
      simp only [hc, Except.ok.injEq, Prod.mk.injEq] at hp
      obtain ⟨rfl, -⟩ := hp
      exact h l.token b hc

/-- Either alternative may have been the one that was read. -/
theorem Yields.either (hp : Yields p Q) (hq : Yields q Q) : Yields (either p q) Q := by
  intro ls a rest h
  unfold Rule.either at h
  cases hpl : p ls with
  | ok r =>
    rw [hpl] at h
    cases h
    exact hp ls a rest hpl
  | error i =>
    cases hql : q ls with
    | ok r =>
      rw [hpl, hql] at h
      cases h
      exact hq ls a rest hql
    | error j =>
      rw [hpl, hql] at h
      cases h

/-- The same for more than two alternatives. -/
theorem Yields.oneOf {qs : List (Rule α)} (hp : Yields p Q) (hqs : ∀ q ∈ qs, Yields q Q) :
    Yields (oneOf p qs) Q := by
  induction qs generalizing p with
  | nil => exact hp
  | cons q qs ih =>
    rw [List.forall_mem_cons] at hqs
    exact hp.either (ih hqs.1 hqs.2)

/-- An option yields nothing, or what its rule yields. -/
theorem Yields.optional (hp : Yields p Q) : Yields (optional p) fun o => ∀ a ∈ o, Q a := by
  intro ls o rest h a ha
  unfold Rule.optional at h
  cases hpl : p ls with
  | ok r =>
    simp only [hpl, Except.ok.injEq, Prod.mk.injEq] at h
    obtain ⟨rfl, -⟩ := h
    rw [Option.mem_some_iff] at ha
    subst ha
    exact hp ls r.1 r.2 hpl
  | error i =>
    rw [hpl] at h
    cases h
    cases ha

/-- Every element of a repetition is what its rule yields; there may be none. -/
theorem Yields.many (hp : Yields p Q) (room : Nat) :
    Yields (many room p) fun as => ∀ a ∈ as, Q a := by
  have hrepeated : ∀ (room : Nat) (ls : List Lexeme), ∀ a ∈ (repeated p room ls).1, Q a := by
    intro room
    induction room with
    | zero => simp [repeated]
    | succ room ih =>
      intro ls
      simp only [repeated]
      cases hpl : p ls with
      | ok r =>
        simp only [List.forall_mem_cons]
        exact ⟨hp ls r.1 r.2 hpl, ih r.2⟩
      | error i => simp
  intro ls as rest h
  have has : (repeated p room ls).1 = as := congrArg Prod.fst (Except.ok.inj h)
  rw [← has]
  exact hrepeated room ls

/-- A repetition that has to read something yields at least one element. -/
theorem Yields.many1 (hp : Yields p Q) (room : Nat) :
    Yields (many1 room p) fun as => as ≠ [] ∧ ∀ a ∈ as, Q a :=
  hp.bind fun a ha => (hp.many room).bind fun as has =>
    yields_pure ⟨List.cons_ne_nil a as, List.forall_mem_cons.mpr ⟨ha, has⟩⟩

end Rule

namespace Grammar

open Rule Rpal.Tree

/-! ## 2. Chains -/

/-- A chain that nests to the left is an expression if its first part and the right operands are,
for its operators have two operands each.  Every operator closes around what stands left of it, so
the first part is general in the induction. -/
theorem isRaw_leftNest {rest : List (Kind × Tree)}
    (hr : ∀ r ∈ rest, r.1.Admits 2 ∧ r.2.IsRaw .expression) :
    ∀ {first : Tree}, first.IsRaw .expression → (leftNest first rest).IsRaw .expression := by
  induction rest with
  | nil => exact fun hf => hf
  | cons r rest ih =>
    intro first hf
    rw [List.forall_mem_cons] at hr
    exact ih hr.2 (.node hr.1.1 (.inl rfl) (by simpa using ⟨hf, hr.1.2⟩))

/-- A chain that nests to the right is what its kind makes of two of its parts. -/
theorem isRaw_rightNest {c : Category} {kind : Kind}
    (h : ∀ x y : Tree, x.IsRaw c → y.IsRaw c → (branch kind [x, y]).IsRaw c) {rest : List Tree}
    (hr : ∀ r ∈ rest, r.IsRaw c) :
    ∀ {first : Tree}, first.IsRaw c → (rightNest kind first rest).IsRaw c := by
  induction rest with
  | nil => exact fun hf => hf
  | cons r rest ih =>
    intro first hf
    rw [List.forall_mem_cons] at hr
    exact h _ _ hf (ih hr.2 hr.1)

section Productions

variable (stop room : Nat) {inner : Phrase → Rule Tree}

/-- Operands with operators between them, as in `a + b - c`. -/
theorem yields_leftChain {operand : Rule Tree} {operator : Rule Kind}
    (ho : Yields operand (IsRaw .expression)) (hk : Yields operator fun kind => kind.Admits 2) :
    Yields (leftChain room operand operator) (IsRaw .expression) := by
  refine ho.bind fun first hfirst => ?_
  have hrest : Yields (do
      let kind ← operator
      let right ← operand
      pure (kind, right)) fun r => r.1.Admits 2 ∧ r.2.IsRaw .expression :=
    hk.bind fun kind hkind => ho.bind fun right hright => yields_pure ⟨hkind, hright⟩
  exact (hrest.many room).bind fun rest hrest => yields_pure (isRaw_leftNest hrest hfirst)

/-- Parts with a separator between them that nest to the right, as in `a ** b ** c` and in
definitions with `within`. -/
theorem yields_rightChain {c : Category} {kind : Kind} {item : Rule Tree} {separator : Rule Unit}
    (h : ∀ x y : Tree, x.IsRaw c → y.IsRaw c → (branch kind [x, y]).IsRaw c)
    (hi : Yields item (IsRaw c)) : Yields (rightChain room kind item separator) (IsRaw c) := by
  refine hi.bind fun first hfirst => ?_
  have hrest : Yields (do separator; item) (IsRaw c) := (yields_any separator).bind fun _ _ => hi
  exact (hrest.many room).bind fun rest hrest => yields_pure (isRaw_rightNest h hrest hfirst)

/-- Parts with a separator between them that stand side by side, as in `a, b, c`.  A single part
stands for itself: it need not be a list. -/
theorem yields_listChain {Q R : Tree → Prop} {kind : Kind} {item : Rule Tree}
    {separator : Rule Unit} (hi : Yields item Q) (hone : ∀ t, Q t → R t)
    (h : ∀ ts : List Tree, (∀ t ∈ ts, Q t) → R (branch kind ts)) :
    Yields (listChain room kind item separator) R := by
  refine hi.bind fun first hfirst => ?_
  have hrest : Yields (do separator; item) Q := (yields_any separator).bind fun _ _ => hi
  refine (hrest.many room).bind fun rest hrest => yields_pure ?_
  cases rest with
  | nil => exact hone first hfirst
  | cons r rest => exact h _ (List.forall_mem_cons.mpr ⟨hfirst, hrest⟩)

/-! ## 3. Tokens and operators -/

/-- A token with a text is an expression. -/
theorem isRaw_leaf {kind : Kind} (h : kind.HasText) (text : String) :
    (leaf kind text).IsRaw .expression := by
  refine .node ?_ (.inr h) (by simp)
  rcases h with rfl | rfl | rfl <;> rfl

/-- A constant is an expression: its kind has no children and no text. -/
theorem isRaw_constant {kind : Kind} (h : kind.Admits 0) :
    (branch kind []).IsRaw .expression :=
  .node h (.inl rfl) (by simp)

/-- A name is a leaf with the text of the name. -/
theorem yields_identifier : Yields (identifier stop) fun t => ∃ x, t = leaf .identifier x := by
  refine yields_accept stop fun t a h => ?_
  cases t <;> cases h
  exact ⟨_, rfl⟩

/-- An integer or a string is an expression. -/
theorem yields_token {kind : Kind} (h : kind.HasText) {class? : Token → Option Tree}
    (hc : ∀ t a, class? t = some a → ∃ text, a = leaf kind text) :
    Yields (accept stop class?) (IsRaw .expression) := by
  refine yields_accept stop fun t a ha => ?_
  obtain ⟨text, rfl⟩ := hc t a ha
  exact isRaw_leaf h text

/-- A reserved word for a constant is an expression. -/
theorem yields_constant (w : Keyword) {kind : Kind} (h : kind.Admits 0) :
    Yields (constant stop w kind) (IsRaw .expression) :=
  (yields_any _).bind fun _ _ => yields_pure (isRaw_constant h)

/-- An operator that is written with a symbol has two operands. -/
theorem yields_symbolOperator (s : Symbol) (kind : Kind) (h : kind.Admits 2) :
    Yields (symbolOperator stop s kind) fun kind => kind.Admits 2 :=
  (yields_any _).bind fun _ _ => yields_pure h

/-- An operator that is a reserved word has two operands. -/
theorem yields_keywordOperator (w : Keyword) (kind : Kind) (h : kind.Admits 2) :
    Yields (keywordOperator stop w kind) fun kind => kind.Admits 2 :=
  (yields_any _).bind fun _ _ => yields_pure h

/-- Brackets leave no trace in the tree. -/
theorem yields_bracketed {Q : Tree → Prop} {p : Rule Tree} (h : Yields p Q) :
    Yields (bracketed stop p) Q :=
  (yields_any _).bind fun _ _ => h.bind fun _ ht => (yields_any _).bind fun _ _ => yields_pure ht

/-! ## 4. Expressions -/

/-- What the phrases yield. -/
def Phrase.category : Phrase → Category
  | .expression => .expression
  | .definition => .definition
  | .conditional => .expression

section Expressions

variable (hinner : ∀ p, Yields (inner p) (IsRaw p.category))

include hinner

/-- Names, numerals, strings, constants and brackets. -/
theorem yields_operand : Yields (operand stop inner) (IsRaw .expression) := by
  refine Yields.oneOf ((yields_identifier stop).mono ?_) ?_
  · rintro _ ⟨x, rfl⟩
    exact isRaw_leaf (.inl rfl) x
  · simp only [List.forall_mem_cons, List.not_mem_nil, false_imp_iff, implies_true, and_true]
    refine ⟨yields_token stop (.inr (.inl rfl)) ?_, yields_token stop (.inr (.inr rfl)) ?_,
      yields_constant stop _ rfl, yields_constant stop _ rfl, yields_constant stop _ rfl,
      yields_constant stop _ rfl, yields_bracketed stop (hinner .expression)⟩
    · intro t a h
      cases t <;> cases h
      exact ⟨_, rfl⟩
    · intro t a h
      cases t <;> cases h
      exact ⟨_, rfl⟩

/-- Arguments behind a function: `f x y` is `(f x) y`. -/
theorem yields_application : Yields (application stop room inner) (IsRaw .expression) := by
  have ho := yields_operand stop hinner
  refine ho.bind fun first hfirst => (ho.many room).bind fun rest hrest => yields_pure ?_
  refine isRaw_leftNest (fun r hr => ?_) hfirst
  obtain ⟨t, ht, rfl⟩ := List.mem_map.mp hr
  exact ⟨rfl, hrest t ht⟩

/-- Infix calls nest to the left: `x @ f y @ g z` calls `g` with the result of `f`.  Between the two
operands there is a name, so that this is no `leftChain`. -/
theorem yields_infixCall : Yields (infixCall stop room inner) (IsRaw .expression) := by
  have ha := yields_application stop room hinner
  refine ha.bind fun first hfirst => ?_
  have hcall : Yields (do
      symbol stop .at
      let name ← identifier stop
      let right ← application stop room inner
      pure (name, right)) fun r => (∃ x, r.1 = leaf .identifier x) ∧ r.2.IsRaw .expression :=
    (yields_any _).bind fun _ _ => (yields_identifier stop).bind fun name hname =>
      ha.bind fun right hright => yields_pure ⟨hname, hright⟩
  refine (hcall.many room).bind fun rest hrest => yields_pure ?_
  induction rest generalizing first with
  | nil => exact hfirst
  | cons r rest ih =>
    rw [List.forall_mem_cons] at hrest
    obtain ⟨name, right⟩ := r
    obtain ⟨⟨⟨x, rfl⟩, hright⟩, hrest⟩ := hrest
    exact ih _ (.infixCall x hfirst hright) hrest

/-- Powers nest to the right. -/
theorem yields_power : Yields (power stop room inner) (IsRaw .expression) :=
  yields_rightChain room (fun _ _ hx hy => .node rfl (.inl rfl) (by simpa using ⟨hx, hy⟩))
    (yields_infixCall stop room hinner)

/-- Products and quotients. -/
theorem yields_term : Yields (term stop room inner) (IsRaw .expression) :=
  yields_leftChain room (yields_power stop room hinner)
    ((yields_symbolOperator stop .times .mult rfl).oneOf
      (by simpa using yields_symbolOperator stop .divide .div rfl))

omit hinner in
/-- A sum has two operators. -/
theorem yields_additive : Yields (additive stop) fun kind => kind.Admits 2 :=
  (yields_symbolOperator stop .plus .plus rfl).oneOf
    (by simpa using yields_symbolOperator stop .minus .minus rfl)

/-- A sum, with or without a sign in front of its first term.  A minus sign negates this term alone,
and a plus sign leaves no trace. -/
theorem yields_arithmetic : Yields (arithmetic stop room inner) (IsRaw .expression) := by
  have ht := yields_term stop room hinner
  refine (yields_any _).bind fun sign _ => ht.bind fun first hfirst => ?_
  have hrest : Yields (do
      let kind ← additive stop
      let right ← Grammar.term stop room inner
      pure (kind, right)) fun r => r.1.Admits 2 ∧ r.2.IsRaw .expression :=
    (yields_additive stop).bind fun kind hkind => ht.bind fun right hright =>
      yields_pure ⟨hkind, hright⟩
  refine (hrest.many room).bind fun rest hrest => yields_pure (isRaw_leftNest hrest ?_)
  split
  · exact .node rfl (.inl rfl) (by simpa using hfirst)
  · exact hfirst

omit hinner in
/-- All comparisons have two operands, whether they are written as words or as signs. -/
theorem yields_comparisonOperator : Yields (comparisonOperator stop) fun kind => kind.Admits 2 := by
  refine (yields_keywordOperator stop .gr .gr rfl).oneOf ?_
  simp only [List.forall_mem_cons, List.not_mem_nil, false_imp_iff, implies_true, and_true]
  exact ⟨yields_keywordOperator stop _ _ rfl, yields_keywordOperator stop _ _ rfl,
    yields_keywordOperator stop _ _ rfl, yields_keywordOperator stop _ _ rfl,
    yields_keywordOperator stop _ _ rfl, yields_symbolOperator stop _ _ rfl,
    yields_symbolOperator stop _ _ rfl, yields_symbolOperator stop _ _ rfl,
    yields_symbolOperator stop _ _ rfl⟩

/-- At most one comparison: it is a chain with at most one link. -/
theorem yields_comparison : Yields (comparison stop room inner) (IsRaw .expression) := by
  have ha := yields_arithmetic stop room hinner
  refine ha.bind fun left hleft => ?_
  have hrest : Yields (do
      let kind ← comparisonOperator stop
      let right ← arithmetic stop room inner
      pure (kind, right)) fun r => r.1.Admits 2 ∧ r.2.IsRaw .expression :=
    (yields_comparisonOperator stop).bind fun kind hkind => ha.bind fun right hright =>
      yields_pure ⟨hkind, hright⟩
  refine hrest.optional.bind fun rest hrest => yields_pure (isRaw_leftNest ?_ hleft)
  intro r hr
  exact hrest r (Option.mem_toList.mp hr)

/-- A comparison, with or without `not` in front of it. -/
theorem yields_negation : Yields (negation stop room inner) (IsRaw .expression) := by
  have hc := yields_comparison stop room hinner
  refine Yields.either ?_ hc
  exact (yields_any _).bind fun _ _ => hc.bind fun t ht =>
    yields_pure (.node rfl (.inl rfl) (by simpa using ht))

/-- Conjunctions and disjunctions, one chain inside the other. -/
theorem yields_disjunction : Yields (disjunction stop room inner) (IsRaw .expression) :=
  yields_leftChain room
    (yields_leftChain room (yields_negation stop room hinner)
      (yields_symbolOperator stop .ampersand .and rfl))
    (yields_keywordOperator stop .or .or rfl)

/-- A condition alone, or with both branches behind it. -/
theorem yields_conditional : Yields (conditional stop room inner) (IsRaw .expression) := by
  refine (yields_disjunction stop room hinner).bind fun condition hcondition => ?_
  have hbranches : Yields (do
      symbol stop .arrow
      let thenPart ← inner .conditional
      symbol stop .bar
      let elsePart ← inner .conditional
      pure [thenPart, elsePart]) fun ts => ∃ t e, ts = [t, e] ∧ t.IsRaw .expression ∧
        e.IsRaw .expression :=
    (yields_any _).bind fun _ _ => (hinner .conditional).bind fun t ht =>
      (yields_any _).bind fun _ _ => (hinner .conditional).bind fun e he =>
        yields_pure ⟨t, e, rfl, ht, he⟩
  refine hbranches.optional.bind fun branches hb => yields_pure ?_
  cases branches with
  | none => exact hcondition
  | some ts =>
    obtain ⟨t, e, rfl, ht, he⟩ := hb ts rfl
    exact .choice hcondition ht he

/-- Components with commas between them; each may be augmented. -/
theorem yields_tuple : Yields (tuple stop room inner) (IsRaw .expression) :=
  yields_listChain room
    (yields_leftChain room (yields_conditional stop room hinner)
      (yields_keywordOperator stop .aug .aug rfl))
    (fun _ h => h) (fun _ h => .node trivial (.inl rfl) h)

/-! ## 5. Definitions -/

omit hinner in
/-- The names on the left of a definition: one name, or several that make up a pattern. -/
theorem yields_nameList : Yields (nameList stop room) IsRawParameter := by
  refine yields_listChain room (yields_identifier stop) ?_ ?_
  · rintro _ ⟨x, rfl⟩
    exact .name x
  · intro ts hts
    obtain ⟨xs, rfl⟩ : ∃ xs : List String, ts = xs.map (leaf .identifier) := by
      induction ts with
      | nil => exact ⟨[], rfl⟩
      | cons t ts ih =>
        rw [List.forall_mem_cons] at hts
        obtain ⟨⟨x, rfl⟩, hts⟩ := hts
        obtain ⟨xs, rfl⟩ := ih hts
        exact ⟨x :: xs, rfl⟩
    exact .names xs

omit hinner in
/-- A parameter is a name, `()`, or names in brackets. -/
theorem yields_parameter : Yields (parameter stop room) IsRawParameter := by
  refine Yields.oneOf ((yields_identifier stop).mono ?_) ?_
  · rintro _ ⟨x, rfl⟩
    exact .name x
  · simp only [List.forall_mem_cons, List.not_mem_nil, false_imp_iff, implies_true, and_true]
    exact ⟨(yields_any _).bind fun _ _ => (yields_any _).bind fun _ _ => yields_pure .nothing,
      yields_bracketed stop (yields_nameList stop room)⟩

/-- A definition in brackets, one in the form of a function, or one of names. -/
theorem yields_basicDefinition : Yields (basicDefinition stop room inner) (IsRaw .definition) := by
  refine Yields.oneOf (yields_bracketed stop (hinner .definition)) ?_
  simp only [List.forall_mem_cons, List.not_mem_nil, false_imp_iff, implies_true, and_true]
  constructor
  · refine (yields_identifier stop).bind fun name hname =>
      ((yields_parameter stop room).many1 room).bind fun parameters hparameters =>
        (yields_any _).bind fun _ _ => (hinner .expression).bind fun body hbody =>
          yields_pure ?_
    obtain ⟨f, rfl⟩ := hname
    exact .functionForm f hparameters.1 hparameters.2 hbody
  · exact (yields_nameList stop room).bind fun names hnames => (yields_any _).bind fun _ _ =>
      (hinner .expression).bind fun value hvalue => yields_pure (.equal hnames hvalue)

/-- A definition, with or without `rec` in front of it. -/
theorem yields_recursiveDefinition :
    Yields (recursiveDefinition stop room inner) (IsRaw .definition) := by
  have hb := yields_basicDefinition stop room hinner
  refine Yields.either ?_ hb
  exact (yields_any _).bind fun _ _ => hb.bind fun d hd => yields_pure (.recursive hd)

/-- Definitions joined by `and`, and those joined by `within`. -/
theorem yields_definition : Yields (definition stop room inner) (IsRaw .definition) :=
  yields_rightChain room (fun _ _ hx hy => .within hx hy)
    (yields_listChain room (yields_recursiveDefinition stop room hinner) (fun _ h => h)
      fun _ h => .simultaneous h)

/-! ## 6. Programs -/

/-- `let`, `fn`, and a tuple with or without `where` behind it. -/
theorem yields_expression : Yields (expression stop room inner) (IsRaw .expression) := by
  refine Yields.oneOf ?_ ?_
  · exact (yields_any _).bind fun _ _ => (hinner .definition).bind fun d hd =>
      (yields_any _).bind fun _ _ => (hinner .expression).bind fun body hbody =>
        yields_pure (.letIn hd hbody)
  · simp only [List.forall_mem_cons, List.not_mem_nil, false_imp_iff, implies_true, and_true]
    constructor
    · exact (yields_any _).bind fun _ _ =>
        ((yields_parameter stop room).many1 room).bind fun parameters hparameters =>
          (yields_any _).bind fun _ _ => (hinner .expression).bind fun body hbody =>
            yields_pure (.function hparameters.1 hparameters.2 hbody)
    · refine (yields_tuple stop room hinner).bind fun t ht => ?_
      have hdefinition : Yields (do
          keyword stop .whereWord
          recursiveDefinition stop room inner) (IsRaw .definition) :=
        (yields_any _).bind fun _ _ => yields_recursiveDefinition stop room hinner
      refine hdefinition.optional.bind fun d hd => yields_pure ?_
      cases d with
      | none => exact ht
      | some d => exact .whereDef ht (hd d rfl)

end Expressions

end Productions

/-- **Every phrase yields its sort.** -/
theorem yields_phrase (stop room : Nat) (p : Phrase) :
    Yields (phrase stop room p) (IsRaw p.category) := by
  induction room generalizing p with
  | zero => exact yields_failAt stop
  | succ room ih =>
    cases p with
    | expression => exact yields_expression stop room ih
    | definition => exact yields_definition stop room ih
    | conditional => exact yields_conditional stop room ih

end Grammar

/-- **Every tree that is read from a source text is raw.** -/
theorem Tree.isRaw_of_parse {filename source : String} {t : Tree}
    (h : Program.parse filename source = .ok t) : t.IsRaw .expression := by
  unfold Program.parse Program.parseWith at h
  cases ht : Tree.ofText source.toList with
  | error place =>
    rw [ht] at h
    cases h
  | ok u =>
    rw [ht] at h
    obtain rfl : u = t := Except.ok.inj h
    unfold Tree.ofText Tree.ofScan at ht
    split at ht
    · cases ht
    · rename_i hphrase
      split at ht
      · obtain rfl := Except.ok.inj ht
        exact Grammar.yields_phrase _ _ .expression _ _ _ hphrase
      · cases ht
    · cases ht

end Rpal
