/-
# No sequence of tokens has two derivations

Two derivation trees from the same nonterminal that derive the same tokens are equal
(`Derivation.eq_of_yield`).

A rule that reads what is derived cannot read it in two ways, so the tokens of a phrase together
with what stands behind it decide where the phrase ends (`definite_language`).  That takes a
production apart wherever a phrase in it is followed by a token of a higher level.  A chain that
nests to the left is not of this kind: the operator behind the left part has the level of that
part.  Such chains are compared as a whole, by their `spine`.

The theorem itself is an induction over derivations with a lemma for each production: if its parts
are determined by their tokens, it is (`Derivation.Determined`).  The tokens tell which production
comes first, and then where its parts end.
-/
import Rpal.Proofs.Grammar.Completeness

namespace Rpal.Grammar

open Rule

/-! ## 1. Where phrases end -/

/-- The tokens end a phrase of a level. -/
def Ends (level : Nat) (rest : List Token) : Prop := ∀ t ∈ rest.head?, level < t.level

/-- The end of the tokens ends every phrase. -/
theorem ends_nil (k : Nat) : Ends k [] := fun _ h => by cases h

/-- What comes next decides. -/
theorem ends_cons {k : Nat} {t : Token} (h : k < t.level) (ts : List Token) : Ends k (t :: ts) :=
  fun u hu => by
    obtain rfl : t = u := Option.some.inj hu
    exact h

/-- Where a phrase of a level ends is decided by the tokens. -/
def Definite (k : Nat) (S : List Token → Prop) : Prop :=
  ∀ ⦃ts us r s : List Token⦄, S ts → S us → Ends k r → Ends k s → ts ++ r = us ++ s → ts = us

variable {k : Nat} {S T : List Token → Prop} {ts us r s : List Token} {t u : Token}

/-- Fewer phrases are told apart all the more. -/
theorem Definite.mono (h : Definite k S) (hTS : ∀ ts, T ts → S ts) : Definite k T :=
  fun _ _ _ _ hts hus => h (hTS _ hts) (hTS _ hus)

/-- Two phrases that are followed by tokens of higher levels. -/
theorem Definite.split (h : Definite k S) (hts : S ts) (hus : S us) (ht : k < t.level)
    (hu : k < u.level) (heq : ts ++ t :: r = us ++ u :: s) : ts = us ∧ t = u ∧ r = s := by
  obtain rfl := h hts hus (ends_cons ht r) (ends_cons hu s) heq
  exact ⟨rfl, List.cons.inj (List.append_cancel_left heq)⟩

/-- A phrase does not go on behind a token of a higher level. -/
theorem Definite.ne (h : Definite k S) (hts : S ts) (hus : S us) (ht : k < t.level) :
    ts ++ t :: r ≠ us := by
  intro heq
  obtain rfl := h hts hus (ends_cons ht r) (ends_nil k) (heq.trans (List.append_nil us).symm)
  exact List.cons_ne_nil t r (List.append_right_eq_self.mp heq)

/-- What is read, however much room there is, is read in one way. -/
theorem definite_of_reads {α : Type} {p : Nat → Rule α}
    (h : ∀ ts, S ts → ∃ a, ∀ room, ts.length ≤ room → Reads (p room) k ts a) : Definite k S := by
  intro ts us r s hts hus hr hs heq
  obtain ⟨a, ha⟩ := h ts hts
  obtain ⟨b, hb⟩ := h us hus
  let lexemes : List Token → List Lexeme := List.map fun t => ⟨t, 0, false⟩
  have htokens : ∀ vs, (lexemes vs).map (·.token) = vs := fun vs => by
    rw [List.map_map]
    exact List.map_id vs
  have hstops : ∀ {vs}, Ends k vs → Stops k (lexemes vs) := by
    intro vs hvs l hl
    cases vs with
    | nil => cases hl
    | cons v vs =>
      obtain rfl := Option.some.inj hl
      exact hvs v rfl
  have hread := ha (max ts.length us.length) (Nat.le_max_left _ _) (lexemes ts) (lexemes r)
    (htokens ts) (hstops hr)
  have hread' := hb (max ts.length us.length) (Nat.le_max_right _ _) (lexemes us) (lexemes s)
    (htokens us) (hstops hs)
  rw [← List.map_append, heq, List.map_append] at hread
  obtain ⟨-, hrest⟩ := Prod.mk.inj (Except.ok.inj (hread.symm.trans hread'))
  have hrs : r = s := by rw [← htokens r, ← htokens s, hrest]
  rw [hrs] at heq
  exact List.append_cancel_right heq

/-- The tokens are derived from a nonterminal. -/
def InLanguage (n : Nonterminal) (ts : List Token) : Prop := ∃ d : Derivation n, d.yield = ts

/-- **Where a phrase of a nonterminal ends** is decided by the tokens. -/
theorem definite_language (n : Nonterminal) : Definite n.level (InLanguage n) := by
  have hreads : ∀ {n : Nonterminal} {p : Nat → Rule Tree}, (∀ room, ReadsAll room (p room) n) →
      Definite n.level (InLanguage n) := by
    intro n p hp
    refine definite_of_reads (p := p) fun ts hts => ?_
    obtain ⟨d, rfl⟩ := hts
    exact ⟨d.tree, fun room hroom => hp room _ _ ⟨d, rfl, rfl⟩ hroom⟩
  -- Each nonterminal is read to its end by the function of the parser that is named for it.
  have hphrase := reads_phrase 0
  have hexpression : Definite 12 (InLanguage .expression) :=
    hreads fun room => reads_expression 0 (hphrase room)
  cases n with
  | expression => exact hexpression
  | clause =>
    refine hexpression.mono fun ts hts => ?_
    obtain ⟨d, rfl⟩ := hts
    exact ⟨.unscoped d, rfl⟩
  | tuple => exact hreads fun room => reads_tuple 0 (hphrase room)
  | chain c =>
    cases c with
    | augmented => exact hreads fun room => reads_augmented 0 (hphrase room)
    | disjunction => exact hreads fun room => reads_disjunction 0 (hphrase room)
    | conjunction => exact hreads fun room => reads_conjunction 0 (hphrase room)
    | sum => exact hreads fun room => reads_arithmetic 0 (hphrase room)
    | product => exact hreads fun room => reads_term 0 (hphrase room)
  | conditional => exact hreads fun room => reads_conditional 0 (hphrase room)
  | negation => exact hreads fun room => reads_negation 0 (hphrase room)
  | comparison => exact hreads fun room => reads_comparison 0 (hphrase room)
  | power => exact hreads fun room => reads_power 0 (hphrase room)
  | infixCall => exact hreads fun room => reads_infixCall 0 (hphrase room)
  | application => exact hreads fun room => reads_application 0 (hphrase room)
  | operand => exact hreads fun room => reads_operand 0 (hphrase room)
  | definition => exact hreads fun room => reads_definition 0 (hphrase room)
  | simultaneous => exact hreads fun room => reads_simultaneous 0 (hphrase room)
  | recursive => exact hreads fun room => reads_recursiveDefinition 0 (hphrase room)
  | basic => exact hreads fun room => reads_basicDefinition 0 (hphrase room)
  | parameter => exact hreads fun room => reads_parameter 0
  | names => exact hreads fun room => reads_nameList 0

/-- The parameters of a function end where no further one begins. -/
theorem definite_parameters :
    Definite 1 fun ts => ∃ ds : Derivations .parameter, ds.yield [] = ts :=
  definite_of_reads (p := fun room => many1 room (Grammar.parameter 0 room)) fun _ ⟨ds, hds⟩ =>
    ⟨ds.trees, fun _ hroom => hds ▸ reads_parameters 0 ds (hds.symm ▸ hroom)⟩

/-! ## 2. Chains that nest to the left -/

/-- Chunks that begin with tokens of higher levels end what stands in front of them. -/
theorem ends_flatten (hlead : ∀ ts, S ts → ∃ t us, ts = t :: us ∧ k < t.level)
    {C : List (List Token)} (hC : ∀ ts ∈ C, S ts) : Ends k C.flatten := by
  cases C with
  | nil => exact ends_nil k
  | cons ts C =>
    obtain ⟨t, us, rfl, ht⟩ := hlead ts (hC ts List.mem_cons_self)
    exact ends_cons ht _

/-- **Chunks are decided by the tokens** if each begins with a token of a higher level. -/
theorem flatten_unique (hS : Definite k S)
    (hlead : ∀ ts, S ts → ∃ t us, ts = t :: us ∧ k < t.level) {C C' : List (List Token)}
    (hC : ∀ ts ∈ C, S ts) (hC' : ∀ ts ∈ C', S ts) (heq : C.flatten = C'.flatten) : C = C' := by
  have hne : ∀ ts (C : List (List Token)), S ts → (ts :: C).flatten ≠ [] := by
    intro ts C hts
    obtain ⟨t, us, rfl, -⟩ := hlead ts hts
    exact List.cons_ne_nil _ _
  induction C generalizing C' with
  | nil =>
    cases C' with
    | nil => rfl
    | cons us C' => exact absurd heq.symm (hne us C' (hC' us List.mem_cons_self))
  | cons ts C ih =>
    cases C' with
    | nil => exact absurd heq (hne ts C (hC ts List.mem_cons_self))
    | cons us C' =>
      rw [List.forall_mem_cons] at hC hC'
      obtain rfl := hS hC.1 hC'.1 (ends_flatten hlead hC.2) (ends_flatten hlead hC'.2) heq
      rw [ih hC.2 hC'.2 (List.append_cancel_left heq)]

/-- What a chain is made of: its first part, and every operator with what follows it. -/
def Derivation.spine : {n : Nonterminal} → Derivation n → List (List Token)
  | _, .link _ op _ _ left right => left.spine ++ [op :: right.yield]
  | _, .apply f argument => f.spine ++ [argument.yield]
  | _, .call left f right => left.spine ++ [.symbol .at :: .identifier f :: right.yield]
  | _, d => [d.yield]

/-- The spine of a chain is a way to cut up its tokens. -/
theorem Derivation.flatten_spine {n : Nonterminal} (d : Derivation n) :
    d.spine.flatten = d.yield := by
  fun_induction Derivation.spine d with
  | case1 _ _ _ _ _ _ ih => simp [ih, Derivation.yield]
  | case2 _ _ ih => simp [ih, Derivation.yield]
  | case3 _ _ _ ih => simp [ih, Derivation.yield]
  | case4 => simp

/-- A first part and further parts. -/
def Spined (H S : List Token → Prop) : List (List Token) → Prop
  | [] => False
  | ts :: C => H ts ∧ ∀ us ∈ C, S us

/-- A further part of a chain. -/
theorem Spined.concat {H : List Token → Prop} {C : List (List Token)} (h : Spined H S C)
    (hts : S ts) : Spined H S (C ++ [ts]) := by
  cases C with
  | nil => exact h.elim
  | cons us C =>
    refine ⟨h.1, fun vs hvs => ?_⟩
    rcases List.mem_append.mp hvs with hmem | hmem
    · exact h.2 vs hmem
    · rw [List.mem_singleton.mp hmem]
      exact hts

/-- **The parts of a chain** are decided by the tokens. -/
theorem Spined.unique {H : List Token → Prop} (hH : Definite k H) (hS : Definite k S)
    (hlead : ∀ ts, S ts → ∃ t us, ts = t :: us ∧ k < t.level) {C C' : List (List Token)}
    (h : Spined H S C) (h' : Spined H S C') (heq : C.flatten = C'.flatten) : C = C' := by
  cases C with
  | nil => exact h.elim
  | cons ts C =>
    cases C' with
    | nil => exact h'.elim
    | cons us C' =>
      obtain rfl := hH h.1 h'.1 (ends_flatten hlead h.2) (ends_flatten hlead h'.2) heq
      rw [flatten_unique hS hlead h.2 h'.2 (List.append_cancel_left heq)]

/-- What a chain starts with. -/
def HeadYield (c : Chain) (ts : List Token) : Prop :=
  InLanguage c.operand ts ∨ ∃ sign us,
    ts = sign :: us ∧ 0 < opening sign ∧ c = .sum ∧ InLanguage c.operand us

/-- An operator of a chain and its right operand. -/
def LinkYield (c : Chain) (ts : List Token) : Prop :=
  ∃ op us, ts = op :: us ∧ op.level = c.level ∧ InLanguage c.operand us

/-- An infix call without its left operand. -/
def CallYield (ts : List Token) : Prop :=
  ∃ f us, ts = .symbol .at :: .identifier f :: us ∧ InLanguage .application us

/-- The parts of a chain of operators.  A derivation nests to the left, so its last operator is at
the root and its first operand at the bottom. -/
theorem spined_chain : {c : Chain} → (d : Derivation (.chain c)) →
    Spined (HeadYield c) (LinkYield c) d.spine
  | _, .start _ t => ⟨.inl ⟨t, rfl⟩, fun _ h => by cases h⟩
  | _, .positive t => ⟨.inr ⟨_, _, rfl, by decide, rfl, t, rfl⟩, fun _ h => by cases h⟩
  | _, .negative t => ⟨.inr ⟨_, _, rfl, by decide, rfl, t, rfl⟩, fun _ h => by cases h⟩
  | _, .link _ _ _ h left right =>
    (spined_chain left).concat ⟨_, _, rfl, Chain.level_of_operator? h, right, rfl⟩

/-- The parts of an infix call. -/
theorem spined_infixCall : (d : Derivation .infixCall) →
    Spined (InLanguage .application) CallYield d.spine
  | .uncalled t => ⟨⟨t, rfl⟩, fun _ h => by cases h⟩
  | .call left _ right => (spined_infixCall left).concat ⟨_, _, rfl, right, rfl⟩

/-- The parts of an application: all of them are operands. -/
theorem spined_application : (d : Derivation .application) →
    Spined (InLanguage .operand) (InLanguage .operand) d.spine
  | .unapplied t => ⟨⟨t, rfl⟩, fun _ h => by cases h⟩
  | .apply f a => (spined_application f).concat ⟨a, rfl⟩

/-- Where the first part of a chain ends.  A sum may begin with a sign or without one, and the first
token tells which. -/
theorem definite_headYield (c : Chain) : Definite c.operand.level (HeadYield c) := by
  have hoperand := definite_language c.operand
  -- no operand of a sum begins with a sign
  have hsign : ∀ {ts r sign us s}, InLanguage c.operand ts → 0 < opening sign → c = .sum →
      ts ++ r ≠ sign :: us ++ s := by
    rintro _ r sign us s ⟨d, rfl⟩ hsign rfl heq
    obtain ⟨t, vs, hvs, ht⟩ := d.opens
    rw [hvs] at heq
    obtain rfl : t = sign := (List.cons.inj heq).1
    exact absurd hsign (Nat.not_lt.mpr ht)
  intro ts us r s hts hus hr hs heq
  rcases hts with hts | ⟨sign, ts, rfl, hopening, hc, hts⟩ <;>
    rcases hus with hus | ⟨sign', us, rfl, hopening', hc', hus⟩
  · exact hoperand hts hus hr hs heq
  · exact absurd heq (hsign hts hopening' hc')
  · exact absurd heq.symm (hsign hus hopening hc)
  · obtain ⟨rfl, hrest⟩ := List.cons.inj heq
    rw [hoperand hts hus hr hs hrest]

/-- Where a part with an operator ends. -/
theorem definite_linkYield (c : Chain) : Definite c.operand.level (LinkYield c) := by
  rintro _ _ r s ⟨op, ts, rfl, -, hts⟩ ⟨op', us, rfl, -, hus⟩ hr hs heq
  obtain ⟨rfl, hrest⟩ := List.cons.inj heq
  rw [definite_language _ hts hus hr hs hrest]

/-- Where a part with `@` and a name ends. -/
theorem definite_callYield : Definite 1 CallYield := by
  rintro _ _ r s ⟨f, ts, rfl, hts⟩ ⟨g, us, rfl, hus⟩ hr hs heq
  obtain ⟨hfg, hrest⟩ := List.cons.inj (List.cons.inj heq).2
  rw [hfg, definite_language .application hts hus hr hs hrest]

/-- A spine with one more part is not of a single part. -/
theorem Derivation.spine_append_ne {n : Nonterminal} (d : Derivation n) (ts us : List Token) :
    d.spine ++ [ts] ≠ [us] := by
  have hne : d.spine ≠ [] := by cases d <;> simp [Derivation.spine]
  intro heq
  have hlength := congrArg List.length heq
  rw [List.length_append] at hlength
  exact hne (List.length_eq_zero_iff.mp (Nat.succ.inj hlength))

/-- **The same tokens have the same spine.**  The three kinds of chains differ in what their parts
are, and all other phrases have a single part. -/
theorem Derivation.spine_eq {n : Nonterminal} (d d' : Derivation n) (h : d.yield = d'.yield) :
    d.spine = d'.spine := by
  have hflatten : d.spine.flatten = d'.spine.flatten := by
    rw [d.flatten_spine, d'.flatten_spine, h]
  cases n with
  | chain c =>
    refine Spined.unique (definite_headYield c) (definite_linkYield c) ?_ (spined_chain d)
      (spined_chain d') hflatten
    rintro _ ⟨op, us, rfl, hop, -⟩
    exact ⟨op, us, rfl, hop ▸ c.level_operand⟩
  | infixCall =>
    refine Spined.unique (definite_language .application) definite_callYield ?_ (spined_infixCall d)
      (spined_infixCall d') hflatten
    rintro _ ⟨f, us, rfl, -⟩
    exact ⟨_, _, rfl, by decide⟩
  | application =>
    refine Spined.unique (definite_language .operand) (definite_language .operand) ?_
      (spined_application d) (spined_application d') hflatten
    rintro _ ⟨a, rfl⟩
    obtain ⟨t, us, hus, -⟩ := a.opens
    exact ⟨t, us, hus, t.level_pos⟩
  | _ =>
    have hone : d.spine = [d.yield] := by cases d <;> rfl
    have hone' : d'.spine = [d'.yield] := by cases d' <;> rfl
    rw [hone, hone', h]

/-- The spine has all the tokens. -/
theorem Derivation.yield_eq_of_spine {n : Nonterminal} {d d' : Derivation n}
    (h : d.spine = d'.spine) : d.yield = d'.yield := by
  rw [← d.flatten_spine, h, d'.flatten_spine]

/-! ## 3. Comparing phrases -/

/-- A phrase that goes on behind another one of the same kind. -/
theorem Derivation.append_ne {n : Nonterminal} (d d' : Derivation n) (h : n.level < t.level) :
    d.yield ++ t :: r ≠ d'.yield :=
  (definite_language n).ne ⟨d, rfl⟩ ⟨d', rfl⟩ h

/-- Two phrases of the same kind that are followed by tokens of higher levels. -/
theorem Derivation.split {n : Nonterminal} (d d' : Derivation n) (ht : n.level < t.level)
    (hu : n.level < u.level) (heq : d.yield ++ t :: r = d'.yield ++ u :: s) :
    d.yield = d'.yield ∧ t = u ∧ r = s :=
  (definite_language n).split ⟨d, rfl⟩ ⟨d', rfl⟩ ht hu heq

/-- A phrase begins with no token of a higher rank than its nonterminal has. -/
theorem Derivation.ne_of_opening {n : Nonterminal} (d : Derivation n) (h : n.opening < opening t) :
    d.yield ≠ t :: ts := by
  intro heq
  obtain ⟨u, us, hu, hle⟩ := d.opens
  rw [hu] at heq
  rw [(List.cons.inj heq).1] at hle
  exact absurd h (Nat.not_lt.mpr hle)

/-- Names with commas in front of them are told apart. -/
theorem commaNames_injective : ∀ {xs ys : List String}, commaNames xs = commaNames ys → xs = ys
  | [], [], _ => rfl
  | [], _ :: _, h => by cases h
  | _ :: _, [], h => by cases h
  | x :: xs, y :: ys, h => by
    obtain ⟨hxy, hrest⟩ := List.cons.inj (List.cons.inj h).2
    rw [Token.identifier.inj hxy, commaNames_injective hrest]

/-- No phrase is empty. -/
theorem Derivation.yield_ne_nil {n : Nonterminal} (d : Derivation n) : d.yield ≠ [] := by
  obtain ⟨t, ts, heq, -⟩ := d.opens
  rw [heq]
  exact List.cons_ne_nil t ts

/-- Neighbours are not empty either: there is at least one. -/
theorem Derivations.yield_ne_nil {n : Nonterminal} (ds : Derivations n) (separator : List Token) :
    ds.yield separator ≠ [] := by
  cases ds with
  | last d => exact fun h => d.yield_ne_nil (List.append_eq_nil_iff.mp h).2
  | cons d ds =>
    exact fun h => d.yield_ne_nil (List.append_eq_nil_iff.mp (List.append_eq_nil_iff.mp h).1).2

/-- Neighbours begin with their separator. -/
theorem ends_yield {n : Nonterminal} (ds : Derivations n) (h : k < t.level) :
    Ends k (ds.yield [t]) := by
  cases ds <;> exact ends_cons h _

/-- Parameters have no separator, but each of them begins with a token of level 1. -/
theorem ends_parameters (ds : Derivations .parameter) : Ends 0 (ds.yield []) :=
  fun t _ => t.level_pos

/-- A phrase in front of further ones, or of none. -/
theorem Derivation.cancel {n : Nonterminal} (d d' : Derivation n) (hr : Ends n.level r)
    (hs : Ends n.level s) (h : d.yield ++ r = d'.yield ++ s) : d.yield = d'.yield ∧ r = s := by
  have hyield := definite_language n ⟨d, rfl⟩ ⟨d', rfl⟩ hr hs h
  rw [hyield] at h
  exact ⟨hyield, List.append_cancel_left h⟩

/-- A phrase with neighbours is no phrase alone. -/
theorem Derivations.append_ne {n : Nonterminal} (d d' : Derivation n) (ds : Derivations n)
    {separator : List Token} (hsep : Ends n.level (ds.yield separator)) :
    d.yield ++ ds.yield separator ≠ d'.yield := fun h =>
  ds.yield_ne_nil separator (d.cancel d' hsep (ends_nil _) (h.trans (List.append_nil _).symm)).2

/-- A function has a parameter behind its name, other definitions have none. -/
theorem functionForm_ne_equal (f : String) (params : Derivations .parameter)
    (xs : Derivation .names) (ts us : List Token) :
    .identifier f :: (params.yield [] ++ ts) ≠ xs.yield ++ .symbol .equals :: us := by
  have hopens : Opens 0 (params.yield []) := by
    cases params with
    | last d => exact d.opens
    | cons d ds => exact d.opens.append _
  intro heq
  obtain ⟨x, sign, vs, hyield, hsign⟩ := exists_yield_names xs us
  obtain ⟨t, ws, hws, ht⟩ := hopens
  rw [hyield, hws] at heq
  rw [(List.cons.inj (List.cons.inj heq).2).1] at ht
  exact absurd hsign (Nat.not_lt.mpr ht)

/-! ## 4. Productions

A derivation is determined if no other one from its nonterminal derives the same tokens.  It is, if
its parts are: the tokens tell which production comes first, since a phrase neither begins with a
token of another one nor goes on where that one ends; and they tell where the parts end. -/

/-- No other derivation from the nonterminal derives the same tokens. -/
def Derivation.Determined {n : Nonterminal} (d : Derivation n) : Prop :=
  ∀ d' : Derivation n, d.yield = d'.yield → d = d'

/-- No other neighbours from the nonterminal derive the same tokens. -/
def Derivations.Determined {n : Nonterminal} (separator : List Token) (ds : Derivations n) : Prop :=
  ∀ ds' : Derivations n, ds.yield separator = ds'.yield separator → ds = ds'

/-! ### Scopes and clauses -/

/-- `let` tells the production, and the definition ends at `in`. -/
theorem Derivation.Determined.letIn {d : Derivation .definition} {body : Derivation .expression}
    (ih₁ : d.Determined) (ih₂ : body.Determined) : (Derivation.letIn d body).Determined := by
  intro d' h
  cases d' with
  | letIn d₂ body₂ =>
    obtain ⟨hd, -, hbody⟩ := d.split d₂ (by decide) (by decide) (List.cons.inj h).2
    rw [ih₁ d₂ hd, ih₂ body₂ hbody]
  | function => cases h
  | unscoped t => exact absurd h.symm (t.ne_of_opening (by decide))

/-- `fn` tells the production, and the parameters end at the dot. -/
theorem Derivation.Determined.function {params : Derivations .parameter}
    {body : Derivation .expression} (ih₁ : params.Determined []) (ih₂ : body.Determined) :
    (Derivation.function params body).Determined := by
  intro d' h
  cases d' with
  | letIn => cases h
  | function params₂ body₂ =>
    obtain ⟨hparams, -, hbody⟩ := definite_parameters.split ⟨params, rfl⟩ ⟨params₂, rfl⟩
      (by decide) (by decide) (List.cons.inj h).2
    rw [ih₁ params₂ hparams, ih₂ body₂ hbody]
  | unscoped t => exact absurd h.symm (t.ne_of_opening (by decide))

/-- A clause begins with neither `let` nor `fn`. -/
theorem Derivation.Determined.unscoped {t : Derivation .clause} (ih : t.Determined) :
    (Derivation.unscoped t).Determined := by
  intro d' h
  cases d' with
  | letIn => exact absurd h (t.ne_of_opening (by decide))
  | function => exact absurd h (t.ne_of_opening (by decide))
  | unscoped t' => rw [ih t' h]

/-- The tuple ends at `where`, where that of the other production cannot go on. -/
theorem Derivation.Determined.whereDef {t : Derivation .tuple} {d : Derivation .recursive}
    (ih₁ : t.Determined) (ih₂ : d.Determined) : (Derivation.whereDef t d).Determined := by
  intro d' h
  cases d' with
  | whereDef t₂ d₂ =>
    obtain ⟨ht, -, hd⟩ := t.split t₂ (by decide) (by decide) h
    rw [ih₁ t₂ ht, ih₂ d₂ hd]
  | unqualified t₂ => exact absurd h (t.append_ne t₂ (by decide))

/-- A tuple does not go on with `where`. -/
theorem Derivation.Determined.unqualified {t : Derivation .tuple} (ih : t.Determined) :
    (Derivation.unqualified t).Determined := by
  intro d' h
  cases d' with
  | whereDef t₂ => exact absurd h.symm (t₂.append_ne t (by decide))
  | unqualified t₂ => rw [ih t₂ h]

/-- A comma behind the first component tells a tuple from its only component. -/
theorem Derivation.Determined.tau {first : Derivation (.chain .augmented)}
    {rest : Derivations (.chain .augmented)} (ih₁ : first.Determined)
    (ih₂ : rest.Determined [.symbol .comma]) : (Derivation.tau first rest).Determined := by
  intro d' h
  cases d' with
  | tau first₂ rest₂ =>
    obtain ⟨hfirst, hrest⟩ := first.cancel first₂ (ends_yield rest (by decide))
      (ends_yield rest₂ (by decide)) h
    rw [ih₁ first₂ hfirst, ih₂ rest₂ hrest]
  | untupled t =>
    exact absurd h (Derivations.append_ne first t rest (ends_yield rest (by decide)))

theorem Derivation.Determined.untupled {t : Derivation (.chain .augmented)} (ih : t.Determined) :
    (Derivation.untupled t).Determined := by
  intro d' h
  cases d' with
  | tau first rest =>
    exact absurd h.symm (Derivations.append_ne first t rest (ends_yield rest (by decide)))
  | untupled t₂ => rw [ih t₂ h]

/-! ### Chains that nest to the left

Two chains that derive the same tokens have the same parts; so they are cut at the same operator. -/

/-- A chain with an operator has a longer spine than one without. -/
theorem Derivation.Determined.link {c : Chain} {op : Token} {kind : Kind}
    (hop : c.operator? op = some kind) {left : Derivation (.chain c)} {right : Derivation c.operand}
    (ih₁ : left.Determined) (ih₂ : right.Determined) :
    (Derivation.link c op kind hop left right).Determined := by
  intro d' h
  have hspine := Derivation.spine_eq _ _ h
  cases d' with
  | link _ op₂ kind₂ hop₂ left₂ right₂ =>
    -- the last part is the operator with its right operand, the others are those of the left chain
    obtain ⟨hleft, hlast⟩ := List.append_inj' hspine rfl
    obtain ⟨rfl, hright⟩ := List.cons.inj (List.cons.inj hlast).1
    obtain rfl : kind = kind₂ := Option.some.inj (hop.symm.trans hop₂)
    rw [ih₁ left₂ (yield_eq_of_spine hleft), ih₂ right₂ hright]
  | start | positive | negative => exact absurd hspine (left.spine_append_ne _ _)

/-- A chain without operators has one part, and it does not begin with a sign. -/
theorem Derivation.Determined.start {c : Chain} {t : Derivation c.operand} (ih : t.Determined) :
    (Derivation.start c t).Determined := by
  intro d' h
  cases d' with
  | link _ _ _ _ left => exact absurd (Derivation.spine_eq _ _ h).symm (left.spine_append_ne _ _)
  | start _ t₂ => rw [ih t₂ h]
  | positive => exact absurd h (t.ne_of_opening (by decide))
  | negative => exact absurd h (t.ne_of_opening (by decide))

/-- A sum of one term behind a plus sign. -/
theorem Derivation.Determined.positive {t : Derivation (.chain .product)} (ih : t.Determined) :
    (Derivation.positive t).Determined := by
  intro d' h
  cases d' with
  | link _ _ _ _ left => exact absurd (Derivation.spine_eq _ _ h).symm (left.spine_append_ne _ _)
  | start _ t₂ => exact absurd h.symm (t₂.ne_of_opening (by decide))
  | positive t₂ => rw [ih t₂ (List.cons.inj h).2]
  | negative => cases h

/-- A sum of one term behind a minus sign. -/
theorem Derivation.Determined.negative {t : Derivation (.chain .product)} (ih : t.Determined) :
    (Derivation.negative t).Determined := by
  intro d' h
  cases d' with
  | link _ _ _ _ left => exact absurd (Derivation.spine_eq _ _ h).symm (left.spine_append_ne _ _)
  | start _ t₂ => exact absurd h.symm (t₂.ne_of_opening (by decide))
  | positive => cases h
  | negative t₂ => rw [ih t₂ (List.cons.inj h).2]

/-- The last part of an infix call is `@`, the name and the right operand. -/
theorem Derivation.Determined.call (f : String) {left : Derivation .infixCall}
    {right : Derivation .application} (ih₁ : left.Determined) (ih₂ : right.Determined) :
    (Derivation.call left f right).Determined := by
  intro d' h
  have hspine := Derivation.spine_eq _ _ h
  cases d' with
  | call left₂ f₂ right₂ =>
    obtain ⟨hleft, hlast⟩ := List.append_inj' hspine rfl
    obtain ⟨hf, hright⟩ := List.cons.inj (List.cons.inj (List.cons.inj hlast).1).2
    rw [ih₁ left₂ (yield_eq_of_spine hleft), ih₂ right₂ hright, Token.identifier.inj hf]
  | uncalled => exact absurd hspine (left.spine_append_ne _ _)

theorem Derivation.Determined.uncalled {t : Derivation .application} (ih : t.Determined) :
    (Derivation.uncalled t).Determined := by
  intro d' h
  cases d' with
  | call left => exact absurd (Derivation.spine_eq _ _ h).symm (left.spine_append_ne _ _)
  | uncalled t₂ => rw [ih t₂ h]

/-- The last part of an application is its argument. -/
theorem Derivation.Determined.apply {f : Derivation .application} {argument : Derivation .operand}
    (ih₁ : f.Determined) (ih₂ : argument.Determined) :
    (Derivation.apply f argument).Determined := by
  intro d' h
  have hspine := Derivation.spine_eq _ _ h
  cases d' with
  | apply f₂ argument₂ =>
    obtain ⟨hf, hlast⟩ := List.append_inj' hspine rfl
    rw [ih₁ f₂ (yield_eq_of_spine hf), ih₂ argument₂ (List.cons.inj hlast).1]
  | unapplied => exact absurd hspine (f.spine_append_ne _ _)

theorem Derivation.Determined.unapplied {t : Derivation .operand} (ih : t.Determined) :
    (Derivation.unapplied t).Determined := by
  intro d' h
  cases d' with
  | apply f => exact absurd (Derivation.spine_eq _ _ h).symm (f.spine_append_ne _ _)
  | unapplied t₂ => rw [ih t₂ h]

/-! ### Conditions, comparisons and powers -/

/-- A sum ends at a comparison. -/
theorem lt_level_of_comparison? {op : Token} {kind : Kind} (h : comparison? op = some kind) :
    (Nonterminal.chain .sum).level < op.level :=
  Nat.lt_of_lt_of_eq (by decide) (level_of_comparison? h).symm

/-- The condition ends at the arrow, and the first branch at the bar. -/
theorem Derivation.Determined.choice {condition : Derivation (.chain .disjunction)}
    {thenPart elsePart : Derivation .conditional} (ih₁ : condition.Determined)
    (ih₂ : thenPart.Determined) (ih₃ : elsePart.Determined) :
    (Derivation.choice condition thenPart elsePart).Determined := by
  intro d' h
  cases d' with
  | choice condition₂ thenPart₂ elsePart₂ =>
    obtain ⟨hcondition, -, hrest⟩ := condition.split condition₂ (by decide) (by decide) h
    obtain ⟨hthen, -, helse⟩ := thenPart.split thenPart₂ (by decide) (by decide) hrest
    rw [ih₁ condition₂ hcondition, ih₂ thenPart₂ hthen, ih₃ elsePart₂ helse]
  | unconditional t => exact absurd h (condition.append_ne t (by decide))

/-- A disjunction does not go on with an arrow. -/
theorem Derivation.Determined.unconditional {t : Derivation (.chain .disjunction)}
    (ih : t.Determined) : (Derivation.unconditional t).Determined := by
  intro d' h
  cases d' with
  | choice condition => exact absurd h.symm (condition.append_ne t (by decide))
  | unconditional t₂ => rw [ih t₂ h]

/-- No comparison begins with `not`. -/
theorem Derivation.Determined.not {t : Derivation .comparison} (ih : t.Determined) :
    (Derivation.not t).Determined := by
  intro d' h
  cases d' with
  | not t₂ => rw [ih t₂ (List.cons.inj h).2]
  | unnegated t₂ => exact absurd h.symm (t₂.ne_of_opening (by decide))

theorem Derivation.Determined.unnegated {t : Derivation .comparison} (ih : t.Determined) :
    (Derivation.unnegated t).Determined := by
  intro d' h
  cases d' with
  | not => exact absurd h (t.ne_of_opening (by decide))
  | unnegated t₂ => rw [ih t₂ h]

/-- The left sum ends at the comparison. -/
theorem Derivation.Determined.compare {op : Token} {kind : Kind} (hop : comparison? op = some kind)
    {left right : Derivation (.chain .sum)} (ih₁ : left.Determined) (ih₂ : right.Determined) :
    (Derivation.compare op kind hop left right).Determined := by
  intro d' h
  cases d' with
  | compare op₂ kind₂ hop₂ left₂ right₂ =>
    obtain ⟨hleft, rfl, hright⟩ :=
      left.split left₂ (lt_level_of_comparison? hop) (lt_level_of_comparison? hop₂) h
    obtain rfl : kind = kind₂ := Option.some.inj (hop.symm.trans hop₂)
    rw [ih₁ left₂ hleft, ih₂ right₂ hright]
  | uncompared t => exact absurd h (left.append_ne t (lt_level_of_comparison? hop))

/-- A sum does not go on with a comparison. -/
theorem Derivation.Determined.uncompared {t : Derivation (.chain .sum)} (ih : t.Determined) :
    (Derivation.uncompared t).Determined := by
  intro d' h
  cases d' with
  | compare _ _ hop left => exact absurd h.symm (left.append_ne t (lt_level_of_comparison? hop))
  | uncompared t₂ => rw [ih t₂ h]

/-- The base ends at the power sign. -/
theorem Derivation.Determined.raise {base : Derivation .infixCall} {exponent : Derivation .power}
    (ih₁ : base.Determined) (ih₂ : exponent.Determined) :
    (Derivation.raise base exponent).Determined := by
  intro d' h
  cases d' with
  | raise base₂ exponent₂ =>
    obtain ⟨hbase, -, hexponent⟩ := base.split base₂ (by decide) (by decide) h
    rw [ih₁ base₂ hbase, ih₂ exponent₂ hexponent]
  | unraised t => exact absurd h (base.append_ne t (by decide))

theorem Derivation.Determined.unraised {t : Derivation .infixCall} (ih : t.Determined) :
    (Derivation.unraised t).Determined := by
  intro d' h
  cases d' with
  | raise base => exact absurd h.symm (base.append_ne t (by decide))
  | unraised t₂ => rw [ih t₂ h]

/-! ### Operands -/

/-- An operand of one token is no bracket. -/
theorem Derivation.Determined.atom {token : Token} {leaf : Tree} (hleaf : atom? token = some leaf) :
    (Derivation.atom token leaf hleaf).Determined := by
  intro d' h
  cases d' with
  | atom token₂ leaf₂ hleaf₂ =>
    obtain rfl : token = token₂ := (List.cons.inj h).1
    obtain rfl : leaf = leaf₂ := Option.some.inj (hleaf.symm.trans hleaf₂)
    rfl
  | bracket =>
    obtain rfl : token = .symbol .lparen := (List.cons.inj h).1
    cases hleaf

/-- The bracket at the end is the last token of both. -/
theorem Derivation.Determined.bracket {t : Derivation .expression} (ih : t.Determined) :
    (Derivation.bracket t).Determined := by
  intro d' h
  cases d' with
  | atom _ _ hleaf =>
    obtain rfl := (List.cons.inj h).1
    cases hleaf
  | bracket t₂ => rw [ih t₂ (List.append_inj_left' (List.cons.inj h).2 rfl)]

/-! ### Definitions -/

/-- The first definition ends at `within`. -/
theorem Derivation.Determined.within {first : Derivation .simultaneous}
    {second : Derivation .definition} (ih₁ : first.Determined) (ih₂ : second.Determined) :
    (Derivation.within first second).Determined := by
  intro d' h
  cases d' with
  | within first₂ second₂ =>
    obtain ⟨hfirst, -, hsecond⟩ := first.split first₂ (by decide) (by decide) h
    rw [ih₁ first₂ hfirst, ih₂ second₂ hsecond]
  | unnested d => exact absurd h (first.append_ne d (by decide))

/-- Definitions with `and` do not go on with `within`. -/
theorem Derivation.Determined.unnested {d : Derivation .simultaneous} (ih : d.Determined) :
    (Derivation.unnested d).Determined := by
  intro d' h
  cases d' with
  | within first => exact absurd h.symm (first.append_ne d (by decide))
  | unnested d₂ => rw [ih d₂ h]

/-- The first definition ends at `and`. -/
theorem Derivation.Determined.and {first : Derivation .recursive} {rest : Derivations .recursive}
    (ih₁ : first.Determined) (ih₂ : rest.Determined [.keyword .and]) :
    (Derivation.and first rest).Determined := by
  intro d' h
  cases d' with
  | and first₂ rest₂ =>
    obtain ⟨hfirst, hrest⟩ := first.cancel first₂ (ends_yield rest (by decide))
      (ends_yield rest₂ (by decide)) h
    rw [ih₁ first₂ hfirst, ih₂ rest₂ hrest]
  | alone d =>
    exact absurd h (Derivations.append_ne first d rest (ends_yield rest (by decide)))

theorem Derivation.Determined.alone {d : Derivation .recursive} (ih : d.Determined) :
    (Derivation.alone d).Determined := by
  intro d' h
  cases d' with
  | and first rest =>
    exact absurd h.symm (Derivations.append_ne first d rest (ends_yield rest (by decide)))
  | alone d₂ => rw [ih d₂ h]

/-- No definition without `rec` begins with it. -/
theorem Derivation.Determined.recursive {d : Derivation .basic} (ih : d.Determined) :
    (Derivation.recursive d).Determined := by
  intro d' h
  cases d' with
  | recursive d₂ => rw [ih d₂ (List.cons.inj h).2]
  | plain d₂ => exact absurd h.symm (d₂.ne_of_opening (by decide))

theorem Derivation.Determined.plain {d : Derivation .basic} (ih : d.Determined) :
    (Derivation.plain d).Determined := by
  intro d' h
  cases d' with
  | recursive => exact absurd h (d.ne_of_opening (by decide))
  | plain d₂ => rw [ih d₂ h]

/-- A name with parameters behind it is no list of names. -/
theorem Derivation.Determined.functionForm (f : String) {params : Derivations .parameter}
    {body : Derivation .expression} (ih₁ : params.Determined []) (ih₂ : body.Determined) :
    (Derivation.functionForm f params body).Determined := by
  intro d' h
  cases d' with
  | functionForm f₂ params₂ body₂ =>
    obtain ⟨hf, hrest⟩ := List.cons.inj h
    obtain ⟨hparams, -, hbody⟩ := definite_parameters.split ⟨params, rfl⟩ ⟨params₂, rfl⟩
      (by decide) (by decide) hrest
    rw [Token.identifier.inj hf, ih₁ params₂ hparams, ih₂ body₂ hbody]
  | equal xs value => exact absurd h (functionForm_ne_equal f params xs _ _)
  | bracketed => cases h

/-- The names end at the equals sign. -/
theorem Derivation.Determined.equal {xs : Derivation .names} {value : Derivation .expression}
    (ih₁ : xs.Determined) (ih₂ : value.Determined) : (Derivation.equal xs value).Determined := by
  intro d' h
  cases d' with
  | functionForm f params => exact absurd h.symm (functionForm_ne_equal f params xs _ _)
  | equal xs₂ value₂ =>
    obtain ⟨hxs, -, hvalue⟩ := xs.split xs₂ (by decide) (by decide) h
    rw [ih₁ xs₂ hxs, ih₂ value₂ hvalue]
  | bracketed => cases xs <;> cases h

/-- Neither a function nor a name begins with a bracket. -/
theorem Derivation.Determined.bracketed {d : Derivation .definition} (ih : d.Determined) :
    (Derivation.bracketed d).Determined := by
  intro d' h
  cases d' with
  | functionForm => cases h
  | equal xs => cases xs <;> cases h
  | bracketed d₂ => rw [ih d₂ (List.append_inj_left' (List.cons.inj h).2 rfl)]

/-! ### Parameters and names -/

/-- A name is no bracket. -/
theorem Derivation.Determined.parameter (x : String) : (Derivation.parameter x).Determined := by
  intro d' h
  cases d' with
  | parameter x₂ => rw [Token.identifier.inj (List.cons.inj h).1]
  | pattern | nothing => cases h

/-- Between the brackets of a pattern there is at least one name. -/
theorem Derivation.Determined.pattern {xs : Derivation .names} (ih : xs.Determined) :
    (Derivation.pattern xs).Determined := by
  intro d' h
  cases d' with
  | parameter => cases h
  | pattern xs₂ => rw [ih xs₂ (List.append_inj_left' (List.cons.inj h).2 rfl)]
  | nothing => exact absurd (List.append_left_eq_self.mp (List.cons.inj h).2) xs.yield_ne_nil

theorem Derivation.Determined.nothing : Derivation.nothing.Determined := by
  intro d' h
  cases d' with
  | parameter => cases h
  | pattern xs =>
    exact absurd (List.append_left_eq_self.mp (List.cons.inj h).2.symm) xs.yield_ne_nil
  | nothing => rfl

/-- Names are separated by commas. -/
theorem Derivation.Determined.names (x y : String) (rest : List String) :
    (Derivation.names x y rest).Determined := by
  intro d' h
  cases d' with
  | names x₂ y₂ rest₂ =>
    obtain ⟨hx, hrest⟩ := List.cons.inj h
    obtain ⟨rfl, rfl⟩ := List.cons.inj (commaNames_injective hrest)
    rw [Token.identifier.inj hx]
  | name => cases h

theorem Derivation.Determined.name (x : String) : (Derivation.name x).Determined := by
  intro d' h
  cases d' with
  | names => cases h
  | name x₂ => rw [Token.identifier.inj (List.cons.inj h).1]

/-! ### Neighbours -/

/-- The last of some neighbours is not followed by a separator. -/
theorem Derivations.Determined.last {n : Nonterminal} {separator : List Token}
    (hsep : ∀ ds : Derivations n, Ends n.level (ds.yield separator)) {d : Derivation n}
    (ih : d.Determined) : (Derivations.last d).Determined separator := by
  intro ds' h
  cases ds' with
  | last d₂ => rw [ih d₂ (List.append_cancel_left h)]
  | cons d₂ ds₂ =>
    rw [Derivations.yield, Derivations.yield, List.append_assoc] at h
    exact absurd (List.append_cancel_left h).symm (Derivations.append_ne d₂ d ds₂ (hsep ds₂))

/-- The first of some neighbours ends at the separator behind it, or, as for parameters, where the
next one begins. -/
theorem Derivations.Determined.cons {n : Nonterminal} {separator : List Token}
    (hsep : ∀ ds : Derivations n, Ends n.level (ds.yield separator)) {d : Derivation n}
    {ds : Derivations n} (ih₁ : d.Determined) (ih₂ : ds.Determined separator) :
    (Derivations.cons d ds).Determined separator := by
  intro ds' h
  rw [Derivations.yield, List.append_assoc] at h
  cases ds' with
  | last d₂ => exact absurd (List.append_cancel_left h) (Derivations.append_ne d d₂ ds (hsep ds))
  | cons d₂ ds₂ =>
    rw [Derivations.yield, List.append_assoc] at h
    obtain ⟨hd, hds⟩ := d.cancel d₂ (hsep ds) (hsep ds₂) (List.append_cancel_left h)
    rw [ih₁ d₂ hd, ih₂ ds₂ hds]

/-! ## 5. Derivations -/

mutual

/-- Every derivation is determined, production by production. -/
theorem Derivation.determined : {n : Nonterminal} → (d : Derivation n) → d.Determined
  | _, .letIn d body => .letIn d.determined body.determined
  | _, .function params body => .function (params.determined ends_parameters) body.determined
  | _, .unscoped t => .unscoped t.determined
  | _, .whereDef t d => .whereDef t.determined d.determined
  | _, .unqualified t => .unqualified t.determined
  | _, .tau first rest =>
    .tau first.determined (rest.determined fun ds => ends_yield ds (by decide))
  | _, .untupled t => .untupled t.determined
  | _, .link _ _ _ hop left right => .link hop left.determined right.determined
  | _, .start _ t => .start t.determined
  | _, .positive t => .positive t.determined
  | _, .negative t => .negative t.determined
  | _, .choice condition thenPart elsePart =>
    .choice condition.determined thenPart.determined elsePart.determined
  | _, .unconditional t => .unconditional t.determined
  | _, .not t => .not t.determined
  | _, .unnegated t => .unnegated t.determined
  | _, .compare _ _ hop left right => .compare hop left.determined right.determined
  | _, .uncompared t => .uncompared t.determined
  | _, .raise base exponent => .raise base.determined exponent.determined
  | _, .unraised t => .unraised t.determined
  | _, .call left f right => .call f left.determined right.determined
  | _, .uncalled t => .uncalled t.determined
  | _, .apply f argument => .apply f.determined argument.determined
  | _, .unapplied t => .unapplied t.determined
  | _, .atom _ _ hleaf => .atom hleaf
  | _, .bracket t => .bracket t.determined
  | _, .within first second => .within first.determined second.determined
  | _, .unnested d => .unnested d.determined
  | _, .and first rest =>
    .and first.determined (rest.determined fun ds => ends_yield ds (by decide))
  | _, .alone d => .alone d.determined
  | _, .recursive d => .recursive d.determined
  | _, .plain d => .plain d.determined
  | _, .functionForm f params body =>
    .functionForm f (params.determined ends_parameters) body.determined
  | _, .equal xs value => .equal xs.determined value.determined
  | _, .bracketed d => .bracketed d.determined
  | _, .parameter x => .parameter x
  | _, .pattern xs => .pattern xs.determined
  | _, .nothing => .nothing
  | _, .names x y rest => .names x y rest
  | _, .name x => .name x

/-- Neighbours are determined, one after the other. -/
theorem Derivations.determined {separator : List Token} : {n : Nonterminal} →
    (∀ ds : Derivations n, Ends n.level (ds.yield separator)) → (ds : Derivations n) →
      ds.Determined separator
  | _, hsep, .last d => .last hsep d.determined
  | _, hsep, .cons d ds => .cons hsep d.determined (ds.determined hsep)

end

/-- **Two derivation trees** from a nonterminal that derive the same tokens are equal. -/
theorem Derivation.eq_of_yield {n : Nonterminal} (d d' : Derivation n) (h : d.yield = d'.yield) :
    d = d' := d.determined d' h

end Rpal.Grammar
