/-
# What is derived is read

Tokens that are derived from a nonterminal are read by its rule, with the tree that the derivation
builds, and no token behind them is touched (`reads_phrase`).

Where a production goes on with a token, that token has a higher level than the phrase in front
of it; no rule can then take it for its own, and no option or repetition commits wrongly.  What
is left are choices between alternatives, and there the first tokens decide.
-/
import Mathlib.Data.List.Forall2
import Rpal.Proofs.Grammar.Reading
import Rpal.Proofs.Grammar.Soundness

namespace Rpal.Grammar

open Rule Rpal.Tree

/-! ## 1. Levels of nonterminals -/

/-- The level of a chain of operators is that of its operators. -/
def Chain.level : Chain → Nat
  | augmented => 10
  | disjunction => 8
  | conjunction => 7
  | sum => 5
  | product => 4

/-- The level of a nonterminal: its phrases end before the tokens of higher levels. -/
def Nonterminal.level : Nonterminal → Nat
  | operand | parameter => 0
  | application => 1
  | infixCall => 2
  | power => 3
  | chain c => c.level
  | comparison | negation => 6
  | conditional => 9
  | tuple | names => 11
  | clause | expression | basic | recursive => 12
  | simultaneous => 13
  | definition => 14

/-- The operators of a chain are tokens of its level. -/
theorem Chain.level_of_operator? {c : Chain} {op : Token} {kind : Kind}
    (h : c.operator? op = some kind) : op.level = c.level := by
  unfold Chain.operator? at h
  split at h <;> first | rfl | cases h

/-- The operands of a chain end before its operators. -/
theorem Chain.level_operand (c : Chain) : c.operand.level < c.level := by
  cases c <;> decide

/-- All comparisons are tokens of one level. -/
theorem level_of_comparison? {op : Token} {kind : Kind} (h : comparison? op = some kind) :
    op.level = 6 := by
  unfold comparison? at h
  split at h <;> first | rfl | cases h

/-! ## 2. First tokens -/

/-- The rank of a token among those that phrases begin with. -/
def opening : Token → Nat
  | .identifier _ | .integer _ | .string _ | .keyword .true | .keyword .false | .keyword .nil
  | .keyword .dummy | .symbol .lparen => 0
  | .symbol .plus | .symbol .minus => 1
  | .keyword .not => 2
  | .keyword .letWord | .keyword .fnWord | .keyword .recWord => 3
  | _ => 4

/-- What operands begin with carries applications on. -/
theorem level_of_opening {t : Token} (h : opening t ≤ 0) : t.level = 1 := by
  unfold opening at h
  split at h <;> first | rfl | cases h

/-- The rank of what the phrases of a nonterminal begin with. -/
def Nonterminal.opening : Nonterminal → Nat
  | .chain .sum | .comparison => 1
  | .negation | .chain .conjunction | .chain .disjunction | .conditional | .chain .augmented
  | .tuple | .clause => 2
  | .expression | .recursive | .simultaneous | .definition => 3
  | _ => 0

/-- A chain begins with its first operand; a sum may begin with a sign as well. -/
theorem Chain.opening_operand (c : Chain) :
    c.operand.opening ≤ (Nonterminal.chain c).opening := by
  cases c <;> decide

/-- The first token is of a rank. -/
def Opens (rank : Nat) (ts : List Token) : Prop := ∃ t us, ts = t :: us ∧ opening t ≤ rank

/-- What a phrase begins with does not depend on what stands behind it. -/
theorem Opens.append {rank : Nat} {ts : List Token} (h : Opens rank ts) (us : List Token) :
    Opens rank (ts ++ us) := by
  obtain ⟨t, vs, rfl, ht⟩ := h
  exact ⟨t, vs ++ us, rfl, ht⟩

/-- A higher rank admits more tokens. -/
theorem Opens.mono {j k : Nat} {ts : List Token} (h : Opens j ts) (hjk : j ≤ k) : Opens k ts := by
  obtain ⟨t, vs, rfl, ht⟩ := h
  exact ⟨t, vs, rfl, Nat.le_trans ht hjk⟩

/-- A phrase begins with its first token. -/
theorem opens_cons {rank : Nat} {t : Token} (h : opening t ≤ rank) (us : List Token) :
    Opens rank (t :: us) := ⟨t, us, rfl, h⟩

/-- Operands of one token are of the lowest rank. -/
theorem opening_of_atom? {t : Token} {leaf : Tree} (h : atom? t = some leaf) : opening t = 0 := by
  unfold atom? at h
  split at h <;> first | rfl | cases h

/-- **The first token** of a phrase is of the rank of its nonterminal. -/
theorem Derivation.opens : {n : Nonterminal} → (d : Derivation n) → Opens n.opening d.yield
  | _, .letIn _ _ | _, .function _ _ => opens_cons (Nat.le_refl 3) _
  | _, .unscoped t => (opens t).mono (Nat.le_succ 2)
  | _, .whereDef t _ => (opens t).append _
  | _, .unqualified t => opens t
  | _, .tau first _ => (opens first).append _
  | _, .untupled t => opens t
  | _, .link _ _ _ _ left _ => (opens left).append _
  | _, .start c t => (opens t).mono c.opening_operand
  | _, .positive _ | _, .negative _ => opens_cons (Nat.le_refl 1) _
  | _, .choice condition _ _ => (opens condition).append _
  | _, .unconditional t => opens t
  | _, .not _ => opens_cons (Nat.le_refl 2) _
  | _, .unnegated t => (opens t).mono (Nat.le_succ 1)
  | _, .compare _ _ _ left _ => (opens left).append _
  | _, .uncompared t => opens t
  | _, .raise base _ => (opens base).append _
  | _, .unraised t => opens t
  | _, .call left _ _ => (opens left).append _
  | _, .uncalled t => opens t
  | _, .apply f _ => (opens f).append _
  | _, .unapplied t => opens t
  | _, .atom _ _ h => opens_cons (Nat.le_of_eq (opening_of_atom? h)) _
  | _, .bracket _ => opens_cons (Nat.le_refl 0) _
  | _, .within first _ => (opens first).append _
  | _, .unnested d => opens d
  | _, .and first _ => (opens first).append _
  | _, .alone d => opens d
  | _, .recursive _ => opens_cons (Nat.le_refl 3) _
  | _, .plain d => (opens d).mono (Nat.zero_le 3)
  | _, .functionForm _ _ _ => opens_cons (Nat.le_refl 0) _
  | _, .equal xs _ => (opens xs).append _
  | _, .bracketed _ | _, .parameter _ | _, .pattern _ | _, .nothing | _, .names _ _ _
  | _, .name _ => opens_cons (Nat.le_refl 0) _

/-- A rule fails in front of a phrase if all that it begins with is of a higher rank. -/
theorem Opens.misses {rank : Nat} {ts : List Token} {α : Type} {p : Rule α} {C : Token → Prop}
    (h : Opens rank ts) (hp : Begins p C) (hC : ∀ t, C t → rank < opening t) : Misses p ts := by
  obtain ⟨t, us, rfl, ht⟩ := h
  exact hp.misses (fun hc => Nat.not_le.mpr (hC t hc) ht) us

/-- No operand begins with a sign. -/
theorem opening_of_sign {t : Token} (h : Chain.operator? .sum t ≠ none) : 0 < opening t := by
  unfold Chain.operator? at h
  split at h <;> first | decide | contradiction

/-! ## 3. Derivations in chunks

The rules of the grammar repeat where the productions recur.  Here a derivation is taken apart
into what is read first and the chunks that a repetition reads. -/

/-- An operator and what it is followed by. -/
def Link (class? : Token → Option Kind) (n : Nonterminal) (us : List Token) (r : Kind × Tree) :
    Prop :=
  ∃ op vs, us = op :: vs ∧ class? op = some r.1 ∧ Derives n vs r.2

/-- What a chain starts with: an operand, or in a sum a term behind a sign. -/
inductive Head : Chain → List Token → Tree → Prop where
  | operand {c : Chain} {ts : List Token} {t : Tree} (h : Derives c.operand ts t) : Head c ts t
  | signed {sign : Token} {kind : Kind} {ts : List Token} {t : Tree}
      (hs : Chain.operator? .sum sign = some kind) (h : Derives (.chain .product) ts t) :
      Head .sum (sign :: ts) (if some kind = some .minus then .branch .neg [t] else t)

/-- The last operator of a chain that nests to the left is the outermost. -/
theorem leftNest_concat (first : Tree) (rest : List (Kind × Tree)) (r : Kind × Tree) :
    leftNest first (rest ++ [r]) = .branch r.1 [leftNest first rest, r.2] := by
  rw [leftNest, List.foldl_append]
  rfl

/-- The links that a chain is taken apart into.  A derivation nests to the left as its tree does, so
the link at its root is the last chunk. -/
theorem exists_links : {c : Chain} → (d : Derivation (.chain c)) → ∃ ts first us rest,
    d.yield = ts ++ us ∧ d.tree = leftNest first rest ∧ Head c ts first ∧
      Chunks (Link c.operator? c.operand) us rest
  | _, .start c t => ⟨t.yield, t.tree, [], [], (List.append_nil _).symm, rfl,
      .operand ⟨t, rfl, rfl⟩, .nil⟩
  | _, .positive t => ⟨.symbol .plus :: t.yield, t.tree, [], [], (List.append_nil _).symm, rfl,
      .signed (show Chain.operator? .sum (.symbol .plus) = some .plus from rfl) ⟨t, rfl, rfl⟩, .nil⟩
  | _, .negative t => ⟨.symbol .minus :: t.yield, .branch .neg [t.tree], [], [],
      (List.append_nil _).symm, rfl,
      .signed (show Chain.operator? .sum (.symbol .minus) = some .minus from rfl) ⟨t, rfl, rfl⟩,
      .nil⟩
  | _, .link c op kind h left right => by
    obtain ⟨ts, first, us, rest, hyield, htree, hhead, hs⟩ := exists_links left
    have hlink : Link c.operator? c.operand (op :: right.yield) (kind, right.tree) :=
      ⟨op, _, rfl, h, right, rfl, rfl⟩
    refine ⟨ts, first, _, _, ?_, ?_, hhead, hs.concat hlink⟩
    · rw [Derivation.yield, hyield, List.append_assoc]
    · rw [leftNest_concat, ← htree]
      rfl

/-- The operands that an application is taken apart into. -/
theorem exists_operands : (d : Derivation .application) → ∃ ts first us rest,
    d.yield = ts ++ us ∧ d.tree = leftNest first (rest.map (Kind.gamma, ·)) ∧
      Derives .operand ts first ∧ Chunks (Derives .operand) us rest
  | .unapplied t => ⟨t.yield, t.tree, [], [], (List.append_nil _).symm, rfl, ⟨t, rfl, rfl⟩, .nil⟩
  | .apply f a => by
    obtain ⟨ts, first, us, rest, hyield, htree, hfirst, hs⟩ := exists_operands f
    refine ⟨ts, first, _, _, ?_, ?_, hfirst, hs.concat ⟨a, rfl, rfl⟩⟩
    · rw [Derivation.yield, hyield, List.append_assoc]
    · rw [List.map_append, List.map_singleton, leftNest_concat, ← htree]
      rfl

/-- The calls that an infix call is taken apart into. -/
theorem exists_calls : (d : Derivation .infixCall) → ∃ ts first us rest, d.yield = ts ++ us ∧
    d.tree = rest.foldl (fun left (name, right) => .branch .atCall [left, name, right]) first ∧
      Derives .application ts first ∧ Chunks (fun us (r : Tree × Tree) =>
        ∃ f vs, us = .symbol .at :: .identifier f :: vs ∧ r.1 = .leaf .identifier f ∧
          Derives .application vs r.2) us rest
  | .uncalled t => ⟨t.yield, t.tree, [], [], (List.append_nil _).symm, rfl, ⟨t, rfl, rfl⟩, .nil⟩
  | .call left f right => by
    obtain ⟨ts, first, us, rest, hyield, htree, hfirst, hs⟩ := exists_calls left
    refine ⟨ts, first, _, _, ?_, ?_, hfirst,
      hs.concat (a := (.leaf .identifier f, right.tree)) ⟨f, _, rfl, rfl, right, rfl, rfl⟩⟩
    · rw [Derivation.yield, hyield, List.append_assoc]
    · rw [List.foldl_append, ← htree]
      rfl

/-- Items of a nonterminal with a separator between any two, nested to the right. -/
def RightNested (kind : Kind) (separator : Token) (n : Nonterminal) (ts : List Token) (t : Tree) :
    Prop :=
  ∃ us first vs rest, ts = us ++ vs ∧ t = rightNest kind first rest ∧ Derives n us first ∧
    Chunks (fun vs t => ∃ ws, vs = [separator] ++ ws ∧ Derives n ws t) vs rest

/-- One item is nested already. -/
theorem rightNested_last {kind : Kind} {separator : Token} {n : Nonterminal} (d : Derivation n) :
    RightNested kind separator n d.yield d.tree :=
  ⟨d.yield, d.tree, [], [], (List.append_nil _).symm, rfl, ⟨d, rfl, rfl⟩, .nil⟩

/-- An item in front of nested ones comes outermost. -/
theorem RightNested.extend {kind : Kind} {separator : Token} {n : Nonterminal} {ts : List Token}
    {t : Tree} (h : RightNested kind separator n ts t) (d : Derivation n) :
    RightNested kind separator n (d.yield ++ separator :: ts) (.branch kind [d.tree, t]) := by
  obtain ⟨us, first, vs, rest, rfl, rfl, hfirst, hs⟩ := h
  exact ⟨d.yield, d.tree, _, first :: rest, rfl, rfl, ⟨d, rfl, rfl⟩, .cons ⟨us, rfl, hfirst⟩ hs⟩

/-- Powers nest to the right, and so do their derivations. -/
theorem rightNested_power : (d : Derivation .power) →
    RightNested .exp (.symbol .power) .infixCall d.yield d.tree
  | .unraised t => rightNested_last t
  | .raise base exponent => (rightNested_power exponent).extend base

/-- Definitions with `within` nest to the right. -/
theorem rightNested_definition : (d : Derivation .definition) →
    RightNested .within (.keyword .within) .simultaneous d.yield d.tree
  | .unnested d => rightNested_last d
  | .within first second => (rightNested_definition second).extend first

/-- Side by side. -/
theorem chunks_yield (separator : List Token) : {n : Nonterminal} → (ds : Derivations n) →
    Chunks (fun us t => ∃ vs, us = separator ++ vs ∧ Derives n vs t) (ds.yield separator) ds.trees
  | _, .last d => by
    have := Chunks.cons (S := fun us t => ∃ vs, us = separator ++ vs ∧ Derives _ vs t)
      ⟨d.yield, rfl, d, rfl, rfl⟩ .nil
    rwa [List.append_nil] at this
  | _, .cons d ds => .cons ⟨d.yield, rfl, d, rfl, rfl⟩ (chunks_yield separator ds)

/-! ## 4. Chains of operators -/

/-- The rule reads all that is derived from a nonterminal with at most `room` tokens. -/
def ReadsAll (room : Nat) (p : Rule Tree) (n : Nonterminal) : Prop :=
  ∀ ts t, Derives n ts t → ts.length ≤ room → Reads p n.level ts t

section Productions

variable (stop : Nat) {room : Nat} {inner : Phrase → Rule Tree}

/-- The rule reads a class of operators. -/
def ReadsOperators (operator : Rule Kind) (class? : Token → Option Kind) : Prop :=
  ∀ op kind, class? op = some kind → Reads operator 0 [op] kind

/-- A rule that reads a class of operators and begins with nothing else. -/
structure OperatorRule (operator : Rule Kind) (class? : Token → Option Kind) : Prop where
  reads : ReadsOperators operator class?
  begins : Begins operator fun t => class? t ≠ none

/-- An operator and the operand behind it are read as one link. -/
theorem reads_operation {n : Nonterminal} {class? : Token → Option Kind} {operator : Rule Kind}
    {operand : Rule Tree} (hk : ReadsOperators operator class?) (ho : ReadsAll room operand n)
    {us : List Token} {r : Kind × Tree} (h : Link class? n us r) (hroom : us.length ≤ room) :
    Reads (do
      let kind ← operator
      let right ← operand
      pure (kind, right)) n.level us r := by
  obtain ⟨op, vs, rfl, hop, hright⟩ := h
  rw [List.length_cons] at hroom
  exact (hk op _ hop).cons ((ho vs _ hright (by omega)).map rfl)

/-- **The links of a chain** are read, up to the end of the chain. -/
theorem reads_links (c : Chain) {operator : Rule Kind} {operand : Rule Tree}
    (hk : OperatorRule operator c.operator?) (ho : ReadsAll room operand c.operand)
    {us : List Token} {rest : List (Kind × Tree)}
    (hs : Chunks (Link c.operator? c.operand) us rest) (hroom : us.length ≤ room) :
    Reads (many room do
      let kind ← operator
      let right ← operand
      pure (kind, right)) c.level us rest ∧ Leads c.operand.level c.level us := by
  have hle : c.operand.level ≤ c.level := Nat.le_of_lt c.level_operand
  have hlevel : Below (fun t => c.operator? t ≠ none) c.level := by
    intro t ht
    obtain ⟨kind, hkind⟩ := Option.ne_none_iff_exists'.mp ht
    exact Nat.le_of_eq (Chain.level_of_operator? hkind)
  have hchunks := hs.mono hroom fun vs r hvs h =>
    ReadsChunk.mk (reads_operation hk.reads ho h hvs) <| by
      obtain ⟨op, ws, rfl, hop, -⟩ := h
      exact ⟨op, ws, rfl, by rw [Chain.level_of_operator? hop]; exact c.level_operand⟩
  exact ⟨reads_many hchunks hk.begins.bind hlevel hle room hroom, hchunks.leads hle⟩

/-- Chains whose first part is an operand.  A sum may begin with a sign and is read by
`reads_arithmetic`. -/
theorem reads_leftChain {c : Chain} (hc : c ≠ .sum) {operand : Rule Tree} {operator : Rule Kind}
    (hk : OperatorRule operator c.operator?) (ho : ReadsAll room operand c.operand) :
    ReadsAll room (leftChain room operand operator) (.chain c) := by
  rintro _ _ ⟨d, rfl, rfl⟩ hroom
  obtain ⟨ts, first, us, rest, hyield, htree, hhead, hs⟩ := exists_links d
  rw [hyield, List.length_append] at hroom
  obtain ⟨hlinks, hlead⟩ := reads_links c hk ho hs (by omega)
  rw [hyield, htree]
  cases hhead with
  | operand h => exact (ho ts first h (by omega)).bind (hlinks.map rfl) hlead
  | signed => exact absurd rfl hc

/-- **Items with separators between any two** are read, up to what looks like no separator. -/
theorem reads_items {S : List Token → Tree → Prop} {j k : Nat} {separator : Rule Unit}
    {token : Token} {item : Rule Tree} (hs : Reads separator 0 [token] ())
    (hb : Begins separator (· = token)) (hj : j < token.level) (hk : token.level = k)
    (hi : ∀ ts t, S ts t → ts.length ≤ room → Reads item j ts t) {us : List Token}
    {rest : List Tree} (hc : Chunks (fun us t => ∃ vs, us = [token] ++ vs ∧ S vs t) us rest)
    (hroom : us.length ≤ room) :
    Reads (many room do separator; item) k us rest ∧ Leads j k us := by
  subst hk
  have hlevel : Below (· = token) token.level := fun t ht => Nat.le_of_eq (congrArg Token.level ht)
  have hchunks : Chunks (ReadsChunk (do separator; item) j) us rest := by
    refine hc.mono hroom fun vs t hvs h => ?_
    obtain ⟨ws, rfl, ht⟩ := h
    rw [List.length_append] at hvs
    exact ⟨hs.cons (hi ws t ht (by omega)), token, ws, rfl, hj⟩
  exact ⟨reads_many hchunks hb.bind hlevel (Nat.le_of_lt hj) room hroom,
    hchunks.leads (Nat.le_of_lt hj)⟩

/-- Items that nest to the right, up to what looks like no separator. -/
theorem reads_rightChain {n : Nonterminal} {k : Nat} {kind : Kind} {separator : Rule Unit}
    {token : Token} {item : Rule Tree} (hs : Reads separator 0 [token] ())
    (hb : Begins separator (· = token)) (hn : n.level < token.level) (hk : token.level = k)
    (hi : ReadsAll room item n) {ts : List Token} {t : Tree} (h : RightNested kind token n ts t)
    (hroom : ts.length ≤ room) : Reads (rightChain room kind item separator) k ts t := by
  obtain ⟨us, first, vs, rest, rfl, rfl, hfirst, hc⟩ := h
  rw [List.length_append] at hroom
  obtain ⟨hrest, hlead⟩ := reads_items hs hb hn hk hi hc (by omega)
  exact (hi us first hfirst (by omega)).bind (hrest.map rfl) hlead

/-- Items that stand side by side, up to what looks like no separator. -/
theorem reads_listChain {S : List Token → Tree → Prop} {j k : Nat} (kind : Kind)
    {separator : Rule Unit} {token : Token} {item : Rule Tree} (hs : Reads separator 0 [token] ())
    (hb : Begins separator (· = token)) (hj : j < token.level) (hk : token.level = k)
    (hi : ∀ ts t, S ts t → ts.length ≤ room → Reads item j ts t) {us vs : List Token}
    {first : Tree} {rest : List Tree} (hfirst : S us first)
    (hc : Chunks (fun us t => ∃ vs, us = [token] ++ vs ∧ S vs t) vs rest)
    (hroom : (us ++ vs).length ≤ room) :
    Reads (listChain room kind item separator) k (us ++ vs) (listOf kind first rest) := by
  rw [List.length_append] at hroom
  obtain ⟨hrest, hlead⟩ := reads_items hs hb hj hk hi hc (by omega)
  exact (hi us first hfirst (by omega)).bind (hrest.map rfl) hlead

/-! ## 5. Operators -/

/-- The rule reads one operator and begins with no other token. -/
def ReadsOnly (operator : Rule Kind) (entry : Token × Kind) : Prop :=
  Reads operator 0 [entry.1] entry.2 ∧ Begins operator (· = entry.1)

/-- An operator that is a symbol. -/
theorem readsOnly_symbolOperator (s : Symbol) (kind : Kind) :
    ReadsOnly (symbolOperator stop s kind) (.symbol s, kind) :=
  ⟨(reads_symbol stop 0 s).map rfl, (begins_symbol stop s).bind⟩

/-- An operator that is a reserved word. -/
theorem readsOnly_keywordOperator (w : Keyword) (kind : Kind) :
    ReadsOnly (keywordOperator stop w kind) (.keyword w, kind) :=
  ⟨(reads_keyword stop 0 w).map rfl, (begins_keyword stop w).bind⟩

/-- **A choice between operators** reads every one of them, and begins with these only. -/
theorem reads_operators {p : Rule Kind} {qs : List (Rule Kind)} {entries : List (Token × Kind)}
    (h : List.Forall₂ ReadsOnly (p :: qs) entries) (hnodup : (entries.map Prod.fst).Nodup) :
    (∀ e ∈ entries, Reads (oneOf p qs) 0 [e.1] e.2) ∧
      Begins (oneOf p qs) (· ∈ entries.map Prod.fst) := by
  induction qs generalizing p entries with
  | nil =>
    obtain ⟨e, es, ⟨hreads, hbegins⟩, hnil, rfl⟩ := List.forall₂_cons_left_iff.mp h
    cases hnil
    refine ⟨fun e' he' => ?_, hbegins.mono fun t ht => ?_⟩
    · rw [List.mem_singleton] at he'
      subst he'
      exact hreads
    · simp [ht]
  | cons q qs ih =>
    obtain ⟨e, es, ⟨hreads, hbegins⟩, hrest, rfl⟩ := List.forall₂_cons_left_iff.mp h
    rw [List.map_cons, List.nodup_cons] at hnodup
    obtain ⟨hreads', hbegins'⟩ := ih hrest hnodup.2
    -- a later operator is read as the alternatives in front of it begin with other tokens
    refine ⟨fun e' he' => ?_, (hbegins.mono fun t ht => ?_).either (hbegins'.mono fun t ht => ?_)⟩
    · rcases List.mem_cons.mp he' with rfl | hmem
      · exact hreads.left _
      · refine (hreads' e' hmem).right (hbegins.misses (fun heq => hnodup.1 ?_) [])
        rw [← heq]
        exact List.mem_map_of_mem hmem
    · exact List.mem_cons.mpr (.inl ht)
    · exact List.mem_cons_of_mem _ ht

/-- A choice between operators reads a class of operators if it has an alternative for each of them
and no other. -/
theorem operatorRule_oneOf {class? : Token → Option Kind} {p : Rule Kind} {qs : List (Rule Kind)}
    {entries : List (Token × Kind)} (h : List.Forall₂ ReadsOnly (p :: qs) entries)
    (hnodup : (entries.map Prod.fst).Nodup)
    (hentries : ∀ op kind, class? op = some kind → (op, kind) ∈ entries)
    (hclass : ∀ e ∈ entries, class? e.1 ≠ none) : OperatorRule (oneOf p qs) class? := by
  obtain ⟨hreads, hbegins⟩ := reads_operators h hnodup
  refine ⟨fun op kind hop => hreads _ (hentries op kind hop), hbegins.mono fun t ht => ?_⟩
  obtain ⟨e, he, rfl⟩ := List.mem_map.mp ht
  exact hclass e he

/-- The operators of a chain, in the order in which they are tried. -/
def Chain.operators : Chain → List (Token × Kind)
  | augmented => [(.keyword .aug, .aug)]
  | disjunction => [(.keyword .or, .or)]
  | conjunction => [(.symbol .ampersand, .and)]
  | sum => [(.symbol .plus, .plus), (.symbol .minus, .minus)]
  | product => [(.symbol .times, .mult), (.symbol .divide, .div)]

/-- The operators of a chain. -/
theorem operatorRule_chain (c : Chain) {p : Rule Kind} {qs : List (Rule Kind)}
    (h : List.Forall₂ ReadsOnly (p :: qs) c.operators) : OperatorRule (oneOf p qs) c.operator? := by
  refine operatorRule_oneOf h (by cases c <;> decide) ?_ (by cases c <;> decide)
  intro op kind hop
  unfold Chain.operator? at hop
  split at hop <;> cases hop <;> decide

/-- The comparisons, as words and as signs. -/
theorem operatorRule_comparison : OperatorRule (comparisonOperator stop) comparison? := by
  have hk := readsOnly_keywordOperator stop
  have hs := readsOnly_symbolOperator stop
  refine operatorRule_oneOf
    (.cons (hk _ _) <| .cons (hk _ _) <| .cons (hk _ _) <| .cons (hk _ _) <| .cons (hk _ _) <|
      .cons (hk _ _) <| .cons (hs _ _) <| .cons (hs _ _) <| .cons (hs _ _) <|
      .cons (hs _ _) .nil) (by decide) ?_ (by decide)
  intro op kind h
  unfold comparison? at h
  split at h <;> cases h <;> decide

/-! ## 6. Expressions -/

/-- A name is read, whatever is behind it. -/
theorem reads_identifier (k : Nat) (x : String) :
    Reads (identifier stop) k [.identifier x] (.leaf .identifier x) :=
  reads_accept stop k rfl

/-- Nothing but a name is read as a name. -/
theorem begins_identifier : Begins (identifier stop) fun t => opening t ≤ 0 :=
  (begins_accept stop _).mono fun t ht => by
    cases t <;> first | exact Nat.le_refl 0 | exact absurd rfl ht

/-- A constant as a function of the first token. -/
theorem constant_cons (w : Keyword) (kind : Kind) (l : Lexeme) (rest : List Lexeme) :
    constant stop w kind (l :: rest) =
      if l.token = .keyword w then .ok (.branch kind [], rest) else .error (l.missOf w) := by
  rw [constant, bind_apply, keyword]
  split <;> rfl

/-- A constant begins with its word. -/
theorem begins_constant (w : Keyword) (kind : Kind) :
    Begins (constant stop w kind) (· = .keyword w) :=
  (begins_keyword stop w).bind

/-- What stands in brackets ends before the closing bracket, which is of the highest level. -/
theorem reads_bracketed {p : Rule Tree} {k : Nat} {us : List Token} {t : Tree}
    (hp : Reads p k us t) (hk : k < 15) :
    Reads (bracketed stop p) 0 (.symbol .lparen :: (us ++ [.symbol .rparen])) t :=
  (reads_symbol stop 0 .lparen).cons (hp.bind ((reads_symbol stop 0 .rparen).map rfl) hk)

section Expressions

/-- What an operand begins with carries an application on. -/
theorem begins_operand : Begins (operand stop inner) fun t => t.level ≤ 1 := by
  have htoken : ∀ {class? : Token → Option Tree}, (∀ t, class? t ≠ none → t.level ≤ 1) →
      Begins (accept stop class?) fun t => t.level ≤ 1 := fun h => (begins_accept stop _).mono h
  have hconstant : ∀ w kind, (Token.keyword w).level = 1 →
      Begins (constant stop w kind) fun t => t.level ≤ 1 := fun w kind hw =>
    (begins_constant stop w kind).mono fun t ht => by
      rw [ht]
      exact Nat.le_of_eq hw
  refine Begins.oneOf (htoken fun t h => ?_) ?_
  · cases t <;> first | exact Nat.le_refl 1 | exact absurd rfl h
  · simp only [List.forall_mem_cons, List.not_mem_nil, false_imp_iff, implies_true, and_true]
    refine ⟨htoken fun t h => ?_, htoken fun t h => ?_, hconstant _ _ rfl, hconstant _ _ rfl,
      hconstant _ _ rfl, hconstant _ _ rfl, ?_⟩
    · cases t <;> first | exact Nat.le_refl 1 | exact absurd rfl h
    · cases t <;> first | exact Nat.le_refl 1 | exact absurd rfl h
    · exact (begins_symbol stop .lparen).bind.mono fun t ht => by rw [ht]; exact Nat.le_refl 1

/-- Operands of one token.  Exactly one of the alternatives accepts the token, whichever it is. -/
theorem reads_atom {token : Token} {leaf : Tree} (h : atom? token = some leaf) :
    Reads (operand stop inner) 0 [token] leaf := by
  intro ls rest hls _
  obtain ⟨l, rfl, rfl⟩ := List.map_eq_singleton_iff.mp hls
  unfold atom? at h
  split at h <;> cases h <;>
    simp [operand, oneOf, either, identifier, integer, string, constant_cons, accept, *]

variable (hinner : ∀ p ts t, Derives p.nonterminal ts t → ts.length < room →
  Reads (inner p) p.nonterminal.level ts t)

include hinner

/-- An operand in brackets is the last alternative: it is read as none of the others begins with a
bracket. -/
theorem reads_operand : ReadsAll room (operand stop inner) .operand := by
  rintro _ _ ⟨d, rfl, rfl⟩ hroom
  cases d with
  | atom token leaf h => exact reads_atom stop h
  | bracket t =>
    rw [Derivation.yield, List.length_cons, List.length_append] at hroom
    have hbracket := reads_bracketed stop (hinner .expression _ _ ⟨t, rfl, rfl⟩ (by omega))
      (by decide)
    have hconstant : ∀ w kind ts, Misses (constant stop w kind) (.symbol .lparen :: ts) :=
      fun w kind => (begins_constant stop w kind).misses (by simp)
    have htoken : ∀ {class? : Token → Option Tree}, class? (.symbol .lparen) = none →
        ∀ ts, Misses (accept stop class?) (.symbol .lparen :: ts) := fun h =>
      (begins_accept stop _).misses (not_not_intro h)
    exact ((((((hbracket.right (hconstant _ _ _)).right (hconstant _ _ _)).right
      (hconstant _ _ _)).right (hconstant _ _ _)).right (htoken rfl _)).right
      (htoken rfl _)).right (htoken rfl _)

/-- The operands behind a function are read as long as a token begins an operand. -/
theorem reads_application : ReadsAll room (application stop room inner) .application := by
  rintro _ _ ⟨d, rfl, rfl⟩ hroom
  obtain ⟨ts, first, us, rest, hyield, htree, hfirst, hs⟩ := exists_operands d
  rw [hyield, List.length_append] at hroom
  have ho := reads_operand stop hinner
  have hchunks : Chunks (ReadsChunk (operand stop inner) 0) us rest := by
    refine hs.mono (show us.length ≤ room by omega) fun vs t hvs h => ⟨ho vs t h hvs, ?_⟩
    obtain ⟨a, rfl, rfl⟩ := h
    obtain ⟨t, us, hus, ht⟩ := a.opens
    exact ⟨t, us, hus, t.level_pos⟩
  have hmany := reads_many hchunks (begins_operand stop) (fun t ht => ht) (Nat.zero_le 1) room
    (by omega)
  rw [hyield, htree]
  exact (ho ts first hfirst (by omega)).bind (hmany.map rfl) (hchunks.leads (Nat.zero_le 1))

/-- The calls behind the first application begin with `@`. -/
theorem reads_infixCall : ReadsAll room (infixCall stop room inner) .infixCall := by
  rintro _ _ ⟨d, rfl, rfl⟩ hroom
  obtain ⟨ts, first, us, rest, hyield, htree, hfirst, hs⟩ := exists_calls d
  rw [hyield, List.length_append] at hroom
  have ha := reads_application stop hinner
  have hchunks : Chunks (ReadsChunk (do
      symbol stop .at
      let name ← identifier stop
      let right ← application stop room inner
      pure (name, right)) 1) us rest := by
    refine hs.mono (show us.length ≤ room by omega) fun vs r hvs h => ?_
    obtain ⟨f, ws, rfl, hname, hright⟩ := h
    simp only [List.length_cons] at hvs
    refine ⟨(reads_symbol stop 0 .at).cons ?_, _, _, rfl, by decide⟩
    obtain ⟨name, right⟩ := r
    obtain rfl : name = .leaf .identifier f := hname
    refine (reads_identifier stop 0 f).cons ?_
    exact (ha ws right hright (by omega)).map rfl
  have hmany := reads_many hchunks (begins_symbol stop .at).bind
    (fun t ht => Nat.le_of_eq (congrArg Token.level ht)) (by decide : 1 ≤ 2) room (by omega)
  rw [hyield, htree]
  exact (ha ts first hfirst (by omega)).bind (hmany.map rfl) (hchunks.leads (by decide))

/-- Powers, up to an operator of a product. -/
theorem reads_power : ReadsAll room (power stop room inner) .power := by
  rintro _ _ ⟨d, rfl, rfl⟩ hroom
  exact reads_rightChain (reads_symbol stop 0 .power) (begins_symbol stop .power) (by decide) rfl
    (reads_infixCall stop hinner) (rightNested_power d) hroom

/-- Products and quotients, up to an operator of a sum. -/
theorem reads_term : ReadsAll room (term stop room inner) (.chain .product) := by
  have h := operatorRule_chain .product (.cons (readsOnly_symbolOperator stop _ _)
    (.cons (readsOnly_symbolOperator stop _ _) .nil))
  exact reads_leftChain (by decide) h (reads_power stop hinner)

/-- A sum.  The sign in front of it is an option, and it is skipped in front of a term, since no
term begins with a sign. -/
theorem reads_arithmetic : ReadsAll room (arithmetic stop room inner) (.chain .sum) := by
  have hsign : OperatorRule (additive stop) (Chain.operator? .sum) :=
    operatorRule_chain .sum (.cons (readsOnly_symbolOperator stop _ _)
      (.cons (readsOnly_symbolOperator stop _ _) .nil))
  have ht := reads_term stop hinner
  rintro _ _ ⟨d, rfl, rfl⟩ hroom
  obtain ⟨ts, first, us, rest, hyield, htree, hhead, hs⟩ := exists_links d
  rw [hyield, List.length_append] at hroom
  obtain ⟨hlinks, hlead⟩ := reads_links .sum hsign ht hs (by omega)
  rw [hyield, htree]
  cases hhead with
  | operand h =>
    refine Reads.skip ((ht ts first h (by omega)).bind (hlinks.map rfl) hlead) ?_
    obtain ⟨d, rfl, rfl⟩ := h
    exact (d.opens.append us).misses hsign.begins fun t => opening_of_sign
  | signed hop h =>
    rw [List.length_cons] at hroom
    exact (hsign.reads _ _ hop).optional.cons
      ((ht _ _ h (by omega)).bind (hlinks.map rfl) hlead)

/-- A comparison.  The operator behind the first sum decides whether there is one. -/
theorem reads_comparison : ReadsAll room (comparison stop room inner) .comparison := by
  have ha := reads_arithmetic stop hinner
  have hk := operatorRule_comparison stop
  rintro _ _ ⟨d, rfl, rfl⟩ hroom
  cases d with
  | compare op kind h left right =>
    rw [Derivation.yield, List.length_append] at hroom
    have hrest := reads_operation (r := (kind, right.tree)) hk.reads ha
      ⟨op, _, rfl, h, right, rfl, rfl⟩ (Nat.le_trans (Nat.le_add_left _ _) hroom)
    refine (ha _ _ ⟨left, rfl, rfl⟩ (by omega)).bind
      (((hrest.mono (by decide)).optional).map rfl) ?_
    exact Nat.lt_of_lt_of_eq (by decide) (level_of_comparison? h).symm
  | uncompared t =>
    refine (ha _ _ ⟨t, rfl, rfl⟩ hroom).nothing ?_ (by decide)
    refine (reads_optional_none hk.begins.bind fun t ht => ?_).map rfl
    obtain ⟨kind, hkind⟩ := Option.ne_none_iff_exists'.mp ht
    exact Nat.le_of_eq (level_of_comparison? hkind)

/-- A comparison behind `not`, or one that does not begin with `not`. -/
theorem reads_negation : ReadsAll room (negation stop room inner) .negation := by
  have hc := reads_comparison stop hinner
  rintro _ _ ⟨d, rfl, rfl⟩ hroom
  cases d with
  | not t =>
    rw [Derivation.yield, List.length_cons] at hroom
    refine ((reads_keyword stop 0 .not).cons ?_).left _
    exact (hc _ _ ⟨t, rfl, rfl⟩ (by omega)).map rfl
  | unnegated t =>
    refine (hc _ _ ⟨t, rfl, rfl⟩ hroom).right ?_
    exact t.opens.misses (begins_keyword stop .not).bind fun t ht => by rw [ht]; decide

/-- Negations with `&` between them. -/
theorem reads_conjunction : ReadsAll room (conjunction stop room inner) (.chain .conjunction) :=
  reads_leftChain (by decide)
    (operatorRule_chain .conjunction (.cons (readsOnly_symbolOperator stop _ _) .nil))
    (reads_negation stop hinner)

/-- Conjunctions with `or` between them. -/
theorem reads_disjunction : ReadsAll room (disjunction stop room inner) (.chain .disjunction) :=
  reads_leftChain (by decide)
    (operatorRule_chain .disjunction (.cons (readsOnly_keywordOperator stop _ _) .nil))
    (reads_conjunction stop hinner)

/-- A conditional.  The arrow behind the condition decides whether there are branches. -/
theorem reads_conditional : ReadsAll room (conditional stop room inner) .conditional := by
  have hd := reads_disjunction stop hinner
  rintro _ _ ⟨d, rfl, rfl⟩ hroom
  cases d with
  | choice condition thenPart elsePart =>
    simp only [Derivation.yield, List.length_append, List.length_cons] at hroom
    have hthen := hinner .conditional _ _ ⟨thenPart, rfl, rfl⟩ (by omega)
    have helse := hinner .conditional _ _ ⟨elsePart, rfl, rfl⟩ (by omega)
    have hbranches : Reads (do
        symbol stop .arrow
        let thenPart ← inner .conditional
        symbol stop .bar
        let elsePart ← inner .conditional
        pure [thenPart, elsePart]) 9
          (.symbol .arrow :: (thenPart.yield ++ .symbol .bar :: elsePart.yield))
          [thenPart.tree, elsePart.tree] :=
      (reads_symbol stop 0 .arrow).cons (hthen.bind
        ((reads_symbol stop 0 .bar).cons (helse.map rfl)) (by decide : 9 < 15))
    exact (hd _ _ ⟨condition, rfl, rfl⟩ (by omega)).bind (hbranches.optional.map rfl)
      (by decide : 8 < 9)
  | unconditional t =>
    refine (hd _ _ ⟨t, rfl, rfl⟩ hroom).nothing ?_ (by decide)
    refine (reads_optional_none (begins_symbol stop .arrow).bind fun t ht => ?_).map rfl
    exact Nat.le_of_eq (congrArg Token.level ht)

/-- Conditionals with `aug` between them. -/
theorem reads_augmented : ReadsAll room (augmented stop room inner) (.chain .augmented) :=
  reads_leftChain (by decide)
    (operatorRule_chain .augmented (.cons (readsOnly_keywordOperator stop _ _) .nil))
    (reads_conditional stop hinner)

/-- Components with commas between them; one component is no tuple. -/
theorem reads_tuple : ReadsAll room (tuple stop room inner) .tuple := by
  have ha := reads_augmented stop hinner
  have hs := reads_symbol stop 0 .comma
  have hb := begins_symbol stop .comma
  rintro _ _ ⟨d, rfl, rfl⟩ hroom
  cases d with
  | tau first rest =>
    have h := reads_listChain .tau hs hb (by decide) rfl ha
      ⟨first, rfl, rfl⟩ (chunks_yield [.symbol .comma] rest) hroom
    cases rest with
    | last d => exact h
    | cons d ds => exact h
  | untupled t =>
    have h := reads_listChain .tau hs hb (by decide) rfl ha
      ⟨t, rfl, rfl⟩ .nil (by rw [List.append_nil]; exact hroom)
    rwa [List.append_nil] at h

/-! ## 7. Definitions -/

omit hinner in
/-- Names with commas between them; one name is no pattern. -/
theorem reads_nameList : ReadsAll room (nameList stop room) .names := by
  have hs := reads_symbol stop 0 .comma
  have hb := begins_symbol stop .comma
  have hi : ∀ ts t, (∃ x, ts = [Token.identifier x] ∧ t = .leaf .identifier x) →
      ts.length ≤ room → Reads (identifier stop) 0 ts t := by
    rintro _ _ ⟨x, rfl, rfl⟩ _
    exact reads_identifier stop 0 x
  have hnames : ∀ xs : List String, Chunks (fun us (t : Tree) =>
      ∃ vs, us = [.symbol .comma] ++ vs ∧ ∃ x, vs = [Token.identifier x] ∧ t = .leaf .identifier x)
        (commaNames xs) (xs.map (.leaf .identifier)) := by
    intro xs
    induction xs with
    | nil => exact .nil
    | cons x xs ih =>
      show Chunks _ ([.symbol .comma, .identifier x] ++ commaNames xs) _
      exact .cons ⟨_, rfl, x, rfl, rfl⟩ ih
  rintro _ _ ⟨d, rfl, rfl⟩ hroom
  cases d with
  | names x y rest =>
    exact reads_listChain .comma hs hb (by decide) rfl hi ⟨x, rfl, rfl⟩
      (hnames (y :: rest)) hroom
  | name x =>
    exact reads_listChain .comma hs hb (by decide) rfl hi ⟨x, rfl, rfl⟩ (hnames []) hroom

omit hinner in
/-- A parameter begins with a name or a bracket. -/
theorem begins_parameter : Begins (Grammar.parameter stop room) fun t => opening t ≤ 0 := by
  refine Begins.oneOf (begins_identifier stop) ?_
  simp only [List.forall_mem_cons, List.not_mem_nil, false_imp_iff, implies_true, and_true]
  have hb : Begins (symbol stop .lparen) fun t => opening t ≤ 0 :=
    (begins_symbol stop .lparen).mono fun t ht => by rw [ht]; decide
  exact ⟨hb.bind, hb.bind⟩

omit hinner in
/-- A parameter.  `()` is tried before names in brackets, and fails in front of a name. -/
theorem reads_parameter : ReadsAll room (Grammar.parameter stop room) .parameter := by
  have hl := reads_symbol stop 0 .lparen
  have hmiss : ∀ ts, Misses (identifier stop) (.symbol .lparen :: ts) :=
    (begins_accept stop _).misses (not_not_intro rfl)
  rintro _ _ ⟨d, rfl, rfl⟩ hroom
  cases d with
  | parameter x => exact (reads_identifier stop 0 x).left _
  | pattern names =>
    rw [Derivation.yield, List.length_cons, List.length_append] at hroom
    have hnames : Reads (nameList stop room) 11 names.yield names.tree :=
      reads_nameList stop _ _ ⟨names, rfl, rfl⟩ (by omega)
    refine ((reads_bracketed stop hnames (by decide)).right (hl.misses ?_)).right (hmiss _)
    exact (names.opens.append _).misses (begins_symbol stop .rparen).bind fun t ht => by
      rw [ht]; decide
  | nothing =>
    refine (Reads.left (hl.cons ?_) _).right (hmiss _)
    exact (reads_symbol stop 0 .rparen).map rfl

omit hinner in
/-- **Parameters** are read up to a token that none of them begins with. -/
theorem reads_parameters (ds : Derivations .parameter) (hroom : (ds.yield []).length ≤ room) :
    Reads (many1 room (Grammar.parameter stop room)) 1 (ds.yield []) ds.trees := by
  have hp : ReadsAll room (Grammar.parameter stop room) .parameter := reads_parameter stop
  have hmany : ∀ {us ps}, Chunks (fun us t => ∃ vs, us = [] ++ vs ∧ Derives .parameter vs t) us ps →
      us.length ≤ room → Reads (many room (Grammar.parameter stop room)) 1 us ps := by
    intro us ps hs hus
    refine reads_many (j := 0) (hs.mono hus fun vs t hvs h => ?_) (begins_parameter stop)
      (fun t ht => Nat.le_of_eq (level_of_opening ht)) (Nat.zero_le 1) room hus
    obtain ⟨_, rfl, h⟩ := h
    refine ⟨hp vs t h hvs, ?_⟩
    obtain ⟨d, rfl, rfl⟩ := h
    obtain ⟨t, us, hus, -⟩ := d.opens
    exact ⟨t, us, hus, t.level_pos⟩
  cases ds with
  | last d =>
    refine (hp _ _ ⟨d, rfl, rfl⟩ hroom).nothing ?_ (by decide)
    exact (hmany .nil (Nat.zero_le room)).map rfl
  | cons d ds =>
    rw [Derivations.yield, List.nil_append, List.length_append] at hroom
    refine (hp _ _ ⟨d, rfl, rfl⟩ (by omega)).bind ?_ (leads_zero 1 _)
    exact (hmany (chunks_yield [] ds) (by omega)).map rfl

omit hinner in
/-- Behind the first of the names on the left of a definition there is a symbol. -/
theorem exists_yield_names : (d : Derivation .names) → (ts : List Token) → ∃ x s us,
    d.yield ++ .symbol .equals :: ts = .identifier x :: .symbol s :: us ∧ 0 < opening (.symbol s)
  | .names x _ _, _ => ⟨x, .comma, _, rfl, by decide⟩
  | .name x, _ => ⟨x, .equals, _, rfl, by decide⟩

/-- A definition.  The form of a function is tried before names; in front of names it fails behind
the first of them, where it looks for a parameter and finds a comma or `=`. -/
theorem reads_basicDefinition : ReadsAll room (basicDefinition stop room inner) .basic := by
  have hmiss : ∀ x ts, Misses (bracketed stop (inner .definition)) (.identifier x :: ts) :=
    fun x => (begins_symbol stop .lparen).bind.misses (by simp)
  rintro _ _ ⟨d, rfl, rfl⟩ hroom
  cases d with
  | functionForm f params body =>
    simp only [Derivation.yield, List.length_append, List.length_cons] at hroom
    refine (Reads.left ((reads_identifier stop 0 f).cons ?_) _).right (hmiss f _)
    refine (reads_parameters stop params (by omega)).bind ?_ (by decide : 1 < 15)
    refine (reads_symbol stop 0 .equals).cons ?_
    exact (hinner .expression _ _ ⟨body, rfl, rfl⟩ (by omega)).map rfl
  | equal names value =>
    simp only [Derivation.yield, List.length_append, List.length_cons] at hroom
    refine Reads.right (Reads.right ?_ ?_) ?_
    · refine (reads_nameList stop _ _ ⟨names, rfl, rfl⟩ (by omega)).bind ?_ (by decide : 11 < 15)
      refine (reads_symbol stop 0 .equals).cons ?_
      exact (hinner .expression _ _ ⟨value, rfl, rfl⟩ (by omega)).map rfl
    -- the alternatives in front of it fail behind the first name, whatever the names are
    all_goals obtain ⟨x, s, us, hyield, hs⟩ := exists_yield_names names value.yield
    all_goals rw [Derivation.yield, hyield]
    · -- the form of a function would have a parameter behind its name
      refine (reads_identifier stop 0 x).misses ?_
      exact ((begins_parameter stop).bind.misses (Nat.not_le.mpr hs) us).bind
    · exact hmiss x _
  | bracketed d =>
    rw [Derivation.yield, List.length_cons, List.length_append] at hroom
    exact (reads_bracketed stop (hinner .definition _ _ ⟨d, rfl, rfl⟩ (by omega))
      (by decide)).left _ |>.mono (Nat.zero_le _)

/-- A definition behind `rec`, or one that does not begin with `rec`. -/
theorem reads_recursiveDefinition :
    ReadsAll room (recursiveDefinition stop room inner) .recursive := by
  have hb := reads_basicDefinition stop hinner
  rintro _ _ ⟨d, rfl, rfl⟩ hroom
  cases d with
  | recursive d =>
    rw [Derivation.yield, List.length_cons] at hroom
    refine ((reads_keyword stop 0 .recWord).cons ?_).left _
    exact (hb _ _ ⟨d, rfl, rfl⟩ (by omega)).map rfl
  | plain d =>
    refine (hb _ _ ⟨d, rfl, rfl⟩ hroom).right ?_
    exact d.opens.misses (begins_keyword stop .recWord).bind fun t ht => by rw [ht]; decide

/-- Definitions with `and` between them. -/
theorem reads_simultaneous : ReadsAll room (simultaneous stop room inner) .simultaneous := by
  have hr := reads_recursiveDefinition stop hinner
  have hs := reads_keyword stop 0 .and
  have hb := begins_keyword stop .and
  rintro _ _ ⟨d, rfl, rfl⟩ hroom
  cases d with
  | and first rest =>
    have h := reads_listChain .simultDef hs hb (by decide) rfl hr
      ⟨first, rfl, rfl⟩ (chunks_yield [.keyword .and] rest) hroom
    cases rest with
    | last d => exact h
    | cons d ds => exact h
  | alone d =>
    have h := reads_listChain .simultDef hs hb (by decide) rfl hr
      ⟨d, rfl, rfl⟩ .nil (by rw [List.append_nil]; exact hroom)
    rwa [List.append_nil] at h

/-- Definitions with `within` between them. -/
theorem reads_definition : ReadsAll room (definition stop room inner) .definition := by
  rintro _ _ ⟨d, rfl, rfl⟩ hroom
  exact reads_rightChain (reads_keyword stop 0 .within) (begins_keyword stop .within) (by decide)
    rfl (reads_simultaneous stop hinner) (rightNested_definition d) hroom

/-! ## 8. Programs -/

/-- An expression.  The first token decides between `let`, `fn` and a tuple. -/
theorem reads_expression : ReadsAll room (expression stop room inner) .expression := by
  rintro _ _ ⟨d, rfl, rfl⟩ hroom
  cases d with
  | letIn d body =>
    simp only [Derivation.yield, List.length_append, List.length_cons] at hroom
    refine Reads.left ((reads_keyword stop 0 .letWord).cons ?_) _
    refine (hinner .definition _ _ ⟨d, rfl, rfl⟩ (by omega)).bind ?_ (by decide : 14 < 15)
    refine (reads_keyword stop 0 .inWord).cons ?_
    exact (hinner .expression _ _ ⟨body, rfl, rfl⟩ (by omega)).map rfl
  | function params body =>
    simp only [Derivation.yield, List.length_append, List.length_cons] at hroom
    refine (Reads.left ((reads_keyword stop 0 .fnWord).cons ?_) _).right
      ((begins_keyword stop .letWord).bind.misses (by decide) _)
    refine (reads_parameters stop params (by omega)).bind ?_ (by decide : 1 < 15)
    refine (reads_symbol stop 0 .dot).cons ?_
    exact (hinner .expression _ _ ⟨body, rfl, rfl⟩ (by omega)).map rfl
  | unscoped t =>
    have ht := reads_tuple stop hinner
    refine Reads.right (Reads.right ?_ ?_) ?_
    · cases t with
      | whereDef t d =>
        simp only [Derivation.yield, List.length_append, List.length_cons] at hroom
        refine (ht _ _ ⟨t, rfl, rfl⟩ (by omega)).bind ?_ (by decide : 11 < 12)
        refine Reads.map (Reads.optional ((reads_keyword stop 0 .whereWord).cons ?_)) rfl
        exact reads_recursiveDefinition stop hinner _ _ ⟨d, rfl, rfl⟩ (by omega)
      | unqualified t =>
        refine (ht _ _ ⟨t, rfl, rfl⟩ hroom).nothing ?_ (by decide)
        refine (reads_optional_none (begins_keyword stop .whereWord).bind fun t ht => ?_).map rfl
        exact Nat.le_of_eq (congrArg Token.level ht)
    · exact t.opens.misses (begins_keyword stop .fnWord).bind fun t ht => by rw [ht]; decide
    · exact t.opens.misses (begins_keyword stop .letWord).bind fun t ht => by rw [ht]; decide

end Expressions

end Productions

/-- **What is derived is read**, in front of all that ends a phrase of the level. -/
theorem reads_phrase (stop room : Nat) (p : Phrase) (ts : List Token) (t : Tree)
    (h : Derives p.nonterminal ts t) (hroom : ts.length < room) :
    Reads (phrase stop room p) p.nonterminal.level ts t := by
  induction room generalizing p ts t with
  | zero => exact absurd hroom (Nat.not_lt_zero _)
  | succ room ih =>
    cases p with
    | expression => exact reads_expression stop ih ts t h (Nat.le_of_lt_succ hroom)
    | definition => exact reads_definition stop ih ts t h (Nat.le_of_lt_succ hroom)
    | conditional => exact reads_conditional stop ih ts t h (Nat.le_of_lt_succ hroom)

end Rpal.Grammar
