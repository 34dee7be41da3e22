/-
# Rules on two texts

The same tokens may stand at other places in another text.  Rules look at places only to report
them, so they read the same from both, and where they fail, they fail at places that are related
as those of the tokens are (`agrees_phrase`).

The relation `R` of places is any that holds at the ends of the two texts and is closed under
`max`, as that is how a choice combines the failures of its alternatives.
-/
import Mathlib.Data.List.Forall2
import Rpal.Tree.Parser

namespace Rpal

/-- The same token at related places, with related places where a keyword is missed. -/
structure Lexeme.Follows (R : ℕ → ℕ → Prop) (l l' : Lexeme) : Prop where
  token_eq : l.token = l'.token
  start : R l.start l'.start
  missOf : ∀ w, R (l.missOf w) (l'.missOf w)

namespace Rule

variable {α β : Type} {R : ℕ → ℕ → Prop}

/-! ## 1. Rules -/

/-- The same result with the same tokens left, or failures at related places. -/
inductive SameAnswer (R : ℕ → ℕ → Prop) :
    Except ℕ (α × List Lexeme) → Except ℕ (α × List Lexeme) → Prop where
  | ok (a : α) {rest rest' : List Lexeme} (h : List.Forall₂ (Lexeme.Follows R) rest rest') :
      SameAnswer R (.ok (a, rest)) (.ok (a, rest'))
  | error {i i' : ℕ} (h : R i i') : SameAnswer R (.error i) (.error i')

/-- Two rules that answer the same on the same tokens. -/
def Agrees (R : ℕ → ℕ → Prop) (p p' : Rule α) : Prop :=
  ∀ ls ls', List.Forall₂ (Lexeme.Follows R) ls ls' → SameAnswer R (p ls) (p' ls')

/-- The places of two failures may be combined. -/
def MaxClosed (R : ℕ → ℕ → Prop) : Prop :=
  ∀ i i' j j', R i i' → R j j' → R (max i j) (max i' j')

variable {p p' q q' : Rule α} {stop stop' : ℕ}

/-- Failing at once is failing at the place that is given. -/
theorem agrees_failAt (h : R stop stop') :
    Agrees R (failAt stop : Rule α) (failAt stop') :=
  fun _ _ _ => .error h

/-- A result that is given without reading does not depend on the tokens. -/
theorem agrees_pure (a : α) : Agrees R (pure a) (pure a) :=
  fun _ _ hls => .ok a hls

/-- The rule that goes on finds the same tokens again, for both have read equally many. -/
theorem Agrees.bind {f f' : α → Rule β} (hp : Agrees R p p') (hf : ∀ a, Agrees R (f a) (f' a)) :
    Agrees R (p >>= f) (p' >>= f') := by
  intro ls ls' hls
  change SameAnswer R (p ls >>= fun r => f r.1 r.2) (p' ls' >>= fun r => f' r.1 r.2)
  have hanswer := hp ls ls' hls
  generalize p ls = answer, p' ls' = answer' at hanswer ⊢
  cases hanswer with
  | ok a hrest => exact hf a _ _ hrest
  | error h => exact .error h

/-- A token is accepted or refused for what it is.  The place of a refusal is where the token
starts, or the end of the text. -/
theorem agrees_accept (hstop : R stop stop') (class? : Token → Option α) :
    Agrees R (accept stop class?) (accept stop' class?) := by
  intro ls ls' hls
  cases hls with
  | nil => exact .error hstop
  | @cons l l' rest rest' hl hrest =>
    rw [accept, accept, hl.token_eq]
    cases class? l'.token with
    | none => exact .error hl.start
    | some a => exact .ok a hrest

/-- A symbol is a class of one token. -/
theorem agrees_symbol (hstop : R stop stop') (s : Symbol) :
    Agrees R (symbol stop s) (symbol stop' s) :=
  agrees_accept hstop _

/-- A reserved word that is missed is reported at a place of its own, which depends on the
characters around it. -/
theorem agrees_keyword (hstop : R stop stop') (w : Keyword) :
    Agrees R (keyword stop w) (keyword stop' w) := by
  intro ls ls' hls
  cases hls with
  | nil => exact .error hstop
  | @cons l l' rest rest' hl hrest =>
    rw [keyword, keyword, hl.token_eq]
    split
    · exact .ok () hrest
    · exact .error (hl.missOf w)

/-- Both alternatives are tried on the same tokens.  If both fail, the larger place is reported, and
this is where the relation has to be closed under `max`. -/
theorem Agrees.either (hmax : MaxClosed R) (hp : Agrees R p p') (hq : Agrees R q q') :
    Agrees R (either p q) (either p' q') := by
  intro ls ls' hls
  unfold Rule.either
  have hfirst := hp ls ls' hls
  have hsecond := hq ls ls' hls
  generalize p ls = first, p' ls' = first' at hfirst ⊢
  generalize q ls = second, q' ls' = second' at hsecond ⊢
  cases hfirst with
  | ok a hrest => exact .ok a hrest
  | error hi =>
    cases hsecond with
    | ok a hrest => exact .ok a hrest
    | error hj => exact .error (hmax _ _ _ _ hi hj)

/-- The same for more than two alternatives. -/
theorem Agrees.oneOf (hmax : MaxClosed R) {qs qs' : List (Rule α)} (hp : Agrees R p p')
    (hqs : List.Forall₂ (Agrees R) qs qs') : Agrees R (oneOf p qs) (oneOf p' qs') := by
  induction hqs generalizing p p' with
  | nil => exact hp
  | cons hq _ ih => exact hp.either hmax (ih hq)

/-- An option that reads nothing leaves all its tokens. -/
theorem Agrees.optional (hp : Agrees R p p') : Agrees R (optional p) (optional p') := by
  intro ls ls' hls
  unfold Rule.optional
  have hanswer := hp ls ls' hls
  generalize p ls = answer, p' ls' = answer' at hanswer ⊢
  cases hanswer with
  | ok a hrest => exact .ok (some a) hrest
  | error => exact .ok none hls

/-- A repetition ends on both texts after the same number of elements. -/
theorem Agrees.repeated (hp : Agrees R p p') (room : ℕ) :
    ∀ {ls ls' : List Lexeme}, List.Forall₂ (Lexeme.Follows R) ls ls' →
      (repeated p room ls).1 = (repeated p' room ls').1 ∧
        List.Forall₂ (Lexeme.Follows R) (repeated p room ls).2 (repeated p' room ls').2 := by
  induction room with
  | zero => exact fun hls => ⟨rfl, hls⟩
  | succ room ih =>
    intro ls ls' hls
    unfold Rule.repeated
    have hanswer := hp ls ls' hls
    generalize p ls = answer, p' ls' = answer' at hanswer ⊢
    cases hanswer with
    | ok a hrest =>
      obtain ⟨hresults, hleft⟩ := ih hrest
      exact ⟨congrArg (a :: ·) hresults, hleft⟩
    | error => exact ⟨rfl, hls⟩

/-- A repetition as a rule: it never fails. -/
theorem Agrees.many (hp : Agrees R p p') (room : ℕ) : Agrees R (many room p) (many room p') := by
  intro ls ls' hls
  obtain ⟨hresults, hleft⟩ := hp.repeated room hls
  change SameAnswer R (.ok (Rule.repeated p room ls)) (.ok (Rule.repeated p' room ls'))
  generalize Rule.repeated p room ls = r, Rule.repeated p' room ls' = r' at hresults hleft ⊢
  obtain ⟨as, rest⟩ := r
  obtain ⟨as', rest'⟩ := r'
  obtain rfl : as = as' := hresults
  exact .ok as hleft

/-- A repetition that has to read something fails where its first element does. -/
theorem Agrees.many1 (hp : Agrees R p p') (room : ℕ) :
    Agrees R (many1 room p) (many1 room p') :=
  hp.bind fun _ => (hp.many room).bind fun _ => agrees_pure _

end Rule

namespace Grammar

open Rule

variable {R : ℕ → ℕ → Prop} {stop stop' : ℕ} (room : ℕ) {inner inner' : Phrase → Rule Tree}

/-! ## 2. Chains -/

section Chains

variable {operand operand' : Rule Tree} {operator operator' : Rule Kind}
  {separator separator' : Rule Unit}

/-- An operator with its right operand. -/
theorem agrees_operation (hk : Agrees R operator operator') (ho : Agrees R operand operand') :
    Agrees R (do let kind ← operator; let right ← operand; pure (kind, right))
      (do let kind ← operator'; let right ← operand'; pure (kind, right)) :=
  hk.bind fun _ => ho.bind fun _ => agrees_pure _

/-- Operands with operators between them. -/
theorem agrees_leftChain (ho : Agrees R operand operand') (hk : Agrees R operator operator') :
    Agrees R (leftChain room operand operator) (leftChain room operand' operator') :=
  ho.bind fun _ => ((agrees_operation hk ho).many room).bind fun _ => agrees_pure _

/-- Parts with separators that nest to the right. -/
theorem agrees_rightChain (kind : Kind) (ho : Agrees R operand operand')
    (hs : Agrees R separator separator') :
    Agrees R (rightChain room kind operand separator)
      (rightChain room kind operand' separator') :=
  ho.bind fun _ => ((hs.bind fun _ => ho).many room).bind fun _ => agrees_pure _

/-- Parts with separators that stand side by side. -/
theorem agrees_listChain (kind : Kind) (ho : Agrees R operand operand')
    (hs : Agrees R separator separator') :
    Agrees R (listChain room kind operand separator) (listChain room kind operand' separator') :=
  ho.bind fun _ => ((hs.bind fun _ => ho).many room).bind fun _ => agrees_pure _

end Chains

/-! ## 3. Productions -/

section Productions

variable (hstop : R stop stop') (hmax : MaxClosed R)

include hstop

theorem agrees_symbolOperator (s : Symbol) (kind : Kind) :
    Agrees R (symbolOperator stop s kind) (symbolOperator stop' s kind) :=
  (agrees_symbol hstop s).bind fun _ => agrees_pure kind

theorem agrees_keywordOperator (w : Keyword) (kind : Kind) :
    Agrees R (keywordOperator stop w kind) (keywordOperator stop' w kind) :=
  (agrees_keyword hstop w).bind fun _ => agrees_pure kind

theorem agrees_constant (w : Keyword) (kind : Kind) :
    Agrees R (constant stop w kind) (constant stop' w kind) :=
  (agrees_keyword hstop w).bind fun _ => agrees_pure _

/-- Brackets around a rule. -/
theorem agrees_bracketed {p p' : Rule Tree} (hp : Agrees R p p') :
    Agrees R (bracketed stop p) (bracketed stop' p') :=
  (agrees_symbol hstop _).bind fun _ => hp.bind fun _ =>
    (agrees_symbol hstop _).bind fun _ => agrees_pure _

theorem agrees_identifier : Agrees R (identifier stop) (identifier stop') :=
  agrees_accept hstop _

/-- Names with commas between them. -/
theorem agrees_nameList : Agrees R (nameList stop room) (nameList stop' room) :=
  agrees_listChain room _ (agrees_identifier hstop) (agrees_symbol hstop _)

include hmax

theorem agrees_additive : Agrees R (additive stop) (additive stop') :=
  (agrees_symbolOperator hstop _ _).oneOf hmax (.cons (agrees_symbolOperator hstop _ _) .nil)

/-- Ten ways to write a comparison, tried one after the other. -/
theorem agrees_comparisonOperator :
    Agrees R (comparisonOperator stop) (comparisonOperator stop') := by
  have hword := agrees_keywordOperator (R := R) hstop
  have hsign := agrees_symbolOperator (R := R) hstop
  exact (hword _ _).oneOf hmax (.cons (hword _ _) (.cons (hword _ _) (.cons (hword _ _)
    (.cons (hword _ _) (.cons (hword _ _) (.cons (hsign _ _) (.cons (hsign _ _)
      (.cons (hsign _ _) (.cons (hsign _ _) .nil)))))))))

/-- A name, `()`, or names in brackets. -/
theorem agrees_parameter :
    Agrees R (Grammar.parameter stop room) (Grammar.parameter stop' room) := by
  refine (agrees_identifier hstop).oneOf hmax (.cons ?_ (.cons ?_ .nil))
  · exact (agrees_symbol hstop _).bind fun _ => (agrees_symbol hstop _).bind fun _ => agrees_pure _
  · exact agrees_bracketed hstop (agrees_nameList room hstop)

variable (hinner : ∀ p, Agrees R (inner p) (inner' p))

include hinner

/-- The alternatives of an operand, in the order in which they are tried. -/
theorem agrees_operand : Agrees R (operand stop inner) (operand stop' inner') :=
  (agrees_identifier hstop).oneOf hmax (.cons (agrees_accept hstop _) (.cons (agrees_accept hstop _)
    (.cons (agrees_constant hstop _ _) (.cons (agrees_constant hstop _ _)
      (.cons (agrees_constant hstop _ _) (.cons (agrees_constant hstop _ _)
        (.cons (agrees_bracketed hstop (hinner _)) .nil)))))))

/-- An operand and the operands behind it. -/
theorem agrees_application :
    Agrees R (application stop room inner) (application stop' room inner') := by
  have ho := agrees_operand hstop hmax hinner
  exact ho.bind fun _ => (ho.many room).bind fun _ => agrees_pure _

/-- Applications with `@` and a name between them. -/
theorem agrees_infixCall : Agrees R (infixCall stop room inner) (infixCall stop' room inner') := by
  have ha := agrees_application room hstop hmax hinner
  refine ha.bind fun _ => Agrees.bind (Agrees.many ?_ room) fun _ => agrees_pure _
  exact (agrees_symbol hstop _).bind fun _ => (agrees_identifier hstop).bind fun _ =>
    ha.bind fun _ => agrees_pure _

/-- Products of powers. -/
theorem agrees_term : Agrees R (term stop room inner) (term stop' room inner') := by
  refine agrees_leftChain room ?_ ?_
  · exact agrees_rightChain room _ (agrees_infixCall room hstop hmax hinner)
      (agrees_symbol hstop _)
  · exact (agrees_symbolOperator hstop _ _).oneOf hmax
      (.cons (agrees_symbolOperator hstop _ _) .nil)

/-- A sum, whose first term may have a sign. -/
theorem agrees_arithmetic :
    Agrees R (arithmetic stop room inner) (arithmetic stop' room inner') := by
  have hk := agrees_additive hstop hmax
  have ht := agrees_term room hstop hmax hinner
  exact hk.optional.bind fun _ => ht.bind fun _ =>
    ((agrees_operation hk ht).many room).bind fun _ => agrees_pure _

theorem agrees_comparison :
    Agrees R (comparison stop room inner) (comparison stop' room inner') := by
  have ha := agrees_arithmetic room hstop hmax hinner
  have hk := agrees_comparisonOperator hstop hmax
  exact ha.bind fun _ => (agrees_operation hk ha).optional.bind fun _ => agrees_pure _

theorem agrees_negation : Agrees R (negation stop room inner) (negation stop' room inner') := by
  have hc := agrees_comparison room hstop hmax hinner
  refine Agrees.either hmax ?_ hc
  exact (agrees_keyword hstop _).bind fun _ => hc.bind fun _ => agrees_pure _

theorem agrees_disjunction :
    Agrees R (disjunction stop room inner) (disjunction stop' room inner') :=
  agrees_leftChain room
    (agrees_leftChain room (agrees_negation room hstop hmax hinner)
      (agrees_symbolOperator hstop _ _))
    (agrees_keywordOperator hstop _ _)

/-- A condition and an option of two branches. -/
theorem agrees_conditional :
    Agrees R (conditional stop room inner) (conditional stop' room inner') := by
  refine (agrees_disjunction room hstop hmax hinner).bind fun _ =>
    Agrees.bind (Agrees.optional ?_) fun _ => agrees_pure _
  exact (agrees_symbol hstop _).bind fun _ => (hinner _).bind fun _ =>
    (agrees_symbol hstop _).bind fun _ => (hinner _).bind fun _ => agrees_pure _

theorem agrees_tuple : Agrees R (tuple stop room inner) (tuple stop' room inner') :=
  agrees_listChain room _
    (agrees_leftChain room (agrees_conditional room hstop hmax hinner)
      (agrees_keywordOperator hstop _ _))
    (agrees_symbol hstop _)

/-- Brackets, the form of a function, or names. -/
theorem agrees_basicDefinition :
    Agrees R (basicDefinition stop room inner) (basicDefinition stop' room inner') := by
  refine (agrees_bracketed hstop (hinner _)).oneOf hmax (.cons ?_ (.cons ?_ .nil))
  · exact (agrees_identifier hstop).bind fun _ =>
      ((agrees_parameter room hstop hmax).many1 room).bind fun _ =>
        (agrees_symbol hstop _).bind fun _ => (hinner _).bind fun _ => agrees_pure _
  · exact (agrees_nameList room hstop).bind fun _ => (agrees_symbol hstop _).bind fun _ =>
      (hinner _).bind fun _ => agrees_pure _

theorem agrees_recursiveDefinition :
    Agrees R (recursiveDefinition stop room inner) (recursiveDefinition stop' room inner') := by
  have hd := agrees_basicDefinition room hstop hmax hinner
  refine Agrees.either hmax ?_ hd
  exact (agrees_keyword hstop _).bind fun _ => hd.bind fun _ => agrees_pure _

/-- Definitions with `and`, and with `within` between these. -/
theorem agrees_definition :
    Agrees R (definition stop room inner) (definition stop' room inner') :=
  agrees_rightChain room _
    (agrees_listChain room _ (agrees_recursiveDefinition room hstop hmax hinner)
      (agrees_keyword hstop _))
    (agrees_keyword hstop _)

/-- `let`, `fn`, or a tuple with an option of `where`. -/
theorem agrees_expression :
    Agrees R (expression stop room inner) (expression stop' room inner') := by
  refine Agrees.oneOf hmax ?_ (.cons ?_ (.cons ?_ .nil))
  · exact (agrees_keyword hstop _).bind fun _ => (hinner _).bind fun _ =>
      (agrees_keyword hstop _).bind fun _ => (hinner _).bind fun _ => agrees_pure _
  · exact (agrees_keyword hstop _).bind fun _ =>
      ((agrees_parameter room hstop hmax).many1 room).bind fun _ =>
        (agrees_symbol hstop _).bind fun _ => (hinner _).bind fun _ => agrees_pure _
  · refine (agrees_tuple room hstop hmax hinner).bind fun _ =>
      Agrees.bind (Agrees.optional ?_) fun _ => agrees_pure _
    exact (agrees_keyword hstop _).bind fun _ =>
      agrees_recursiveDefinition room hstop hmax hinner

/-- The three phrases that recursion goes through. -/
theorem agrees_production (p : Phrase) :
    Agrees R (production stop room inner p) (production stop' room inner' p) := by
  cases p with
  | expression => exact agrees_expression room hstop hmax hinner
  | definition => exact agrees_definition room hstop hmax hinner
  | conditional => exact agrees_conditional room hstop hmax hinner

omit hinner

/-- **A phrase is read the same** from the same tokens, whatever their places are. -/
theorem agrees_phrase (p : Phrase) : Agrees R (phrase stop room p) (phrase stop' room p) := by
  induction room generalizing p with
  | zero => exact agrees_failAt hstop
  | succ room ih => exact agrees_production room hstop hmax ih p

end Productions

end Grammar

/-! ## 4. Scanned texts -/

/-- The same tokens at related places, scanned up to related places. -/
structure Scan.Follows (R : ℕ → ℕ → Prop) (scan scan' : Scan) : Prop where
  lexemes : List.Forall₂ (Lexeme.Follows R) scan.lexemes scan'.lexemes
  stop : R scan.stop scan'.stop
  complete : scan.complete = scan'.complete

/-- **The same tokens make the same tree**, or fail to at related places. -/
theorem Tree.ofScan_follows {R : ℕ → ℕ → Prop} (hmax : Rule.MaxClosed R) {scan scan' : Scan}
    (h : scan.Follows R scan') :
    (∃ t, ofScan scan = .ok t ∧ ofScan scan' = .ok t) ∨
      ∃ i i', ofScan scan = .error i ∧ ofScan scan' = .error i' ∧ R i i' := by
  rw [ofScan, ofScan, h.lexemes.length_eq]
  have hanswer :=
    Grammar.agrees_phrase (scan'.lexemes.length + 1) h.stop hmax .expression _ _ h.lexemes
  generalize Grammar.phrase scan.stop _ _ _ = answer, Grammar.phrase scan'.stop _ _ _ = answer'
    at hanswer ⊢
  cases hanswer with
  | error hi => exact .inr ⟨_, _, rfl, rfl, hi⟩
  | ok t hrest =>
    cases hrest with
    | nil =>
      simp only [h.complete]
      split
      · exact .inl ⟨t, rfl, rfl⟩
      · exact .inr ⟨_, _, rfl, rfl, h.stop⟩
    | cons hl => exact .inr ⟨_, _, rfl, rfl, hl.start⟩

end Rpal
