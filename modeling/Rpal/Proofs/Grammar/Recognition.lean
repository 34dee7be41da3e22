/-
# The rules read as the productions say

The rules that read tokens are given room: a depth for their recursion through expressions,
definitions and conditionals, and a number of rounds for each repetition.  The productions of
`Peg.Production.body` know no such bounds.  Where a rule and a production begin at the same place
of a text, with more room than there are tokens, they agree: the rule fails where the production
fails, and otherwise they end at the same place (`tracks_phrase`).  So the rule never runs out of
room, and more of it makes no difference.

Powers and definitions nest to the right.  Their productions call themselves, and their rules go
round; the two come to the same (`parses_call_of_chain`).
-/
import Rpal.Program
import Rpal.Proofs.Grammar.Termination

namespace Rpal

namespace Peg

variable {p : Peg} {c next : Cursor}

/-- An expression leaves no more tokens than it finds. -/
theorem Parses.lexemes_le (h : Parses p c (some next)) :
    next.scan.lexemes.length ≤ c.scan.lexemes.length :=
  Cursor.le_of_steps (f := fun c => c.scan.lexemes.length) Cursor.Step.lexemes_lt h.steps

/-- An expression that cannot succeed on nothing leaves fewer. -/
theorem Parses.lexemes_lt (h : Parses p c (some next)) (hp : p.consumes = true) :
    next.scan.lexemes.length < c.scan.lexemes.length :=
  Cursor.lt_of_steps (f := fun c => c.scan.lexemes.length) Cursor.Step.lexemes_lt (h.takes hp)

/-- The rest of a chain, read by going round, is read by a production that calls itself as well. -/
theorem parses_option_of_star {n : Production} {item separator : Peg} {r : Option Cursor}
    (hn : n.body = optionally item (.seq separator (.call n)))
    (h : Parses (.star (.seq separator item)) c r) :
    (∃ last, r = some last) ∧ Parses (.option (.seq separator (.call n))) c r := by
  generalize hp : Peg.star (.seq separator item) = p at h
  induction h with
  | star hround _ _ ih =>
    cases hp
    obtain ⟨⟨last, rfl⟩, hrest⟩ := ih rfl
    cases hround with
    | seq hseparator hitem =>
      exact ⟨⟨last, rfl⟩, .option (.seq hseparator (.call (hn ▸ .seq hitem hrest)))⟩
  | starEnd hround _ =>
    cases hp
    refine ⟨⟨_, rfl⟩, .optionNone ?_⟩
    cases hround with
    | seq hseparator hitem => exact .seq hseparator (.call (hn ▸ .seqFail hitem _))
    | seqFail hseparator => exact .seqFail hseparator _
  | _ => cases hp

/-- **A chain that nests to the right** may be read by going round. -/
theorem parses_call_of_chain {n : Production} {item separator : Peg} {r : Option Cursor}
    (hn : n.body = optionally item (.seq separator (.call n)))
    (h : Parses (chain item separator) c r) : Parses (.call n) c r := by
  refine .call (hn ▸ ?_)
  cases h with
  | seq hitem hrest => exact .seq hitem (parses_option_of_star hn hrest).2
  | seqFail hitem => exact .seqFail hitem _

end Peg

namespace Rule

open Peg (Parses Production)

variable {α β : Type} {p q : Peg}

/-! ## 1. Combinators -/

/-- The answer of a rule to the tokens from a place on: it read what the expression reads, or the
expression cannot be read. -/
inductive Answers (p : Peg) (c : Cursor) : Except ℕ (α × List Lexeme) → Prop where
  | ok (a : α) {next : Cursor} (h : Parses p c (some next)) :
      Answers p c (.ok (a, next.scan.lexemes))
  | error (place : ℕ) (h : Parses p c none) : Answers p c (.error place)

/-- With fewer tokens left than the bound, two rules answer the same, and what the expression says.
They are one rule with different room. -/
def Tracks (bound : ℕ) (rule rule' : Rule α) (p : Peg) : Prop :=
  ∀ c : Cursor, c.scan.lexemes.length < bound →
    rule c.scan.lexemes = rule' c.scan.lexemes ∧ Answers p c (rule c.scan.lexemes)

variable {bound room room' stop : ℕ} {rule rule' : Rule α}

/-- A smaller bound asks for less. -/
theorem Tracks.mono {fewer : ℕ} (h : Tracks bound rule rule' p) (hle : fewer ≤ bound) :
    Tracks fewer rule rule' p :=
  fun c hc => h c (Nat.lt_of_lt_of_le hc hle)

/-- The rule may be said to read another expression that has the same results. -/
theorem Tracks.of_parses (h : Tracks bound rule rule' p)
    (hpq : ∀ c r, Parses p c r → Parses q c r) : Tracks bound rule rule' q := by
  intro c hc
  obtain ⟨hsame, hanswers⟩ := h c hc
  refine ⟨hsame, ?_⟩
  generalize rule c.scan.lexemes = answer at hanswers
  cases hanswers with
  | ok a h => exact .ok a (hpq _ _ h)
  | error place h => exact .error place (hpq _ _ h)

/-- The production is read where its body is. -/
theorem Tracks.call {n : Production} (h : Tracks bound rule rule' n.body) :
    Tracks bound rule rule' (.call n) :=
  h.of_parses fun _ _ => .call

/-- A rule behind another, within a bound of its own. -/
theorem Tracks.bind_of_lt {behind : ℕ} {f f' : α → Rule β} (hp : Tracks bound rule rule' p)
    (hf : ∀ a, Tracks behind (f a) (f' a) q)
    (hbehind : ∀ c next : Cursor, Parses p c (some next) → c.scan.lexemes.length < bound →
      next.scan.lexemes.length < behind) :
    Tracks bound (rule >>= f) (rule' >>= f') (.seq p q) := by
  intro c hc
  obtain ⟨hsame, hanswers⟩ := hp c hc
  change (rule c.scan.lexemes >>= fun r => f r.1 r.2) =
      (rule' c.scan.lexemes >>= fun r => f' r.1 r.2) ∧
    Answers (.seq p q) c (rule c.scan.lexemes >>= fun r => f r.1 r.2)
  rw [← hsame]
  generalize rule c.scan.lexemes = answer at hanswers
  cases hanswers with
  | @ok a next h =>
    obtain ⟨hsame', hanswers'⟩ := hf a next (hbehind c next h hc)
    refine ⟨hsame', ?_⟩
    change Answers (.seq p q) c (f a next.scan.lexemes)
    generalize f a next.scan.lexemes = answer' at hanswers'
    cases hanswers' with
    | ok b h' => exact .ok b (.seq h h')
    | error place h' => exact .error place (.seq h h')
  | error place h => exact ⟨rfl, .error place (.seqFail h q)⟩

/-- A rule behind another within the same bound: there are no more tokens left than before. -/
theorem Tracks.bind {f f' : α → Rule β} (hp : Tracks bound rule rule' p)
    (hf : ∀ a, Tracks bound (f a) (f' a) q) :
    Tracks bound (rule >>= f) (rule' >>= f') (.seq p q) :=
  hp.bind_of_lt hf fun _ _ h hc => Nat.lt_of_le_of_lt h.lexemes_le hc

/-- **Behind a token there is room for one token less.** -/
theorem Tracks.behind {f f' : α → Rule β} (hp : Tracks (bound + 1) rule rule' p)
    (htakes : p.consumes = true) (hf : ∀ a, Tracks bound (f a) (f' a) q) :
    Tracks (bound + 1) (rule >>= f) (rule' >>= f') (.seq p q) :=
  hp.bind_of_lt hf fun _ _ h hc =>
    Nat.lt_of_lt_of_le (h.lexemes_lt htakes) (Nat.le_of_lt_succ hc)

/-- What is made of the result is no matter of the text. -/
theorem Tracks.map (h : Tracks bound rule rule' p) (g : α → β) :
    Tracks bound (rule >>= fun a => pure (g a)) (rule' >>= fun a => pure (g a)) p := by
  intro c hc
  obtain ⟨hsame, hanswers⟩ := h c hc
  change (rule c.scan.lexemes >>= fun r => Except.ok (g r.1, r.2)) =
      (rule' c.scan.lexemes >>= fun r => Except.ok (g r.1, r.2)) ∧
    Answers p c (rule c.scan.lexemes >>= fun r => Except.ok (g r.1, r.2))
  rw [← hsame]
  generalize rule c.scan.lexemes = answer at hanswers
  cases hanswers with
  | ok a h => exact ⟨rfl, .ok (g a) h⟩
  | error place h => exact ⟨rfl, .error place h⟩

/-- The second alternative is tried where the first one fails, and only there. -/
theorem Tracks.either {second second' : Rule α} (hp : Tracks bound rule rule' p)
    (hq : Tracks bound second second' q) :
    Tracks bound (either rule second) (either rule' second') (.choice p q) := by
  intro c hc
  obtain ⟨hsame, hanswers⟩ := hp c hc
  obtain ⟨hsame', hanswers'⟩ := hq c hc
  unfold Rule.either
  rw [← hsame, ← hsame']
  refine ⟨rfl, ?_⟩
  generalize rule c.scan.lexemes = answer at hanswers
  generalize second c.scan.lexemes = answer' at hanswers'
  cases hanswers with
  | ok a h => exact .ok a (.choice h q)
  | error place h =>
    cases hanswers' with
    | ok a h' => exact .ok a (.choiceElse h h')
    | error place' h' => exact .error _ (.choiceElse h h')

/-- An option never fails: where its rule fails it reads nothing. -/
theorem Tracks.optional (h : Tracks bound rule rule' p) :
    Tracks bound (optional rule) (optional rule') (.option p) := by
  intro c hc
  obtain ⟨hsame, hanswers⟩ := h c hc
  unfold Rule.optional
  rw [← hsame]
  refine ⟨rfl, ?_⟩
  generalize rule c.scan.lexemes = answer at hanswers
  cases hanswers with
  | ok a h => exact .ok (some a) (.option h)
  | error place h => exact .ok none (.optionNone h)

/-- A repetition ends where its rule fails, however much room is left. -/
theorem repeated_of_error {ls : List Lexeme} {place : ℕ} (h : rule ls = .error place) (room : ℕ) :
    repeated rule room ls = ([], ls) := by
  cases room with
  | zero => rfl
  | succ room => rw [repeated, h]

/-- A round of a repetition uses up one piece of room. -/
theorem repeated_of_ok {ls rest : List Lexeme} {a : α} (h : rule ls = .ok (a, rest)) (room : ℕ) :
    repeated rule (room + 1) ls =
      (a :: (repeated rule room rest).1, (repeated rule room rest).2) := by
  rw [repeated, h]

/-- Where no token is left there is no round, with whatever room. -/
theorem Tracks.repeated_nil (h : Tracks (bound + 1) rule rule' p) (htakes : p.consumes = true)
    {c : Cursor} (hc : c.scan.lexemes.length = 0) (room room' : ℕ) :
    repeated rule room c.scan.lexemes = repeated rule' room' c.scan.lexemes ∧
      Answers (.star p) c (.ok (repeated rule room c.scan.lexemes)) := by
  obtain ⟨hsame, hanswers⟩ := h c (by omega)
  generalize hanswer : rule c.scan.lexemes = answer at hsame hanswers
  cases hanswers with
  | ok a h =>
    have := h.lexemes_lt htakes
    omega
  | error place h =>
    rw [repeated_of_error hanswer, repeated_of_error hsame.symm]
    exact ⟨rfl, .ok [] (.starEnd h)⟩

/-- **The same rounds with either room**, up to the place where no further one can be read. -/
theorem Tracks.repeated (h : Tracks (bound + 1) rule rule' p) (htakes : p.consumes = true) :
    ∀ (room room' : ℕ) (c : Cursor), c.scan.lexemes.length ≤ room →
      c.scan.lexemes.length ≤ room' → c.scan.lexemes.length ≤ bound →
        repeated rule room c.scan.lexemes = repeated rule' room' c.scan.lexemes ∧
          Answers (.star p) c (.ok (repeated rule room c.scan.lexemes)) := by
  intro room
  -- on the first room; the second one is used up in step with it
  induction room with
  | zero => exact fun room' c hroom _ _ => h.repeated_nil htakes (Nat.le_zero.mp hroom) 0 room'
  | succ room ih =>
    intro room' c hroom hroom' hbound
    cases room' with
    | zero => exact h.repeated_nil htakes (Nat.le_zero.mp hroom') _ _
    | succ room' =>
      obtain ⟨hsame, hanswers⟩ := h c (by omega)
      generalize hanswer : rule c.scan.lexemes = answer at hsame hanswers
      cases hanswers with
      | error place h =>
        rw [repeated_of_error hanswer, repeated_of_error hsame.symm]
        exact ⟨rfl, .ok [] (.starEnd h)⟩
      | @ok a next h =>
        have hlt := h.lexemes_lt htakes
        obtain ⟨hrest, hanswers⟩ := ih room' next (by omega) (by omega) (by omega)
        rw [repeated_of_ok hanswer, repeated_of_ok hsame.symm, ← hrest]
        generalize Rule.repeated rule room next.scan.lexemes = rounds at hanswers
        cases hanswers with
        | ok as hstar => exact ⟨rfl, .ok (a :: as) (.star h hstar)⟩

/-- A repetition as a rule, with room for as many rounds as there may be tokens. -/
theorem Tracks.many (h : Tracks (bound + 1) rule rule' p) (htakes : p.consumes = true)
    (hroom : bound ≤ room) (hroom' : bound ≤ room') :
    Tracks (bound + 1) (many room rule) (many room' rule') (.star p) := by
  intro c hc
  have hle := Nat.le_of_lt_succ hc
  obtain ⟨hsame, hanswers⟩ :=
    h.repeated htakes room room' c (hle.trans hroom) (hle.trans hroom') hle
  exact ⟨congrArg Except.ok hsame, hanswers⟩

/-- A repetition that has to read something. -/
theorem Tracks.many1 (h : Tracks (bound + 1) rule rule' p) (htakes : p.consumes = true)
    (hroom : bound ≤ room) (hroom' : bound ≤ room') :
    Tracks (bound + 1) (many1 room rule) (many1 room' rule') (Peg.many1 p) :=
  h.bind fun _ => (h.many htakes hroom hroom').map _

/-! ## 2. Tokens -/

/-- A rule that reads one token, of one class, and fails at every other. -/
theorem tracks_token {t : Peg.Terminal} {rule : Rule α}
    (hnil : ∃ place, rule [] = .error place)
    (hcons : ∀ l rest, if t.accepts l.token then ∃ a, rule (l :: rest) = .ok (a, rest)
      else ∃ place, rule (l :: rest) = .error place) (bound : ℕ) :
    Tracks bound rule rule (.token t) := by
  intro c _
  refine ⟨rfl, ?_⟩
  have hparses := Parses.token t c
  cases hnext : c.next? with
  | none =>
    obtain ⟨place, hplace⟩ := hnil
    rw [Peg.Terminal.read?_of_next_none hnext] at hparses
    rw [(Cursor.scan_of_next_none hnext).1, hplace]
    exact .error place hparses
  | some found =>
    obtain ⟨l, next⟩ := found
    rw [Peg.Terminal.read?_of_next hnext] at hparses
    rw [Cursor.scan_of_next hnext]
    have hfirst := hcons l next.scan.lexemes
    split at hfirst
    · rename_i haccepts
      obtain ⟨a, ha⟩ := hfirst
      rw [ha]
      rw [if_pos haccepts] at hparses
      exact .ok a hparses
    · rename_i haccepts
      obtain ⟨place, hplace⟩ := hfirst
      rw [hplace]
      rw [if_neg haccepts] at hparses
      exact .error place hparses

/-- A class of tokens that is accepted by a rule and by a terminal. -/
theorem tracks_accept {t : Peg.Terminal} {class? : Token → Option α}
    (h : ∀ token, t.accepts token = (class? token).isSome) (stop bound : ℕ) :
    Tracks bound (accept stop class?) (accept stop class?) (.token t) := by
  refine tracks_token ⟨stop, rfl⟩ (fun l rest => ?_) bound
  rw [h, accept]
  cases class? l.token with
  | none => exact ⟨l.start, rfl⟩
  | some a => exact ⟨a, rfl⟩

/-- A symbol. -/
theorem tracks_symbol (s : Symbol) (stop bound : ℕ) :
    Tracks bound (symbol stop s) (symbol stop s) (Peg.symbol s) := by
  refine tracks_accept (fun token => ?_) stop bound
  cases token with
  | symbol s' =>
    by_cases hs : s = s'
    · simp [Peg.Terminal.accepts, hs]
    · simp [Peg.Terminal.accepts, hs, Ne.symm hs]
  | _ => rfl

/-- A reserved word.  Its rule reports a miss at a place of its own, and the production knows no
places. -/
theorem tracks_keyword (w : Keyword) (stop bound : ℕ) :
    Tracks bound (keyword stop w) (keyword stop w) (Peg.keyword w) := by
  refine tracks_token ⟨stop, rfl⟩ (fun l rest => ?_) bound
  have haccepts : Peg.Terminal.accepts (.keyword w) l.token = true ↔ l.token = .keyword w := by
    cases l.token <;> simp [Peg.Terminal.accepts, eq_comm]
  rw [keyword]
  by_cases hw : l.token = .keyword w
  · rw [if_pos (haccepts.mpr hw), if_pos hw]
    exact ⟨(), rfl⟩
  · rw [if_neg (mt haccepts.mp hw), if_neg hw]
    exact ⟨_, rfl⟩

end Rule

namespace Grammar

open Rule

variable {bound room room' stop : ℕ} {inner inner' : Phrase → Rule Tree}

theorem tracks_identifier (stop bound : ℕ) :
    Tracks bound (identifier stop) (identifier stop) Peg.identifier :=
  tracks_accept (fun token => by cases token <;> rfl) stop bound

theorem tracks_integer (stop bound : ℕ) :
    Tracks bound (integer stop) (integer stop) (.token .integer) :=
  tracks_accept (fun token => by cases token <;> rfl) stop bound

theorem tracks_string (stop bound : ℕ) :
    Tracks bound (string stop) (string stop) (.token .string) :=
  tracks_accept (fun token => by cases token <;> rfl) stop bound

/-- A reserved word for a constant. -/
theorem tracks_constant (w : Keyword) (kind : Kind) (stop bound : ℕ) :
    Tracks bound (constant stop w kind) (constant stop w kind) (Peg.keyword w) :=
  (tracks_keyword w stop bound).map _

/-- An operator that is written with a symbol. -/
theorem tracks_symbolOperator (s : Symbol) (kind : Kind) (stop bound : ℕ) :
    Tracks bound (symbolOperator stop s kind) (symbolOperator stop s kind) (Peg.symbol s) :=
  (tracks_symbol s stop bound).map _

/-- An operator that is a reserved word. -/
theorem tracks_keywordOperator (w : Keyword) (kind : Kind) (stop bound : ℕ) :
    Tracks bound (keywordOperator stop w kind) (keywordOperator stop w kind) (Peg.keyword w) :=
  (tracks_keyword w stop bound).map _

theorem tracks_additive (stop bound : ℕ) :
    Tracks bound (additive stop) (additive stop) Peg.sign :=
  (tracks_symbolOperator .plus .plus stop bound).either
    (tracks_symbolOperator .minus .minus stop bound)

/-- The comparisons, in the order in which they are tried: `>=` in front of `>`. -/
theorem tracks_comparisonOperator (stop bound : ℕ) :
    Tracks bound (comparisonOperator stop) (comparisonOperator stop) (.call .comparisonOperator) :=
  .call <|
    (tracks_keywordOperator .gr .gr stop bound).either <|
    (tracks_keywordOperator .ge .ge stop bound).either <|
    (tracks_keywordOperator .ls .ls stop bound).either <|
    (tracks_keywordOperator .le .le stop bound).either <|
    (tracks_keywordOperator .eq .eq stop bound).either <|
    (tracks_keywordOperator .ne .ne stop bound).either <|
    (tracks_symbolOperator .greaterEqual .ge stop bound).either <|
    (tracks_symbolOperator .lessEqual .le stop bound).either <|
    (tracks_symbolOperator .greater .gr stop bound).either <|
    tracks_symbolOperator .less .ls stop bound

/-- A phrase in brackets may be read within a bound that is smaller by one. -/
theorem tracks_bracketed {rule rule' : Rule Tree} {p : Peg} (h : Tracks bound rule rule' p) :
    Tracks (bound + 1) (bracketed stop rule) (bracketed stop rule') (Peg.bracketed p) :=
  (tracks_symbol .lparen stop _).behind rfl fun _ =>
    h.bind fun _ => (tracks_symbol .rparen stop _).map _

/-! ## 3. Chains -/

section Chains

variable {item item' : Rule Tree} {p separator : Peg} (hp : Tracks (bound + 1) item item' p)
  (htakes : separator.consumes = true) (hroom : bound ≤ room) (hroom' : bound ≤ room')

include hp htakes hroom hroom'

/-- Operands with operators between them. -/
theorem tracks_leftChain {operator operator' : Rule Kind}
    (hs : Tracks (bound + 1) operator operator' separator) :
    Tracks (bound + 1) (leftChain room item operator) (leftChain room' item' operator')
      (Peg.chain p separator) :=
  hp.bind fun _ =>
    ((hs.bind fun _ => hp.map _).many (by simp [Peg.consumes, htakes]) hroom hroom').map _

/-- Items with a separator, read one after the other. -/
theorem tracks_chain {σ σ' : Rule Unit} (build : Tree → List Tree → Tree)
    (hs : Tracks (bound + 1) σ σ' separator) :
    Tracks (bound + 1)
      (do
        let first ← item
        let rest ← many room do
          σ
          item
        pure (build first rest))
      (do
        let first ← item'
        let rest ← many room' do
          σ'
          item'
        pure (build first rest))
      (Peg.chain p separator) :=
  hp.bind fun _ =>
    ((hs.bind fun _ => hp).many (by simp [Peg.consumes, htakes]) hroom hroom').map _

end Chains

/-! ## 4. Expressions -/

/-- The production of a phrase. -/
def Phrase.production : Phrase → Peg.Production
  | .expression => .expression
  | .definition => .definition
  | .conditional => .conditional

section Productions

variable (hinner : ∀ p : Phrase, Tracks bound (inner p) (inner' p) (.call p.production))
  (hroom : bound ≤ room) (hroom' : bound ≤ room')

include hinner in
/-- The alternatives of an operand, in their order.  Only brackets go through the knot. -/
theorem tracks_operand :
    Tracks (bound + 1) (operand stop inner) (operand stop inner') (.call .operand) :=
  .call <|
    (tracks_identifier stop _).either <|
    (tracks_integer stop _).either <|
    (tracks_string stop _).either <|
    (tracks_constant .true .trueValue stop _).either <|
    (tracks_constant .false .falseValue stop _).either <|
    (tracks_constant .nil .nil stop _).either <|
    (tracks_constant .dummy .dummy stop _).either <|
    tracks_bracketed (hinner .expression)

include hinner hroom hroom'

/-- An operand and the operands behind it. -/
theorem tracks_application : Tracks (bound + 1) (application stop room inner)
    (application stop room' inner') (.call .application) :=
  .call <| (tracks_operand hinner).bind fun _ =>
    ((tracks_operand hinner).many rfl hroom hroom').map _

/-- Applications with `@` and a name between them. -/
theorem tracks_infixCall : Tracks (bound + 1) (infixCall stop room inner)
    (infixCall stop room' inner') (.call .infixCall) :=
  have happlication := tracks_application hinner hroom hroom'
  .call <| happlication.bind fun _ =>
    (((tracks_symbol .at stop _).bind fun _ => (tracks_identifier stop _).bind fun _ =>
      happlication.map _).many rfl hroom hroom').map _

/-- The rule goes round, and the production calls itself. -/
theorem tracks_power :
    Tracks (bound + 1) (power stop room inner) (power stop room' inner') (.call .power) :=
  (tracks_chain (tracks_infixCall hinner hroom hroom') rfl hroom hroom' _
    (tracks_symbol .power stop _)).of_parses fun _ _ => Peg.parses_call_of_chain rfl

theorem tracks_term :
    Tracks (bound + 1) (term stop room inner) (term stop room' inner') (.call .term) :=
  .call <| tracks_leftChain (tracks_power hinner hroom hroom') rfl hroom hroom'
    ((tracks_symbolOperator .times .mult stop _).either
      (tracks_symbolOperator .divide .div stop _))

/-- The option of a sign, a term, and rounds of an operator with a term. -/
theorem tracks_arithmetic : Tracks (bound + 1) (arithmetic stop room inner)
    (arithmetic stop room' inner') (.call .arithmetic) :=
  have hterm := tracks_term hinner hroom hroom'
  .call <| (tracks_additive stop _).optional.bind fun _ => hterm.bind fun _ =>
    (((tracks_additive stop _).bind fun _ => hterm.map _).many rfl hroom hroom').map _

/-- A sum and the option of a comparison. -/
theorem tracks_comparison : Tracks (bound + 1) (comparison stop room inner)
    (comparison stop room' inner') (.call .comparison) :=
  have harithmetic := tracks_arithmetic hinner hroom hroom'
  .call <| harithmetic.bind fun _ =>
    ((tracks_comparisonOperator stop _).bind fun _ => harithmetic.map _).optional.map _

theorem tracks_negation : Tracks (bound + 1) (negation stop room inner)
    (negation stop room' inner') (.call .negation) :=
  have hcomparison := tracks_comparison hinner hroom hroom'
  .call <| ((tracks_keyword .not stop _).bind fun _ => hcomparison.map _).either hcomparison

theorem tracks_conjunction : Tracks (bound + 1) (conjunction stop room inner)
    (conjunction stop room' inner') (.call .conjunction) :=
  .call <| tracks_leftChain (tracks_negation hinner hroom hroom') rfl hroom hroom'
    (tracks_symbolOperator .ampersand .and stop _)

theorem tracks_disjunction : Tracks (bound + 1) (disjunction stop room inner)
    (disjunction stop room' inner') (.call .disjunction) :=
  .call <| tracks_leftChain (tracks_conjunction hinner hroom hroom') rfl hroom hroom'
    (tracks_keywordOperator .or .or stop _)

/-- Behind the condition there is at least one token less, so the branches are read within the
smaller bound, for which the knot is known to read them. -/
theorem tracks_conditional : Tracks (bound + 1) (conditional stop room inner)
    (conditional stop room' inner') (.call .conditional) :=
  .call <| (tracks_disjunction hinner hroom hroom').behind rfl fun _ =>
    ((tracks_symbol .arrow stop _).bind fun _ => (hinner .conditional).bind fun _ =>
      (tracks_symbol .bar stop _).bind fun _ => (hinner .conditional).map _).optional.map _

theorem tracks_augmented : Tracks (bound + 1) (augmented stop room inner)
    (augmented stop room' inner') (.call .augmented) :=
  .call <| tracks_leftChain (tracks_conditional hinner hroom hroom') rfl hroom hroom'
    (tracks_keywordOperator .aug .aug stop _)

theorem tracks_tuple :
    Tracks (bound + 1) (tuple stop room inner) (tuple stop room' inner') (.call .tuple) :=
  .call <| tracks_chain (tracks_augmented hinner hroom hroom') rfl hroom hroom' _
    (tracks_symbol .comma stop _)

/-! ## 5. Definitions -/

omit hinner in
theorem tracks_nameList :
    Tracks (bound + 1) (nameList stop room) (nameList stop room') (.call .nameList) :=
  .call <| tracks_chain (tracks_identifier stop _) rfl hroom hroom' _ (tracks_symbol .comma stop _)

omit hinner in
theorem tracks_parameter :
    Tracks (bound + 1) (parameter stop room) (parameter stop room') (.call .parameter) :=
  .call <|
    (tracks_identifier stop _).either <|
    ((tracks_symbol .lparen stop _).bind fun _ => (tracks_symbol .rparen stop _).map _).either <|
    tracks_bracketed ((tracks_nameList hroom hroom').mono (Nat.le_succ _))

omit hinner in
/-- Parameters side by side. -/
theorem tracks_parameters : Tracks bound (many1 room (parameter stop room))
    (many1 room' (parameter stop room')) (Peg.many1 (.call .parameter)) :=
  ((tracks_parameter hroom hroom').many1 rfl hroom hroom').mono (Nat.le_succ _)

/-- Brackets, the form of a function, or names.  In each of them the knot is entered behind a token.
-/
theorem tracks_basicDefinition : Tracks (bound + 1) (basicDefinition stop room inner)
    (basicDefinition stop room' inner') (.call .basicDefinition) :=
  .call <|
    (tracks_bracketed (hinner .definition)).either <|
    ((tracks_identifier stop _).behind rfl fun _ =>
      (tracks_parameters hroom hroom').bind fun _ =>
        (tracks_symbol .equals stop _).bind fun _ => (hinner .expression).map _).either <|
    (tracks_nameList hroom hroom').behind rfl fun _ =>
      (tracks_symbol .equals stop _).bind fun _ => (hinner .expression).map _

theorem tracks_recursiveDefinition : Tracks (bound + 1) (recursiveDefinition stop room inner)
    (recursiveDefinition stop room' inner') (.call .recursiveDefinition) :=
  have hbasic := tracks_basicDefinition hinner hroom hroom'
  .call <| ((tracks_keyword .recWord stop _).bind fun _ => hbasic.map _).either hbasic

theorem tracks_simultaneous : Tracks (bound + 1) (simultaneous stop room inner)
    (simultaneous stop room' inner') (.call .simultaneous) :=
  .call <| tracks_chain (tracks_recursiveDefinition hinner hroom hroom') rfl hroom hroom' _
    (tracks_keyword .and stop _)

/-- The rule goes round, and the production calls itself. -/
theorem tracks_definition : Tracks (bound + 1) (definition stop room inner)
    (definition stop room' inner') (.call .definition) :=
  (tracks_chain (tracks_simultaneous hinner hroom hroom') rfl hroom hroom' _
    (tracks_keyword .within stop _)).of_parses fun _ _ => Peg.parses_call_of_chain rfl

/-- `let`, `fn`, or a tuple with the option of `where`. -/
theorem tracks_expression : Tracks (bound + 1) (expression stop room inner)
    (expression stop room' inner') (.call .expression) :=
  .call <|
    (Tracks.call (n := .letExpression) <| (tracks_keyword .letWord stop _).behind rfl fun _ =>
      (hinner .definition).bind fun _ => (tracks_keyword .inWord stop _).bind fun _ =>
        (hinner .expression).map _).either <|
    (Tracks.call (n := .functionExpression) <| (tracks_keyword .fnWord stop _).behind rfl fun _ =>
      (tracks_parameters hroom hroom').bind fun _ => (tracks_symbol .dot stop _).bind fun _ =>
        (hinner .expression).map _).either <|
    Tracks.call (n := .whereExpression) <| (tracks_tuple hinner hroom hroom').bind fun _ =>
      ((tracks_keyword .whereWord stop _).bind fun _ =>
        tracks_recursiveDefinition hinner hroom hroom').optional.map _

/-- The three phrases that recursion goes through. -/
theorem tracks_production (p : Phrase) : Tracks (bound + 1) (production stop room inner p)
    (production stop room' inner' p) (.call p.production) := by
  cases p with
  | expression => exact tracks_expression hinner hroom hroom'
  | definition => exact tracks_definition hinner hroom hroom'
  | conditional => exact tracks_conditional hinner hroom hroom'

end Productions

/-! ## 6. Phrases -/

/-- **A phrase is read as its production says**, with any room for its tokens. -/
theorem tracks_phrase (stop : ℕ) : ∀ {bound room room' : ℕ}, bound ≤ room → bound ≤ room' →
    ∀ p, Tracks bound (phrase stop room p) (phrase stop room' p) (.call p.production) := by
  -- on the bound: every way through the knot reads a token first, and leaves a smaller one
  intro bound
  induction bound with
  | zero => exact fun _ _ _ _ hc => absurd hc (Nat.not_lt_zero _)
  | succ bound ih =>
    intro room room' hroom hroom' p
    cases room with
    | zero => exact absurd hroom (Nat.not_succ_le_zero _)
    | succ room =>
      cases room' with
      | zero => exact absurd hroom' (Nat.not_succ_le_zero _)
      | succ room' =>
        have hle := Nat.le_of_succ_le_succ hroom
        have hle' := Nat.le_of_succ_le_succ hroom'
        exact tracks_production (ih hle hle') hle hle' p

end Grammar

/-! ## 7. Programs -/

/-- A tab is worth at most so many blanks as the tab stops are apart. -/
theorem Text.length_expandTabs_le (cs : List Char) :
    (expandTabs cs).length ≤ tabWidth * cs.length := by
  suffices h : ∀ column, (expandTabsFrom column cs).length ≤ tabWidth * cs.length from h 0
  intro column
  fun_induction expandTabsFrom column cs with
  | case1 => exact Nat.zero_le _
  | case2 column rest gap ih =>
    rw [List.length_append, List.length_replicate, List.length_cons, Nat.mul_succ]
    have hgap : gap ≤ tabWidth := Nat.sub_le _ _
    omega
  | case3 column c rest _ ih =>
    have hone : 1 ≤ tabWidth := by decide
    rw [List.length_cons, List.length_cons, Nat.mul_succ]
    omega

namespace Cursor

variable {c next : Cursor}

/-- There are no more tokens than characters. -/
theorem length_lexemes_le (c : Cursor) : c.scan.lexemes.length ≤ c.rest.length := by
  induction hlength : c.rest.length using Nat.strong_induction_on generalizing c with
  | _ k ih =>
    cases hnext : c.next? with
    | none =>
      rw [(scan_of_next_none hnext).1]
      exact Nat.zero_le _
    | some found =>
      obtain ⟨l, next⟩ := found
      have hlt := Step.length_lt ⟨l, hnext⟩
      have hle := ih next.rest.length (by omega) next rfl
      rw [scan_of_next hnext, List.length_cons]
      omega

/-- A scan is complete from every place on, or from none. -/
theorem complete_of_steps (h : Relation.ReflTransGen Step c next) :
    c.scan.complete = next.scan.complete := by
  induction h with
  | refl => rfl
  | tail _ h ih =>
    obtain ⟨l, hl⟩ := h
    rw [ih, scan_of_next hl]

/-- No token stands at the end. -/
theorem next?_of_atEnd (h : c.atEnd = true) : c.next? = none := by
  rw [next?, List.isEmpty_iff.mp h]
  rfl

end Cursor

namespace Peg

open Relation

/-- **A scan is read as a tree** if the production of programs can be read. -/
theorem ofScan_eq_ok_iff (c : Cursor) :
    (∃ t, Tree.ofScan c.scan = .ok t) ↔ ∃ last, Parses (.call .program) c (some last) := by
  obtain ⟨-, hanswers⟩ := Grammar.tracks_phrase c.scan.stop (Nat.le_refl _) (Nat.le_refl _)
    .expression c (Nat.lt_succ_self c.scan.lexemes.length)
  rw [Tree.ofScan]
  generalize Grammar.phrase c.scan.stop _ _ _ = answer at hanswers ⊢
  -- An expression that is read is a program only with nothing behind it: no further token, and no
  -- text that is none.
  cases hanswers with
  | error place h =>
    refine iff_of_false (fun ⟨t, ht⟩ => nomatch ht) fun ⟨last, hlast⟩ => ?_
    cases (Parses.call (.seqFail h .textEnd) : Parses (.call .program) c none).unique hlast
  | @ok t next h =>
    have hprogram : Parses (.call .program) c (if next.atEnd then some next else none) :=
      .call (.seq h (.textEnd next))
    have hcomplete := Cursor.complete_of_steps h.steps
    cases hnext : next.next? with
    | none =>
      obtain ⟨hnone, hat⟩ := Cursor.scan_of_next_none hnext
      simp only [hnone, hcomplete, hat]
      by_cases hend : next.atEnd = true
      · rw [if_pos hend] at hprogram ⊢
        exact iff_of_true ⟨t, rfl⟩ ⟨next, hprogram⟩
      · rw [if_neg hend] at hprogram ⊢
        exact iff_of_false (fun ⟨t, ht⟩ => nomatch ht) fun ⟨last, hlast⟩ =>
          nomatch hprogram.unique hlast
    | some found =>
      obtain ⟨l, behind⟩ := found
      have hend : ¬ next.atEnd = true := fun hend => by
        cases hnext.symm.trans (Cursor.next?_of_atEnd hend)
      rw [if_neg hend] at hprogram
      simp only [Cursor.scan_of_next hnext]
      exact iff_of_false (fun ⟨t, ht⟩ => nomatch ht) fun ⟨last, hlast⟩ =>
        nomatch hprogram.unique hlast

/-- Nothing in the grammar goes on without text: not the skipping of a gap, not the rounds of a
repetition, not the calls of productions. -/
structure Progress : Prop where
  gaps : ∀ cs, ReflTransGen Token.Skips cs (Token.skipGap cs) ∧
    (∀ rest, ¬ Token.Skips (Token.skipGap cs) rest) ∧
    ∀ rest, Token.Skips cs rest →
      rest.length < cs.length ∧ Token.skipGap rest = Token.skipGap cs
  rounds : ∀ n : Production, ∀ p ∈ n.body.repeats, ∀ c next, Parses p c (some next) →
    next.rest.length < c.rest.length
  reentry : ∀ (n : Production) (c d : Cursor), TransGen Starts (.call n, c) (.call n, d) →
    TransGen Cursor.Step c d ∧ d.rest.length < c.rest.length
  descent : ∀ (n : Production) (c : Cursor), Acc (fun b a => Starts a b) (.call n, c)

/-- Each field is what the measure of the recursion is made of: gaps get shorter, a repeated
expression takes text, and a production is entered again at a later place only. -/
theorem progress : Progress where
  gaps cs := ⟨Token.skips_skipGap cs, Token.not_skips_skipGap cs, fun _ h =>
    ⟨h.length_lt, h.skipGap_eq⟩⟩
  rounds n _ hp _ _ h := h.length_lt (consumes_of_mem_repeats (productive_body n) hp)
  reentry _ _ _ h := by
    have hsteps := step_of_reentry h
    exact ⟨hsteps, Cursor.lt_of_steps (f := fun c => c.rest.length) Cursor.Step.length_lt hsteps⟩
  descent n c := acc_starts (.call n, c) rfl

/-- The parse of a source text ends.  By the productions it has one result, and the parser agrees
with it; a recursive descent with fuel in proportion to the text never runs out of it; and the
rules of the parser answer the same with any more room. -/
structure Ends (filename source : String) : Prop where
  result : ∃! r, Parses (.call .program) (.start (Text.expandTabs source.toList)) r
  accepted : (∃ t, Program.parse filename source = .ok t) ↔
    ∃ last, Parses (.call .program) (.start (Text.expandTabs source.toList)) (some last)
  fuel : ∀ rounds depth, Text.tabWidth * source.toList.length < rounds →
    levels * (Text.tabWidth * source.toList.length + 1) ≤ depth →
    ∃ r, descend rounds depth .program (.start (Text.expandTabs source.toList)) = some r ∧
      Parses (.call .program) (.start (Text.expandTabs source.toList)) r
  room : ∀ room, Text.tabWidth * source.toList.length < room →
    let scan := Scan.ofText (Text.expandTabs source.toList)
    Grammar.phrase scan.stop room .expression scan.lexemes =
      Grammar.phrase scan.stop (scan.lexemes.length + 1) .expression scan.lexemes

/-- Fuel in proportion to the text is enough: a descent through the levels of the grammar for every
character. -/
theorem exists_parses (text : List Char) {length rounds depth : ℕ} (hlength : text.length ≤ length)
    (hrounds : length < rounds) (hdepth : levels * (length + 1) ≤ depth) :
    ∃ r, descend rounds depth .program (.start text) = some r ∧
      Parses (.call .program) (.start text) r := by
  have hheight := Production.program.height_lt
  have hmul : levels * text.length ≤ levels * length := Nat.mul_le_mul_left levels hlength
  rw [Nat.mul_succ] at hdepth
  have hfuel : levels * (Cursor.start text).rest.length + Production.program.height < depth := by
    change levels * text.length + _ < depth
    omega
  obtain ⟨r, hr⟩ := exists_descend .program (.start text) hfuel (Nat.lt_of_le_of_lt hlength hrounds)
  exact ⟨r, hr, parses_of_descend _ _ _ hr⟩

/-- The result is unique as parsing is deterministic, and the fuel and the room are bounded by the
number of characters, which bounds that of the tokens. -/
theorem ends (filename source : String) : Ends filename source where
  result := by
    obtain ⟨r, -, hr⟩ := exists_parses (Text.expandTabs source.toList) (Nat.le_refl _)
      (Nat.lt_succ_self _) (Nat.le_refl _)
    exact ⟨r, hr, fun r' hr' => hr'.unique hr⟩
  accepted := by
    rw [← ofScan_eq_ok_iff]
    change _ ↔ ∃ t, Tree.ofText source.toList = .ok t
    rw [Program.parse, Program.parseWith]
    cases Tree.ofText source.toList with
    | ok t => exact iff_of_true ⟨t, rfl⟩ ⟨t, rfl⟩
    | error place => exact iff_of_false (fun ⟨_, h⟩ => nomatch h) fun ⟨_, h⟩ => nomatch h
  fuel _ _ hrounds hdepth :=
    exists_parses _ (Text.length_expandTabs_le source.toList) hrounds hdepth
  room room hroom := by
    have htext := Text.length_expandTabs_le source.toList
    have htokens := Cursor.length_lexemes_le (.start (Text.expandTabs source.toList))
    have hbound := Nat.succ_le_of_lt (Nat.lt_of_le_of_lt (htokens.trans htext) hroom)
    exact (Grammar.tracks_phrase _ hbound (Nat.le_refl _) .expression
      (.start (Text.expandTabs source.toList)) (Nat.lt_succ_self _)).1

/-- **The grammar terminates**: nothing in it goes on without text, and so the parse of every source
text ends. -/
theorem parse_terminates (filename source : String) : Progress ∧ Ends filename source :=
  ⟨progress, ends filename source⟩

end Peg

end Rpal
