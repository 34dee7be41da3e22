/-
# The grammar terminates

The productions call one another in circles, and three things could keep a parser from ending: a
production that is entered again and again without a token read in between, a repetition whose
rounds read nothing, and a gap without an end.

* Skipping a gap drops piece after piece, and each piece has characters (`Token.Skips`).
* The body of every repetition takes a token (`productive_body`).
* Every production has a height, and up to its first token it calls lower ones only
  (`entry_body`).

So whatever is started next has less text before it, or is lower, or is a part of what started it
(`Starts.decreases`), and there is no end to this only if there is no end to the text.  A reader
that counts down a depth of `levels` calls for each character never gets to zero
(`exists_descend`).
-/
import Mathlib.Data.Prod.Lex
import Mathlib.Order.WellFounded
import Rpal.Proofs.Grammar.Layout
import Rpal.Proofs.Grammar.Productions
import Rpal.Proofs.Token.Spreading

namespace Rpal

open Relation

/-! ## 1. Gaps -/

namespace Token

/-- One piece of a gap is dropped, a separating character or a comment.  A comment ends at the end
of the text or in front of a line feed that no backslash stands in front of. -/
inductive Skips : List Char → List Char → Prop where
  | space {c : Char} {rest : List Char} (hc : isGapChar c) : Skips (c :: rest) rest
  | comment {text rest : List Char} (ht : IsComment text)
      (hend : rest = [] ∨ rest.head? = some '\n' ∧ text.getLast? ≠ some '\\') :
      Skips ('/' :: '/' :: (text ++ rest)) rest

variable {cs rest : List Char}

/-- A piece has characters. -/
theorem Skips.length_lt (h : Skips cs rest) : rest.length < cs.length := by
  cases h with
  | space => exact Nat.lt_succ_self _
  | comment =>
    simp only [List.length_cons, List.length_append]
    omega

/-- The pieces belong to one gap. -/
theorem Skips.skipGap_eq (h : Skips cs rest) : skipGap rest = skipGap cs := by
  cases h with
  | space hc => exact (skipGap_gapChar hc rest).symm
  | @comment text _ ht hend =>
    have hopen : skipGap ('/' :: '/' :: (text ++ rest)) = skipComment (text ++ rest) := by
      rw [skipGap]
    rw [hopen]
    rcases hend with rfl | ⟨hfeed, hlast⟩
    · rw [List.append_nil, skipComment_eq_nil ht, skipGap]
    · obtain ⟨behind, rfl⟩ := List.head?_eq_some_iff.mp hfeed
      rw [skipComment_append ht hlast, skipGap_gapChar (by decide)]

/-- **A gap is skipped piece by piece**, -/
theorem skips_skipGap (cs : List Char) : ReflTransGen Skips cs (skipGap cs) := by
  -- Inside a comment the induction carries what of it was seen, since the comment is one piece.
  refine (skipGap.mutual_induct (fun cs => ReflTransGen Skips cs (skipGap cs))
    (fun cs => ∃ text rest, cs = text ++ rest ∧ IsComment text ∧
      (rest = [] ∨ rest.head? = some '\n' ∧ text.getLast? ≠ some '\\') ∧
      ReflTransGen Skips rest (skipComment cs))
    ?nothing ?opened ?space ?token ?ended ?continued ?feed ?char).1 cs
  case nothing => exact .refl
  case opened =>
    rintro _ ⟨text, rest, rfl, ht, hend, hrest⟩
    exact .head (.comment ht hend) hrest
  case space =>
    intro c rest hcomment hgap ih
    rw [skipGap.eq_3 c rest hcomment, if_pos hgap]
    exact .head (.space hgap) ih
  case token =>
    intro c rest hcomment hgap
    rw [skipGap.eq_3 c rest hcomment, if_neg hgap]
  case ended => exact ⟨[], [], rfl, .nil, .inl rfl, .refl⟩
  case continued =>
    rintro _ ⟨text, rest, rfl, ht, hend, hrest⟩
    refine ⟨'\\' :: '\n' :: text, rest, rfl, .continued ht, hend.imp_right fun h => ⟨h.1, ?_⟩, hrest⟩
    cases text with
    | nil => decide
    | cons d text => simpa only [List.getLast?_cons_cons] using h.2
  case feed =>
    intro rest hcontinued ih
    have hlast : ([] : List Char).getLast? ≠ some '\\' := by decide
    exact ⟨[], '\n' :: rest, rfl, .nil, .inr ⟨rfl, hlast⟩, .head (.space (by decide)) ih⟩
  case char =>
    rintro c _ hcontinued hfeed ⟨text, rest, rfl, ht, hend, hrest⟩
    rw [skipComment.eq_3 c _ hcontinued, if_neg hfeed]
    refine ⟨c :: text, rest, rfl, .char hfeed ht, hend.imp_right fun h => ⟨h.1, ?_⟩, hrest⟩
    cases text with
    | nil =>
      rintro ⟨⟩
      obtain ⟨behind, rfl⟩ := List.head?_eq_some_iff.mp h.1
      exact hcontinued behind rfl rfl
    | cons d text => simpa only [List.getLast?_cons_cons] using h.2

/-- **until none is left.** -/
theorem not_skips_skipGap (cs rest : List Char) : ¬ Skips (skipGap cs) rest := by
  intro h
  have hagain := skipGap_skipGap cs
  generalize hhere : skipGap cs = here at h hagain
  cases h with
  | space hc =>
    rw [skipGap_gapChar hc] at hagain
    have hlength := (skipGap_suffix rest).length_le
    rw [hagain, List.length_cons] at hlength
    exact absurd hlength (Nat.not_succ_le_self _)
  | comment => exact skipGap_ne_comment cs _ hhere

end Token

namespace Peg

/-! ## 2. Heights -/

/-- The body of every repetition takes a token. -/
def productive : Peg → Bool
  | .token _ | .textEnd | .call _ => true
  | .seq p q | .choice p q => p.productive && q.productive
  | .option p => p.productive
  | .star p => p.consumes && p.productive

/-- No production repeats what may be nothing. -/
theorem productive_body (n : Production) : n.body.productive = true := by
  cases n <;> rfl

/-- The bodies of the repetitions in an expression. -/
def repeats : Peg → List Peg
  | .token _ | .textEnd | .call _ => []
  | .seq p q | .choice p q => p.repeats ++ q.repeats
  | .option p => p.repeats
  | .star p => p :: p.repeats

theorem consumes_of_mem_repeats {q : Peg} : ∀ {p : Peg}, p.productive = true → q ∈ p.repeats →
    q.consumes = true
  | .seq p₁ p₂, h, hq | .choice p₁ p₂, h, hq => by
    obtain ⟨h₁, h₂⟩ := (Bool.and_eq_true _ _).mp h
    rcases List.mem_append.mp hq with hq | hq
    · exact consumes_of_mem_repeats h₁ hq
    · exact consumes_of_mem_repeats h₂ hq
  | .option p, h, hq => consumes_of_mem_repeats (p := p) h hq
  | .star p, h, hq => by
    obtain ⟨htakes, hp⟩ := (Bool.and_eq_true _ _).mp h
    rcases List.mem_cons.mp hq with rfl | hq
    · exact htakes
    · exact consumes_of_mem_repeats hp hq

/-- The height of a production: how many others can be entered, one from the other, before a token
is read. -/
def Production.height : Production → Nat
  | letExpression | functionExpression | comparisonOperator | operand | parameter | nameList => 0
  | application | basicDefinition => 1
  | infixCall | recursiveDefinition => 2
  | power | simultaneous => 3
  | term | definition => 4
  | arithmetic => 5
  | comparison => 6
  | negation => 7
  | conjunction => 8
  | disjunction => 9
  | conditional => 10
  | augmented => 11
  | tuple => 12
  | whereExpression => 13
  | expression => 14
  | program => 15

/-- The number of heights. -/
def levels : Nat := 16

theorem Production.height_lt (n : Production) : n.height < levels := by
  cases n <;> decide

/-- The productions that can be called before a token is read are lower than this. -/
def entry : Peg → Nat
  | .token _ | .textEnd => 0
  | .call n => n.height + 1
  | .seq p q => if p.consumes then p.entry else max p.entry q.entry
  | .choice p q => max p.entry q.entry
  | .option p | .star p => p.entry

/-- **Up to its first token a production calls lower ones.** -/
theorem entry_body (n : Production) : n.body.entry ≤ n.height := by
  cases n <;> decide

/-! ## 3. Descent -/

/-- `Starts (p, c) (q, d)`: reading `p` from `c` involves reading `q` from `d`. -/
inductive Starts : Peg × Cursor → Peg × Cursor → Prop where
  | call (n : Production) (c : Cursor) : Starts (.call n, c) (n.body, c)
  | first (p q : Peg) (c : Cursor) : Starts (.seq p q, c) (p, c)
  | second {p : Peg} (q : Peg) {c next : Cursor} (h : Parses p c (some next)) :
      Starts (.seq p q, c) (q, next)
  | left (p q : Peg) (c : Cursor) : Starts (.choice p q, c) (p, c)
  | right {p : Peg} (q : Peg) {c : Cursor} (h : Parses p c none) : Starts (.choice p q, c) (q, c)
  | option (p : Peg) (c : Cursor) : Starts (.option p, c) (p, c)
  | round (p : Peg) (c : Cursor) : Starts (.star p, c) (p, c)
  | again {p : Peg} {c next : Cursor} (h : Parses p c (some next)) :
      Starts (.star p, c) (.star p, next)

/-- The number of parts of an expression. -/
def size : Peg → Nat
  | .token _ | .textEnd | .call _ => 0
  | .seq p q | .choice p q => p.size + q.size + 1
  | .option p | .star p => p.size + 1

/-- What is left of the text, how high productions can be that are called next, and the size. -/
def rank (a : Peg × Cursor) : Nat × Nat × Nat := (a.2.rest.length, a.1.entry, a.1.size)

/-- The order of ranks: by the text first, then by the height. -/
def Below : Nat × Nat × Nat → Nat × Nat × Nat → Prop :=
  Prod.Lex (· < ·) (Prod.Lex (· < ·) (· < ·))

theorem wellFounded_below : WellFounded Below :=
  WellFounded.prod_lex Nat.lt_wfRel.wf (WellFounded.prod_lex Nat.lt_wfRel.wf Nat.lt_wfRel.wf)

theorem below_of_text {k k' : Nat} (h : k' < k) (x x' : Nat × Nat) : Below (k', x') (k, x) :=
  .left _ _ h

theorem below_of_entry {k k' e e' : Nat} (hk : k' ≤ k) (h : e' < e) (s s' : Nat) :
    Below (k', e', s') (k, e, s) := by
  rcases Nat.lt_or_eq_of_le hk with hk | rfl
  · exact below_of_text hk _ _
  · exact .right _ (.left _ _ h)

theorem below_of_size {k k' e e' s s' : Nat} (hk : k' ≤ k) (he : e' ≤ e) (h : s' < s) :
    Below (k', e', s') (k, e, s) := by
  rcases Nat.lt_or_eq_of_le he with he | rfl
  · exact below_of_entry hk he _ _
  · rcases Nat.lt_or_eq_of_le hk with hk | rfl
    · exact below_of_text hk _ _
    · exact .right _ (.right _ h)

variable {p : Peg} {c next : Cursor} {r : Option Cursor} {n : Production} {a b : Peg × Cursor}

theorem Parses.length_le (h : Parses p c (some next)) : next.rest.length ≤ c.rest.length :=
  Cursor.le_of_steps (f := fun c => c.rest.length) Cursor.Step.length_lt h.steps

theorem Parses.length_lt (h : Parses p c (some next)) (hp : p.consumes = true) :
    next.rest.length < c.rest.length :=
  Cursor.lt_of_steps (f := fun c => c.rest.length) Cursor.Step.length_lt (h.takes hp)

theorem entry_le_seq (p q : Peg) : p.entry ≤ (seq p q).entry := by
  rw [entry]
  split <;> omega

/-- What is started is productive again, stands at the same place or further on, and is below what
started it. -/
structure Descends (a b : Peg × Cursor) : Prop where
  productive : b.1.productive = true
  steps : ReflTransGen Cursor.Step a.2 b.2
  below : Below (rank b) (rank a)

theorem Starts.descends (h : Starts a b) (ha : a.1.productive = true) : Descends a b := by
  cases h with
  | call n c =>
    exact ⟨productive_body n, .refl,
      below_of_entry (Nat.le_refl _) (Nat.lt_succ_of_le (entry_body n)) _ _⟩
  | first p q c =>
    refine ⟨((Bool.and_eq_true _ _).mp ha).1, .refl,
      below_of_size (Nat.le_refl _) (entry_le_seq p q) ?_⟩
    simp only [size]
    omega
  | @second p c next q h =>
    refine ⟨((Bool.and_eq_true _ _).mp ha).2, h.steps, ?_⟩
    by_cases hp : p.consumes = true
    · exact below_of_text (h.length_lt hp) _ _
    · refine below_of_size h.length_le ?_ ?_
      · rw [entry, if_neg hp]
        exact Nat.le_max_right _ _
      · simp only [size]
        omega
  | left p q c =>
    refine ⟨((Bool.and_eq_true _ _).mp ha).1, .refl,
      below_of_size (Nat.le_refl _) (Nat.le_max_left _ _) ?_⟩
    simp only [size]
    omega
  | right q h =>
    refine ⟨((Bool.and_eq_true _ _).mp ha).2, .refl,
      below_of_size (Nat.le_refl _) (Nat.le_max_right _ _) ?_⟩
    simp only [size]
    omega
  | option p c =>
    exact ⟨ha, .refl, below_of_size (Nat.le_refl _) (Nat.le_refl _) (Nat.lt_succ_self _)⟩
  | round p c =>
    exact ⟨((Bool.and_eq_true _ _).mp ha).2, .refl,
      below_of_size (Nat.le_refl _) (Nat.le_refl _) (Nat.lt_succ_self _)⟩
  | again h =>
    exact ⟨ha, h.steps, below_of_text (h.length_lt ((Bool.and_eq_true _ _).mp ha).1) _ _⟩

/-- **There is no infinite descent.** -/
theorem acc_starts : ∀ a : Peg × Cursor, a.1.productive = true → Acc (fun b a => Starts a b) a := by
  intro a
  induction a using (InvImage.wf rank wellFounded_below).induction with
  | _ a ih =>
    intro ha
    refine Acc.intro a fun b hb => ?_
    have hdescends := hb.descends ha
    exact ih b hdescends.below hdescends.productive

theorem descends_of_transGen (h : TransGen Starts a b) (ha : a.1.productive = true) :
    Descends a b := by
  induction h with
  | single h => exact h.descends ha
  | tail _ h ih =>
    have hnext := h.descends ih.productive
    exact ⟨hnext.productive, ih.steps.trans hnext.steps,
      Prod.Lex.trans hnext.below ih.below⟩

/-- **No production enters itself again** before a token has been read. -/
theorem step_of_reentry {d : Cursor} (h : TransGen Starts (.call n, c) (.call n, d)) :
    TransGen Cursor.Step c d := by
  obtain ⟨-, hsteps, hbelow⟩ := descends_of_transGen h rfl
  rcases reflTransGen_iff_eq_or_transGen.mp hsteps with heq | hsteps
  · cases heq
    exact absurd hbelow (wellFounded_below.asymmetric _ _ hbelow)
  · exact hsteps

/-! ## 4. Fuel -/

/-- A reader answers the place where reading ended or a failure, or nothing if it runs out of
fuel. -/
abbrev Reader := Cursor → Option (Option Cursor)

/-- Reads again and again, for a number of rounds. -/
def iterate (read : Reader) : Nat → Reader
  | 0, _ => none
  | rounds + 1, c =>
    match read c with
    | some (some next) => iterate read rounds next
    | some none => some (some c)
    | none => none

/-- Reads an expression, given the readers of the productions and the number of rounds of each
repetition. -/
def evaluate (rounds : Nat) (call : Production → Reader) : Peg → Reader
  | .token t, c => some (t.read? c)
  | .textEnd, c => some (if c.atEnd then some c else none)
  | .call n, c => call n c
  | .seq p q, c =>
    match evaluate rounds call p c with
    | some (some next) => evaluate rounds call q next
    | r => r
  | .choice p q, c =>
    match evaluate rounds call p c with
    | some none => evaluate rounds call q c
    | r => r
  | .option p, c =>
    match evaluate rounds call p c with
    | some none => some (some c)
    | r => r
  | .star p, c => iterate (evaluate rounds call p) rounds c

/-- Recursive descent through the productions, to a depth. -/
def descend (rounds : Nat) : Nat → Production → Reader
  | 0, _, _ => none
  | depth + 1, n, c => evaluate rounds (descend rounds depth) n.body c

theorem parses_of_iterate {read : Reader} (hread : ∀ c r, read c = some r → Parses p c r) :
    ∀ {rounds : Nat} {c : Cursor} {r : Option Cursor},
      iterate read rounds c = some r → Parses (.star p) c r := by
  intro rounds
  induction rounds with
  | zero => exact nofun
  | succ rounds ih =>
    intro c r h
    rw [iterate] at h
    split at h
    · rename_i next hnext
      exact .star (hread c _ hnext) (ih h)
    · rename_i hnone
      cases h
      exact .starEnd (hread c _ hnone)
    · cases h

theorem parses_of_evaluate {rounds : Nat} {call : Production → Reader}
    (hcall : ∀ n c r, call n c = some r → Parses (.call n) c r) :
    ∀ (p : Peg) (c : Cursor) (r : Option Cursor),
      evaluate rounds call p c = some r → Parses p c r := by
  intro p
  induction p with
  | token t =>
    rintro c _ ⟨⟩
    exact .token t c
  | textEnd =>
    rintro c _ ⟨⟩
    exact .textEnd c
  | call n => exact hcall n
  | seq p q ihp ihq =>
    intro c r h
    rw [evaluate] at h
    split at h
    · rename_i next hnext
      exact .seq (ihp c _ hnext) (ihq next r h)
    · rename_i hfail
      cases r with
      | none => exact .seqFail (ihp c _ h) q
      | some next => exact absurd h (hfail next)
  | choice p q ihp ihq =>
    intro c r h
    rw [evaluate] at h
    split at h
    · rename_i hnone
      exact .choiceElse (ihp c _ hnone) (ihq c r h)
    · rename_i hfound
      cases r with
      | none => exact absurd h hfound
      | some next => exact .choice (ihp c _ h) q
  | option p ih =>
    intro c r h
    rw [evaluate] at h
    split at h
    · rename_i hnone
      cases h
      exact .optionNone (ih c _ hnone)
    · rename_i hfound
      cases r with
      | none => exact absurd h hfound
      | some next => exact .option (ih c _ h)
  | star p ih => exact fun c r h => parses_of_iterate ih h

/-- **What a reader with fuel answers is right.** -/
theorem parses_of_descend {rounds depth : Nat} :
    ∀ n c r, descend rounds depth n c = some r → Parses (.call n) c r := by
  induction depth with
  | zero => exact nofun
  | succ depth ih => exact fun n c r h => .call (parses_of_evaluate ih n.body c r h)

/-- Rounds that take tokens come to an end. -/
theorem exists_iterate {read : Reader} (hread : ∀ c r, read c = some r → Parses p c r)
    (htakes : p.consumes = true) : ∀ {rounds : Nat} {c : Cursor}, c.rest.length < rounds →
      (∀ d : Cursor, d = c ∨ d.rest.length < c.rest.length → ∃ r, read d = some r) →
      ∃ r, iterate read rounds c = some r := by
  intro rounds
  induction rounds with
  | zero => exact fun h => absurd h (Nat.not_lt_zero _)
  | succ rounds ih =>
    intro c hrounds hanswers
    obtain ⟨r, hr⟩ := hanswers c (.inl rfl)
    rw [iterate, hr]
    cases r with
    | none => exact ⟨_, rfl⟩
    | some next =>
      have hlt := (hread c _ hr).length_lt htakes
      refine ih (by omega) fun d hd => hanswers d (.inr ?_)
      rcases hd with rfl | hd
      · exact hlt
      · omega

/-- An expression is read, if the productions are that can be called from it. -/
theorem exists_evaluate {rounds length height : Nat} {call : Production → Reader}
    (hcall : ∀ n c r, call n c = some r → Parses (.call n) c r) (hrounds : length < rounds)
    (hfurther : ∀ n (c : Cursor), c.rest.length < length → ∃ r, call n c = some r)
    (hlower : ∀ n (c : Cursor), c.rest.length = length → n.height < height →
      ∃ r, call n c = some r) :
    ∀ (p : Peg) (c : Cursor), p.productive = true →
      (c.rest.length < length ∨ c.rest.length = length ∧ p.entry ≤ height) →
      ∃ r, evaluate rounds call p c = some r := by
  have hsound : ∀ p c r, evaluate rounds call p c = some r → Parses p c r :=
    parses_of_evaluate hcall
  intro p
  -- Behind a part that took a token less text is left, and any production may be called; behind
  -- one that took none the height still bounds what may be called.
  induction p with
  | token | textEnd => exact fun c _ _ => ⟨_, rfl⟩
  | call n =>
    rintro c - (hlt | ⟨heq, hentry⟩)
    · exact hfurther n c hlt
    · exact hlower n c heq hentry
  | seq p q ihp ihq =>
    intro c hproductive hready
    obtain ⟨hp, hq⟩ := (Bool.and_eq_true _ _).mp hproductive
    obtain ⟨r, hr⟩ := ihp c hp (hready.imp_right fun h => ⟨h.1, (entry_le_seq p q).trans h.2⟩)
    rw [evaluate, hr]
    cases r with
    | none => exact ⟨_, rfl⟩
    | some next =>
      refine ihq next hq ?_
      have hparses := hsound p c _ hr
      rcases hready with hlt | ⟨heq, hentry⟩
      · exact .inl (Nat.lt_of_le_of_lt hparses.length_le hlt)
      · rw [entry] at hentry
        by_cases htakes : p.consumes = true
        · exact .inl (heq ▸ hparses.length_lt htakes)
        · rw [if_neg htakes] at hentry
          rcases Nat.lt_or_eq_of_le hparses.length_le with hlt | hsame
          · exact .inl (heq ▸ hlt)
          · exact .inr ⟨hsame.trans heq, (Nat.le_max_right _ _).trans hentry⟩
  | choice p q ihp ihq =>
    intro c hproductive hready
    obtain ⟨hp, hq⟩ := (Bool.and_eq_true _ _).mp hproductive
    obtain ⟨r, hr⟩ := ihp c hp
      (hready.imp_right fun h => ⟨h.1, (Nat.le_max_left _ _).trans h.2⟩)
    rw [evaluate, hr]
    cases r with
    | none => exact ihq c hq (hready.imp_right fun h => ⟨h.1, (Nat.le_max_right _ _).trans h.2⟩)
    | some next => exact ⟨_, rfl⟩
  | option p ih =>
    intro c hproductive hready
    obtain ⟨r, hr⟩ := ih c hproductive hready
    rw [evaluate, hr]
    cases r <;> exact ⟨_, rfl⟩
  | star p ih =>
    intro c hproductive hready
    obtain ⟨htakes, hp⟩ := (Bool.and_eq_true _ _).mp hproductive
    refine exists_iterate (hsound p) htakes (by omega) fun d hd => ih d hp ?_
    rcases hd with rfl | hd
    · exact hready
    · omega

/-- **Fuel in proportion to the text is enough**: `levels` calls deep for each of its characters,
and a round for each. -/
theorem exists_descend {rounds depth : Nat} : ∀ (n : Production) (c : Cursor),
    levels * c.rest.length + n.height < depth → c.rest.length < rounds →
      ∃ r, descend rounds depth n c = some r := by
  induction depth with
  | zero => exact fun _ _ h => absurd h (Nat.not_lt_zero _)
  | succ depth ih =>
    intro n c hdepth hrounds
    refine exists_evaluate parses_of_descend hrounds (fun m d hlt => ?_) (fun m d heq hlower => ?_)
      n.body c (productive_body n) (.inr ⟨rfl, entry_body n⟩)
    · have hm := m.height_lt
      have hmul : levels * d.rest.length + levels ≤ levels * c.rest.length :=
        Nat.mul_le_mul_left levels hlt
      exact ih m d (by omega) (by omega)
    · exact ih m d (by rw [heq]; omega) (by omega)

end Peg

end Rpal
