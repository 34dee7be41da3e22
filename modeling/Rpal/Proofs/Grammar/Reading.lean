/-
# Reading up to a level

Rules are greedy, and what they leave unread depends on the token that comes next.  A token of
level `k` carries on phrases of the levels from `k` on, so a phrase ends before every token of a
higher level than its own:

    level   1      2   3    4     5     6         7   8    9    10    11   12      13    14
    token   Rn ..  @   **   * /   + -   gr > ..   &   or   ->   aug   ,    where   and   within

`Reads p level ts a` says that a rule reads exactly these tokens in front of all that ends a
phrase of the level.  It goes through all the combinators: a sequence hands the level of its end
on, and an option or a repetition stops where what it begins with is `Below` the level.
-/
import Rpal.Proofs.Grammar.Finding

namespace Rpal

/-! ## 1. Levels -/

/-- The level of a token: that of the tightest phrases that it carries on.  A token that carries
on no phrase is above all levels. -/
def Token.level : Token → Nat
  | .identifier _ | .integer _ | .string _ | .keyword .true | .keyword .false | .keyword .nil
  | .keyword .dummy | .symbol .lparen => 1
  | .symbol .at => 2
  | .symbol .power => 3
  | .symbol .times | .symbol .divide => 4
  | .symbol .plus | .symbol .minus => 5
  | .keyword .gr | .keyword .ge | .keyword .ls | .keyword .le | .keyword .eq | .keyword .ne
  | .symbol .greater | .symbol .greaterEqual | .symbol .less | .symbol .lessEqual => 6
  | .symbol .ampersand => 7
  | .keyword .or => 8
  | .symbol .arrow => 9
  | .keyword .aug => 10
  | .symbol .comma => 11
  | .keyword .whereWord => 12
  | .keyword .and => 13
  | .keyword .within => 14
  | _ => 15

/-- No token is of the level of operands: these end in front of every token. -/
theorem Token.level_pos (t : Token) : 0 < t.level := by
  unfold Token.level
  split <;> decide

/-- The tokens end a phrase of a level. -/
def Stops (level : Nat) (rest : List Lexeme) : Prop := ∀ l ∈ rest.head?, level < l.token.level

/-- What ends a phrase ends the phrases within it. -/
theorem Stops.mono {j k : Nat} {rest : List Lexeme} (h : Stops k rest) (hjk : j ≤ k) :
    Stops j rest :=
  fun l hl => Nat.lt_of_le_of_lt hjk (h l hl)

/-! ## 2. Where rules begin -/

namespace Rule

variable {α β : Type}

/-- The rule fails where no token of a class stands. -/
def Begins (p : Rule α) (C : Token → Prop) : Prop :=
  ∀ ls, (∀ l ∈ ls.head?, ¬ C l.token) → ∃ e, p ls = .error e

variable {p q : Rule α} {C D : Token → Prop}

/-- A rule begins with fewer tokens than a larger class has. -/
theorem Begins.mono (h : Begins p C) (hCD : ∀ t, C t → D t) : Begins p D :=
  fun ls hls => h ls fun l hl hc => hls l hl (hCD _ hc)

/-- A sequence as a function of the tokens. -/
theorem bind_apply (p : Rule α) (f : α → Rule β) (ls : List Lexeme) :
    (p >>= f) ls = (p ls >>= fun r => f r.1 r.2) := rfl

/-- A sequence begins as its first rule does. -/
theorem Begins.bind {f : α → Rule β} (h : Begins p C) : Begins (p >>= f) C := by
  intro ls hls
  obtain ⟨e, he⟩ := h ls hls
  exact ⟨e, by rw [bind_apply, he]; rfl⟩

/-- A token of a class begins with the tokens of that class. -/
theorem begins_accept (stop : Nat) (class? : Token → Option α) :
    Begins (accept stop class?) fun t => class? t ≠ none := by
  intro ls hls
  cases ls with
  | nil => exact ⟨stop, rfl⟩
  | cons l ls =>
    have hnone : class? l.token = none := Decidable.not_not.mp (hls l rfl)
    exact ⟨l.start, by simp only [accept, hnone]⟩

/-- A symbol begins with itself. -/
theorem begins_symbol (stop : Nat) (s : Symbol) : Begins (symbol stop s) (· = .symbol s) :=
  (begins_accept stop _).mono fun _ ht => Decidable.not_not.mp fun hne => ht (if_neg hne)

/-- A reserved word begins with itself. -/
theorem begins_keyword (stop : Nat) (w : Keyword) : Begins (keyword stop w) (· = .keyword w) := by
  intro ls hls
  cases ls with
  | nil => exact ⟨stop, rfl⟩
  | cons l ls => exact ⟨l.missOf w, if_neg (hls l rfl)⟩

/-- A choice begins as one of its alternatives does. -/
theorem Begins.either (hp : Begins p C) (hq : Begins q C) : Begins (either p q) C := by
  intro ls hls
  obtain ⟨i, hi⟩ := hp ls hls
  obtain ⟨j, hj⟩ := hq ls hls
  exact ⟨max i j, by simp only [Rule.either, hi, hj]⟩

/-- The same for more than two alternatives. -/
theorem Begins.oneOf {qs : List (Rule α)} (hp : Begins p C) (hqs : ∀ q ∈ qs, Begins q C) :
    Begins (oneOf p qs) C := by
  induction qs generalizing p with
  | nil => exact hp
  | cons q qs ih =>
    rw [List.forall_mem_cons] at hqs
    exact hp.either (ih hqs.1 hqs.2)

/-- The rule fails in front of these tokens, whatever stands behind them. -/
def Misses (p : Rule α) (ts : List Token) : Prop :=
  ∀ ls rest : List Lexeme, ls.map (·.token) = ts → ∃ e, p (ls ++ rest) = .error e

/-- A rule fails in front of a token that it does not begin with. -/
theorem Begins.misses (h : Begins p C) {t : Token} (hC : ¬ C t) (ts : List Token) :
    Misses p (t :: ts) := by
  intro ls rest hls
  obtain ⟨l, ls, rfl, rfl, -⟩ := List.map_eq_cons_iff.mp hls
  refine h _ fun l' hl => ?_
  obtain rfl : l = l' := Option.some.inj hl
  exact hC

/-- A sequence fails where its first rule does. -/
theorem Misses.bind {f : α → Rule β} {ts : List Token} (h : Misses p ts) :
    Misses (p >>= f) ts := by
  intro ls rest hls
  obtain ⟨e, he⟩ := h ls rest hls
  exact ⟨e, by rw [bind_apply, he]; rfl⟩

/-! ## 3. What rules read -/

/-- The rule reads these tokens in front of all that ends a phrase of a level. -/
def Reads (p : Rule α) (level : Nat) (ts : List Token) (a : α) : Prop :=
  ∀ ls rest : List Lexeme, ls.map (·.token) = ts → Stops level rest →
    p (ls ++ rest) = .ok (a, rest)

variable {j k : Nat} {ts us : List Token} {a : α} {b : β}

/-- Tokens that end a phrase of level `j` in front of all that ends a phrase of level `k`. -/
def Leads (j k : Nat) : List Token → Prop
  | [] => j ≤ k
  | u :: _ => j < u.level

/-- The tokens that are read next, together with what is left behind them, end what is read first.
-/
theorem Leads.stops {ls rest : List Lexeme} (h : Leads j k (ls.map (·.token)))
    (hrest : Stops k rest) : Stops j (ls ++ rest) := by
  cases ls with
  | nil => exact hrest.mono h
  | cons l ls =>
    intro l' hl
    obtain rfl : l = l' := Option.some.inj hl
    exact h

/-- Operands end in front of everything. -/
theorem leads_zero (k : Nat) (us : List Token) : Leads 0 k us := by
  cases us with
  | nil => exact Nat.zero_le k
  | cons u us => exact u.level_pos

/-- Fewer tokens end a phrase of a higher level. -/
theorem Reads.mono (h : Reads p j ts a) (hjk : j ≤ k) : Reads p k ts a :=
  fun ls rest hls hrest => h ls rest hls (hrest.mono hjk)

/-- A result that is given without reading. -/
theorem reads_pure (k : Nat) (a : α) : Reads (pure a) k [] a := by
  intro ls rest hls _
  rw [List.map_eq_nil_iff.mp hls]
  rfl

/-- A sequence reads one phrase behind the other if the second one, or what ends it, ends the first
one. -/
theorem Reads.bind {f : α → Rule β} (hp : Reads p j ts a) (hf : Reads (f a) k us b)
    (hus : Leads j k us) : Reads (p >>= f) k (ts ++ us) b := by
  intro ls rest hls hrest
  obtain ⟨ls₁, ls₂, rfl, rfl, rfl⟩ := List.map_eq_append_iff.mp hls
  rw [bind_apply, List.append_assoc, hp ls₁ _ rfl (hus.stops hrest)]
  exact hf ls₂ rest rfl hrest

/-- One token at the start of a sequence, which is read whatever stands behind it. -/
theorem Reads.cons {f : α → Rule β} {t : Token} (hp : Reads p 0 [t] a)
    (hf : Reads (f a) k us b) : Reads (p >>= f) k (t :: us) b :=
  hp.bind hf (leads_zero k us)

/-- The end of a sequence that reads nothing more. -/
theorem Reads.nothing {f : α → Rule β} (hp : Reads p j ts a) (hf : Reads (f a) k [] b)
    (hjk : j ≤ k) : Reads (p >>= f) k ts b := by
  have h := hp.bind hf (hjk : Leads j k [])
  rwa [List.append_nil] at h

/-- The last step of a sequence puts the results together. -/
theorem Reads.map {f : α → Rule β} (hp : Reads p k ts a) (hf : f a = pure b) :
    Reads (p >>= f) k ts b := by
  refine hp.nothing ?_ (Nat.le_refl k)
  rw [hf]
  exact reads_pure k b

/-- A token of a class is read, whatever is behind it. -/
theorem reads_accept (stop k : Nat) {class? : Token → Option α} {t : Token}
    (h : class? t = some a) : Reads (accept stop class?) k [t] a := by
  intro ls rest hls _
  obtain ⟨l, rfl, rfl⟩ := List.map_eq_singleton_iff.mp hls
  simp only [List.singleton_append, accept, h]

/-- A symbol is read. -/
theorem reads_symbol (stop k : Nat) (s : Symbol) : Reads (symbol stop s) k [.symbol s] () :=
  reads_accept stop k (if_pos rfl)

/-- A reserved word is read. -/
theorem reads_keyword (stop k : Nat) (w : Keyword) : Reads (keyword stop w) k [.keyword w] () := by
  intro ls rest hls _
  obtain ⟨l, rfl, hl⟩ := List.map_eq_singleton_iff.mp hls
  exact if_pos hl

/-- The first alternative is not left once it has read its phrase. -/
theorem Reads.left (hp : Reads p k ts a) (q : Rule α) : Reads (either p q) k ts a := by
  intro ls rest hls hrest
  simp only [Rule.either, hp ls rest hls hrest]

/-- A choice passes over an alternative that fails. -/
theorem Reads.right (hq : Reads q k ts a) (hp : Misses p ts) : Reads (either p q) k ts a := by
  intro ls rest hls hrest
  obtain ⟨e, he⟩ := hp ls rest hls
  simp only [Rule.either, he, hq ls rest hls hrest]

/-- A sequence fails where its second rule does. -/
theorem Reads.misses {f : α → Rule β} {t : Token} (hp : Reads p 0 [t] a) (hf : Misses (f a) us) :
    Misses (p >>= f) (t :: us) := by
  intro ls rest hls
  obtain ⟨l, ls, rfl, hl, hls⟩ := List.map_eq_cons_iff.mp hls
  obtain ⟨e, he⟩ := hf ls rest hls
  refine ⟨e, ?_⟩
  have hfirst := hp [l] (ls ++ rest) (by rw [← hl]; rfl) ?_
  · rw [bind_apply]
    rw [show l :: ls ++ rest = [l] ++ (ls ++ rest) from rfl, hfirst]
    exact he
  · intro l' _
    exact l'.token.level_pos

/-- An option reads what its rule reads. -/
theorem Reads.optional (hp : Reads p k ts a) : Reads (optional p) k ts (some a) := by
  intro ls rest hls hrest
  simp only [Rule.optional, hp ls rest hls hrest]

/-- The class of tokens carries phrases of a level on. -/
def Below (C : Token → Prop) (k : Nat) : Prop := ∀ t, C t → t.level ≤ k

/-- No rule goes on at the end of a phrase if its first tokens would only carry on the phrase. -/
theorem Begins.stuck (h : Begins p C) (hC : Below C k) {rest : List Lexeme}
    (hrest : Stops k rest) : ∃ e, p rest = .error e :=
  h rest fun l hl hc => absurd (hC _ hc) (Nat.not_le.mpr (hrest l hl))

/-- An option is empty at the end of a phrase that all it begins with would carry on. -/
theorem reads_optional_none (hp : Begins p C) (hC : Below C k) :
    Reads (optional p) k [] none := by
  intro ls rest hls hrest
  obtain ⟨e, he⟩ := hp.stuck hC hrest
  rw [List.map_eq_nil_iff.mp hls]
  simp only [Rule.optional, List.nil_append, he]

/-- An option is passed over where its rule fails. -/
theorem Reads.skip {f : Option α → Rule β} (hf : Reads (f none) k us b) (hp : Misses p us) :
    Reads (Rule.optional p >>= f) k us b := by
  intro ls rest hls hrest
  obtain ⟨e, he⟩ := hp ls rest hls
  have hnone : Rule.optional p (ls ++ rest) = .ok (none, ls ++ rest) := by
    simp only [Rule.optional, he]
  rw [bind_apply, hnone]
  exact hf ls rest hls hrest

/-! ### Repetitions -/

/-- A chunk that is read in front of tokens that end a phrase of a level, and that is itself such
tokens. -/
structure ReadsChunk (p : Rule α) (j : Nat) (ts : List Token) (a : α) : Prop where
  reads : Reads p j ts a
  leads : ∃ t us, ts = t :: us ∧ j < t.level

/-- Chunks lead as their first one does, and if there is none, what ends the phrase does. -/
theorem Chunks.leads {as : List α} (h : Chunks (ReadsChunk p j) ts as) (hjk : j ≤ k) :
    Leads j k ts := by
  cases h with
  | nil => exact hjk
  | cons h hs =>
    obtain ⟨t, us, rfl, ht⟩ := h.leads
    exact ht

/-- **A repetition reads all chunks**, and ends where no further one can begin. -/
theorem reads_many {as : List α} (h : Chunks (ReadsChunk p j) ts as) (hp : Begins p C)
    (hC : Below C k) (hjk : j ≤ k) :
    ∀ room, ts.length ≤ room → Reads (many room p) k ts as := by
  suffices hrepeated : ∀ room, ts.length ≤ room → ∀ ls rest : List Lexeme,
      ls.map (·.token) = ts → Stops k rest → repeated p room (ls ++ rest) = (as, rest) from
    fun room hroom ls rest hls hrest => congrArg Except.ok (hrepeated room hroom ls rest hls hrest)
  induction h with
  | nil =>
    intro room _ ls rest hls hrest
    obtain ⟨e, he⟩ := hp.stuck hC hrest
    rw [List.map_eq_nil_iff.mp hls]
    cases room with
    | zero => rfl
    | succ room => simp only [repeated, List.nil_append, he]
  | @cons ts us a as h hs ih =>
    intro room hroom ls rest hls hrest
    obtain ⟨ls₁, ls₂, rfl, rfl, rfl⟩ := List.map_eq_append_iff.mp hls
    -- every chunk has a token, so that room for the tokens is room for the rounds
    have hpos : 0 < (ls₁.map (·.token)).length := by
      obtain ⟨t, us, hts, -⟩ := h.leads
      rw [hts]
      exact Nat.succ_pos _
    rw [List.length_append] at hroom
    obtain ⟨room, rfl⟩ : ∃ r, room = r + 1 := ⟨room - 1, by omega⟩
    have hfirst := h.reads ls₁ (ls₂ ++ rest) rfl ((hs.leads hjk).stops hrest)
    simp only [repeated, List.append_assoc, hfirst]
    rw [ih room (by omega) ls₂ rest rfl hrest]

/-- What holds of chunks holds of chunks within a bound. -/
theorem Chunks.mono {S T : List Token → α → Prop} {room : Nat} {as : List α}
    (h : Chunks S ts as) (hts : ts.length ≤ room)
    (hST : ∀ us a, us.length ≤ room → S us a → T us a) : Chunks T ts as := by
  induction h with
  | nil => exact .nil
  | cons h _ ih =>
    rw [List.length_append] at hts
    exact .cons (hST _ _ (by omega) h) (ih (by omega))

/-- A further chunk at the end. -/
theorem Chunks.concat {S : List Token → α → Prop} {as : List α} (h : Chunks S ts as)
    (ha : S us a) : Chunks S (ts ++ us) (as ++ [a]) := by
  induction h with
  | nil =>
    have := Chunks.cons ha .nil
    rwa [List.append_nil] at this
  | cons h _ ih =>
    rw [List.append_assoc]
    exact .cons h ih

end Rule

end Rpal
